import Confide.Entropy.KeyStream
import Confide.Proofs.Group.Steps
import Mathlib.Logic.Function.Basic

/-! Who the members of a group take each other for. Nobody orders the updates of a group: two
members may start the same epoch with different lists, and neither learns of the other's. Apart from
that, whoever has another's chain agrees with it about the members. -/

set_option autoImplicit false

namespace Confide.Group

/-- A call which starts an epoch, and whom it names, the caller among them. -/
structure Start where
  epoch : UInt64
  members : List IdentityKey

/-- The state of one member. Beside it stands from which distribution each chain was taken. -/
structure Member where
  group : Group
  sources : IdentityKey → Option Distribution

structure Network where
  member : IdentityKey → Option Member
  announced : List Distribution
  starts : List Start

def Network.Unanimous (net : Network) (epoch : UInt64) : Prop :=
  ∀ first ∈ net.starts, ∀ second ∈ net.starts, first.epoch = epoch → second.epoch = epoch →
    ∀ peer, peer ∈ first.members ↔ peer ∈ second.members

def Network.set (net : Network) (peer : IdentityKey) (m : Member) : Network :=
  { net with member := Function.update net.member peer (some m) }

-- Messages are sent and read, and old epochs forgotten: nobody's chain is taken, no epoch started.
def Event.Quiet : Event → Prop
  | .encrypt _ | .decrypt _ _ | .purge _ _ => True
  | .process _ _ _ | .update _ _ => False

section
variable {G : Type} [Entropy G] (S : Suite)

/-- A new epoch has no chains yet, and a chain which is known already is not replaced. -/
def Member.taking (m : Member) (sender : IdentityKey) (d : Distribution) :
    IdentityKey → Option Distribution :=
  if d.epoch ≠ m.group.epoch then Function.update (fun _ => none) sender (some d)
  else if (m.group.chains.get? sender).any (·.verifyingKey = d.verifyingKey) then m.sources
  else Function.update m.sources sender (some d)

def Member.process (m : Member) (sender : IdentityKey) (d : Distribution) (now : UInt64)
    (source : G) : Member :=
  match (m.group.process S sender d now source).1 with
  | .error _ => m
  | .ok (next, _) => ⟨next, m.taking sender d⟩

/-- A group is founded. From then on every member may update it, hand out its chain at any time, and
take whatever has been handed out, over any session; who has none of it may join. -/
inductive Run (G : Type) [Entropy G] (id : GroupId) (founder : IdentityKey)
    (listed : List IdentityKey) : Network → Prop where
  | found (source : G) :
      Run G id founder listed
        (Network.set ⟨fun _ => none, [], [⟨0, listed ++ [founder]⟩]⟩ founder
          ⟨(found S id founder listed source).1.1, fun _ => none⟩)
  | announce {net : Network} {peer : IdentityKey} {m : Member} (run : Run G id founder listed net)
      (present : net.member peer = some m) :
      Run G id founder listed
        { net with announced := net.announced ++ [m.group.distribution S] }
  | update {net : Network} {peer : IdentityKey} {m : Member} (run : Run G id founder listed net)
      (present : net.member peer = some m) {members : List IdentityKey} {now : UInt64}
      {source : G} {next : Group} {ours : Distribution}
      (updated : (m.group.updateMembers S members now source).1 = .ok (next, ours)) :
      Run G id founder listed
        (Network.set { net with starts := net.starts ++ [⟨next.epoch, members ++ [peer]⟩] }
          peer ⟨next, fun _ => none⟩)
  | process {net : Network} {peer : IdentityKey} {m : Member} {d : Distribution}
      (run : Run G id founder listed net) (present : net.member peer = some m)
      (announced : d ∈ net.announced) (sender : IdentityKey) (now : UInt64) (source : G) :
      Run G id founder listed (net.set peer (m.process S sender d now source))
  | join {net : Network} {peer sender : IdentityKey} {d : Distribution} {now : UInt64} {source : G}
      {next : Group} {ours : Distribution} (run : Run G id founder listed net)
      (announced : d ∈ net.announced)
      (joined : (join S peer sender d now source).1 = .ok (next, ours)) :
      Run G id founder listed
        (net.set peer ⟨next, Function.update (fun _ => none) sender (some d)⟩)
  | other {net : Network} {peer : IdentityKey} {m : Member} {event : Event}
      (run : Run G id founder listed net) (present : net.member peer = some m)
      (quiet : event.Quiet) (source : G) :
      Run G id founder listed (net.set peer ⟨(m.group.step S source event).1, m.sources⟩)

end

def Network.Names (net : Network) (epoch : UInt64) (members : List IdentityKey) : Prop :=
  ∃ start ∈ net.starts, start.epoch = epoch ∧ ∀ peer, peer ∈ members ↔ peer ∈ start.members

/-- Every chain has a source, which its owner announced for the epoch. -/
def Sourced (announced : List Distribution) (g : Group)
    (sources : IdentityKey → Option Distribution) : Prop :=
  ∀ peer c, g.chains.get? peer = some c → ∃ d, sources peer = some d ∧ d ∈ announced ∧
    d.sender = peer ∧ d.epoch = g.epoch ∧ d.verifyingKey = c.verifyingKey

structure Member.Sound (net : Network) (peer : IdentityKey) (m : Member) : Prop where
  self : m.group.self = peer
  named : net.Names m.group.epoch m.group.members.toList
  sourced : Sourced net.announced m.group m.sources

structure Network.Sound (net : Network) : Prop where
  member : ∀ peer m, net.member peer = some m → m.Sound net peer
  announced : ∀ d ∈ net.announced, net.Names d.epoch d.members

section
variable {G : Type} [Entropy G] {S : Suite} {g : Group} {net : Network} {peer sender : IdentityKey}
  {m : Member} {d : Distribution} {announced : List Distribution}
  {sources : IdentityKey → Option Distribution}

theorem Sourced.of_chains_empty (none : g.chains = .empty) : Sourced announced g sources := by
  intro peer c found
  rw [none] at found
  cases found

theorem Sourced.learned (sourced : Sourced announced g sources) (mem : d ∈ announced)
    (claimed : d.sender = sender) (current : d.epoch = g.epoch) (unknown : ¬g.Knows sender d) :
    Sourced announced (g.learned sender d) (Function.update sources sender (some d)) := by
  intro peer c found
  rw [epoch_learned]
  by_cases same : peer = sender
  · subst same
    rw [get?_learned_self unknown] at found
    cases found
    exact ⟨d, Function.update_self .., mem, claimed, current, rfl⟩
  · rw [get?_learned_of_ne same] at found
    rw [Function.update_of_ne same]
    exact sourced peer c found

theorem Network.Names.mono {other : Network} {epoch : UInt64} {members : List IdentityKey}
    (names : net.Names epoch members) (more : net.starts ⊆ other.starts) :
    other.Names epoch members := by
  obtain ⟨start, mem, rest⟩ := names
  exact ⟨start, more mem, rest⟩

theorem Sourced.mono {more : List Distribution} (sourced : Sourced announced g sources)
    (sub : announced ⊆ more) : Sourced more g sources := by
  intro peer c found
  obtain ⟨d, source, mem, rest⟩ := sourced peer c found
  exact ⟨d, source, sub mem, rest⟩

theorem Member.Sound.mono {other : Network} (sound : m.Sound net peer)
    (announced : net.announced ⊆ other.announced) (starts : net.starts ⊆ other.starts) :
    m.Sound other peer :=
  ⟨sound.self, sound.named.mono starts, sound.sourced.mono announced⟩

theorem Network.member_set_self : (net.set peer m).member peer = some m :=
  Function.update_self ..

theorem Network.member_set_of_ne {other : IdentityKey} (apart : other ≠ peer) :
    (net.set peer m).member other = net.member other :=
  Function.update_of_ne apart ..

theorem Network.Sound.set (sound : net.Sound) (part : m.Sound net peer) :
    (net.set peer m).Sound where
  member other n found := by
    by_cases same : other = peer
    · subst same
      cases Network.member_set_self.symm.trans found
      exact part.mono (List.Subset.refl _) (List.Subset.refl _)
    · rw [Network.member_set_of_ne same] at found
      exact (sound.member other n found).mono (List.Subset.refl _) (List.Subset.refl _)
  announced := sound.announced

theorem Network.Sound.announce (sound : net.Sound) (present : net.member peer = some m) :
    Network.Sound { net with announced := net.announced ++ [m.group.distribution S] } where
  member other n found := (sound.member other n found).mono
    (List.subset_append_left ..) (List.Subset.refl _)
  announced d mem := by
    rcases List.mem_append.1 mem with old | last
    · exact sound.announced d old
    · rw [List.mem_singleton.1 last]
      exact (sound.member peer m present).named

theorem Network.Sound.begin (sound : net.Sound) {members : List IdentityKey}
    (self : g.self = peer) (none : g.chains = .empty) (named : g.members = .ofList members) :
    (Network.set { net with starts := net.starts ++ [⟨g.epoch, members⟩] } peer
      ⟨g, fun _ => Option.none⟩).Sound := by
  have more : Network.Sound { net with starts := net.starts ++ [⟨g.epoch, members⟩] } := by
    refine ⟨fun other n found => ?_, fun d mem => ?_⟩
    · exact (sound.member other n found).mono (List.Subset.refl _) (List.subset_append_left ..)
    · exact (sound.announced d mem).mono (List.subset_append_left ..)
  -- The call itself is what names the members, and nobody's chain is known yet.
  refine more.set ⟨self, ⟨⟨g.epoch, members⟩, ?_, rfl, fun other => ?_⟩, .of_chains_empty none⟩
  · exact List.mem_append_right _ (List.mem_singleton_self _)
  · rw [named]
    exact SortedSet.mem_toList_ofList

theorem Member.Sound.of_learned (self : g.self = peer) (named : net.Names g.epoch g.members.toList)
    (sourced : Sourced net.announced (g.learned sender d) sources) :
    Member.Sound net peer ⟨g.learned sender d, sources⟩ := by
  -- Taking a chain changes nothing else.
  rw [learned_eq] at sourced ⊢
  exact ⟨self, named, sourced⟩

theorem Network.Sound.names_of_announced (sound : net.Sound) (announced : d ∈ net.announced)
    {members : List IdentityKey} (same : ∀ other, other ∈ members ↔ other ∈ d.members) :
    net.Names d.epoch (SortedSet.ofList members).toList := by
  obtain ⟨start, mem, epoch, named⟩ := sound.announced d announced
  refine ⟨start, mem, epoch, fun other => ?_⟩
  rw [SortedSet.mem_toList_ofList, same, named]

theorem Member.Sound.process (part : m.Sound net peer) (sound : net.Sound)
    (announced : d ∈ net.announced) (now : UInt64) (source : G) :
    (m.process S sender d now source).Sound net peer := by
  by_cases moves : m.group.Moves sender d
  -- The list of the distribution is taken over with its epoch.
  · have newer : d.epoch ≠ m.group.epoch := (UInt64.ne_of_lt moves.newer).symm
    simp only [Member.process, process_of_moves S moves]
    refine .of_learned part.self (sound.names_of_announced announced fun _ => Iff.rfl) ?_
    rw [Member.taking, if_pos newer]
    exact (Sourced.of_chains_empty rfl).learned announced moves.claimed rfl
      (not_knows_of_chains_empty rfl)
  by_cases follows : m.group.Follows sender d
  -- Nobody looks at the list of the distribution: our own one stays.
  · simp only [Member.process, process_of_follows S follows]
    refine .of_learned part.self part.named ?_
    rw [Member.taking, if_neg (not_not.2 follows.current)]
    by_cases known : m.group.Knows sender d
    · rw [if_pos (knows_iff.2 known), learned_of_knows known]
      exact part.sourced
    · rw [if_neg (mt knows_iff.1 known)]
      exact part.sourced.learned announced follows.claimed follows.current known
  · cases outcome : (m.group.process S sender d now source).1 with
    | error error =>
      simp only [Member.process, outcome]
      exact part
    | ok accepted =>
      exact ((accepted_of_process S outcome).elim follows moves).elim

theorem Network.Sound.join (sound : net.Sound) (announced : d ∈ net.announced) {now : UInt64}
    {source : G} {next : Group} {ours : Distribution}
    (joined : (join S peer sender d now source).1 = .ok (next, ours)) :
    Member.Sound net peer ⟨next, Function.update (fun _ => none) sender (some d)⟩ := by
  obtain ⟨listed, follows, rfl, -⟩ := (join_eq_ok_iff S).1 joined
  have same (other : IdentityKey) : other ∈ d.members ++ [peer] ↔ other ∈ d.members := by
    rw [List.mem_append, List.mem_singleton, or_iff_left_iff_imp]
    rintro rfl
    exact listed
  refine .of_learned rfl (sound.names_of_announced announced same) ?_
  exact (Sourced.of_chains_empty rfl).learned announced follows.claimed rfl
    (not_knows_of_chains_empty rfl)

theorem Sourced.decrypted (sourced : Sourced announced g sources) {message : GroupMessage}
    {config : GroupConfig} {c taken : MemberChain} {plaintext : Bytes}
    (opens : g.Opens S message config c taken plaintext) :
    Sourced announced (g.setChain message.epoch message.sender taken) sources := by
  intro peer held found
  have epoch : (g.setChain message.epoch message.sender taken).epoch = g.epoch := by
    rw [setChain_eq]
  rw [epoch]
  by_cases other : peer ≠ message.sender ∨ message.epoch ≠ g.epoch
  · rw [get?_setChain_of_other other] at found
    exact sourced peer held found
  · rw [not_or, not_not, not_not] at other
    obtain ⟨rfl, current⟩ := other
    obtain ⟨key, takes, -⟩ := opens.opened
    -- The chain has moved on, and is still the one of the same key.
    have before := opens.found
    rw [current, findChain_current_iff] at before
    rw [get?_setChain_self current, Option.some.injEq] at found
    rw [← found, takes.verifyingKey]
    exact sourced message.sender c before

theorem Member.Sound.other (part : m.Sound net peer) {event : Event} (quiet : event.Quiet)
    (source : G) : Member.Sound net peer ⟨(m.group.step S source event).1, m.sources⟩ := by
  have steps := step_cases S m.group source event
  generalize (m.group.step S source event).1 = next at steps
  cases steps with
  | refused => exact part
  | encrypted plaintext short => exact ⟨part.self, part.named, part.sourced⟩
  | decrypted opens =>
    have sourced := part.sourced.decrypted opens
    rw [setChain_eq] at sourced ⊢
    exact ⟨part.self, part.named, sourced⟩
  | followed follows => exact quiet.elim
  | moved moves => exact quiet.elim
  | updated members now short => exact quiet.elim
  | purged now config => exact ⟨part.self, part.named, part.sourced⟩

theorem Run.sound {id : GroupId} {founder : IdentityKey} {listed : List IdentityKey}
    (run : Run S G id founder listed net) : net.Sound := by
  induction run with
  | found source =>
    have empty : Network.Sound ⟨fun _ => none, [], []⟩ := ⟨nofun, nofun⟩
    exact empty.begin (g := (Group.found S id founder listed source).1.1) rfl rfl rfl
  | announce _ present sound => exact sound.announce present
  | update _ present updated sound =>
    have part := sound.member _ _ present
    obtain ⟨-, rfl, -⟩ := (updateMembers_eq_ok_iff S).1 updated
    refine sound.begin part.self rfl ?_
    rw [← part.self]
    rfl
  | process _ present announced sender now source sound =>
    exact sound.set ((sound.member _ _ present).process sound announced now source)
  | join _ announced joined sound => exact sound.set (sound.join announced joined)
  | other _ present quiet source sound =>
    exact sound.set ((sound.member _ _ present).other quiet source)

/-- A chain was announced by its owner for our epoch. Both its list and our members come from calls
which start this epoch, and are the same if all these calls name the same members. -/
theorem Run.members_agree {id : GroupId} {founder : IdentityKey} {listed : List IdentityKey}
    (run : Run S G id founder listed net) (present : net.member peer = some m)
    {other : IdentityKey} (known : m.group.hasChain other = true) :
    ∃ d, m.sources other = some d ∧ d ∈ net.announced ∧ d.sender = other ∧
      d.epoch = m.group.epoch ∧ net.Names m.group.epoch m.group.members.toList ∧
      net.Names m.group.epoch d.members ∧
      (net.Unanimous m.group.epoch →
        ∀ person, m.group.isMember person = true ↔ person ∈ d.members) := by
  have sound := run.sound
  have part := sound.member peer m present
  obtain ⟨c, found⟩ := hasChain_iff.1 known
  obtain ⟨d, source, announced, sender, epoch, -⟩ := part.sourced other c found
  have list : net.Names m.group.epoch d.members := epoch ▸ sound.announced d announced
  refine ⟨d, source, announced, sender, epoch, part.named, list, ?_⟩
  intro unanimous person
  obtain ⟨ours, mem, start, named⟩ := part.named
  obtain ⟨theirs, mem', start', named'⟩ := list
  rw [isMember, SortedSet.contains_iff, named, named']
  exact unanimous ours mem theirs mem' start start' person

/-! ### Two members -/

variable (id : GroupId) {founder stranger : IdentityKey}

theorem Run.exists_pair (apart : peer ≠ founder) (source : G) :
    ∃ (net : Network) (theirs : Member) (d : Distribution), Run S G id founder [peer] net ∧
      net.member founder =
        some ⟨(Group.found S id founder [peer] source).1.1, fun _ => none⟩ ∧
      net.member peer = some theirs ∧ net.starts = [⟨0, [peer, founder]⟩] ∧
      theirs.group.id = id ∧ theirs.group.self = peer ∧ theirs.group.epoch = 0 ∧
      theirs.sources founder = some d ∧ theirs.group.hasChain founder = true := by
  let ours : Member := ⟨(Group.found S id founder [peer] source).1.1, fun _ => none⟩
  let d := ours.group.distribution S
  let fresh := (start id peer 0 d.members source).1
  let theirs : Member :=
    ⟨fresh.learned founder d, Function.update (fun _ => none) founder (some d)⟩
  have founded : Run S G id founder [peer]
    (Network.set ⟨fun _ => none, [], [⟨0, [peer] ++ [founder]⟩]⟩ founder ours) := .found source
  have mem {person : IdentityKey} (inside : person ∈ [peer] ++ [founder]) : person ∈ d.members :=
    SortedSet.mem_toList_ofList.2 inside
  have member : fresh.isMember founder = true :=
    isMember_start.2 (List.mem_append_left _ (mem (by simp)))
  have joined : (Group.join S peer founder d 0 source).1 =
      .ok (theirs.group, fresh.distribution S) :=
    (join_eq_ok_iff S).2 ⟨mem (by simp), ⟨member, rfl, rfl, rfl⟩, rfl, rfl⟩
  have known : theirs.group.hasChain founder = true :=
    hasChain_iff.2 ⟨d.memberChain, get?_learned_self (not_knows_of_chains_empty rfl)⟩
  have taken : theirs.sources founder = some d := by simp only [theirs, Function.update_self]
  refine ⟨_, theirs, d, (founded.announce Network.member_set_self).join
    (List.mem_singleton_self _) joined, ?_, Network.member_set_self, rfl, id_learned ..,
    self_learned .., epoch_learned .., taken, known⟩
  rw [Network.member_set_of_ne apart.symm]
  exact Network.member_set_self

theorem Member.process_of_follows (follows : m.group.Follows sender d)
    (unknown : ¬m.group.Knows sender d) (now : UInt64) (source : G) :
    m.process S sender d now source =
      ⟨m.group.learned sender d, Function.update m.sources sender (some d)⟩ := by
  simp only [Member.process, Group.process_of_follows S follows]
  rw [Member.taking, if_neg (not_not.2 follows.current), if_neg (mt knows_iff.1 unknown)]

/-- Two members update the group at the same time, and one of them takes a stranger in. The other
gets its chain, but never hears of the stranger. -/
theorem Run.exists_split (apart : peer ≠ founder) (source : G) (outside : stranger ≠ peer)
    (outside' : stranger ≠ founder) :
    ∃ (net : Network) (m : Member) (d : Distribution), Run S G id founder [peer] net ∧
      net.member founder = some m ∧ m.group.hasChain peer = true ∧ m.sources peer = some d ∧
      m.group.isMember stranger = false ∧ stranger ∈ d.members := by
  obtain ⟨net, theirs, -, run, present, present', -, group, self, epoch, -⟩ :=
    Run.exists_pair (S := S) id apart source
  let ours : Group := (Group.found S id founder [peer] source).1.1
  let m : Member := ⟨(ours.enter 1 [peer, founder] 0 source).1, fun _ => none⟩
  let next :=
    (theirs.group.enter (theirs.group.epoch + 1) ([founder, stranger] ++ [theirs.group.self]) 0
      source).1
  let d := next.distribution S
  have short : HasNext theirs.group.epoch := by
    rw [epoch]
    decide
  have follows : m.group.Follows peer d := by
    refine ⟨isMember_enter.2 (by simp), self, group, ?_⟩
    change theirs.group.epoch + 1 = _
    rw [epoch]
    rfl
  have unknown : ¬m.group.Knows peer d := not_knows_of_chains_empty rfl
  have known : (m.group.learned peer d).hasChain peer = true :=
    hasChain_iff.2 ⟨d.memberChain, get?_learned_self unknown⟩
  have unheard : (m.group.learned peer d).isMember stranger = false := by
    rw [isMember_learned, Bool.eq_false_iff]
    intro member
    have inside : stranger ∈ [peer, founder] := isMember_enter.1 member
    simp [outside, outside'] at inside
  have listed : stranger ∈ d.members := SortedSet.mem_toList_ofList.2 (by simp)
  have moved := run.update present
    (updateMembers_of_short S (by decide : HasNext 0) [peer] 0 source)
  have updated := moved.update (m := theirs)
    (by rw [Network.member_set_of_ne apart]; exact present')
    (updateMembers_of_short S short [founder, stranger] 0 source)
  have heard := (updated.announce Network.member_set_self).process (m := m) (d := d)
    (by rw [Network.member_set_of_ne apart.symm]; exact Network.member_set_self)
    (List.mem_append_right _ (List.mem_singleton_self _)) peer 0 source
  rw [Member.process_of_follows follows unknown] at heard
  exact ⟨_, _, d, heard, Network.member_set_self, known, Function.update_self .., unheard, listed⟩

end

/-- A founder and a member update the group at the same time, and only one of them names a third. -/
theorem members_disagree :
    ∃ (founder peer stranger : IdentityKey) (net : Network) (m : Member) (d : Distribution),
      Run .standard KeyStream ⟨.replicate 16 0⟩ founder [peer] net ∧
      net.member founder = some m ∧ m.group.hasChain peer = true ∧ m.sources peer = some d ∧
      m.group.isMember stranger = false ∧ stranger ∈ d.members := by
  let founder : IdentityKey := ⟨⟨.replicate 32 0⟩, ⟨.replicate 32 0⟩⟩
  let peer : IdentityKey := ⟨⟨.replicate 32 1⟩, ⟨.replicate 32 1⟩⟩
  let stranger : IdentityKey := ⟨⟨.replicate 32 2⟩, ⟨.replicate 32 2⟩⟩
  let source : KeyStream := ⟨.replicate 32 0, 0⟩
  have apart : peer ≠ founder := by decide
  have outside : stranger ≠ peer := by decide
  have outside' : stranger ≠ founder := by decide
  exact ⟨founder, peer, stranger, Run.exists_split ⟨.replicate 16 0⟩ apart source outside outside'⟩

/-- Who joins with the chain of the founder takes over the founder's list. -/
theorem joined_members_agree :
    ∃ (founder peer : IdentityKey) (net : Network) (m : Member) (d : Distribution),
      Run .standard KeyStream ⟨.replicate 16 0⟩ founder [peer] net ∧
      net.member peer = some m ∧ m.group.hasChain founder = true ∧ m.sources founder = some d ∧
      ∀ person, m.group.isMember person = true ↔ person ∈ d.members := by
  let founder : IdentityKey := ⟨⟨.replicate 32 0⟩, ⟨.replicate 32 0⟩⟩
  let peer : IdentityKey := ⟨⟨.replicate 32 1⟩, ⟨.replicate 32 1⟩⟩
  let source : KeyStream := ⟨.replicate 32 0, 0⟩
  have apart : peer ≠ founder := by decide
  obtain ⟨net, m, -, run, -, present, starts, -, -, -, -, known⟩ :=
    Run.exists_pair (S := .standard) ⟨.replicate 16 0⟩ apart source
  have unanimous : net.Unanimous m.group.epoch := by
    intro first mem second mem' _ _ person
    rw [starts, List.mem_singleton] at mem mem'
    rw [mem, mem']
  obtain ⟨d, source, -, -, -, -, -, agree⟩ := run.members_agree present known
  exact ⟨founder, peer, net, m, d, run, present, known, source, agree unanimous⟩

end Confide.Group
