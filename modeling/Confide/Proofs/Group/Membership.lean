import Confide.Entropy.KeyStream
import Confide.Group.State
import Confide.Proofs.Sorted
import Mathlib.Algebra.Ring.Nat

/-! Who gets into a group. Besides our own updates only distributions of a newer epoch change the
members. Whoever announces such an epoch has to be on the list it brings along, but need not have
been a member before: a peer who was removed comes back by announcing an epoch of its own. -/

set_option autoImplicit false

namespace Confide.Group

/-- A distribution with which a sender moves the group to a newer epoch. -/
structure Moves (g : Group) (sender : IdentityKey) (d : Distribution) : Prop where
  listed : sender ∈ d.members
  claimed : d.sender = sender
  group : d.groupId = g.id
  newer : g.epoch < d.epoch
  self : g.self ∈ d.members

/-- A distribution of a member for the current epoch. -/
structure Follows (g : Group) (sender : IdentityKey) (d : Distribution) : Prop where
  member : g.isMember sender = true
  claimed : d.sender = sender
  group : d.groupId = g.id
  current : d.epoch = g.epoch

theorem not_follows {g : Group} {peer : IdentityKey} {d : Distribution}
    (outside : g.isMember peer = false) : ¬g.Follows peer d := by
  intro follows
  have member := follows.member
  rw [outside] at member
  exact Bool.false_ne_true member

def learned (g : Group) (sender : IdentityKey) (d : Distribution) : Group :=
  if (g.chains.get? sender).any (·.verifyingKey = d.verifyingKey) then g
  else
    let chain : MemberChain := ⟨⟨d.chainKey, d.counter⟩, d.verifyingKey, .empty⟩
    { g with chains := g.chains.insert sender chain }

theorem learned_eq (g : Group) (sender : IdentityKey) (d : Distribution) :
    g.learned sender d = { g with chains := (g.learned sender d).chains } := by
  unfold learned
  split <;> rfl

theorem isMember_learned (g : Group) (sender peer : IdentityKey) (d : Distribution) :
    (g.learned sender d).isMember peer = g.isMember peer := by
  rw [learned_eq]
  rfl

theorem learn_of_member {g : Group} {sender : IdentityKey} {d : Distribution}
    (member : g.isMember sender = true) : g.learn sender d = .ok (g.learned sender d) := by
  unfold learn learned
  simp only [member, Bool.not_true, Bool.false_eq_true, if_false]
  split <;> rfl

theorem learn_of_outsider {g : Group} {sender : IdentityKey} {d : Distribution}
    (outside : g.isMember sender = false) : g.learn sender d = .error (.notMember sender) := by
  simp only [learn, outside, Bool.not_false, if_true]

theorem vet_eq_ok_iff {g : Group} {sender : IdentityKey} {d : Distribution} {newer : Bool} :
    g.vet sender d = .ok newer ↔ d.sender = sender ∧ d.groupId = g.id ∧
      (newer = false ∧ d.epoch = g.epoch ∨
        newer = true ∧ g.epoch < d.epoch ∧ g.self ∈ d.members) := by
  unfold vet
  by_cases claimed : d.sender = sender
  · by_cases group : d.groupId = g.id
    · simp only [claimed, group, ne_eq, not_true_eq_false, if_false, true_and,
        SortedSet.contains_ofList_iff]
      by_cases older : d.epoch < g.epoch
      · have apart : d.epoch ≠ g.epoch := UInt64.ne_of_lt older
        have behind : ¬g.epoch < d.epoch := UInt64.lt_asymm older
        simp [older, apart, behind]
      by_cases current : d.epoch = g.epoch
      · simp [current, eq_comm]
      · have newer : g.epoch < d.epoch :=
          UInt64.lt_of_le_of_ne (UInt64.not_lt.1 older) (Ne.symm current)
        by_cases listed : g.self ∈ d.members <;> simp [older, current, newer, listed, eq_comm]
    · simp [claimed, group]
  · simp [claimed]

section
variable {G : Type} [Entropy G] (S : Suite)

theorem isMember_enter {g : Group} {epoch now : UInt64} {members : List IdentityKey} {source : G}
    {peer : IdentityKey} :
    (g.enter epoch members now source).1.isMember peer = true ↔ peer ∈ members :=
  SortedSet.contains_ofList_iff

/-- Our own chain goes out before the sender's chain is taken. -/
theorem process_of_moves {g : Group} {sender : IdentityKey} {d : Distribution}
    (moves : g.Moves sender d) (now : UInt64) (source : G) :
    (g.process S sender d now source).1 =
      .ok ((g.enter d.epoch d.members now source).1.learned sender d,
        some ((g.enter d.epoch d.members now source).1.distribution S)) := by
  have vetted : g.vet sender d = .ok true :=
    vet_eq_ok_iff.2 ⟨moves.claimed, moves.group, .inr ⟨rfl, moves.newer, moves.self⟩⟩
  simp only [process, vetted, learn_of_member (isMember_enter.2 moves.listed), Except.map]

theorem process_of_follows {g : Group} {sender : IdentityKey} {d : Distribution}
    (follows : g.Follows sender d) (now : UInt64) (source : G) :
    (g.process S sender d now source).1 = .ok (g.learned sender d, none) := by
  have vetted : g.vet sender d = .ok false :=
    vet_eq_ok_iff.2 ⟨follows.claimed, follows.group, .inl ⟨rfl, follows.current⟩⟩
  simp only [process, vetted, learn_of_member follows.member, Except.map]

theorem accepted_of_process {g next : Group} {sender : IdentityKey} {d : Distribution}
    {now : UInt64} {source : G} {ours : Option Distribution}
    (accepted : (g.process S sender d now source).1 = .ok (next, ours)) :
    g.Follows sender d ∨ g.Moves sender d := by
  cases vetted : g.vet sender d with
  | error error => simp [process, vetted] at accepted
  | ok newer =>
    obtain ⟨claimed, group, kind⟩ := vet_eq_ok_iff.1 vetted
    rcases kind with ⟨rfl, current⟩ | ⟨rfl, newer, self⟩
    -- The sender is looked up among the members, the new ones if the epoch is newer.
    · refine .inl ⟨?_, claimed, group, current⟩
      cases member : g.isMember sender with
      | true => rfl
      | false => simp [process, vetted, learn_of_outsider member, Except.map] at accepted
    · refine .inr ⟨?_, claimed, group, newer, self⟩
      cases member : (g.enter d.epoch d.members now source).1.isMember sender with
      | true => exact isMember_enter.1 member
      | false => simp [process, vetted, learn_of_outsider member, Except.map] at accepted

theorem updateMembers_of_short {g : Group} (short : HasNext g.epoch)
    (members : List IdentityKey) (now : UInt64) (source : G) :
    (g.updateMembers S members now source).1 =
      let entered := (g.enter (g.epoch + 1) (members ++ [g.self]) now source).1
      .ok (entered, entered.distribution S) := by
  rw [updateMembers, if_pos short]

theorem updateMembers_of_last {g : Group} (last : ¬HasNext g.epoch)
    (members : List IdentityKey) (now : UInt64) (source : G) :
    (g.updateMembers S members now source).1 = .error .overflow := by
  rw [updateMembers, if_neg last]

theorem updateMembers_eq_ok_iff {g next : Group} {members : List IdentityKey} {now : UInt64}
    {source : G} {ours : Distribution} :
    (g.updateMembers S members now source).1 = .ok (next, ours) ↔ HasNext g.epoch ∧
      next = (g.enter (g.epoch + 1) (members ++ [g.self]) now source).1 ∧
      ours = next.distribution S := by
  by_cases short : HasNext g.epoch
  · rw [updateMembers_of_short S short]
    simp only [Except.ok.injEq, Prod.mk.injEq, short, true_and]
    constructor <;> rintro ⟨rfl, rfl⟩ <;> exact ⟨rfl, rfl⟩
  · simp [updateMembers_of_last S short, short]

/-- What can happen to a group: our own operations, and distributions which arrive. -/
inductive Event where
  | encrypt (plaintext : Bytes)
  | decrypt (message : GroupMessage) (config : GroupConfig)
  | process (sender : IdentityKey) (d : Distribution) (now : UInt64)
  | update (members : List IdentityKey) (now : UInt64)
  | purge (now : UInt64) (config : GroupConfig)

/-- The group after an event. What fails changes nothing. -/
def step (g : Group) (source : G) : Event → Group × G
  | .encrypt plaintext =>
    match g.encrypt S plaintext with
    | .error _ => (g, source)
    | .ok (next, _) => (next, source)
  | .decrypt message config =>
    match g.decrypt S message config with
    | .error _ => (g, source)
    | .ok (next, _) => (next, source)
  | .process sender d now =>
    match g.process S sender d now source with
    | (.error _, source) => (g, source)
    | (.ok (next, _), source) => (next, source)
  | .update members now =>
    match g.updateMembers S members now source with
    | (.error _, source) => (g, source)
    | (.ok (next, _), source) => (next, source)
  | .purge now config => (g.purge now config, source)

def run (g : Group) (source : G) (events : List Event) : Group × G :=
  events.foldl (fun (g, source) event => g.step S source event) (g, source)

def Event.Adds (g : Group) (peer : IdentityKey) : Event → Prop
  | .update members _ => HasNext g.epoch ∧ (peer ∈ members ∨ peer = g.self)
  | .process sender d _ => g.Moves sender d ∧ peer ∈ d.members
  | _ => False

theorem decrypt_members {g next : Group} {message : GroupMessage} {config : GroupConfig}
    {plaintext : Bytes} (decrypted : g.decrypt S message config = .ok (next, plaintext)) :
    next.members = g.members := by
  unfold decrypt at decrypted
  split at decrypted
  · cases decrypted
  · split at decrypted
    · cases decrypted
    · split at decrypted
      · cases decrypted
      · split at decrypted
        · cases decrypted
        · split at decrypted <;> cases decrypted
          unfold setChain
          split <;> rfl

theorem step_process_of_error {g : Group} {sender : IdentityKey} {d : Distribution} {now : UInt64}
    {source : G} (refused : ¬g.Follows sender d) (other : ¬g.Moves sender d) :
    (g.step S source (.process sender d now)).1 = g := by
  cases outcome : g.process S sender d now source with
  | mk result rest =>
    cases result with
    | error error => simp only [step, outcome]
    | ok accepted =>
      obtain ⟨next, ours⟩ := accepted
      have accepted := accepted_of_process S (congrArg Prod.fst outcome)
      exact absurd accepted (not_or.2 ⟨refused, other⟩)

theorem step_process_of_ok {g next : Group} {sender : IdentityKey} {d : Distribution} {now : UInt64}
    {source : G} {ours : Option Distribution}
    (accepted : (g.process S sender d now source).1 = .ok (next, ours)) :
    (g.step S source (.process sender d now)).1 = next := by
  cases outcome : g.process S sender d now source with
  | mk result rest =>
    rw [outcome] at accepted
    cases accepted
    simp only [step, outcome]

theorem step_encrypt (g : Group) (source : G) (plaintext : Bytes) :
    g.step S source (.encrypt plaintext) = match g.encrypt S plaintext with
      | .error _ => (g, source)
      | .ok (next, _) => (next, source) := rfl

theorem step_update (g : Group) (source : G) (members : List IdentityKey) (now : UInt64) :
    g.step S source (.update members now) = match g.updateMembers S members now source with
      | (.error _, source) => (g, source)
      | (.ok (next, _), source) => (next, source) := rfl

theorem step_encrypt_of_short {g : Group} (short : HasNext g.ownChain.chain.counter)
    (source : G) (plaintext : Bytes) :
    (g.step S source (.encrypt plaintext)).1 = (g.sealNext S plaintext).1 := by
  rw [step_encrypt, encrypt, if_pos short]

theorem step_encrypt_of_last {g : Group} (last : ¬HasNext g.ownChain.chain.counter)
    (source : G) (plaintext : Bytes) : (g.step S source (.encrypt plaintext)).1 = g := by
  rw [step_encrypt, encrypt, if_neg last]

theorem step_update_of_short {g : Group} (short : HasNext g.epoch) (source : G)
    (members : List IdentityKey) (now : UInt64) :
    (g.step S source (.update members now)).1 =
      (g.enter (g.epoch + 1) (members ++ [g.self]) now source).1 := by
  rw [step_update, updateMembers, if_pos short]

theorem step_update_of_last {g : Group} (last : ¬HasNext g.epoch) (source : G)
    (members : List IdentityKey) (now : UInt64) :
    (g.step S source (.update members now)).1 = g := by
  rw [step_update, updateMembers, if_neg last]

theorem isMember_step_iff {g : Group} {peer : IdentityKey} (outside : g.isMember peer = false)
    (source : G) (event : Event) :
    (g.step S source event).1.isMember peer = true ↔ event.Adds g peer := by
  have unchanged {next : Group} (same : next.members = g.members) :
      ¬next.isMember peer = true := by
    rw [isMember, same]
    change g.isMember peer ≠ true
    rw [outside]
    exact Bool.false_ne_true
  cases event with
  | encrypt plaintext =>
    refine iff_of_false (unchanged ?_) False.elim
    by_cases short : HasNext g.ownChain.chain.counter
    · rw [step_encrypt_of_short S short]
      rfl
    · rw [step_encrypt_of_last S short]
  | decrypt message config =>
    refine iff_of_false (unchanged ?_) False.elim
    cases outcome : g.decrypt S message config with
    | error error => simp only [step, outcome]
    | ok accepted => simp only [step, outcome, decrypt_members S outcome]
  | process sender d now =>
    by_cases moves : g.Moves sender d
    · rw [step_process_of_ok S (process_of_moves S moves now source), isMember_learned,
        isMember_enter]
      exact (and_iff_right moves).symm
    · refine iff_of_false (unchanged ?_) fun adds => moves adds.1
      by_cases follows : g.Follows sender d
      · rw [step_process_of_ok S (process_of_follows S follows now source), learned_eq]
      · rw [step_process_of_error S follows moves]
  | update members now =>
    by_cases short : HasNext g.epoch
    · rw [step_update_of_short S short, isMember_enter, List.mem_append, List.mem_singleton]
      exact (and_iff_right short).symm
    · refine iff_of_false (unchanged ?_) fun adds => short adds.1
      rw [step_update_of_last S short]
  | purge now config => exact iff_of_false (unchanged rfl) False.elim

theorem exists_adds_of_isMember_run {g : Group} {peer : IdentityKey} {source : G}
    {events : List Event} (outside : g.isMember peer = false)
    (inside : (g.run S source events).1.isMember peer = true) :
    ∃ before event after, events = before ++ event :: after ∧
      (g.run S source before).1.isMember peer = false ∧
      event.Adds (g.run S source before).1 peer := by
  induction events generalizing g source with
  | nil =>
    have : g.isMember peer = true := inside
    simp [outside] at this
  | cons event rest ih =>
    cases next : (g.step S source event).1.isMember peer with
    | true =>
      exact ⟨[], event, rest, rfl, outside, (isMember_step_iff S outside source event).1 next⟩
    | false =>
      obtain ⟨before, other, after, rfl, still, adds⟩ := ih next inside
      exact ⟨event :: before, other, after, rfl, still, adds⟩

theorem isMember_run_process {g : Group} {peer : IdentityKey} {source : G}
    {arrivals : List (Distribution × UInt64)} (inside : g.isMember peer = true) :
    (g.run S source (arrivals.map fun (d, now) => .process peer d now)).1.isMember peer = true := by
  induction arrivals generalizing g source with
  | nil => exact inside
  | cons arrival rest ih =>
    obtain ⟨d, now⟩ := arrival
    refine ih (g := (g.step S source (.process peer d now)).1) ?_
    by_cases moves : g.Moves peer d
    · rw [step_process_of_ok S (process_of_moves S moves now source), isMember_learned,
        isMember_enter]
      exact moves.listed
    by_cases follows : g.Follows peer d
    · rw [step_process_of_ok S (process_of_follows S follows now source), isMember_learned]
      exact inside
    · rw [step_process_of_error S follows moves]
      exact inside

theorem isMember_run_process_iff {g : Group} {peer : IdentityKey}
    (outside : g.isMember peer = false) (source : G) (arrivals : List (Distribution × UInt64)) :
    (g.run S source (arrivals.map fun (d, now) => .process peer d now)).1.isMember peer = true ↔
      ∃ arrival ∈ arrivals, g.Moves peer arrival.1 := by
  -- Until an arrival moves the group nothing changes, afterwards the peer is in.
  induction arrivals generalizing source with
  | nil =>
    refine iff_of_false ?_ (by simp)
    change g.isMember peer ≠ true
    rw [outside]
    exact Bool.false_ne_true
  | cons arrival rest ih =>
    obtain ⟨d, now⟩ := arrival
    simp only [List.mem_cons, exists_eq_or_imp, List.map_cons]
    change ((g.step S source (.process peer d now)).1.run S _ _).1.isMember peer = true ↔ _
    by_cases moves : g.Moves peer d
    · refine iff_of_true (isMember_run_process S ?_) (.inl moves)
      exact (isMember_step_iff S outside source (.process peer d now)).2 ⟨moves, moves.listed⟩
    · rw [step_process_of_error S (not_follows outside) moves, ih, or_iff_right moves]

/-- A peer who is no member gets back exactly by a distribution for a newer epoch which lists it and
us. Its epoch, and our new chain, then are the peer's as well. -/
theorem outsider_returns_iff {g : Group} {peer : IdentityKey} (outside : g.isMember peer = false) :
    (∀ (d : Distribution) (now : UInt64) (source : G),
      (∃ accepted, (g.process S peer d now source).1 = .ok accepted) ↔ g.Moves peer d) ∧
    (∀ (d : Distribution) (now : UInt64) (source : G) (next : Group) (ours : Option Distribution),
      (g.process S peer d now source).1 = .ok (next, ours) →
        next.epoch = d.epoch ∧ next.isMember peer = true ∧
          (peer ≠ g.self → peer ∈ next.recipients) ∧ ours = some (next.distribution S)) ∧
    (∀ (source : G) (arrivals : List (Distribution × UInt64)),
      (g.run S source (arrivals.map fun (d, now) => .process peer d now)).1.isMember peer = true ↔
        ∃ arrival ∈ arrivals, g.Moves peer arrival.1) ∧
    (∀ (source : G) (events : List Event), (g.run S source events).1.isMember peer = true →
      ∃ before event after, events = before ++ event :: after ∧
        (g.run S source before).1.isMember peer = false ∧
        event.Adds (g.run S source before).1 peer) := by
  have moves_of_process {d : Distribution} {now : UInt64} {source : G} {next : Group}
      {ours : Option Distribution}
      (accepted : (g.process S peer d now source).1 = .ok (next, ours)) : g.Moves peer d :=
    (accepted_of_process S accepted).resolve_left (not_follows outside)
  refine ⟨fun d now source => ⟨?_, ?_⟩, ?_, isMember_run_process_iff S outside,
    fun source events => exists_adds_of_isMember_run S outside⟩
  · rintro ⟨⟨next, ours⟩, accepted⟩
    exact moves_of_process accepted
  · intro moves
    exact ⟨_, process_of_moves S moves now source⟩
  · intro d now source next ours accepted
    have moves := moves_of_process accepted
    rw [process_of_moves S moves now source] at accepted
    cases accepted
    have inside :
        ((g.enter d.epoch d.members now source).1.learned peer d).isMember peer = true := by
      rw [isMember_learned, isMember_enter]
      exact moves.listed
    refine ⟨by rw [learned_eq]; rfl, inside, fun other => ?_, by rw [learned_eq]; rfl⟩
    refine List.mem_filter.2 ⟨SortedSet.contains_iff.1 inside, ?_⟩
    rw [learned_eq]
    exact decide_eq_true other

end

/-- A founder who is alone takes in a stranger. -/
theorem stranger_joins_founder :
    ∃ (self stranger : IdentityKey) (source : KeyStream) (d : Distribution),
      let g := (found .standard ⟨.replicate 16 0⟩ self [] source).1.1
      g.isMember stranger = false ∧
        ∃ accepted, (g.process .standard stranger d 0 source).1 = .ok accepted := by
  let self : IdentityKey := ⟨⟨.replicate 32 0⟩, ⟨.replicate 32 0⟩⟩
  let stranger : IdentityKey := ⟨⟨.replicate 32 1⟩, ⟨.replicate 32 1⟩⟩
  let source : KeyStream := ⟨.replicate 32 0, 0⟩
  let d : Distribution := ⟨⟨.replicate 16 0⟩, 1, stranger, [self, stranger], .replicate 32 0, 0,
    ⟨.replicate 32 0⟩⟩
  have moves : (found .standard ⟨.replicate 16 0⟩ self [] source).1.1.Moves stranger d :=
    ⟨List.mem_cons_of_mem _ (List.mem_singleton_self _), rfl, rfl, by decide, List.mem_cons_self⟩
  have outside : (found .standard ⟨.replicate 16 0⟩ self [] source).1.1.isMember stranger =
    false := by decide +kernel
  exact ⟨self, stranger, source, d, outside,
    ((outsider_returns_iff .standard outside).1 d 0 source).2 moves⟩

/-- A founder removes a member, which takes its place again with a distribution of its own. -/
theorem removed_member_returns :
    ∃ (self removed : IdentityKey) (source : KeyStream) (d : Distribution),
      let founded := (found .standard ⟨.replicate 16 0⟩ self [removed] source).1.1
      let g := (founded.step .standard source (.update [] 0)).1
      founded.isMember removed = true ∧ g.isMember removed = false ∧
        (∃ accepted, (g.process .standard removed d 0 source).1 = .ok accepted) ∧
        (g.step .standard source (.process removed d 0)).1.isMember removed = true := by
  let self : IdentityKey := ⟨⟨.replicate 32 0⟩, ⟨.replicate 32 0⟩⟩
  let removed : IdentityKey := ⟨⟨.replicate 32 1⟩, ⟨.replicate 32 1⟩⟩
  let source : KeyStream := ⟨.replicate 32 0, 0⟩
  let d : Distribution := ⟨⟨.replicate 16 0⟩, 2, removed, [self, removed], .replicate 32 0, 0,
    ⟨.replicate 32 0⟩⟩
  let founded := (found .standard ⟨.replicate 16 0⟩ self [removed] source).1.1
  let g := (founded.step .standard source (.update [] 0)).1
  have moves : g.Moves removed d :=
    ⟨List.mem_cons_of_mem _ (List.mem_singleton_self _), rfl, rfl, by decide +kernel,
      List.mem_cons_self⟩
  have outside : g.isMember removed = false := by decide +kernel
  refine ⟨self, removed, source, d, by decide +kernel, outside, ?_, ?_⟩
  · exact ⟨_, process_of_moves .standard moves 0 source⟩
  · exact (isMember_step_iff .standard outside source _).2 ⟨moves, moves.listed⟩

end Confide.Group
