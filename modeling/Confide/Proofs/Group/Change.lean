import Confide.Entropy.KeyStream
import Confide.Proofs.Group.Replay
import Mathlib.Data.List.Perm.Subperm
import Mathlib.Logic.Function.Basic

/-! A change of the members goes round. One member starts the next epoch; whoever hears of it, from
whomever, moves or joins, and sends its own chain to all others. Whatever the order in which the
chains arrive, the members all come to that epoch, with the same list and with each other's
chains. -/

set_option autoImplicit false

namespace Confide

/-- The distribution shows an own chain as it was before its first message. -/
structure Distribution.Begins (S : Suite) (d : Distribution) (own : OwnChain) : Prop where
  counter : d.counter = 0
  verifyingKey : d.verifyingKey = S.verifyingKey own.signingKey
  chain : ∃ sent, own.chain = (Chain.start d.chainKey).after S sent

namespace MemberChain

/-- How many messages a chain has behind it once the ones with these numbers were opened. -/
def reach (counters : List UInt64) : Nat :=
  counters.foldl (fun n counter => max n (counter.toNat + 1)) 0

/-- The chain is the one of a distribution, moved on by the messages which were opened. -/
structure Continues (S : Suite) (d : Distribution) (opened : List UInt64) (c : MemberChain) :
    Prop where
  verifyingKey : c.verifyingKey = d.verifyingKey
  bound : reach opened < 2 ^ 64
  chain : c.chain = (Chain.start d.chainKey).after S (reach opened)
  kept : ∀ counter key, c.skipped.get? counter = some key →
    (counter, key) ∈ (Chain.start d.chainKey).keys S (reach opened)

variable {S : Suite} {d : Distribution} {opened : List UInt64} {c taken : MemberChain}
  {counter : UInt64} {config : GroupConfig} {key : SealingKey}

theorem continues_memberChain (zero : d.counter = 0) : d.memberChain.Continues S d [] where
  verifyingKey := rfl
  bound := by decide
  chain := by rw [Distribution.memberChain, zero]; rfl
  kept := nofun

theorem reach_append : reach (opened ++ [counter]) = max (reach opened) (counter.toNat + 1) := by
  simp [reach]

theorem Continues.takes (continues : c.Continues S d opened)
    (takes : c.Takes (S := S) counter config key taken) :
    taken.Continues S d (opened ++ [counter]) := by
  have stands : c.chain.counter.toNat = reach opened := by
    have bound : (Chain.start d.chainKey).counter.toNat + reach opened < 2 ^ 64 :=
      (Nat.zero_add _).symm ▸ continues.bound
    rw [continues.chain, Chain.toNat_counter_after S bound]
    exact Nat.zero_add _
  cases takes with
  | kept behind found =>
    have same : reach (opened ++ [counter]) = reach opened := by
      rw [UInt64.lt_iff_toNat_lt] at behind
      rw [reach_append]
      omega
    refine ⟨continues.verifyingKey, same ▸ continues.bound, same ▸ continues.chain, ?_⟩
    intro other stored here
    rw [same]
    refine continues.kept other stored ?_
    rw [SortedMap.get?_erase] at here
    split at here
    · cases here
    · exact here
  | ahead reached near short =>
    rw [UInt64.le_iff_toNat_le] at reached
    have further : reach (opened ++ [counter]) = reach opened + (c.gap counter + 1) := by
      rw [reach_append, gap]
      omega
    refine ⟨continues.verifyingKey, ?_, ?_, ?_⟩
    · rw [further, gap]
      omega
    · rw [further, Chain.after_add, ← continues.chain]
      rfl
    · intro other stored here
      rw [further, Chain.keys_add, List.mem_append, ← continues.chain]
      refine (mem_of_get?_keepAll here).symm.imp (continues.kept other stored) fun passed => ?_
      rw [Chain.keys_add]
      exact List.mem_append_left _ passed

end MemberChain

namespace Group

open GroupMessage (Place)

structure Call where
  id : GroupId
  updater : IdentityKey
  epoch : UInt64
  listed : List IdentityKey

def Call.next (call : Call) : UInt64 := call.epoch + 1

def Call.members (call : Call) : SortedSet IdentityKey := .ofList (call.listed ++ [call.updater])

/-- A chain on its way to a peer, over the session with its sender. -/
structure Parcel where
  sender : IdentityKey
  recipient : IdentityKey
  d : Distribution
  deriving DecidableEq

def parcels (members : SortedSet IdentityKey) (sender : IdentityKey) (d : Distribution) :
    List Parcel :=
  (members.toList.filter (· ≠ sender)).map fun peer => ⟨sender, peer, d⟩

/-- What the peers have of the group, the chains which are under way, and all which were handed out
for the new epoch. Beside it stands what each peer has opened in the epoch it was in. -/
structure Change where
  group : IdentityKey → Option Group
  inFlight : List Parcel
  returned : List Distribution
  opened : IdentityKey → List Place

def numbers (places : List Place) (epoch : UInt64) (sender : IdentityKey) : List UInt64 :=
  (places.filter fun place => place.epoch = epoch ∧ place.sender = sender).map (·.counter)

def Change.heard (c : Change) (call : Call) (peer sender : IdentityKey) : List UInt64 :=
  numbers (c.opened peer) call.next sender

/-- Nobody updates the group, and what else arrives is of earlier epochs. -/
def Event.Minor (epoch : UInt64) : Event → Prop
  | .update _ _ => False
  | .process _ d _ => d.epoch < epoch
  | _ => True

section
variable {G : Type} [Entropy G] (S : Suite)

/-- A peer takes a distribution. Who has nothing of the group joins it. -/
def receive (state : Option Group) (self sender : IdentityKey) (d : Distribution) (now : UInt64)
    (source : G) : Except Error (Group × Option Distribution) :=
  match state with
  | none => (join S self sender d now source).1.map fun (g, ours) => (g, some ours)
  | some g => (g.process S sender d now source).1

namespace Change

def begin (group : IdentityKey → Option Group) (call : Call) :
    Except Error (Group × Distribution) → Change
  | .error _ => ⟨group, [], [], fun _ => []⟩
  | .ok (g, d) =>
    ⟨Function.update group call.updater (some g), parcels call.members call.updater d, [d],
      fun _ => []⟩

def act (c : Change) (peer : IdentityKey) (g : Group) (event : Event) (source : G) : Change :=
  { c with
    group := Function.update c.group peer (some (g.step S source event).1)
    opened := Function.update c.opened peer
      (c.opened peer ++ (g.opened S event).filter (·.epoch = g.epoch)) }

/-- The recipient takes what a parcel holds, and sends what it returns to all other members. -/
def deliver (c : Change) (members : SortedSet IdentityKey) (parcel : Parcel) (now : UInt64)
    (source : G) : Change :=
  match receive S (c.group parcel.recipient) parcel.recipient parcel.sender parcel.d now source with
  | .error _ => { c with inFlight := c.inFlight.erase parcel }
  | .ok (next, ours) =>
    { c with
      group := Function.update c.group parcel.recipient (some next)
      inFlight := c.inFlight.erase parcel ++ ours.toList.flatMap (parcels members parcel.recipient)
      returned := c.returned ++ ours.toList }

/-- One member updates the group. The others are in earlier epochs, or have nothing of the group
yet. From then on the parcels are delivered in any order, among minor events. -/
inductive Run (G : Type) [Entropy G] (call : Call) : Change → Prop where
  | update {group : IdentityKey → Option Group} {g : Group}
      (own : ∀ peer g, group peer = some g → g.id = call.id ∧ g.self = peer)
      (earlier : ∀ peer g, group peer = some g → peer ≠ call.updater → g.epoch < call.next)
      (present : group call.updater = some g) (epoch : g.epoch = call.epoch)
      (short : HasNext call.epoch) (now : UInt64) (source : G) :
      Run G call (begin group call (g.updateMembers S call.listed now source).1)
  | deliver {c : Change} {parcel : Parcel} (run : Run G call c) (mem : parcel ∈ c.inFlight)
      (now : UInt64) (source : G) : Run G call (c.deliver S call.members parcel now source)
  | other {c : Change} {peer : IdentityKey} {g : Group} {event : Event} (run : Run G call c)
      (present : c.group peer = some g) (minor : event.Minor call.next) (source : G) :
      Run G call (c.act S peer g event source)

/-- A peer has not heard of the new epoch. -/
structure Waiting (call : Call) (c : Change) (peer : IdentityKey) : Prop where
  earlier : ∀ g, c.group peer = some g → g.epoch < call.next
  silent : ∀ d ∈ c.returned, d.sender ≠ peer
  unread : ∀ sender, c.heard call peer sender = []

/-- The chains of a group are those which were handed out, and where there is none yet nothing was
opened. -/
structure Traced (returned : List Distribution) (heard : IdentityKey → List UInt64) (g : Group) :
    Prop where
  held : ∀ peer c, g.chains.get? peer = some c →
    ∃ d ∈ returned, d.sender = peer ∧ c.Continues S d (heard peer)
  unread : ∀ peer, g.chains.get? peer = none → heard peer = []

/-- A member is in the new epoch, and has handed out its chain. -/
structure Arrived (call : Call) (returned : List Distribution) (heard : IdentityKey → List UInt64)
    (peer : IdentityKey) (g : Group) : Prop where
  epoch : g.epoch = call.next
  members : g.members = call.members
  listed : peer ∈ call.members.toList
  own : ∃ d ∈ returned, d.sender = peer ∧ d.Begins S g.ownChain
  traced : Traced S returned heard g

structure Announces (call : Call) (d : Distribution) : Prop where
  group : d.groupId = call.id
  epoch : d.epoch = call.next
  members : d.members = call.members.toList
  counter : d.counter = 0

/-- Nobody returned two chains. Each is under way to a member, or the member has it. -/
structure Sound (call : Call) (c : Change) : Prop where
  own : ∀ peer g, c.group peer = some g → g.id = call.id ∧ g.self = peer
  stands : ∀ peer, c.Waiting call peer ∨
    ∃ g, c.group peer = some g ∧ Arrived S call c.returned (c.heard call peer) peer g
  announces : ∀ d ∈ c.returned, Announces call d
  distinct : (c.returned.map (·.sender)).Nodup
  begun : ∃ d ∈ c.returned, d.sender = call.updater
  inFlight : ∀ parcel ∈ c.inFlight, parcel.d ∈ c.returned ∧ parcel.sender = parcel.d.sender ∧
    parcel.recipient ∈ call.members.toList
  covered : ∀ d ∈ c.returned, ∀ peer ∈ call.members.toList, peer ≠ d.sender →
    ⟨d.sender, peer, d⟩ ∈ c.inFlight ∨
      ∃ g, c.group peer = some g ∧ g.epoch = call.next ∧ g.Knows d.sender d

end Change

end

section
variable {G : Type} [Entropy G] {S : Suite} {call : Call} {c : Change} {parcel : Parcel}
  {g next : Group} {d ours : Distribution} {peer sender : IdentityKey}
  {members : SortedSet IdentityKey} {now : UInt64} {source : G}

theorem mem_parcels_iff :
    parcel ∈ parcels members sender d ↔ parcel.sender = sender ∧ parcel.d = d ∧
      parcel.recipient ∈ members.toList ∧ parcel.recipient ≠ sender := by
  obtain ⟨from', to', content⟩ := parcel
  simp only [parcels, List.mem_map, List.mem_filter, decide_eq_true_eq, Parcel.mk.injEq]
  constructor
  · rintro ⟨_, ⟨mem, apart⟩, rfl, rfl, rfl⟩
    exact ⟨rfl, rfl, mem, apart⟩
  · rintro ⟨rfl, rfl, mem, apart⟩
    exact ⟨_, ⟨mem, apart⟩, rfl, rfl, rfl⟩

/-! ### Chains which stay known -/

theorem knows_learned : (g.learned sender d).Knows sender d := by
  by_cases known : g.Knows sender d
  · rw [learned_of_knows known]
    exact known
  · exact ⟨d.memberChain, get?_learned_self known, rfl⟩

theorem Knows.learned {other : Distribution} (knows : g.Knows peer other)
    (same : peer = sender → other = d) : (g.learned sender d).Knows peer other := by
  by_cases here : peer = sender
  · subst here
    rw [same rfl] at knows ⊢
    exact knows_learned
  · obtain ⟨held, found, key⟩ := knows
    exact ⟨held, (get?_learned_of_ne here).trans found, key⟩

theorem Knows.opens {message : GroupMessage} {config : GroupConfig} {held taken : MemberChain}
    {plaintext : Bytes} (knows : g.Knows peer d)
    (opens : g.Opens S message config held taken plaintext) :
    (g.setChain message.epoch message.sender taken).Knows peer d := by
  obtain ⟨known, found, key⟩ := knows
  obtain ⟨next, found, same⟩ := opens.exists_chain found
  exact ⟨next, found, same.trans key⟩

theorem numbers_append (places more : List Place) (epoch : UInt64) (sender : IdentityKey) :
    numbers (places ++ more) epoch sender =
      numbers places epoch sender ++ numbers more epoch sender := by
  simp only [numbers, List.filter_append, List.map_append]

theorem numbers_filter (places : List Place) (epoch : UInt64) (sender : IdentityKey) :
    numbers (places.filter (·.epoch = epoch)) epoch sender = numbers places epoch sender := by
  simp only [numbers, List.filter_filter]
  congr 1
  refine List.filter_congr fun place _ => ?_
  by_cases here : place.epoch = epoch <;> simp [here]

theorem numbers_filter_of_ne (places : List Place) {epoch other : UInt64} (apart : other ≠ epoch)
    (sender : IdentityKey) : numbers (places.filter (·.epoch = other)) epoch sender = [] := by
  rw [numbers, List.map_eq_nil_iff, List.filter_filter, List.filter_eq_nil_iff]
  intro place _
  by_cases here : place.epoch = other <;> simp [here, apart]

namespace Change

variable {returned : List Distribution} {heard : IdentityKey → List UInt64}

theorem Traced.of_chains_empty (none : g.chains = .empty) (unread : ∀ sender, heard sender = []) :
    Traced S returned heard g := by
  refine ⟨fun peer c found => ?_, fun peer _ => unread peer⟩
  rw [none] at found
  cases found

theorem Traced.mono {more : List Distribution} (traced : Traced S returned heard g)
    (sub : returned ⊆ more) : Traced S more heard g := by
  refine ⟨fun peer c found => ?_, traced.unread⟩
  obtain ⟨d, mem, rest⟩ := traced.held peer c found
  exact ⟨d, sub mem, rest⟩

/-- No other chain of the same sender was handed out, so that none is replaced. -/
theorem Traced.learned (traced : Traced S returned heard g) (mem : d ∈ returned)
    (zero : d.counter = 0) (only : ∀ other ∈ returned, other.sender = d.sender → other = d) :
    Traced S returned heard (g.learned d.sender d) := by
  by_cases known : g.Knows d.sender d
  · rwa [learned_of_knows known]
  have unread : heard d.sender = [] := by
    refine traced.unread _ (Option.eq_none_iff_forall_ne_some.2 fun c found => known ?_)
    obtain ⟨other, mem, same, continues⟩ := traced.held _ c found
    rw [only other mem same] at continues
    exact ⟨c, found, continues.verifyingKey⟩
  refine ⟨fun peer c found => ?_, fun peer missing => ?_⟩
  · by_cases same : peer = d.sender
    · subst same
      cases (get?_learned_self known).symm.trans found
      rw [unread]
      exact ⟨d, mem, rfl, MemberChain.continues_memberChain zero⟩
    · exact traced.held peer c ((get?_learned_of_ne same).symm.trans found)
  · by_cases same : peer = d.sender
    · exact same ▸ unread
    · exact traced.unread peer ((get?_learned_of_ne same).symm.trans missing)

theorem Traced.opens (traced : Traced S returned heard g) {message : GroupMessage}
    {config : GroupConfig} {c taken : MemberChain} {plaintext : Bytes}
    (opens : g.Opens S message config c taken plaintext) :
    Traced S returned (fun peer => heard peer ++ numbers [message.place] g.epoch peer)
      (g.setChain message.epoch message.sender taken) := by
  have apart {peer : IdentityKey} (other : peer ≠ message.sender ∨ message.epoch ≠ g.epoch) :
      heard peer ++ numbers [message.place] g.epoch peer = heard peer := by
    simp only [numbers, GroupMessage.place]
    rcases other with other | other <;> simp [other, Ne.symm other]
  refine ⟨fun peer held found => ?_, fun peer missing => ?_⟩
  all_goals by_cases other : peer ≠ message.sender ∨ message.epoch ≠ g.epoch
  · rw [get?_setChain_of_other other] at found
    rw [apart other]
    exact traced.held peer held found
  · rw [not_or, not_not, not_not] at other
    obtain ⟨rfl, current⟩ := other
    obtain ⟨key, takes, -⟩ := opens.opened
    have before := opens.found
    rw [current, findChain_current_iff] at before
    cases (get?_setChain_self current).symm.trans found
    obtain ⟨d, mem, sender, continues⟩ := traced.held _ c before
    have number : numbers [message.place] g.epoch message.sender = [message.counter] := by
      simp [numbers, GroupMessage.place, current]
    rw [number]
    exact ⟨d, mem, sender, continues.takes takes⟩
  · rw [get?_setChain_of_other other] at missing
    rw [apart other]
    exact traced.unread peer missing
  · rw [not_or, not_not, not_not] at other
    obtain ⟨rfl, current⟩ := other
    cases (get?_setChain_self current).symm.trans missing

end Change

/-- A group stays in its epoch, and goes on with the chains it has there. -/
structure Remains (S : Suite) (g : Group) (event : Event) (next : Group) : Prop where
  epoch : next.epoch = g.epoch
  members : next.members = g.members
  begins : ∀ d : Distribution, d.Begins S g.ownChain → d.Begins S next.ownChain
  knows : ∀ peer d, g.Knows peer d → next.Knows peer d
  traced : ∀ returned heard, Change.Traced S returned heard g →
    Change.Traced S returned (fun peer => heard peer ++ numbers (g.opened S event) g.epoch peer)
      next

theorem Remains.of_same {event : Event} (epoch : next.epoch = g.epoch)
    (members : next.members = g.members) (chains : next.chains = g.chains)
    (silent : g.opened S event = [])
    (begins : ∀ d : Distribution, d.Begins S g.ownChain → d.Begins S next.ownChain) :
    Remains S g event next where
  epoch := epoch
  members := members
  begins := begins
  knows peer d knows := by
    unfold Knows
    rw [chains]
    exact knows
  traced returned heard traced := by
    simp only [silent, numbers, List.filter_nil, List.map_nil, List.append_nil]
    exact ⟨by rw [chains]; exact traced.held, by rw [chains]; exact traced.unread⟩

theorem begins_sealNext (plaintext : Bytes) (begins : d.Begins S g.ownChain) :
    d.Begins S (g.sealNext S plaintext).1.ownChain := by
  obtain ⟨counter, verifyingKey, sent, chain⟩ := begins
  refine ⟨counter, verifyingKey, sent + 1, ?_⟩
  rw [Chain.after_succ, ← chain]
  rfl

theorem remains_of_opens {message : GroupMessage} {config : GroupConfig} {c taken : MemberChain}
    {plaintext : Bytes} (opens : g.Opens S message config c taken plaintext) :
    Remains S g (.decrypt message config) (g.setChain message.epoch message.sender taken) where
  epoch := by rw [setChain_eq]
  members := by rw [setChain_eq]
  begins d begins := by
    rw [setChain_eq]
    exact begins
  knows peer d knows := knows.opens opens
  traced returned heard traced := by
    rw [opened_of_opens opens]
    exact traced.opens opens

variable (S) in
theorem step_of_silent {event : Event} {epoch : UInt64} (minor : event.Minor epoch)
    (silent : g.opened S event = []) (source : G) :
    (g.step S source event).1.id = g.id ∧ (g.step S source event).1.self = g.self ∧
      (g.epoch < epoch → (g.step S source event).1.epoch < epoch) ∧
      (g.epoch = epoch → Remains S g event (g.step S source event).1) := by
  have steps := step_cases S g source event
  generalize (g.step S source event).1 = next at steps
  cases steps with
  | refused =>
    exact ⟨rfl, rfl, fun below => below, fun _ =>
      .of_same rfl rfl rfl silent fun _ begins => begins⟩
  | encrypted plaintext short =>
    refine ⟨rfl, rfl, fun below => below, fun _ => .of_same rfl rfl rfl silent fun d begins => ?_⟩
    exact begins_sealNext plaintext begins
  | decrypted opens =>
    rw [opened_of_opens opens] at silent
    cases silent
  -- What arrives is older than a group in the new epoch, which therefore refuses it.
  | followed follows =>
    refine ⟨id_learned .., self_learned .., fun below => ?_, fun here => ?_⟩
    · rw [epoch_learned]
      exact below
    · have older : _ < epoch := minor
      rw [follows.current, here] at older
      exact absurd older (UInt64.lt_irrefl _)
  | moved moves =>
    refine ⟨id_learned .., self_learned .., fun below => ?_, fun here => ?_⟩
    · rw [epoch_learned]
      exact minor
    · have newer := moves.newer
      rw [here] at newer
      exact absurd minor (UInt64.lt_asymm newer)
  | updated members now short => exact minor.elim
  | purged now config =>
    exact ⟨rfl, rfl, fun below => below, fun _ =>
      .of_same rfl rfl rfl silent fun _ begins => begins⟩

variable (S) in
theorem step_of_minor {event : Event} {epoch : UInt64} (minor : event.Minor epoch) (source : G) :
    (g.step S source event).1.id = g.id ∧ (g.step S source event).1.self = g.self ∧
      (g.epoch < epoch → (g.step S source event).1.epoch < epoch) ∧
      (g.epoch = epoch → Remains S g event (g.step S source event).1) := by
  by_cases silent : g.opened S event = []
  · exact step_of_silent S minor silent source
  · obtain ⟨message, config, c, taken, plaintext, rfl, opens⟩ := exists_opens_of_opened silent
    rw [step_decrypt_of_ok ((decrypt_eq_ok_iff S).2 ⟨c, taken, opens, rfl⟩)]
    have remains := remains_of_opens opens
    rw [setChain_eq] at remains ⊢
    exact ⟨rfl, rfl, fun below => below, fun _ => remains⟩

/-! ### Taking a distribution -/

/-- Who moves and who joins does the same: the new epoch begins with the list of the distribution,
with our own chain, which we return, and with the chain of its sender. -/
theorem exists_receive_of_earlier {state : Option Group} (listed : peer ∈ d.members)
    (member : d.sender ∈ d.members)
    (own : ∀ g, state = some g → g.id = d.groupId ∧ g.self = peer ∧ g.epoch < d.epoch)
    (now : UInt64) (source : G) :
    ∃ fresh : Group, receive S state peer d.sender d now source =
        .ok (fresh.learned d.sender d, some (fresh.distribution S)) ∧
      fresh.id = d.groupId ∧ fresh.self = peer ∧ fresh.epoch = d.epoch ∧
      fresh.members = .ofList d.members ∧ fresh.chains = .empty ∧
      (fresh.distribution S).Begins S fresh.ownChain := by
  cases state with
  | none =>
    have inside : d.sender ∈ d.members ++ [peer] := List.mem_append_left _ member
    have follows : (start d.groupId peer d.epoch d.members source).1.Follows d.sender d :=
      ⟨isMember_start.2 inside, rfl, rfl, rfl⟩
    refine ⟨(start d.groupId peer d.epoch d.members source).1, ?_, rfl, rfl, rfl, ?_, rfl,
      rfl, rfl, 0, rfl⟩
    · have joined : (join S peer d.sender d now source).1 = .ok (_, _) :=
        (join_eq_ok_iff S).2 ⟨listed, follows, rfl, rfl⟩
      simp only [receive, joined, Except.map]
    · refine SortedSet.eq_of_mem_iff fun other => ?_
      rw [start, SortedSet.mem_toList_ofList, SortedSet.mem_toList_ofList, List.mem_append,
        List.mem_singleton, or_iff_left_iff_imp]
      rintro rfl
      exact listed
  | some g =>
    obtain ⟨id, self, earlier⟩ := own g rfl
    have moves : g.Moves d.sender d := ⟨member, rfl, id.symm, earlier, self ▸ listed⟩
    exact ⟨_, process_of_moves S moves now source, id, self, rfl, rfl, rfl, rfl, rfl, 0, rfl⟩

theorem receive_of_outsider {state : Option Group} (outside : peer ∉ d.members)
    (own : ∀ g, state = some g → g.id = d.groupId ∧ g.self = peer ∧ g.epoch < d.epoch)
    (now : UInt64) (source : G) :
    receive S state peer d.sender d now source = .error (.notMember peer) := by
  cases state with
  | none => simp [receive, join, outside, Except.map]
  | some g =>
    obtain ⟨id, rfl, earlier⟩ := own g rfl
    have newer : ¬d.epoch < g.epoch := UInt64.lt_asymm earlier
    have other : d.epoch ≠ g.epoch := (UInt64.ne_of_lt earlier).symm
    have unlisted : (SortedSet.ofList d.members).contains g.self = false := by
      rw [Bool.eq_false_iff]
      exact mt SortedSet.contains_ofList_iff.1 outside
    simp [receive, process, vet, id, newer, other, unlisted]

/-! ### What holds all the way -/

namespace Change

variable {returned more : List Distribution} {heard : IdentityKey → List UInt64}

theorem Arrived.mono (arrived : Arrived S call returned heard peer g) (sub : returned ⊆ more) :
    Arrived S call more heard peer g := by
  obtain ⟨d, mem, rest⟩ := arrived.own
  exact ⟨arrived.epoch, arrived.members, arrived.listed, ⟨d, sub mem, rest⟩,
    arrived.traced.mono sub⟩

theorem Sound.sender_listed (sound : c.Sound S call) (mem : d ∈ c.returned) :
    d.sender ∈ call.members.toList := by
  rcases sound.stands d.sender with waiting | ⟨g, -, arrived⟩
  · exact absurd rfl (waiting.silent d mem)
  · exact arrived.listed

theorem Sound.eq_of_sender (sound : c.Sound S call) {first second : Distribution}
    (mem : first ∈ c.returned) (mem' : second ∈ c.returned)
    (same : first.sender = second.sender) : first = second :=
  List.inj_on_of_nodup_map sound.distinct mem mem' same

theorem Sound.earlier_of_waiting (sound : c.Sound S call) (waiting : c.Waiting call peer)
    (mem : d ∈ c.returned) (g : Group) (present : c.group peer = some g) :
    g.id = d.groupId ∧ g.self = peer ∧ g.epoch < d.epoch := by
  have announces := sound.announces d mem
  obtain ⟨id, self⟩ := sound.own peer g present
  exact ⟨id.trans announces.group.symm, self, announces.epoch ▸ waiting.earlier g present⟩

/-- What the recipient of a parcel has after it took it, and what it returns. -/
structure Accepts (S : Suite) (call : Call) (c : Change) (parcel : Parcel) (next : Group)
    (news : List Distribution) : Prop where
  own : next.id = call.id ∧ next.self = parcel.recipient
  arrived : Arrived S call (c.returned ++ news) (c.heard call parcel.recipient) parcel.recipient
    next
  announces : ∀ d ∈ news, Announces call d ∧ d.sender = parcel.recipient
  distinct : ((c.returned ++ news).map (·.sender)).Nodup
  taken : next.Knows parcel.d.sender parcel.d
  kept : ∀ g, c.group parcel.recipient = some g → g.epoch = call.next →
    ∀ d ∈ c.returned, g.Knows d.sender d → next.Knows d.sender d

theorem Sound.accepts_fresh (sound : c.Sound S call) (mem : parcel ∈ c.inFlight)
    (waiting : c.Waiting call parcel.recipient) {fresh : Group} (id : fresh.id = call.id)
    (self : fresh.self = parcel.recipient) (epoch : fresh.epoch = call.next)
    (members : fresh.members = call.members) (empty : fresh.chains = .empty)
    (begins : (fresh.distribution S).Begins S fresh.ownChain) :
    Accepts S call c parcel (fresh.learned parcel.d.sender parcel.d) [fresh.distribution S] where
  own := by simp [id, self]
  arrived := by
    obtain ⟨old, -, listed⟩ := sound.inFlight parcel mem
    refine ⟨by simp [epoch], ?_, listed, ⟨fresh.distribution S, ?_, self, ?_⟩, ?_⟩
    · rw [learned_eq]
      exact members
    · exact List.mem_append_right _ (List.mem_singleton_self _)
    · rw [learned_eq]
      exact begins
    -- The chain of the parcel is the first one of the epoch.
    · have traced : Traced S c.returned _ _ := Traced.of_chains_empty empty waiting.unread
      exact (traced.learned old (sound.announces _ old).counter fun other mem same =>
        sound.eq_of_sender mem old same).mono (List.subset_append_left ..)
  announces d new := by
    rw [List.mem_singleton.1 new]
    exact ⟨⟨id, epoch, congrArg SortedSet.toList members, begins.counter⟩, self⟩
  distinct := by
    rw [List.map_append]
    refine List.nodup_append.2 ⟨sound.distinct, List.nodup_singleton _, ?_⟩
    intro sender old _ last
    obtain ⟨d, mem, rfl⟩ := List.mem_map.1 old
    rw [List.mem_singleton.1 last]
    intro same
    exact waiting.silent d mem (same.trans self)
  taken := knows_learned
  kept g present here := by
    have earlier := waiting.earlier g present
    rw [here] at earlier
    exact absurd earlier (UInt64.lt_irrefl _)

theorem Sound.accepts_learned (sound : c.Sound S call) (mem : parcel ∈ c.inFlight)
    (present : c.group parcel.recipient = some g)
    (arrived : Arrived S call c.returned (c.heard call parcel.recipient) parcel.recipient g) :
    Accepts S call c parcel (g.learned parcel.d.sender parcel.d) [] where
  own := by simpa using sound.own parcel.recipient g present
  arrived := by
    obtain ⟨old, -, -⟩ := sound.inFlight parcel mem
    have traced := arrived.traced.learned old (sound.announces _ old).counter fun other mem same =>
      sound.eq_of_sender mem old same
    rw [List.append_nil]
    rw [learned_eq] at traced ⊢
    exact ⟨arrived.epoch, arrived.members, arrived.listed, arrived.own, traced⟩
  announces := nofun
  distinct := by
    rw [List.append_nil]
    exact sound.distinct
  taken := knows_learned
  kept other present' _ d old knows := by
    cases present.symm.trans present'
    -- Another chain of the same sender would replace the one we have, but there is none.
    exact knows.learned (sound.eq_of_sender old (sound.inFlight parcel mem).1)

theorem Sound.exists_accepts (sound : c.Sound S call) (mem : parcel ∈ c.inFlight) (now : UInt64)
    (source : G) :
    ∃ next ours, receive S (c.group parcel.recipient) parcel.recipient parcel.sender parcel.d now
        source = .ok (next, ours) ∧ Accepts S call c parcel next ours.toList := by
  obtain ⟨old, sender, listed⟩ := sound.inFlight parcel mem
  have announces := sound.announces parcel.d old
  have member := sound.sender_listed old
  rw [sender]
  rcases sound.stands parcel.recipient with waiting | ⟨g, present, arrived⟩
  · rw [← announces.members] at member listed
    obtain ⟨fresh, received, id, self, epoch, members, empty, begins⟩ :=
      exists_receive_of_earlier listed member (sound.earlier_of_waiting waiting old) now source
    refine ⟨_, _, received, sound.accepts_fresh mem waiting (id.trans announces.group) self
      (epoch.trans announces.epoch) ?_ empty begins⟩
    rw [members, announces.members, SortedSet.ofList_toList]
  · have follows : g.Follows parcel.d.sender parcel.d := by
      refine ⟨SortedSet.contains_iff.2 ?_, rfl, ?_, announces.epoch.trans arrived.epoch.symm⟩
      · rw [arrived.members]
        exact member
      · exact announces.group.trans (sound.own _ g present).1.symm
    refine ⟨_, none, ?_, sound.accepts_learned mem present arrived⟩
    rw [present]
    exact process_of_follows S follows now source

theorem Sound.accept (sound : c.Sound S call) {news : List Distribution}
    (accepts : Accepts S call c parcel next news) :
    Sound S call
      { c with
        group := Function.update c.group parcel.recipient (some next)
        inFlight := c.inFlight.erase parcel ++ news.flatMap (parcels call.members parcel.recipient)
        returned := c.returned ++ news } where
  own peer g found := by
    by_cases here : peer = parcel.recipient
    · subst here
      cases (Function.update_self ..).symm.trans found
      exact accepts.own
    · exact sound.own peer g ((Function.update_of_ne here ..).symm.trans found)
  stands peer := by
    by_cases here : peer = parcel.recipient
    · subst here
      exact .inr ⟨next, Function.update_self .., accepts.arrived⟩
    · have same : Function.update c.group parcel.recipient (some next) peer = c.group peer :=
        Function.update_of_ne here ..
      rcases sound.stands peer with waiting | ⟨g, present, arrived⟩
      · refine .inl ⟨fun g found => waiting.earlier g (same ▸ found), fun d mem => ?_,
          waiting.unread⟩
        rcases List.mem_append.1 mem with old | new
        · exact waiting.silent d old
        · rw [(accepts.announces d new).2]
          exact Ne.symm here
      · exact .inr ⟨g, same.trans present, arrived.mono (List.subset_append_left ..)⟩
  announces d mem := by
    rcases List.mem_append.1 mem with old | new
    · exact sound.announces d old
    · exact (accepts.announces d new).1
  distinct := accepts.distinct
  begun := by
    obtain ⟨d, mem, sender⟩ := sound.begun
    exact ⟨d, List.mem_append_left _ mem, sender⟩
  inFlight other mem := by
    rcases List.mem_append.1 mem with old | new
    · obtain ⟨returned, rest⟩ := sound.inFlight other (List.mem_of_mem_erase old)
      exact ⟨List.mem_append_left _ returned, rest⟩
    · obtain ⟨d, new, posted⟩ := List.mem_flatMap.1 new
      obtain ⟨sender, rfl, listed, -⟩ := mem_parcels_iff.1 posted
      exact ⟨List.mem_append_right _ new, sender.trans (accepts.announces _ new).2.symm, listed⟩
  covered d mem peer listed apart := by
    rcases List.mem_append.1 mem with old | new
    · by_cases here : peer = parcel.recipient
      -- The recipient has taken this chain now, or it is as it was before.
      · subst here
        rcases sound.covered d old parcel.recipient listed apart with
          flies | ⟨g, present, current, knows⟩
        · by_cases this : (⟨d.sender, parcel.recipient, d⟩ : Parcel) = parcel
          · have same : parcel.d = d := congrArg Parcel.d this.symm
            exact .inr ⟨next, Function.update_self .., accepts.arrived.epoch, same ▸ accepts.taken⟩
          · exact .inl (List.mem_append_left _ ((List.mem_erase_of_ne this).2 flies))
        · exact .inr ⟨next, Function.update_self .., accepts.arrived.epoch,
            accepts.kept g present current d old knows⟩
      · rcases sound.covered d old peer listed apart with flies | ⟨g, present, rest⟩
        · have this : (⟨d.sender, peer, d⟩ : Parcel) ≠ parcel := fun same =>
            here (congrArg Parcel.recipient same)
          exact .inl (List.mem_append_left _ ((List.mem_erase_of_ne this).2 flies))
        · exact .inr ⟨g, (Function.update_of_ne here ..).trans present, rest⟩
    · have sender := (accepts.announces d new).2
      refine .inl (List.mem_append_right _ (List.mem_flatMap.2 ⟨d, new, ?_⟩))
      exact mem_parcels_iff.2 ⟨sender, rfl, listed, sender ▸ apart⟩

theorem Sound.deliver (sound : c.Sound S call) (mem : parcel ∈ c.inFlight) (now : UInt64)
    (source : G) : Sound S call (c.deliver S call.members parcel now source) := by
  obtain ⟨next, ours, received, accepts⟩ := sound.exists_accepts mem now source
  simp only [Change.deliver, received]
  exact sound.accept accepts

theorem heard_act_of_ne {event : Event} {other : IdentityKey} (apart : other ≠ peer) :
    (c.act S peer g event source).heard call other = c.heard call other := by
  funext sender
  simp only [heard, act, Function.update_of_ne apart]

theorem heard_act_of_current {event : Event} (current : g.epoch = call.next)
    (sender : IdentityKey) :
    (c.act S peer g event source).heard call peer sender =
      c.heard call peer sender ++ numbers (g.opened S event) g.epoch sender := by
  simp only [heard, act, Function.update_self, ← current, numbers_append, numbers_filter]

theorem heard_act_of_earlier {event : Event} (earlier : g.epoch < call.next)
    (sender : IdentityKey) :
    (c.act S peer g event source).heard call peer sender = c.heard call peer sender := by
  simp only [heard, act, Function.update_self, numbers_append,
    numbers_filter_of_ne _ (UInt64.ne_of_lt earlier), List.append_nil]

theorem Arrived.act (arrived : Arrived S call c.returned (c.heard call peer) peer g)
    {event : Event} (remains : Remains S g event (g.step S source event).1) :
    Arrived S call c.returned ((c.act S peer g event source).heard call peer) peer
      (g.step S source event).1 := by
  obtain ⟨d, mem, sender, begins⟩ := arrived.own
  refine ⟨remains.epoch.trans arrived.epoch, remains.members.trans arrived.members, arrived.listed,
    ⟨d, mem, sender, remains.begins d begins⟩, ?_⟩
  rw [funext (heard_act_of_current arrived.epoch)]
  exact remains.traced _ _ arrived.traced

theorem Sound.other (sound : c.Sound S call) (present : c.group peer = some g) {event : Event}
    (minor : event.Minor call.next) (source : G) :
    Sound S call (c.act S peer g event source) := by
  obtain ⟨id, self, below, remains⟩ := step_of_minor S minor source (g := g)
  have here : (c.act S peer g event source).group peer = some (g.step S source event).1 :=
    Function.update_self ..
  have there {other : IdentityKey} (apart : other ≠ peer) :
      (c.act S peer g event source).group other = c.group other := Function.update_of_ne apart ..
  refine ⟨fun other h found => ?_, fun other => ?_, sound.announces, sound.distinct, sound.begun,
    sound.inFlight, fun d mem other listed apart => ?_⟩
  · by_cases same : other = peer
    · subst same
      cases here.symm.trans found
      exact ⟨id.trans (sound.own other g present).1, self.trans (sound.own other g present).2⟩
    · exact sound.own other h ((there same).symm.trans found)
  · by_cases same : other = peer
    · subst same
      rcases sound.stands other with waiting | ⟨h, present', arrived⟩
      · have earlier := waiting.earlier g present
        refine .inl ⟨fun h found => ?_, waiting.silent, fun sender => ?_⟩
        · cases here.symm.trans found
          exact below earlier
        · rw [heard_act_of_earlier earlier]
          exact waiting.unread sender
      · cases present.symm.trans present'
        exact .inr ⟨_, here, arrived.act (remains arrived.epoch)⟩
    · rcases sound.stands other with waiting | ⟨h, present', arrived⟩
      · refine .inl ⟨fun h found => waiting.earlier h ((there same).symm.trans found),
          waiting.silent, ?_⟩
        rw [heard_act_of_ne same]
        exact waiting.unread
      · refine .inr ⟨h, (there same).trans present', ?_⟩
        rw [heard_act_of_ne same]
        exact arrived
  · rcases sound.covered d mem other listed apart with flies | ⟨h, present', current, knows⟩
    · exact .inl flies
    · by_cases same : other = peer
      · subst same
        cases present.symm.trans present'
        have remains := remains current
        exact .inr ⟨_, here, remains.epoch.trans current, remains.knows _ _ knows⟩
      · exact .inr ⟨h, (there same).trans present', current, knows⟩

theorem Sound.begin {group : IdentityKey → Option Group}
    (own : ∀ peer g, group peer = some g → g.id = call.id ∧ g.self = peer)
    (earlier : ∀ peer g, group peer = some g → peer ≠ call.updater → g.epoch < call.next)
    (present : group call.updater = some g) (epoch : g.epoch = call.epoch)
    (short : HasNext call.epoch) (now : UInt64) (source : G) :
    Sound S call (Change.begin group call (g.updateMembers S call.listed now source).1) := by
  obtain ⟨id, self⟩ := own call.updater g present
  rw [updateMembers_of_short S (epoch ▸ short)]
  let next := (g.enter (g.epoch + 1) (call.listed ++ [g.self]) now source).1
  let d := next.distribution S
  let c : Change := ⟨Function.update group call.updater (some next),
    parcels call.members call.updater d, [d], fun _ => []⟩
  have current : next.epoch = call.next := congrArg (· + 1) epoch
  have members : next.members = call.members := by
    change SortedSet.ofList (call.listed ++ [g.self]) = _
    rw [self]
    rfl
  have here : c.group call.updater = some next := Function.update_self ..
  have there {peer : IdentityKey} (apart : peer ≠ call.updater) : c.group peer = group peer :=
    Function.update_of_ne apart ..
  have listed : call.updater ∈ call.members.toList :=
    SortedSet.mem_toList_ofList.2 (List.mem_append_right _ (List.mem_singleton_self _))
  have mem : d ∈ c.returned := List.mem_singleton_self _
  change Sound S call c
  refine ⟨fun peer h found => ?_, fun peer => ?_, fun other mem => ?_, List.nodup_singleton _,
    ⟨d, mem, self⟩, fun parcel mem => ?_, fun other mem peer inside apart => ?_⟩
  · by_cases same : peer = call.updater
    · subst same
      cases here.symm.trans found
      exact ⟨id, self⟩
    · exact own peer h ((there same).symm.trans found)
  · by_cases same : peer = call.updater
    · subst same
      exact .inr ⟨next, here, current, members, listed, ⟨d, mem, self, rfl, rfl, 0, rfl⟩,
        .of_chains_empty rfl fun _ => rfl⟩
    · refine .inl ⟨fun h found => earlier peer h ((there same).symm.trans found) same, ?_,
        fun _ => rfl⟩
      intro other mem
      rw [List.mem_singleton.1 mem]
      exact fun sender => same (sender.symm.trans self)
  · rw [List.mem_singleton.1 mem]
    exact ⟨id, current, congrArg SortedSet.toList members, rfl⟩
  · obtain ⟨sender, same, inside, -⟩ := mem_parcels_iff.1 mem
    rw [same]
    exact ⟨List.mem_singleton_self _, sender.trans self.symm, inside⟩
  · rw [List.mem_singleton.1 mem] at apart ⊢
    exact .inl (mem_parcels_iff.2 ⟨self, rfl, inside, fun same => apart (same.trans self.symm)⟩)

theorem Run.sound (run : Run S G call c) : c.Sound S call := by
  induction run with
  | update own earlier present epoch short now source =>
    exact .begin own earlier present epoch short now source
  | deliver _ mem now source sound => exact sound.deliver mem now source
  | other _ present minor source sound => exact sound.other present minor source

theorem Run.toNat_next (run : Run S G call c) : call.next.toNat = call.epoch.toNat + 1 := by
  induction run with
  | update _ _ _ _ short => exact HasNext.toNat_add_one short
  | deliver _ _ _ _ ih => exact ih
  | other _ _ _ _ ih => exact ih

/-! ### How it ends -/

/-- Deliveries which are still to come, if every member which is silent yet writes to all others. -/
def remaining (call : Call) (c : Change) : Nat :=
  call.members.toList.length * (call.members.toList.length - c.returned.length) +
    c.inFlight.length

theorem Sound.length_returned_le (sound : c.Sound S call) :
    c.returned.length ≤ call.members.toList.length := by
  have listed : c.returned.map (·.sender) ⊆ call.members.toList := by
    intro sender inside
    obtain ⟨d, mem, rfl⟩ := List.mem_map.1 inside
    exact sound.sender_listed mem
  have short := (sound.distinct.subperm listed).length_le
  rwa [List.length_map] at short

theorem length_parcels_le : (parcels members sender d).length ≤ members.toList.length := by
  rw [parcels, List.length_map]
  exact List.length_filter_le ..

theorem Sound.remaining_deliver_lt (sound : c.Sound S call) (mem : parcel ∈ c.inFlight)
    (now : UInt64) (source : G) :
    (c.deliver S call.members parcel now source).remaining call < c.remaining call := by
  obtain ⟨next, ours, received, accepts⟩ := sound.exists_accepts mem now source
  have short := (sound.accept accepts).length_returned_le
  have posted : (ours.toList.flatMap (parcels call.members parcel.recipient)).length ≤
      call.members.toList.length * ours.toList.length := by
    cases ours with
    | none => simp
    | some d => simpa using length_parcels_le
  have some := List.length_pos_of_mem mem
  simp only [Change.deliver, received, remaining, List.length_append,
    List.length_erase_of_mem mem] at short ⊢
  have split : call.members.toList.length - c.returned.length =
      call.members.toList.length - (c.returned.length + ours.toList.length) +
        ours.toList.length := by omega
  rw [split, Nat.mul_add]
  omega

/-- Whatever has happened so far, the last parcel arrives. -/
theorem Run.exists_delivered (run : Run S G call c) (source : G) :
    ∃ last, Run S G call last ∧ last.inFlight = [] := by
  induction size : c.remaining call using Nat.strongRecOn generalizing c with
  | ind size' ih =>
    cases flies : c.inFlight with
    | nil => exact ⟨c, run, flies⟩
    | cons parcel rest =>
      have mem : parcel ∈ c.inFlight := flies ▸ List.mem_cons_self
      have less := run.sound.remaining_deliver_lt mem 0 source
      exact ih _ (size ▸ less) (run.deliver mem 0 source) rfl

theorem Sound.arrived (sound : c.Sound S call) (delivered : c.inFlight = [])
    (listed : peer ∈ call.members.toList) :
    ∃ g, c.group peer = some g ∧ Arrived S call c.returned (c.heard call peer) peer g := by
  rcases sound.stands peer with waiting | arrived
  · obtain ⟨d, mem, sender⟩ := sound.begun
    -- The updater's chain has come, and brought the new epoch if nothing did before.
    rcases sound.covered d mem peer listed (waiting.silent d mem).symm with
      flies | ⟨g, present, current, -⟩
    · simp [delivered] at flies
    · have earlier := waiting.earlier g present
      rw [current] at earlier
      exact absurd earlier (UInt64.lt_irrefl _)
  · exact arrived

theorem Sound.knows (sound : c.Sound S call) (delivered : c.inFlight = [])
    (listed : peer ∈ call.members.toList) (mem : d ∈ c.returned) (apart : d.sender ≠ peer)
    (present : c.group peer = some g) : g.Knows d.sender d := by
  rcases sound.covered d mem peer listed apart.symm with flies | ⟨h, present', -, knows⟩
  · simp [delivered] at flies
  · cases present.symm.trans present'
    exact knows

theorem Sound.returned_perm (sound : c.Sound S call) (delivered : c.inFlight = []) :
    (c.returned.map (·.sender)).Perm call.members.toList := by
  refine (List.perm_ext_iff_of_nodup sound.distinct call.members.nodup_toList).2 fun peer => ?_
  constructor
  · intro inside
    obtain ⟨d, mem, rfl⟩ := List.mem_map.1 inside
    exact sound.sender_listed mem
  · intro listed
    obtain ⟨g, -, arrived⟩ := sound.arrived delivered listed
    obtain ⟨d, mem, sender, -⟩ := arrived.own
    exact List.mem_map.2 ⟨d, mem, sender⟩

theorem Sound.refuses (sound : c.Sound S call) (mem : d ∈ c.returned)
    (outside : peer ∉ call.members.toList) (now : UInt64) (source : G) :
    receive S (c.group peer) peer d.sender d now source = .error (.notMember peer) := by
  have unlisted : peer ∉ d.members := (sound.announces d mem).members ▸ outside
  have waiting : c.Waiting call peer :=
    (sound.stands peer).resolve_right fun ⟨_, _, arrived⟩ => outside arrived.listed
  exact receive_of_outsider unlisted (sound.earlier_of_waiting waiting mem) now source

/-- Every chain which is under way is accepted. When all have arrived, each member has handed out
one chain, is in the new epoch with its members, and has the chain of each other one: the one it
handed out and uses, moved on by its messages which were opened. Who is not on the list is refused
as long as the change lasts. -/
theorem Run.converges (run : Run S G call c) :
    (∀ parcel ∈ c.inFlight, ∀ (now : UInt64) (source : G),
      ∃ accepted, receive S (c.group parcel.recipient) parcel.recipient parcel.sender parcel.d now
        source = .ok accepted) ∧
    (c.inFlight = [] → (c.returned.map (·.sender)).Perm call.members.toList ∧
      call.next.toNat = call.epoch.toNat + 1 ∧ (∀ d ∈ c.returned, d.epoch = call.next) ∧
      ∀ peer ∈ call.members.toList, ∃ g, c.group peer = some g ∧ g.epoch = call.next ∧
        g.members = call.members ∧ ∀ other ∈ call.members.toList, other ≠ peer →
          ∃ h d held, c.group other = some h ∧ d ∈ c.returned ∧ d.sender = other ∧
            d.Begins S h.ownChain ∧ g.chains.get? other = some held ∧
            held.Continues S d (c.heard call peer other)) ∧
    ∀ d ∈ c.returned, ∀ peer, peer ∉ call.members.toList → ∀ (now : UInt64) (source : G),
      receive S (c.group peer) peer d.sender d now source = .error (.notMember peer) := by
  have sound := run.sound
  refine ⟨fun parcel mem now source => ?_, fun delivered => ?_,
    fun d mem peer outside => sound.refuses mem outside⟩
  · obtain ⟨next, ours, received, -⟩ := sound.exists_accepts mem now source
    exact ⟨_, received⟩
  · refine ⟨sound.returned_perm delivered, run.toNat_next,
      fun d mem => (sound.announces d mem).epoch, ?_⟩
    intro peer listed
    obtain ⟨g, present, arrived⟩ := sound.arrived delivered listed
    refine ⟨g, present, arrived.epoch, arrived.members, fun other inside apart => ?_⟩
    obtain ⟨h, present', arrived'⟩ := sound.arrived delivered inside
    obtain ⟨d, mem, rfl, begins⟩ := arrived'.own
    obtain ⟨held, found, -⟩ := sound.knows delivered listed mem apart present
    obtain ⟨d', mem', same, continues⟩ := arrived.traced.held _ held found
    rw [sound.eq_of_sender mem' mem same] at continues
    exact ⟨h, d, held, present', mem, rfl, begins, found, continues⟩

end Change

end

/-- A founder takes a third peer in, who has nothing of the group yet. -/
theorem third_peer_joins :
    ∃ (founder peer third : IdentityKey) (c : Change), [founder, peer, third].Nodup ∧
      Change.Run .standard KeyStream ⟨⟨.replicate 16 0⟩, founder, 0, [peer, third]⟩ c ∧
      c.inFlight = [] ∧ ∀ member ∈ [founder, peer, third], ∃ g, c.group member = some g ∧
        g.epoch = 1 ∧ ∀ other ∈ [founder, peer, third], other ≠ member →
          g.hasChain other = true := by
  let founder : IdentityKey := ⟨⟨.replicate 32 0⟩, ⟨.replicate 32 0⟩⟩
  let peer : IdentityKey := ⟨⟨.replicate 32 1⟩, ⟨.replicate 32 1⟩⟩
  let third : IdentityKey := ⟨⟨.replicate 32 2⟩, ⟨.replicate 32 2⟩⟩
  let source : KeyStream := ⟨.replicate 32 0, 0⟩
  let call : Call := ⟨⟨.replicate 16 0⟩, founder, 0, [peer, third]⟩
  let founded := (found .standard call.id founder [peer] source).1.1
  let joined := (start call.id peer 0 [founder] source).1
  let group : IdentityKey → Option Group :=
    Function.update (Function.update (fun _ => none) peer (some joined)) founder (some founded)
  have cases {member : IdentityKey} {g : Group} (present : group member = some g) :
      member = founder ∧ g = founded ∨ member = peer ∧ g = joined := by
    simp only [group, Function.update_apply] at present
    split at present
    · exact .inl ⟨‹_›, (Option.some.inj present).symm⟩
    · split at present
      · exact .inr ⟨‹_›, (Option.some.inj present).symm⟩
      · cases present
  have run : Change.Run .standard KeyStream call
      (Change.begin group call (founded.updateMembers .standard call.listed 0 source).1) := by
    refine .update (fun member g present => ?_) (fun member g present other => ?_)
      (Function.update_self ..) rfl (by decide) 0 source
    · rcases cases present with ⟨rfl, rfl⟩ | ⟨rfl, rfl⟩ <;> exact ⟨rfl, rfl⟩
    · rcases cases present with ⟨rfl, rfl⟩ | ⟨rfl, rfl⟩
      · exact absurd rfl other
      · exact (by decide : (0 : UInt64) < 0 + 1)
  obtain ⟨last, run, delivered⟩ := run.exists_delivered source
  obtain ⟨-, arrived, -⟩ := run.converges
  have listed {member : IdentityKey} (mem : member ∈ [founder, peer, third]) :
      member ∈ call.members.toList := by
    rw [Call.members, SortedSet.mem_toList_ofList]
    simp only [call, List.mem_append, List.mem_cons, List.not_mem_nil, or_false] at mem ⊢
    tauto
  refine ⟨founder, peer, third, last, by decide, run, delivered, fun member mem => ?_⟩
  obtain ⟨g, present, epoch, -, chains⟩ := (arrived delivered).2.2.2 member (listed mem)
  refine ⟨g, present, epoch, fun other inside distinct => ?_⟩
  obtain ⟨_, _, held, -, -, -, -, found, -⟩ := chains other (listed inside) distinct
  exact hasChain_iff.2 ⟨held, found⟩

end Confide.Group
