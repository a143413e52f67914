import Confide.Proofs.Group.Replay
import Mathlib.Logic.Relation

/-! What is true of a group at any time, whatever was done with it and whatever has arrived: we are
one of its members, all chains of the epoch belong to members, the epochs which were left are in
order before it, and the keys which a chain keeps lie behind it. -/

set_option autoImplicit false

namespace Confide.Group

section
variable {G : Type} [Entropy G] (S : Suite)

def Becomes (G : Type) [Entropy G] : Group → Group → Prop :=
  Relation.ReflTransGen fun g next =>
    ∃ (source : G) (event : Event), next = (g.step S source event).1

end

variable {G : Type} [Entropy G] {S : Suite} {g later : Group} {sender : IdentityKey}
  {d : Distribution} {epoch : UInt64} {members : List IdentityKey}

/-! ### The members -/

/-- We are a member ourselves, and so is everybody whose chain we know. -/
structure Manned (g : Group) : Prop where
  self : g.isMember g.self = true
  owners : ∀ peer, g.hasChain peer = true → g.isMember peer = true

theorem Manned.of_same (manned : g.Manned) {next : Group} (self : next.self = g.self)
    (members : next.members = g.members) (chains : next.chains = g.chains) : next.Manned := by
  constructor
  · rw [isMember, self, members]
    exact manned.self
  · intro peer has
    rw [hasChain, chains] at has
    rw [isMember, members]
    exact manned.owners peer has

theorem manned_of_chains_empty (self : g.isMember g.self = true) (none : g.chains = .empty) :
    g.Manned := by
  refine ⟨self, fun peer has => ?_⟩
  rw [hasChain, none] at has
  cases has

theorem Manned.learned (manned : g.Manned) (member : g.isMember sender = true) :
    (g.learned sender d).Manned := by
  constructor
  · rw [self_learned, isMember_learned]
    exact manned.self
  · intro peer has
    rw [isMember_learned]
    by_cases same : peer = sender
    · rw [same]
      exact member
    · rw [hasChain, SortedMap.contains, get?_learned_of_ne same] at has
      exact manned.owners peer has

theorem Manned.setChain (manned : g.Manned) {c old : MemberChain}
    (found : g.findChain epoch sender = .ok old) : (g.setChain epoch sender c).Manned := by
  constructor
  · rw [setChain_eq]
    exact manned.self
  · intro peer has
    have member : (g.setChain epoch sender c).isMember peer = g.isMember peer := by
      rw [setChain_eq]
      rfl
    rw [member]
    refine manned.owners peer ?_
    by_cases other : peer ≠ sender ∨ epoch ≠ g.epoch
    · rw [hasChain, SortedMap.contains, get?_setChain_of_other other] at has
      exact has
    -- Only a chain which was there is replaced.
    · rw [not_or, not_not, not_not] at other
      obtain ⟨rfl, rfl⟩ := other
      exact hasChain_iff.2 ⟨old, findChain_current_iff.1 found⟩

theorem manned_enter (inside : g.self ∈ members) (epoch now : UInt64) (source : G) :
    (g.enter epoch members now source).1.Manned :=
  manned_of_chains_empty (isMember_enter.2 inside) rfl

theorem manned_start (id : GroupId) (self : IdentityKey) (epoch : UInt64)
    (listed : List IdentityKey) (source : G) : (start id self epoch listed source).1.Manned :=
  manned_of_chains_empty
    (isMember_start.2 (List.mem_append_right _ (List.mem_singleton_self _))) rfl

theorem Manned.step (manned : g.Manned) (source : G) (event : Event) :
    (g.step S source event).1.Manned := by
  have steps := step_cases S g source event
  generalize (g.step S source event).1 = next at steps
  cases steps with
  | refused => exact manned
  | encrypted plaintext short => exact manned.of_same rfl rfl rfl
  | decrypted opens => exact manned.setChain opens.found
  | followed follows => exact manned.learned follows.member
  | moved moves =>
    exact (manned_enter moves.self _ _ source).learned (isMember_enter.2 moves.listed)
  | updated members now short =>
    exact manned_enter (List.mem_append_right _ (List.mem_singleton_self _)) _ now source
  | purged now config => exact manned.of_same rfl rfl rfl

/-! ### Over all events -/

theorem Reachable.manned (reachable : Reachable S G g) : g.Manned := by
  induction reachable with
  | found id self listed source => exact manned_start id self 0 listed source
  | join joined =>
    obtain ⟨-, follows, rfl, -⟩ := (join_eq_ok_iff S).1 joined
    exact (manned_start _ _ _ _ _).learned follows.member
  | step source event _ manned => exact manned.step source event

theorem step_keeps (source : G) (event : Event) :
    g.epoch ≤ (g.step S source event).1.epoch ∧ (g.step S source event).1.id = g.id ∧
      (g.step S source event).1.self = g.self := by
  have steps := step_cases S g source event
  generalize (g.step S source event).1 = next at steps
  cases steps with
  | refused | encrypted | purged => exact ⟨UInt64.le_refl _, rfl, rfl⟩
  | decrypted opens =>
    rw [setChain_eq]
    exact ⟨UInt64.le_refl _, rfl, rfl⟩
  | followed follows =>
    rw [learned_eq]
    exact ⟨UInt64.le_refl _, rfl, rfl⟩
  | moved moves =>
    rw [learned_eq]
    exact ⟨UInt64.le_of_lt moves.newer, rfl, rfl⟩
  | updated members now short =>
    exact ⟨UInt64.le_of_lt (HasNext.lt_add_one short), rfl, rfl⟩

/-- What every step preserves is preserved over all events. -/
theorem Becomes.preserves {P : Group → Prop} (becomes : Becomes S G g later)
    (step : ∀ h (source : G) (event : Event), P h → P (h.step S source event).1) (start : P g) :
    P later := by
  induction becomes with
  | refl => exact start
  | tail _ next kept =>
    obtain ⟨source, event, rfl⟩ := next
    exact step _ source event kept

theorem Becomes.keeps (becomes : Becomes S G g later) :
    g.epoch ≤ later.epoch ∧ later.id = g.id ∧ later.self = g.self := by
  refine becomes.preserves (P := fun h => g.epoch ≤ h.epoch ∧ h.id = g.id ∧ h.self = g.self)
    (fun h source event kept => ?_) ⟨UInt64.le_refl _, rfl, rfl⟩
  obtain ⟨epoch, id, self⟩ := kept
  obtain ⟨epoch', id', self'⟩ := step_keeps (S := S) (g := h) source event
  exact ⟨UInt64.le_trans epoch epoch', id'.trans id, self'.trans self⟩

/-- Members own the chains, every epoch has one place after the ones before it, and a chain keeps
keys behind it only. What comes later is the same group in the same or a later epoch, and we are who
we were. -/
theorem Reachable.integrity (reachable : Reachable S G g) :
    g.isMember g.self = true ∧
    (∀ peer, g.hasChain peer = true → g.isMember peer = true) ∧
    ((g.retired.map (·.epoch)).Pairwise (· < ·) ∧ ∀ r ∈ g.retired, r.epoch < g.epoch) ∧
    (∀ epoch sender c, g.findChain epoch sender = .ok c ↔
      ∃ chains, (epoch, chains) ∈ g.shelves ∧ chains.get? sender = some c) ∧
    (∀ epoch chains sender c, (epoch, chains) ∈ g.shelves → chains.get? sender = some c →
      ∀ counter key, c.skipped.get? counter = some key → counter < c.chain.counter) ∧
    ∀ later, Becomes S G g later →
      g.epoch ≤ later.epoch ∧ later.id = g.id ∧ later.self = g.self := by
  have manned := reachable.manned
  have ordered := reachable.ordered S
  obtain ⟨ascending, -, past⟩ := List.pairwise_append.1 ordered
  refine ⟨manned.self, manned.owners, ⟨ascending, fun r mem => ?_⟩,
    fun epoch sender c => ordered.findChain_eq_ok_iff, ?_, fun later => Becomes.keeps⟩
  · exact past _ (List.mem_map_of_mem mem) _ (List.mem_singleton_self _)
  · intro epoch chains sender c mem found
    exact reachable.tidy epoch sender c (ordered.findChain_eq_ok_iff.2 ⟨chains, mem, found⟩)

/-- A founder follows a stranger to its epoch, opens the second message of the stranger and moves
on: the chain in the epoch which was left keeps the key of the first message. -/
theorem founder_keeps_passed_key :
    ∃ (g : Group) (stranger : IdentityKey) (c : MemberChain) (key : SealingKey),
      Reachable keyed KeyStream g ∧ g.retired.map (·.epoch) = [0, 1] ∧
        g.findChain 1 stranger = .ok c ∧ c.skipped.get? 0 = some key ∧ 0 < c.chain.counter := by
  let self : IdentityKey := ⟨⟨.replicate 32 0⟩, ⟨.replicate 32 0⟩⟩
  let stranger : IdentityKey := ⟨⟨.replicate 32 1⟩, ⟨.replicate 32 1⟩⟩
  let source : KeyStream := ⟨.replicate 32 0, 0⟩
  let signing : SigningKey := ⟨.replicate 32 2⟩
  let founded := (found keyed ⟨.replicate 16 0⟩ self [] source).1.1
  let d : Distribution := ⟨⟨.replicate 16 0⟩, 1, stranger, [self, stranger], .replicate 32 3, 0,
    keyed.verifyingKey signing⟩
  let followed := (founded.enter d.epoch d.members 0 source).1.learned stranger d
  let key := (d.memberChain.chain.next keyed).messageKey keyed
  let position : GroupPosition := ⟨d.groupId, 1, stranger, 1⟩
  let ciphertext := keyed.encrypt key position.toBytes [1]
  let message : GroupMessage := ⟨d.groupId, 1, stranger, 1, ciphertext,
    keyed.sign signing (position.signedBytes ciphertext)⟩
  let taken := d.memberChain.advanced keyed 1 {}
  have moves : founded.Moves stranger d :=
    ⟨List.mem_cons_of_mem _ (List.mem_singleton_self _), rfl, rfl, by decide, List.mem_cons_self⟩
  have held : followed.findChain 1 stranger = .ok d.memberChain :=
    findChain_current_iff.2 (get?_learned_self (not_knows_of_chains_empty rfl))
  have takes : d.memberChain.Takes (S := keyed) 1 {} key taken :=
    .ahead (by decide) (by decide) (by decide)
  have opens : followed.Opens keyed message {} d.memberChain taken [1] :=
    ⟨rfl, held, keyed_signs signing _, key, takes, keyed_decrypt?_encrypt key _ [1]⟩
  let opened := followed.setChain 1 stranger taken
  have one : (founded.step keyed source (.process stranger d 0)).1 = followed :=
    step_process_of_ok keyed (process_of_moves keyed moves 0 source)
  have two : (followed.step keyed source (.decrypt message {})).1 = opened :=
    step_decrypt_of_ok ((decrypt_eq_ok_iff keyed).2 ⟨_, taken, opens, rfl⟩) source
  have three : (opened.step keyed source (.update [] 5)).1 = (opened.enter 2 [self] 5 source).1 :=
    step_update_of_short keyed (by decide : HasNext 1) source [] 5
  have start : Reachable keyed KeyStream founded := .found ..
  have first := start.step source (.process stranger d 0)
  rw [one] at first
  have second := first.step source (.decrypt message {})
  rw [two] at second
  have third := second.step source (.update [] 5)
  rw [three] at third
  have room (key : SealingKey) : (MemberChain.keepAll .empty [(0, key)]
      (GroupConfig.maxSkippedKeys {}).toNat).get? 0 = some key := by
    rw [MemberChain.keepAll, List.foldl_cons, MemberChain.keep_eq_insert (by decide)]
    exact SortedMap.get?_insert_self
  have gap : d.memberChain.gap 1 = 1 := by decide
  have kept : taken.skipped.get? 0 = some (d.memberChain.chain.messageKey keyed) := by
    simp only [taken, MemberChain.advanced, gap, Chain.keys]
    exact room _
  obtain ⟨-, -, -, places, tidy, -⟩ := third.integrity
  have found : (opened.enter 2 [self] 5 source).1.findChain 1 stranger = .ok taken :=
    ((second.ordered keyed).findChain_enter_iff (by decide : (1 : UInt64) < 2)).2
      (findChain_setChain_self held)
  obtain ⟨chains, mem, here⟩ := (places 1 stranger taken).1 found
  exact ⟨_, stranger, taken, _, third, rfl, found, kept,
    tidy 1 chains stranger taken mem here 0 _ kept⟩

end Confide.Group
