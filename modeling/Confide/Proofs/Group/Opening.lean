import Confide.Proofs.Group.Epochs
import Confide.Proofs.Group.Eviction

/-! What it takes to open a message, and what opening it changes. A message has to be signed by the
owner of the chain before the chain is asked for a key, and nothing but that one chain of that one
epoch changes. -/

set_option autoImplicit false

namespace Confide

namespace MemberChain

variable (S : Suite)

/-- The key with this number: one which was kept, or the one which the chain reaches. -/
def keyAt? (c : MemberChain) (counter : UInt64) : Option SealingKey :=
  if counter < c.chain.counter then c.skipped.get? counter
  else some ((c.chain.after S (c.gap counter)).messageKey S)

/-- The chain without the key with this number, and not before it. -/
def past (c : MemberChain) (counter : UInt64) (config : GroupConfig) : MemberChain where
  chain := c.chain.after S (counter.toNat + 1 - c.chain.counter.toNat)
  verifyingKey := c.verifyingKey
  skipped :=
    if counter < c.chain.counter then c.skipped.erase counter
    else if c.gap counter = 0 then c.skipped
    else (c.offered S counter).highest config.maxSkippedKeys.toNat

variable {S} {c taken : MemberChain} {counter : UInt64} {config : GroupConfig} {key : SealingKey}

theorem gap_of_behind (behind : counter < c.chain.counter) : c.gap counter = 0 :=
  Nat.sub_eq_zero_of_le (Nat.le_of_lt (UInt64.lt_iff_toNat_lt.1 behind))

theorem past_of_behind (behind : counter < c.chain.counter) :
    c.past S counter config = { c with skipped := c.skipped.erase counter } := by
  have none : counter.toNat + 1 - c.chain.counter.toNat = 0 :=
    Nat.sub_eq_zero_of_le (UInt64.lt_iff_toNat_lt.1 behind)
  rw [past, none, if_pos behind]
  rfl

theorem past_of_reached (reached : c.chain.counter ≤ counter) :
    c.past S counter config = c.advanced S counter config := by
  have steps : counter.toNat + 1 - c.chain.counter.toNat = c.gap counter + 1 :=
    Nat.succ_sub (UInt64.le_iff_toNat_le.1 reached)
  rw [past, steps, if_neg (UInt64.not_lt.2 reached), ← skipped_advanced]
  rfl

theorem takes_iff :
    c.Takes S counter config key taken ↔ c.keyAt? S counter = some key ∧
      c.gap counter ≤ config.maxSkip.toNat ∧ HasNext counter ∧
      taken = c.past S counter config := by
  constructor
  · intro takes
    cases takes with
    | kept behind found =>
      have low := UInt64.lt_iff_toNat_lt.1 behind
      have bound := c.chain.counter.toNat_lt
      rw [keyAt?, if_pos behind, gap_of_behind behind, past_of_behind behind]
      exact ⟨found, Nat.zero_le _, by omega, rfl⟩
    | ahead reached near short =>
      rw [keyAt?, if_neg (UInt64.not_lt.2 reached), past_of_reached reached]
      exact ⟨rfl, near, short, rfl⟩
  · rintro ⟨number, near, short, rfl⟩
    unfold keyAt? at number
    split at number
    · rename_i behind
      rw [past_of_behind behind]
      exact .kept behind number
    · rename_i reached
      cases number
      rw [past_of_reached (UInt64.not_lt.1 reached)]
      exact .ahead (UInt64.not_lt.1 reached) near short

theorem toNat_counter_past (config : GroupConfig) (short : HasNext counter) :
    (c.past S counter config).chain.counter.toNat =
      max c.chain.counter.toNat (counter.toNat + 1) := by
  have bound := c.chain.counter.toNat_lt
  rw [past, Chain.toNat_counter_after S (by omega)]
  omega

theorem take_eq_tooManySkipped_iff {gap limit : UInt64} :
    c.take S counter config = .error (.tooManySkipped gap limit) ↔
      c.chain.counter ≤ counter ∧ config.maxSkip < gap ∧ gap = counter - c.chain.counter ∧
        limit = config.maxSkip := by
  unfold take
  by_cases behind : counter < c.chain.counter
  · rw [if_pos behind]
    refine iff_of_false ?_ fun h => UInt64.not_lt.2 h.1 behind
    split <;> nofun
  · rw [if_neg behind, and_iff_right (UInt64.not_lt.1 behind)]
    dsimp only
    split
    · rename_i far
      simp only [Except.error.injEq, Group.Error.tooManySkipped.injEq]
      constructor
      · rintro ⟨rfl, rfl⟩
        exact ⟨far, rfl, rfl⟩
      · rintro ⟨-, rfl, rfl⟩
        exact ⟨rfl, rfl⟩
    · rename_i near
      refine iff_of_false (by split <;> nofun) ?_
      rintro ⟨far, rfl, -⟩
      exact near far

theorem take_eq_overflow_iff :
    c.take S counter config = .error .overflow ↔
      counter.toNat = 2 ^ 64 - 1 ∧ c.gap counter ≤ config.maxSkip.toNat := by
  have bound := c.chain.counter.toNat_lt
  have bound' := counter.toNat_lt
  rw [take_eq]
  split
  · rename_i behind
    rw [UInt64.lt_iff_toNat_lt] at behind
    refine iff_of_false (by split <;> nofun) ?_
    rintro ⟨last, -⟩
    omega
  · split
    · exact iff_of_false nofun fun h => absurd h.2 (Nat.not_le.2 ‹_›)
    · split
      · exact iff_of_false nofun fun h => absurd h.1 (Nat.ne_of_lt ‹_›)
      · exact iff_of_true rfl ⟨by omega, Nat.not_lt.1 ‹_›⟩

end MemberChain

namespace Group

/-- The groups differ in one chain of one epoch, the first place where it is looked for: there the
one has `c`, the other one `taken`. -/
inductive Exchanges (g : Group) (epoch : UInt64) (sender : IdentityKey) (c taken : MemberChain) :
    Group → Prop where
  | current (here : epoch = g.epoch) (found : g.chains.get? sender = some c) :
      Exchanges g epoch sender c taken { g with chains := g.chains.insert sender taken }
  | retired {before after : List RetiredEpoch} {r : RetiredEpoch} (left : epoch ≠ g.epoch)
      (split : g.retired = before ++ r :: after) (first : ∀ other ∈ before, other.epoch ≠ epoch)
      (here : r.epoch = epoch) (found : r.chains.get? sender = some c) :
      Exchanges g epoch sender c taken
        { g with retired := before ++ { r with chains := r.chains.insert sender taken } :: after }

/-- What a message has to be to be opened, with the chain which gives its key. -/
structure Authentic (S : Suite) (g : Group) (message : GroupMessage) (config : GroupConfig)
    (c : MemberChain) (plaintext : Bytes) : Prop where
  group : message.groupId = g.id
  found : g.findChain message.epoch message.sender = .ok c
  verified : S.verify c.verifyingKey (message.position.signedBytes message.ciphertext)
    message.signature = .ok ()
  near : c.gap message.counter ≤ config.maxSkip.toNat
  short : HasNext message.counter
  opened : ∃ key, c.keyAt? S message.counter = some key ∧
    S.decrypt? key message.position.toBytes message.ciphertext = some plaintext

variable {S : Suite} {g next : Group} {message : GroupMessage} {config : GroupConfig}
  {plaintext : Bytes} {epoch : UInt64} {sender : IdentityKey} {c taken : MemberChain}

theorem opens_iff :
    g.Opens S message config c taken plaintext ↔
      g.Authentic S message config c plaintext ∧ taken = c.past S message.counter config := by
  constructor
  · rintro ⟨group, found, verified, key, takes, opened⟩
    obtain ⟨number, near, short, past⟩ := MemberChain.takes_iff.1 takes
    exact ⟨⟨group, found, verified, near, short, key, number, opened⟩, past⟩
  · rintro ⟨⟨group, found, verified, near, short, key, number, opened⟩, past⟩
    exact ⟨group, found, verified, key, MemberChain.takes_iff.2 ⟨number, near, short, past⟩,
      opened⟩

theorem setRetired_append {before after : List RetiredEpoch} {r : RetiredEpoch}
    (first : ∀ other ∈ before, other.epoch ≠ epoch) (here : r.epoch = epoch) :
    setRetired epoch sender taken (before ++ r :: after) =
      before ++ { r with chains := r.chains.insert sender taken } :: after := by
  induction before with
  | nil => rw [List.nil_append, setRetired, if_pos here, List.nil_append]
  | cons other rest ih =>
    rw [List.cons_append, setRetired, if_neg (first other List.mem_cons_self),
      ih fun later mem => first later (List.mem_cons_of_mem _ mem), List.cons_append]

theorem exchanges_iff (found : g.findChain epoch sender = .ok c) :
    g.Exchanges epoch sender c taken next ↔ next = g.setChain epoch sender taken := by
  obtain ⟨chains, place, here⟩ := findChain_eq_ok_iff.1 found
  constructor
  · intro exchanges
    cases exchanges with
    | current current => rw [setChain, if_pos current]
    | retired left split first same =>
      rw [setChain, if_neg left, split, setRetired_append first same]
  · rintro rfl
    unfold chainsOf? at place
    -- A chain is replaced in the first place with its epoch, which is where it was found.
    by_cases current : epoch = g.epoch
    · rw [if_pos current, Option.some.injEq] at place
      rw [setChain, if_pos current]
      exact .current current (place ▸ here)
    · rw [if_neg current] at place
      obtain ⟨r, first, rfl⟩ := Option.map_eq_some_iff.1 place
      obtain ⟨same, before, after, split, others⟩ := List.find?_eq_some_iff_append.1 first
      have others : ∀ other ∈ before, other.epoch ≠ epoch := by simpa using others
      have same : r.epoch = epoch := of_decide_eq_true same
      rw [setChain, if_neg current, split, setRetired_append others same]
      exact .retired current split others same here

/-- Only the number of an authentic message can be the reason. -/
def Error.OfNumber : Error → Prop
  | .tooManySkipped _ _ | .overflow => True
  | _ => False

theorem decrypt_eq_error_iff {error : Error} (number : error.OfNumber) :
    g.decrypt S message config = .error error ↔
      message.groupId = g.id ∧ ∃ c, g.findChain message.epoch message.sender = .ok c ∧
        S.verify c.verifyingKey (message.position.signedBytes message.ciphertext)
          message.signature = .ok () ∧
        c.take S message.counter config = .error error := by
  constructor
  · intro h
    unfold decrypt at h
    split at h
    · cases h
      exact number.elim
    rename_i group
    split at h
    · rename_i missing
      cases h
      unfold findChain at missing
      split at missing
      · cases missing
        exact number.elim
      · split at missing <;> cases missing
        exact number.elim
    rename_i c found
    split at h
    · cases h
      exact number.elim
    rename_i verified
    split at h
    · rename_i refused
      cases h
      exact ⟨not_not.1 group, c, found, verified, refused⟩
    · split at h <;> cases h
      exact number.elim
  · rintro ⟨group, c, found, verified, refused⟩
    simp only [decrypt, group, found, verified, refused, ne_eq, not_true_eq_false, if_false]

theorem Installed.authentic {origin : Group} {i : Nat}
    (installed : Installed (origin.distribution S) g)
    (sealing : ∀ key associated plaintext,
      S.decrypt? key associated (S.encrypt key associated plaintext) = some plaintext)
    (signs : S.Signs origin.ownChain.signingKey
      ((origin.utterance S i plaintext).position.signedBytes
        (origin.utterance S i plaintext).ciphertext))
    (short : origin.ownChain.chain.counter.toNat + i < 2 ^ 64 - 1)
    (near : i ≤ config.maxSkip.toNat) :
    g.Authentic S (origin.utterance S i plaintext) config (origin.distribution S).memberChain
      plaintext := by
  obtain ⟨id, epoch, chain⟩ := installed
  have number := Chain.toNat_counter_after S (by omega :
    origin.ownChain.chain.counter.toNat + i < 2 ^ 64)
  have gap : (origin.distribution S).memberChain.gap (origin.utterance S i plaintext).counter =
      i := by
    change (origin.ownChain.chain.after S i).counter.toNat - origin.ownChain.chain.counter.toNat = i
    omega
  have reached : ¬(origin.utterance S i plaintext).counter <
      (origin.distribution S).memberChain.chain.counter := by
    change ¬(origin.ownChain.chain.after S i).counter < origin.ownChain.chain.counter
    rw [UInt64.lt_iff_toNat_lt]
    omega
  have found : g.findChain origin.epoch origin.self = .ok (origin.distribution S).memberChain := by
    have current : origin.epoch = g.epoch := epoch
    rw [current]
    exact findChain_current_iff.2 chain
  refine ⟨id, found, signs, gap.le.trans near, number.trans_lt short, _, ?_, sealing _ _ _⟩
  rw [MemberChain.keyAt?, if_neg reached, gap]
  rfl

/-- Exactly the authentic messages are opened, and a message is not said to be too far ahead unless
its signature holds. Opening a message takes its key out of the chain, or moves the chain behind it
and keeps the keys on the way as long as there is room, and nothing else changes. -/
theorem decrypt_touches_one_chain (S : Suite) (g : Group) (message : GroupMessage)
    (config : GroupConfig) :
    (∀ next plaintext, g.decrypt S message config = .ok (next, plaintext) ↔
      ∃ c, g.Authentic S message config c plaintext ∧
        g.Exchanges message.epoch message.sender c (c.past S message.counter config) next) ∧
    (HasNext message.counter → ∀ c : MemberChain,
      (c.past S message.counter config).chain.counter.toNat =
        max c.chain.counter.toNat (message.counter.toNat + 1)) ∧
    (∀ next plaintext, g.decrypt S message config = .ok (next, plaintext) →
      ∀ epoch sender, (epoch, sender) ≠ (message.epoch, message.sender) →
        next.findChain epoch sender = g.findChain epoch sender) ∧
    ∀ gap limit, g.decrypt S message config = .error (.tooManySkipped gap limit) ↔
      message.groupId = g.id ∧ ∃ c, g.findChain message.epoch message.sender = .ok c ∧
        S.verify c.verifyingKey (message.position.signedBytes message.ciphertext)
          message.signature = .ok () ∧
        c.chain.counter ≤ message.counter ∧ config.maxSkip < gap ∧
        gap = message.counter - c.chain.counter ∧ limit = config.maxSkip := by
  refine ⟨fun next plaintext => ?_, fun short c => MemberChain.toNat_counter_past config short,
    fun next plaintext decrypted epoch sender apart => ?_, fun gap limit => ?_⟩
  · simp only [decrypt_eq_ok_iff, opens_iff]
    constructor
    · rintro ⟨c, taken, ⟨authentic, rfl⟩, rfl⟩
      exact ⟨c, authentic, (exchanges_iff authentic.found).2 rfl⟩
    · rintro ⟨c, authentic, exchanges⟩
      exact ⟨c, _, ⟨authentic, rfl⟩, (exchanges_iff authentic.found).1 exchanges⟩
  · obtain ⟨c, taken, -, rfl⟩ := (decrypt_eq_ok_iff S).1 decrypted
    exact findChain_setChain_of_ne apart
  · have number : Error.OfNumber (.tooManySkipped gap limit) := trivial
    simp only [decrypt_eq_error_iff number, MemberChain.take_eq_tooManySkipped_iff]

theorem exists_installed (S : Suite) (counter : UInt64) :
    ∃ g origin : Group, Reachable S KeyStream g ∧
      Installed (origin.distribution S) g ∧ g.epoch = 0 ∧
        origin.ownChain.chain.counter = counter := by
  let self : IdentityKey := ⟨⟨.replicate 32 0⟩, ⟨.replicate 32 0⟩⟩
  let peer : IdentityKey := ⟨⟨.replicate 32 1⟩, ⟨.replicate 32 1⟩⟩
  let source : KeyStream := ⟨.replicate 32 0, 0⟩
  let founded := (found S ⟨.replicate 16 0⟩ self [peer] source).1.1
  let origin : Group :=
    { founded with self := peer, ownChain := ⟨⟨.replicate 32 3, counter⟩, ⟨.replicate 32 2⟩⟩ }
  let d := origin.distribution S
  have follows : founded.Follows peer d :=
    ⟨(isMember_start (G := KeyStream)).2 List.mem_cons_self, rfl, rfl, rfl⟩
  have reachable : Reachable S KeyStream (founded.step S source (.process peer d 0)).1 :=
    .step source _ (.found ..)
  rw [step_process_of_ok S (process_of_follows S follows 0 source)] at reachable
  have installed := installed_learned (g := founded) (d := d) rfl rfl rfl
    (not_knows_of_chains_empty rfl)
  exact ⟨_, origin, reachable, installed, epoch_learned .., rfl⟩

/-- The second message of a member comes first: the chain goes behind it in the place of the one
which was there. -/
theorem second_message_moves_chain :
    ∃ (g next : Group) (message : GroupMessage) (c : MemberChain),
      g.decrypt keyed message {} = .ok (next, [1]) ∧ c.chain.counter = 0 ∧
        message.counter.toNat = 1 ∧ (c.past keyed message.counter {}).chain.counter.toNat = 2 ∧
        ∀ epoch sender, (epoch, sender) ≠ (message.epoch, message.sender) →
          next.findChain epoch sender = g.findChain epoch sender := by
  obtain ⟨g, origin, -, installed, -, zero⟩ := exists_installed keyed 0
  let message := origin.utterance keyed 1 [1]
  have authentic : g.Authentic keyed message {} (origin.distribution keyed).memberChain [1] :=
    installed.authentic keyed_decrypt?_encrypt (keyed_signs _ _) (by rw [zero]; decide) (by decide)
  have number : message.counter.toNat = 1 := by
    have after := Chain.toNat_counter_after keyed
      (by rw [zero]; decide : origin.ownChain.chain.counter.toNat + 1 < 2 ^ 64)
    rw [zero] at after
    exact after
  obtain ⟨opens, behind, others, -⟩ := decrypt_touches_one_chain keyed g message {}
  have decrypted := (opens _ _).2 ⟨_, authentic, (exchanges_iff authentic.found).2 rfl⟩
  refine ⟨g, _, message, (origin.distribution keyed).memberChain, decrypted, zero, number, ?_,
    others _ _ decrypted⟩
  have another : HasNext message.counter := by
    unfold HasNext
    rw [number]
    decide
  rw [behind another, number]
  exact congrArg (fun counter : UInt64 => max counter.toNat 2) zero

end Group

end Confide
