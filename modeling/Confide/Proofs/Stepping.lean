import Confide.Proofs.Group.Eviction
import Confide.Proofs.Ratchet.Cache

/-! Sessions and groups take a chain ahead to a message, each in a loop of its own. Both loops end,
and with the key, the chain and the kept keys which single steps of the chain give. -/

set_option autoImplicit false

namespace Confide

/-- A loop is left with a result, after a number of rounds each of which led to its next state. -/
inductive Exits {σ ρ : Type} (round : σ → σ ⊕ ρ) : σ → Nat → ρ → Prop where
  | now {state : σ} {result : ρ} (last : round state = .inr result) : Exits round state 0 result
  | later {state next : σ} {rounds : Nat} {result : ρ} (goes : round state = .inl next)
      (rest : Exits round next rounds result) : Exits round state (rounds + 1) result

theorem Exits.iff {σ ρ : Type} {round : σ → σ ⊕ ρ} {state : σ} {rounds other : Nat}
    {result found : ρ} (exits : Exits round state rounds result) :
    Exits round state other found ↔ other = rounds ∧ found = result := by
  constructor
  · intro exits'
    induction exits generalizing other with
    | now last =>
      cases exits' with
      | now last' =>
        cases last.symm.trans last'
        exact ⟨rfl, rfl⟩
      | later goes _ => cases last.symm.trans goes
    | later goes _ ih =>
      cases exits' with
      | now last => cases goes.symm.trans last
      | later goes' exits' =>
        cases goes.symm.trans goes'
        obtain ⟨rfl, rfl⟩ := ih exits'
        exact ⟨rfl, rfl⟩
  · rintro ⟨rfl, rfl⟩
    exact exits

namespace Chain

variable (S : Suite)

/-- One step: the number and the key of the next message, and the chain after it. There is none from
the last number. -/
def step (chain : Chain) : Option ((UInt64 × SealingKey) × Chain) :=
  if HasNext chain.counter then some ((chain.counter, chain.messageKey S), chain.next S) else none

def steps (chain : Chain) : (n : Nat) → Option (List (UInt64 × SealingKey) × Chain)
  | 0 => some ([], chain)
  | n + 1 => do
    let (entry, next) ← chain.step S
    let (entries, last) ← steps next n
    return (entry :: entries, last)

variable {S} {chain : Chain} {n : Nat}

theorem steps_eq (bound : chain.counter.toNat + n < 2 ^ 64) :
    chain.steps S n = some (chain.keys S n, chain.after S n) := by
  induction n generalizing chain with
  | zero => rfl
  | succ n ih =>
    have short : HasNext chain.counter := by omega
    have number : (chain.next S).counter.toNat = chain.counter.toNat + 1 := short.toNat_add_one
    have rest := @ih (chain.next S) (by omega)
    simp [steps, step, if_pos short, rest, keys, after]

theorem numbers_keys (bound : chain.counter.toNat + n < 2 ^ 64) :
    (chain.keys S n).map (·.1.toNat) = List.range' chain.counter.toNat n := by
  rw [keys_eq_map, List.map_map, List.range'_eq_map_range]
  refine List.map_congr_left fun i mem => ?_
  have low := List.mem_range.1 mem
  exact toNat_counter_after S (by omega)

end Chain

namespace Session

variable (S : Suite)

/-- As long as the chain has not reached the message, the key which it gives next is cached. -/
def skipRound (target : UInt64) (config : RatchetConfig) :
    ReceivingChain × KeyCache → (ReceivingChain × KeyCache) ⊕ Option (ReceivingChain × KeyCache)
  | (receiving, cache) =>
    if receiving.chain.counter < target then
      match receiving.chain.step S with
      | none => .inr none
      | some ((counter, key), chain) =>
        .inl ({ receiving with chain },
          cache.insert ⟨receiving.ratchetKey, counter, key⟩ config.maxSkippedKeys.toNat)
    else .inr (some (receiving, cache))

variable {S}

theorem exits_skipRound (receiving : ReceivingChain) (target : UInt64) (cache : KeyCache)
    (config : RatchetConfig) :
    Exits (skipRound S target config) (receiving, cache) (receiving.gap target)
      (some (receiving.after S (receiving.gap target),
        cache.insertAll (receiving.passed S (receiving.gap target))
          config.maxSkippedKeys.toNat)) := by
  have last := target.toNat_lt
  -- By the number of messages which are still ahead.
  generalize left : receiving.gap target = n
  unfold ReceivingChain.gap at left
  induction n generalizing receiving cache with
  | zero =>
    have reached : ¬receiving.chain.counter < target := by
      rw [UInt64.lt_iff_toNat_lt]
      omega
    exact .now (if_neg reached)
  | succ n ih =>
    have ahead : receiving.chain.counter < target := by
      rw [UInt64.lt_iff_toNat_lt]
      omega
    have short : HasNext receiving.chain.counter := by omega
    have number : (receiving.after S 1).chain.counter.toNat = receiving.chain.counter.toNat + 1 :=
      short.toNat_add_one
    have rest := ih (receiving.after S 1)
      (cache.insertAll (receiving.passed S 1) config.maxSkippedKeys.toNat) (by omega)
    rw [ReceivingChain.after_add, ← KeyCache.insertAll_append, ← ReceivingChain.passed_add,
      Nat.add_comm] at rest
    refine .later ?_ rest
    simp only [skipRound, if_pos ahead, Chain.step, if_pos short]
    rfl

theorem skip_eq_ok_iff {receiving : ReceivingChain} {target : UInt64} {cache : KeyCache}
    {config : RatchetConfig} {result : ReceivingChain × KeyCache} :
    skip S receiving target cache config = .ok result ↔
      receiving.gap target ≤ config.maxSkip.toNat ∧
        Exits (skipRound S target config) (receiving, cache) (receiving.gap target)
          (some result) := by
  rw [skip_eq, (exits_skipRound receiving target cache config).iff]
  by_cases near : receiving.gap target ≤ config.maxSkip.toNat
  · rw [if_neg (Nat.not_lt.2 near), Except.ok.injEq, Option.some.injEq, eq_comm]
    simp only [near, true_and]
  · rw [if_pos (Nat.lt_of_not_le near)]
    simp only [near, false_and, reduceCtorEq]

end Session

namespace MemberChain

variable (S : Suite)

/-- The chain gives its next key. A key which is not that of the message is kept, and the loop goes
on. -/
def takeRound (target : UInt64) (config : GroupConfig) (c : MemberChain) :
    MemberChain ⊕ Option (SealingKey × MemberChain) :=
  match c.chain.step S with
  | none => .inr none
  | some ((counter, key), chain) =>
    if counter = target then .inr (some (key, { c with chain }))
    else .inl { c with chain, skipped := keep c.skipped counter key config.maxSkippedKeys.toNat }

variable {S}

theorem exits_takeRound {c : MemberChain} {target : UInt64} (reached : c.chain.counter ≤ target)
    (config : GroupConfig) :
    Exits (takeRound S target config) c (c.gap target)
      (if HasNext target then
        some ((c.chain.after S (c.gap target)).messageKey S, c.advanced S target config)
      else none) := by
  have last := target.toNat_lt
  rw [UInt64.le_iff_toNat_le] at reached
  rw [advanced]
  generalize left : c.gap target = n
  unfold gap at left
  induction n generalizing c with
  | zero =>
    obtain rfl : c.chain.counter = target := UInt64.toNat_inj.1 (by omega)
    refine .now ?_
    by_cases short : HasNext c.chain.counter
    · simp only [takeRound, Chain.step, if_pos short]
      rfl
    · simp only [takeRound, Chain.step, if_neg short]
  | succ n ih =>
    have before : c.chain.counter ≠ target := by
      rintro rfl
      omega
    have short : HasNext c.chain.counter := by omega
    have number : (c.chain.next S).counter.toNat = c.chain.counter.toNat + 1 :=
      short.toNat_add_one
    have rest := ih (c := { c with
      chain := c.chain.next S
      skipped := keep c.skipped c.chain.counter (c.chain.messageKey S) config.maxSkippedKeys.toNat })
      (by simp only [number]; omega) (by simp only [number]; omega)
    refine .later ?_ rest
    simp only [takeRound, Chain.step, if_pos short, if_neg before]

theorem take_eq_ok_iff_of_le {c : MemberChain} {target : UInt64} {config : GroupConfig}
    {result : SealingKey × MemberChain} (reached : c.chain.counter ≤ target) :
    c.take S target config = .ok result ↔
      c.gap target ≤ config.maxSkip.toNat ∧
        Exits (takeRound S target config) c (c.gap target) (some result) := by
  rw [take_eq, if_neg (UInt64.not_lt.2 reached), (exits_takeRound reached config).iff]
  by_cases near : c.gap target ≤ config.maxSkip.toNat
  · rw [if_neg (Nat.not_lt.2 near)]
    simp only [near, true_and]
    split
    · rw [Except.ok.injEq, Option.some.injEq, eq_comm]
    · simp only [reduceCtorEq]
  · rw [if_pos (Nat.lt_of_not_le near)]
    simp only [near, false_and, reduceCtorEq]

theorem entries_keepAll_empty {chain : Chain} {n capacity : Nat}
    (bound : chain.counter.toNat + n < 2 ^ 64) (room : n ≤ capacity) :
    (keepAll .empty (chain.keys S n) capacity).entries = chain.keys S n := by
  have ascending := (Chain.pairwise_counters_keys (S := S) bound).imp Std.compare_eq_lt.2
  have all : (SortedMap.empty.insertAll (chain.keys S n)).entries = chain.keys S n :=
    SortedMap.entries_foldl_insert .empty _ ascending
  have short : (SortedMap.empty.insertAll (chain.keys S n)).size ≤ capacity := by
    rw [SortedMap.size, all, Chain.length_keys]
    exact room
  have none : (SortedMap.empty : SortedMap UInt64 SealingKey).highest capacity = .empty :=
    SortedMap.highest_of_size_le (Nat.zero_le capacity)
  rw [← none, keepAll_highest, SortedMap.highest_of_size_le short, all]

end MemberChain

theorem ReceivingChain.passed_eq_map (S : Suite) (receiving : ReceivingChain) (n : Nat) :
    receiving.passed S n = (receiving.chain.keys S n).map fun (counter, key) =>
      ⟨receiving.ratchetKey, counter, key⟩ := by
  rw [Chain.keys_eq_map, List.map_map]
  rfl

/-- A session and a group which go ahead to the same message take the same key from a chain, that of
its last step, and leave it where the steps up to there do. Each does so in as many rounds of its
loop as messages are passed over. With nothing kept before and room for all, they keep what the
other steps gave, and nothing else. -/
theorem Chain.going_ahead_is_stepping {S : Suite} {chain : Chain} {target : UInt64} {gap : Nat}
    (ahead : target.toNat = chain.counter.toNat + gap) (short : HasNext target) :
    ∃ passed before key last,
      chain.steps S (gap + 1) = some (passed ++ [(target, key)], last) ∧
      before.step S = some ((target, key), last) ∧
      passed.map (·.1.toNat) = List.range' chain.counter.toNat gap ∧
      last.counter.toNat = target.toNat + 1 ∧
      (∀ (ratchetKey : PublicKey) (cache : KeyCache) (config : RatchetConfig),
        gap ≤ config.maxSkip.toNat → ∃ filled,
          Session.skip S ⟨ratchetKey, chain⟩ target cache config =
            .ok (⟨ratchetKey, before⟩, filled) ∧
          (∀ (s : Session) (header : MessageHeader),
            s.skipped = cache → header.counter = target →
              s.advance S ⟨ratchetKey, chain⟩ header config =
                .ok ({ s with receiving := some ⟨ratchetKey, last⟩, skipped := filled }, key)) ∧
          (∀ rounds result,
            Exits (Session.skipRound S target config) (⟨ratchetKey, chain⟩, cache) rounds result ↔
              rounds = gap ∧ result = some (⟨ratchetKey, before⟩, filled)) ∧
          (cache = {} → gap ≤ config.maxSkippedKeys.toNat →
            filled.keys = passed.map fun (counter, key) => ⟨ratchetKey, counter, key⟩)) ∧
      ∀ (verifyingKey : VerifyingKey) (skipped : SortedMap UInt64 SealingKey)
          (config : GroupConfig),
        gap ≤ config.maxSkip.toNat → ∃ kept,
          MemberChain.take S ⟨chain, verifyingKey, skipped⟩ target config =
            .ok (key, ⟨last, verifyingKey, kept⟩) ∧
          (∀ rounds result,
            Exits (MemberChain.takeRound S target config) ⟨chain, verifyingKey, skipped⟩ rounds
                result ↔
              rounds = gap ∧ result = some (key, ⟨last, verifyingKey, kept⟩)) ∧
          (skipped = .empty → gap ≤ config.maxSkippedKeys.toNat → kept.entries = passed) := by
  have bound : chain.counter.toNat + gap < 2 ^ 64 := by omega
  have here : (chain.after S gap).counter = target :=
    UInt64.toNat_inj.1 ((toNat_counter_after S bound).trans ahead.symm)
  have split : chain.keys S (gap + 1) =
      chain.keys S gap ++ [(target, (chain.after S gap).messageKey S)] := by
    rw [keys_add, ← here]
    rfl
  have distance : target.toNat - chain.counter.toNat = gap := by omega
  refine ⟨chain.keys S gap, chain.after S gap, (chain.after S gap).messageKey S,
    chain.after S (gap + 1), ?_, ?_, numbers_keys bound, ?_, ?_, ?_⟩
  · rw [steps_eq (by omega), split]
  · rw [step, here, if_pos short, after_succ]
  · rw [toNat_counter_after S (by omega)]
    omega
  · intro ratchetKey cache config near
    have gapIs : ReceivingChain.gap ⟨ratchetKey, chain⟩ target = gap := distance
    have exits := Session.exits_skipRound (S := S) ⟨ratchetKey, chain⟩ target cache config
    have skips := Session.skip_eq_ok_iff.2 ⟨gapIs.trans_le near, exits⟩
    rw [gapIs] at exits skips
    refine ⟨_, skips, ?_, fun _ _ => exits.iff, ?_⟩
    · rintro s header rfl rfl
      rw [Session.advance, skips]
      simp only [ReceivingChain.after, after_succ, here, if_pos short]
    · rintro rfl room
      have room : (ReceivingChain.passed S ⟨ratchetKey, chain⟩ gap).length = 0 ∨
          KeyCache.size {} + (ReceivingChain.passed S ⟨ratchetKey, chain⟩ gap).length ≤
            config.maxSkippedKeys.toNat := by
        rw [ReceivingChain.length_passed]
        exact .inr ((Nat.zero_add gap).trans_le room)
      rw [KeyCache.keys_insertAll room, ReceivingChain.passed_eq_map]
      rfl
  · intro verifyingKey skipped config near
    have gapIs : MemberChain.gap ⟨chain, verifyingKey, skipped⟩ target = gap := distance
    have reached : chain.counter ≤ target := by
      rw [UInt64.le_iff_toNat_le]
      omega
    have exits := MemberChain.exits_takeRound (S := S) (c := ⟨chain, verifyingKey, skipped⟩)
      reached config
    rw [if_pos short] at exits
    have takes := (MemberChain.take_eq_ok_iff_of_le reached).2 ⟨gapIs.trans_le near, exits⟩
    rw [MemberChain.advanced, gapIs] at exits takes
    refine ⟨_, takes, fun _ _ => exits.iff, ?_⟩
    rintro rfl room
    exact MemberChain.entries_keepAll_empty bound room

/-- Message 8 is as far ahead of a chain at message 5 as the limits allow. -/
theorem Chain.three_messages_ahead :
    ∃ (chain before last : Chain) (passed : List (UInt64 × SealingKey)) (key : SealingKey)
        (ours : PublicKey) (filled : KeyCache) (theirs : VerifyingKey)
        (kept : SortedMap UInt64 SealingKey),
      chain.counter = 5 ∧ chain.steps Suite.standard 4 = some (passed ++ [(8, key)], last) ∧
      passed.map (·.1.toNat) = [5, 6, 7] ∧ before.step Suite.standard = some ((8, key), last) ∧
      Session.skip Suite.standard ⟨ours, chain⟩ 8 {} { maxSkip := 3, maxSkippedKeys := 3 } =
        .ok (⟨ours, before⟩, filled) ∧
      Exits (Session.skipRound Suite.standard 8 { maxSkip := 3, maxSkippedKeys := 3 })
        (⟨ours, chain⟩, {}) 3 (some (⟨ours, before⟩, filled)) ∧
      filled.keys = passed.map (fun (counter, key) => ⟨ours, counter, key⟩) ∧
      MemberChain.take Suite.standard ⟨chain, theirs, .empty⟩ 8
        { maxSkip := 3, maxSkippedKeys := 3 } = .ok (key, ⟨last, theirs, kept⟩) ∧
      Exits (MemberChain.takeRound Suite.standard 8 { maxSkip := 3, maxSkippedKeys := 3 })
        ⟨chain, theirs, .empty⟩ 3 (some (key, ⟨last, theirs, kept⟩)) ∧
      kept.entries = passed := by
  let chain : Chain := ⟨.replicate 32 7, 5⟩
  have ahead : (8 : UInt64).toNat = chain.counter.toNat + 3 := by decide
  obtain ⟨passed, before, key, last, stepped, final, numbers, -, session, group⟩ :=
    Chain.going_ahead_is_stepping (S := Suite.standard) ahead (by decide)
  obtain ⟨filled, skipped, -, rounds, cached⟩ := session ⟨.replicate 32 1⟩ {}
    { maxSkip := 3, maxSkippedKeys := 3 } (by decide)
  obtain ⟨kept, taken, rounds', stored⟩ := group ⟨.replicate 32 2⟩ .empty
    { maxSkip := 3, maxSkippedKeys := 3 } (by decide)
  exact ⟨chain, before, last, passed, key, _, filled, _, kept, rfl, stepped, numbers, final,
    skipped, (rounds _ _).2 ⟨rfl, rfl⟩, cached rfl (by decide), taken,
    (rounds' _ _).2 ⟨rfl, rfl⟩, stored rfl (by decide)⟩

end Confide
