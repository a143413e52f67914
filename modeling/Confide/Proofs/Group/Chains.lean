import Confide.Group.State
import Confide.Proofs.Ratchet.Chain
import Confide.Proofs.Sorted
import Mathlib.Data.List.Nodup

/-! The chain of another member step by step: which key a message takes, which keys stay behind for
messages which are still to come, and when the group accepts a message. -/

set_option autoImplicit false

namespace Confide

theorem SortedMap.size_insert_le {κ α : Type} [Ord κ] [Std.TransOrd κ] (m : SortedMap κ α)
    (key : κ) (value : α) : (m.insert key value).size ≤ m.size + 1 := by
  obtain ⟨entries, ascending⟩ := m
  simp only [insert, size]
  clear ascending
  induction entries with
  | nil => simp [insertEntry]
  | cons head rest ih =>
    simp only [insertEntry]
    split <;> simp only [List.length_cons] <;> omega

namespace Chain

variable {S : Suite} {chain : Chain} {n i j : Nat}

theorem mem_keys_iff {counter : UInt64} {key : SealingKey} :
    (counter, key) ∈ chain.keys S n ↔
      ∃ i < n, counter = (chain.after S i).counter ∧ key = (chain.after S i).messageKey S := by
  rw [keys_eq_map, List.mem_map]
  simp only [List.mem_range, Prod.mk.injEq]
  exact exists_congr fun i => and_congr_right fun _ => and_congr eq_comm eq_comm

theorem length_keys (chain : Chain) (n : Nat) : (chain.keys S n).length = n := by
  rw [keys_eq_map, List.length_map, List.length_range]

theorem counter_after_inj (bound : chain.counter.toNat + n < 2 ^ 64) (low : i ≤ n) (low' : j ≤ n)
    (same : (chain.after S i).counter = (chain.after S j).counter) : i = j := by
  have first := toNat_counter_after S (by omega : chain.counter.toNat + i < 2 ^ 64)
  have second := toNat_counter_after S (by omega : chain.counter.toNat + j < 2 ^ 64)
  rw [same, second] at first
  omega

theorem keys_add (chain : Chain) (m n : Nat) :
    chain.keys S (m + n) = chain.keys S m ++ (chain.after S m).keys S n := by
  induction m generalizing chain with
  | zero => simp [keys, after]
  | succ m ih => rw [Nat.add_right_comm, keys, ih, keys, after, List.cons_append]

theorem toNat_mem_keys (bound : chain.counter.toNat + n < 2 ^ 64) {counter : UInt64}
    {key : SealingKey} (mem : (counter, key) ∈ chain.keys S n) :
    chain.counter.toNat ≤ counter.toNat ∧ counter.toNat < chain.counter.toNat + n := by
  obtain ⟨i, low, rfl, -⟩ := mem_keys_iff.1 mem
  rw [toNat_counter_after S (by omega : chain.counter.toNat + i < 2 ^ 64)]
  omega

theorem nodup_counters_keys (bound : chain.counter.toNat + n < 2 ^ 64) :
    ((chain.keys S n).map (·.1)).Nodup := by
  rw [keys_eq_map, List.map_map]
  refine List.Nodup.map_on (fun i low j low' same => ?_) List.nodup_range
  exact counter_after_inj bound (Nat.le_of_lt (List.mem_range.1 low))
    (Nat.le_of_lt (List.mem_range.1 low')) same

end Chain

namespace MemberChain

def keepAll (skipped : SortedMap UInt64 SealingKey) (keys : List (UInt64 × SealingKey))
    (capacity : Nat) : SortedMap UInt64 SealingKey :=
  keys.foldl (fun skipped entry => keep skipped entry.1 entry.2 capacity) skipped

theorem keep_eq_insert {skipped : SortedMap UInt64 SealingKey} {counter : UInt64} {key : SealingKey}
    {capacity : Nat} (room : skipped.size + 1 ≤ capacity) :
    keep skipped counter key capacity = skipped.insert counter key := by
  have size := skipped.size_insert_le counter key
  have none : (skipped.insert counter key).size - capacity = 0 := by omega
  rw [keep, none, keep.dropLowest]

theorem get?_keepAll {skipped : SortedMap UInt64 SealingKey} {keys : List (UInt64 × SealingKey)}
    {capacity : Nat} (room : keys.length = 0 ∨ skipped.size + keys.length ≤ capacity)
    (distinct : (keys.map (·.1)).Nodup)
    (new : ∀ entry ∈ keys, skipped.get? entry.1 = none) {counter : UInt64} {key : SealingKey} :
    (keepAll skipped keys capacity).get? counter = some key ↔
      (counter, key) ∈ keys ∨ skipped.get? counter = some key := by
  induction keys generalizing skipped with
  | nil => simp [keepAll]
  | cons entry rest ih =>
    obtain ⟨first, value⟩ := entry
    rw [List.map_cons, List.nodup_cons] at distinct
    obtain ⟨apart, distinct⟩ := distinct
    rw [List.length_cons] at room
    have size := skipped.size_insert_le first value
    have kept : keepAll skipped ((first, value) :: rest) capacity =
        keepAll (skipped.insert first value) rest capacity := by
      rw [keepAll, List.foldl_cons, keep_eq_insert (by omega)]
      rfl
    have new' : ∀ entry ∈ rest, (skipped.insert first value).get? entry.1 = none := by
      intro entry mem
      have other : entry.1 ≠ first := by
        rintro rfl
        exact apart (List.mem_map.2 ⟨entry, mem, rfl⟩)
      rw [SortedMap.get?_insert_of_ne other]
      exact new entry (List.mem_cons_of_mem _ mem)
    rw [kept, ih (by omega) distinct new', List.mem_cons, Prod.mk.injEq]
    by_cases same : counter = first
    · subst same
      have unknown : skipped.get? counter = none := new _ List.mem_cons_self
      have outside : (counter, key) ∉ rest := fun mem => apart (List.mem_map.2 ⟨_, mem, rfl⟩)
      simp [SortedMap.get?_insert_self, unknown, outside, eq_comm]
    · simp [SortedMap.get?_insert_of_ne same, same]

/-- How many messages of the chain come before the one with the given number. -/
def gap (c : MemberChain) (counter : UInt64) : Nat := counter.toNat - c.chain.counter.toNat

variable (S : Suite)

def advanced (c : MemberChain) (counter : UInt64) (config : GroupConfig) : MemberChain :=
  { c with
    chain := c.chain.after S (c.gap counter + 1)
    skipped := keepAll c.skipped (c.chain.keys S (c.gap counter)) config.maxSkippedKeys.toNat }

theorem take_eq (c : MemberChain) (counter : UInt64) (config : GroupConfig) :
    c.take S counter config =
      if counter < c.chain.counter then
        match c.skipped.get? counter with
        | none => .error .decryptionFailed
        | some key => .ok (key, { c with skipped := c.skipped.erase counter })
      else if config.maxSkip.toNat < c.gap counter then
        .error (.tooManySkipped (counter - c.chain.counter) config.maxSkip)
      else if HasNext counter then
        .ok ((c.chain.after S (c.gap counter)).messageKey S, c.advanced S counter config)
      else .error .overflow := by
  unfold take
  by_cases behind : counter < c.chain.counter
  · exact (if_pos behind).trans (if_pos behind).symm
  · have whole : (counter - c.chain.counter).toNat = c.gap counter :=
      UInt64.toNat_sub_of_le _ _ (UInt64.not_lt.1 behind)
    have reached : (c.chain.after S (c.gap counter)).counter = counter :=
      Chain.counter_after_sub S (UInt64.le_iff_toNat_le.1 (UInt64.not_lt.1 behind))
    rw [if_neg behind, if_neg behind]
    simp only [gt_iff_lt, UInt64.lt_iff_toNat_lt, whole, reached, advanced, keepAll,
      Chain.after_succ]

inductive Takes (c : MemberChain) (counter : UInt64) (config : GroupConfig) :
    SealingKey → MemberChain → Prop where
  | kept {key : SealingKey} (behind : counter < c.chain.counter)
      (found : c.skipped.get? counter = some key) :
      Takes c counter config key { c with skipped := c.skipped.erase counter }
  | ahead (reached : c.chain.counter ≤ counter)
      (near : c.gap counter ≤ config.maxSkip.toNat) (short : HasNext counter) :
      Takes c counter config ((c.chain.after S (c.gap counter)).messageKey S)
        (c.advanced S counter config)

theorem take_eq_ok_iff {c taken : MemberChain} {counter : UInt64} {config : GroupConfig}
    {key : SealingKey} :
    c.take S counter config = .ok (key, taken) ↔ c.Takes S counter config key taken := by
  rw [take_eq]
  constructor
  · intro h
    by_cases behind : counter < c.chain.counter
    · rw [if_pos behind] at h
      cases found : c.skipped.get? counter with
      | none => simp [found] at h
      | some key =>
        simp only [found] at h
        cases h
        exact .kept behind found
    · rw [if_neg behind] at h
      split at h
      · cases h
      · rename_i near
        split at h <;> cases h
        exact .ahead (UInt64.not_lt.1 behind) (Nat.not_lt.1 near) ‹_›
  · intro h
    cases h with
    | kept behind found => rw [if_pos behind, found]
    | ahead reached near short =>
      rw [if_neg (UInt64.not_lt.2 reached), if_neg (Nat.not_lt.2 near), if_pos short]

variable {S} in
theorem Takes.verifyingKey {c taken : MemberChain} {counter : UInt64} {config : GroupConfig}
    {key : SealingKey} (takes : c.Takes S counter config key taken) :
    taken.verifyingKey = c.verifyingKey := by
  cases takes <;> rfl

/-- Within the limit, and with room for the keys which are passed over: none is dropped. -/
structure Fits (c : MemberChain) (counter : UInt64) (config : GroupConfig) : Prop where
  near : c.gap counter ≤ config.maxSkip.toNat
  room : c.gap counter = 0 ∨ c.skipped.size + c.gap counter ≤ config.maxSkippedKeys.toNat

/-- The chain stands `n` messages after `start`. The keys on the way are kept, except those of the
used counters. -/
structure Tracks (start : Chain) (used : List UInt64) (n : Nat) (c : MemberChain) : Prop where
  chain : c.chain = start.after S n
  bound : start.counter.toNat + n < 2 ^ 64
  past : ∀ counter ∈ used, counter < c.chain.counter
  kept : ∀ counter key, c.skipped.get? counter = some key ↔
    counter ∉ used ∧ (counter, key) ∈ start.keys S n

variable {S} {c : MemberChain} {start : Chain} {used : List UInt64} {n i : Nat}
  {config : GroupConfig}

theorem Tracks.begin {key : Octets 32} {counter : UInt64} {verifyingKey : VerifyingKey} :
    Tracks S ⟨key, counter⟩ [] 0 ⟨⟨key, counter⟩, verifyingKey, .empty⟩ where
  chain := rfl
  bound := counter.toNat_lt
  past := List.forall_mem_nil _
  kept _ _ := iff_of_false nofun fun inside => List.not_mem_nil inside.2

theorem Tracks.take_of_below (tracks : c.Tracks S start used n) {counter : UInt64}
    (below : counter < start.counter) : c.take S counter config = .error .decryptionFailed := by
  have number := Chain.toNat_counter_after S tracks.bound
  rw [UInt64.lt_iff_toNat_lt] at below
  have behind : counter < c.chain.counter := by
    rw [tracks.chain, UInt64.lt_iff_toNat_lt, number]
    omega
  -- Every key which is kept comes from the start or after it.
  have unknown : c.skipped.get? counter = none := by
    rw [Option.eq_none_iff_forall_ne_some]
    intro key found
    have low := (Chain.toNat_mem_keys tracks.bound ((tracks.kept counter key).1 found).2).1
    omega
  rw [take_eq, if_pos behind, unknown]

theorem Tracks.takes_kept (tracks : c.Tracks S start used n) (low : i < n)
    (new : (start.after S i).counter ∉ used) :
    ∃ taken, c.Takes (S := S) (start.after S i).counter config ((start.after S i).messageKey S)
        taken ∧ taken.verifyingKey = c.verifyingKey ∧
      taken.Tracks S start (used ++ [(start.after S i).counter]) n := by
  have bound := tracks.bound
  have number := Chain.toNat_counter_after S (by omega : start.counter.toNat + i < 2 ^ 64)
  have behind : (start.after S i).counter < c.chain.counter := by
    rw [tracks.chain, UInt64.lt_iff_toNat_lt, number, Chain.toNat_counter_after S bound]
    omega
  have found := (tracks.kept _ _).2 ⟨new, Chain.mem_keys_iff.2 ⟨i, low, rfl, rfl⟩⟩
  refine ⟨_, .kept behind found, rfl, tracks.chain, bound, ?_, fun counter key => ?_⟩
  · intro counter mem
    rcases List.mem_append.1 mem with old | last
    · exact tracks.past counter old
    · rw [List.mem_singleton.1 last]
      exact behind
  · rw [List.mem_append, List.mem_singleton, not_or, and_assoc, and_comm (a := ¬_ = _), ← and_assoc,
      ← tracks.kept]
    by_cases same : counter = (start.after S i).counter
    · rw [same, SortedMap.get?_erase_self]
      simp
    · rw [SortedMap.get?_erase_of_ne same, and_iff_left same]

theorem Tracks.kept_ahead (tracks : c.Tracks S start used n) (high : n ≤ i)
    (bound : start.counter.toNat + (i + 1) < 2 ^ 64) {capacity : Nat}
    (room : i - n = 0 ∨ c.skipped.size + (i - n) ≤ capacity) (counter : UInt64) (key : SealingKey) :
    (keepAll c.skipped (c.chain.keys S (i - n)) capacity).get? counter = some key ↔
      counter ∉ used ++ [(start.after S i).counter] ∧ (counter, key) ∈ start.keys S (i + 1) := by
  have stands := Chain.toNat_counter_after S tracks.bound
  rw [← tracks.chain] at stands
  have number := Chain.toNat_counter_after S (by omega : start.counter.toNat + i < 2 ^ 64)
  have reach : c.chain.counter.toNat + (i - n) < 2 ^ 64 := by omega
  -- The keys kept before lie behind the chain, the new ones ahead of it.
  have new : ∀ entry ∈ c.chain.keys S (i - n), c.skipped.get? entry.1 = none := by
    intro entry mem
    rw [Option.eq_none_iff_forall_ne_some]
    intro old found
    have low := (Chain.toNat_mem_keys tracks.bound ((tracks.kept _ _).1 found).2).2
    have high := (Chain.toNat_mem_keys reach mem).1
    omega
  have whole : start.keys S (i + 1) = start.keys S n ++ c.chain.keys S (i - n) ++
      [((start.after S i).counter, (start.after S i).messageKey S)] := by
    rw [tracks.chain, ← Chain.keys_add, Nat.add_sub_cancel' high, Chain.keys_add]
    rfl
  rw [get?_keepAll (by rwa [Chain.length_keys]) (Chain.nodup_counters_keys reach) new, tracks.kept,
    whole]
  simp only [List.mem_append, List.mem_singleton, not_or]
  constructor
  · rintro (mem | ⟨fresh, mem⟩)
    · have place := Chain.toNat_mem_keys reach mem
      refine ⟨⟨fun old => ?_, ?_⟩, .inl (.inr mem)⟩
      · have := UInt64.lt_iff_toNat_lt.1 (tracks.past counter old)
        omega
      · rintro rfl
        omega
    · have place := Chain.toNat_mem_keys tracks.bound mem
      refine ⟨⟨fresh, ?_⟩, .inl (.inl mem)⟩
      rintro rfl
      omega
  · rintro ⟨⟨fresh, other⟩, (old | mem) | last⟩
    · exact .inr ⟨fresh, old⟩
    · exact .inl mem
    · exact absurd (congrArg Prod.fst last) other

theorem Tracks.takes_ahead (tracks : c.Tracks S start used n) (high : n ≤ i)
    (short : start.counter.toNat + i < 2 ^ 64 - 1)
    (fits : c.Fits (start.after S i).counter config) :
    ∃ taken, c.Takes (S := S) (start.after S i).counter config ((start.after S i).messageKey S)
        taken ∧ taken.verifyingKey = c.verifyingKey ∧
      taken.Tracks S start (used ++ [(start.after S i).counter]) (i + 1) := by
  have number := Chain.toNat_counter_after S (by omega : start.counter.toNat + i < 2 ^ 64)
  have stands := Chain.toNat_counter_after S tracks.bound
  rw [← tracks.chain] at stands
  have gap : c.gap (start.after S i).counter = i - n := by
    rw [MemberChain.gap, number, stands]
    omega
  have reached : c.chain.counter ≤ (start.after S i).counter := by
    rw [UInt64.le_iff_toNat_le, number, stands]
    omega
  have here : c.chain.after S (i - n) = start.after S i := by
    rw [tracks.chain, ← Chain.after_add]
    congr 1
    omega
  have takes := Takes.ahead (S := S) reached fits.near (by omega)
  rw [gap, here] at takes
  have advanced :
      (c.advanced S (start.after S i).counter config).chain = start.after S (i + 1) := by
    rw [MemberChain.advanced, gap, Chain.after_succ, here, Chain.after_succ]
  have number' := Chain.toNat_counter_after S (by omega : start.counter.toNat + (i + 1) < 2 ^ 64)
  refine ⟨_, takes, rfl, advanced, by omega, ?_, ?_⟩
  · intro counter mem
    rw [advanced, UInt64.lt_iff_toNat_lt, number']
    rcases List.mem_append.1 mem with old | last
    · have := UInt64.lt_iff_toNat_lt.1 (tracks.past counter old)
      omega
    · rw [List.mem_singleton.1 last, number]
      omega
  · simp only [MemberChain.advanced, gap]
    exact tracks.kept_ahead high (by omega) (gap ▸ fits.room)

theorem Tracks.takes (tracks : c.Tracks S start used n)
    (short : start.counter.toNat + i < 2 ^ 64 - 1) (new : (start.after S i).counter ∉ used)
    (fits : c.Fits (start.after S i).counter config) :
    ∃ taken n', c.Takes (S := S) (start.after S i).counter config ((start.after S i).messageKey S)
        taken ∧ taken.verifyingKey = c.verifyingKey ∧
      taken.Tracks S start (used ++ [(start.after S i).counter]) n' := by
  rcases Nat.lt_or_ge i n with low | high
  · obtain ⟨taken, rest⟩ := tracks.takes_kept low new
    exact ⟨taken, n, rest⟩
  · obtain ⟨taken, rest⟩ := tracks.takes_ahead high short fits
    exact ⟨taken, i + 1, rest⟩

end MemberChain

namespace Group

variable (S : Suite) {g next : Group} {message : GroupMessage} {config : GroupConfig}
  {plaintext : Bytes}

theorem findChain_eq_ok_iff {epoch : UInt64} {sender : IdentityKey} {c : MemberChain} :
    g.findChain epoch sender = .ok c ↔
      ∃ chains, g.chainsOf? epoch = some chains ∧ chains.get? sender = some c := by
  unfold findChain
  cases g.chainsOf? epoch with
  | none => simp
  | some chains => cases found : chains.get? sender <;> simp [found]

theorem findChain_current_iff {sender : IdentityKey} {c : MemberChain} :
    g.findChain g.epoch sender = .ok c ↔ g.chains.get? sender = some c := by
  rw [findChain_eq_ok_iff, chainsOf?, if_pos rfl]
  simp

/-- What an accepted message has gone through, in this order. -/
structure Opens (g : Group) (message : GroupMessage) (config : GroupConfig) (c taken : MemberChain)
    (plaintext : Bytes) : Prop where
  group : message.groupId = g.id
  found : g.findChain message.epoch message.sender = .ok c
  verified : S.verify c.verifyingKey (message.position.signedBytes message.ciphertext)
    message.signature = .ok ()
  opened : ∃ key, c.Takes S message.counter config key taken ∧
    S.decrypt? key message.position.toBytes message.ciphertext = some plaintext

theorem decrypt_eq_ok_iff :
    g.decrypt S message config = .ok (next, plaintext) ↔
      ∃ c taken, g.Opens S message config c taken plaintext ∧
        next = g.setChain message.epoch message.sender taken := by
  constructor
  · intro h
    unfold decrypt at h
    split at h
    · cases h
    rename_i group
    split at h
    · cases h
    rename_i c found
    split at h
    · cases h
    rename_i verified
    split at h
    · cases h
    rename_i key taken taking
    split at h
    · cases h
    rename_i opened
    cases h
    exact ⟨c, taken, ⟨not_not.1 group, found, verified, key,
      (MemberChain.take_eq_ok_iff S).1 taking, opened⟩, rfl⟩
  · rintro ⟨c, taken, opens, rfl⟩
    obtain ⟨key, takes, opened⟩ := opens.opened
    have taking := (MemberChain.take_eq_ok_iff S).2 takes
    simp only [decrypt, opens.group, opens.found, opens.verified, taking, opened, ne_eq,
      not_true_eq_false, if_false]

theorem decrypt_of_take_error {c : MemberChain} (group : message.groupId = g.id)
    (found : g.findChain message.epoch message.sender = .ok c)
    (refused : c.take S message.counter config = .error .decryptionFailed) :
    g.decrypt S message config = .error .decryptionFailed := by
  simp only [decrypt, group, found, ne_eq, not_true_eq_false, if_false]
  split
  · rfl
  · simp only [refused]

end Group

end Confide
