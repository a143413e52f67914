import Confide.Proofs.Ratchet.Replay

/-! Where keys stay in the cache while others are added or removed, and how the keys which a chain
passes over on its way to a message divide at one of them. -/

set_option autoImplicit false

namespace Confide

namespace KeyCache

variable {cache : KeyCache} {ratchetKey otherKey : PublicKey} {counter otherCounter : UInt64}
  {key : SealingKey} {keys : List SkippedKey} {capacity : Nat}

/-- The first entry of its place is the one which is found and removed. -/
theorem find?_of_split {before after : List SkippedKey} {entry : SkippedKey}
    (split : cache.keys = before ++ entry :: after)
    (first : ∀ other ∈ before,
      other.ratchetKey = entry.ratchetKey → other.counter ≠ entry.counter) :
    cache.find? entry.ratchetKey entry.counter = some entry.messageKey ∧
      cache.remove entry.ratchetKey entry.counter = ⟨before ++ after⟩ := by
  have here : isFor entry.ratchetKey entry.counter entry = true := isFor_iff.2 ⟨rfl, rfl⟩
  have apart : ∀ other ∈ before, ¬isFor entry.ratchetKey entry.counter other = true :=
    fun other mem same => first other mem (isFor_iff.1 same).1 (isFor_iff.1 same).2
  constructor
  · rw [find?, split, List.find?_append, List.find?_eq_none.2 apart, Option.none_or,
      List.find?_cons_of_pos here]
    rfl
  · rw [remove, split, List.eraseP_append_right _ apart, List.eraseP_cons_of_pos here]

section
variable (apart : (otherKey, otherCounter) ≠ (ratchetKey, counter))
include apart

theorem not_isFor_of_ne (entry : SkippedKey) :
    ¬isFor ratchetKey counter entry = true ∨ ¬isFor otherKey otherCounter entry = true := by
  by_cases same : isFor ratchetKey counter entry = true
  · refine .inr fun other => apart ?_
    obtain ⟨rfl, rfl⟩ := isFor_iff.1 same
    obtain ⟨rfl, rfl⟩ := isFor_iff.1 other
    rfl
  · exact .inl same

theorem find?_remove_of_ne :
    (cache.remove ratchetKey counter).find? otherKey otherCounter =
      cache.find? otherKey otherCounter := by
  unfold find? remove
  congr 1
  induction cache.keys with
  | nil => rfl
  | cons entry rest ih =>
    by_cases same : isFor ratchetKey counter entry = true
    · have skip := (not_isFor_of_ne apart entry).resolve_left (not_not.2 same)
      rw [List.eraseP_cons_of_pos same, List.find?_cons_of_neg skip]
    · rw [List.eraseP_cons_of_neg same, List.find?_cons, List.find?_cons, ih]

theorem remove_comm :
    (cache.remove otherKey otherCounter).remove ratchetKey counter =
      (cache.remove ratchetKey counter).remove otherKey otherCounter :=
  congrArg KeyCache.mk
    (List.eraseP_comm fun entry _ => (not_isFor_of_ne apart entry).symm)

end

theorem size_remove_le : (cache.remove ratchetKey counter).size ≤ cache.size :=
  (cache.remove_sublist ratchetKey counter).length_le

theorem size_insert (cache : KeyCache) (entry : SkippedKey) (capacity : Nat) :
    (cache.insert entry capacity).size = min (cache.size + 1) capacity := by
  simp only [insert, size, List.length_drop, List.length_append, List.length_singleton]
  omega

theorem size_insertAll (cache : KeyCache) (keys : List SkippedKey) (capacity : Nat) :
    (cache.insertAll keys capacity).size =
      if keys = [] then cache.size else min (cache.size + keys.length) capacity := by
  induction keys generalizing cache with
  | nil => rfl
  | cons entry rest ih =>
    rw [insertAll, List.foldl_cons, ← insertAll, ih, size_insert, if_neg (List.cons_ne_nil _ _),
      List.length_cons]
    split
    · subst rest
      rfl
    · omega

section
variable (found : cache.find? ratchetKey counter = some key)
  (room : keys.length = 0 ∨ cache.size + keys.length ≤ capacity)
include found room

theorem find?_insertAll_of_found :
    (cache.insertAll keys capacity).find? ratchetKey counter = some key := by
  obtain ⟨entry, here, same⟩ := Option.map_eq_some_iff.1 found
  rw [find?, keys_insertAll room, List.find?_append, here]
  exact congrArg some same

theorem remove_insertAll :
    (cache.insertAll keys capacity).remove ratchetKey counter =
      (cache.remove ratchetKey counter).insertAll keys capacity := by
  have less : (cache.remove ratchetKey counter).size ≤ cache.size := size_remove_le
  have room' : keys.length = 0 ∨
      (cache.remove ratchetKey counter).size + keys.length ≤ capacity := by omega
  have inside := mem_of_find? found
  have here : isFor ratchetKey counter ⟨ratchetKey, counter, key⟩ = true := isFor_iff.2 ⟨rfl, rfl⟩
  have same : ((cache.insertAll keys capacity).remove ratchetKey counter).keys =
      ((cache.remove ratchetKey counter).insertAll keys capacity).keys := by
    rw [keys_insertAll room', remove, keys_insertAll room, List.eraseP_append_left here _ inside]
    rfl
  exact congrArg KeyCache.mk same

end

theorem find?_insertAll_eq_none (unknown : cache.find? ratchetKey counter = none)
    (others : ∀ entry ∈ keys, entry.ratchetKey = ratchetKey → entry.counter ≠ counter) :
    (cache.insertAll keys capacity).find? ratchetKey counter = none := by
  refine find?_eq_none_iff.2 fun entry mem => ?_
  rcases List.mem_append.1 ((insertAll_suffix cache keys capacity).mem mem) with old | new
  · exact find?_eq_none_iff.1 unknown entry old
  · exact others entry new

theorem find?_insertAll_of_split {before after : List SkippedKey} {entry : SkippedKey}
    (unknown : cache.find? entry.ratchetKey entry.counter = none)
    (others : ∀ other ∈ before,
      other.ratchetKey = entry.ratchetKey → other.counter ≠ entry.counter)
    (room : cache.size + (before ++ entry :: after).length ≤ capacity) :
    (cache.insertAll (before ++ entry :: after) capacity).find? entry.ratchetKey entry.counter =
        some entry.messageKey ∧
      (cache.insertAll (before ++ entry :: after) capacity).remove entry.ratchetKey entry.counter =
        (cache.insertAll before capacity).insertAll after capacity := by
  have split : (cache.insertAll (before ++ entry :: after) capacity).keys =
      (cache.keys ++ before) ++ entry :: after := by
    rw [keys_insertAll (.inr room), List.append_assoc]
  have first : ∀ other ∈ cache.keys ++ before,
      other.ratchetKey = entry.ratchetKey → other.counter ≠ entry.counter := by
    intro other mem
    rcases List.mem_append.1 mem with old | new
    · exact find?_eq_none_iff.1 unknown other old
    · exact others other new
  obtain ⟨found, removed⟩ := find?_of_split split first
  rw [List.length_append, List.length_cons] at room
  have head : (cache.insertAll before capacity).keys = cache.keys ++ before :=
    keys_insertAll (.inr (by omega))
  have tail : ((cache.insertAll before capacity).insertAll after capacity).keys =
      cache.keys ++ before ++ after := by
    rw [keys_insertAll (.inr (by rw [size, head, List.length_append]; unfold size at room; omega)),
      head]
  refine ⟨found, removed.trans (congrArg KeyCache.mk ?_)⟩
  exact tail.symm

theorem insertAll_append (cache : KeyCache) (first second : List SkippedKey) (capacity : Nat) :
    cache.insertAll (first ++ second) capacity =
      (cache.insertAll first capacity).insertAll second capacity :=
  List.foldl_append

end KeyCache

namespace ReceivingChain

variable (S : Suite)

def entry (receiving : ReceivingChain) (counter : UInt64) : SkippedKey :=
  ⟨receiving.ratchetKey, counter, (receiving.chain.after S (receiving.gap counter)).messageKey S⟩

def beyond (receiving : ReceivingChain) (counter : UInt64) : ReceivingChain :=
  receiving.after S (receiving.gap counter + 1)

variable {S} {receiving : ReceivingChain} {counter target : UInt64} {m n : Nat}

theorem after_add : (receiving.after S m).after S n = receiving.after S (m + n) := by
  rw [after, after, after, Chain.after_add]

theorem passed_add :
    receiving.passed S (m + n) = receiving.passed S m ++ (receiving.after S m).passed S n := by
  have later (i : Nat) : (receiving.chain.after S m).after S i = receiving.chain.after S (m + i) :=
    (Chain.after_add S _ m i).symm
  simp only [passed, after, List.range_add, List.map_append, List.map_map, Function.comp_def, later]

theorem ratchetKey_of_mem_passed {entry : SkippedKey} (mem : entry ∈ receiving.passed S n) :
    entry.ratchetKey = receiving.ratchetKey := by
  obtain ⟨i, -, rfl⟩ := List.mem_map.1 mem
  rfl

theorem counter_lt_of_mem_passed {entry : SkippedKey}
    (mem : entry ∈ receiving.passed S (receiving.gap counter)) :
    receiving.chain.counter.toNat ≤ entry.counter.toNat ∧
      entry.counter.toNat < counter.toNat := by
  have bound := counter.toNat_lt
  have bound' := receiving.chain.counter.toNat_lt
  have inside : entry.position ∈ (receiving.passed S (receiving.gap counter)).map (·.position) :=
    List.mem_map_of_mem mem
  obtain ⟨-, low, high⟩ := mem_positions_passed (by unfold gap; omega) inside
  have number : entry.position.2 = entry.counter := rfl
  rw [number] at low high
  unfold gap at high
  omega

theorem counter_ne_of_mem_passed {entry : SkippedKey}
    (mem : entry ∈ receiving.passed S (receiving.gap counter)) : entry.counter ≠ counter := by
  rintro rfl
  exact Nat.lt_irrefl _ (counter_lt_of_mem_passed mem).2

section
variable (reached : receiving.chain.counter.toNat ≤ counter.toNat)
include reached

theorem counter_after_gap :
    (receiving.after S (receiving.gap counter)).chain.counter = counter :=
  Chain.counter_after_sub S reached

variable (short : HasNext counter)
include short

theorem toNat_counter_beyond :
    (receiving.beyond S counter).chain.counter.toNat = counter.toNat + 1 := by
  rw [beyond, toNat_counter_after (by unfold gap; omega), gap]
  omega

variable (later : counter.toNat < target.toNat)
include later

theorem gap_beyond :
    receiving.gap counter + 1 + (receiving.beyond S counter).gap target = receiving.gap target := by
  have number := toNat_counter_beyond (S := S) reached short
  unfold gap at number ⊢
  omega

/-- To pass over a message is to pass over those before it, itself, and those after it. -/
theorem passed_split : receiving.passed S (receiving.gap target) =
    receiving.passed S (receiving.gap counter) ++ receiving.entry S counter ::
      (receiving.beyond S counter).passed S ((receiving.beyond S counter).gap target) := by
  have one : (receiving.after S (receiving.gap counter)).passed S 1 = [receiving.entry S counter] :=
    calc
      (receiving.after S (receiving.gap counter)).passed S 1
        = [⟨receiving.ratchetKey, (receiving.after S (receiving.gap counter)).chain.counter,
            (receiving.chain.after S (receiving.gap counter)).messageKey S⟩] := rfl
      _ = [receiving.entry S counter] := by rw [counter_after_gap reached, entry]
  rw [← gap_beyond (S := S) reached short later, passed_add, passed_add, one, List.append_assoc]
  rfl

theorem beyond_beyond :
    (receiving.beyond S counter).beyond S target = receiving.beyond S target := by
  rw [beyond, beyond, beyond, after_add, ← gap_beyond (S := S) reached short later, beyond]
  congr 1

end

end ReceivingChain

end Confide
