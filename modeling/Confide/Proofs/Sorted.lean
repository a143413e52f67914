import Confide.Sorted.Set

/-! Sorted containers whose keys are equal when they compare as equal. -/

set_option autoImplicit false

namespace Confide

variable {κ : Type} [Ord κ] [Std.LawfulEqOrd κ]

theorem any_compare_iff {keys : List κ} {key : κ} :
    (keys.any fun other => compare other key == .eq) = true ↔ key ∈ keys := by
  rw [List.any_eq_true]
  constructor
  · rintro ⟨other, mem, same⟩
    rwa [← Std.LawfulEqOrd.eq_of_compare (beq_iff_eq.1 same)]
  · intro mem
    exact ⟨key, mem, beq_iff_eq.2 Std.ReflOrd.compare_self⟩

theorem nodup_of_ascending {keys : List κ}
    (ascending : keys.Pairwise fun first second => compare first second = .lt) : keys.Nodup := by
  refine ascending.imp fun less same => ?_
  rw [same, Std.ReflOrd.compare_self] at less
  cases less

namespace SortedSet

theorem contains_iff {s : SortedSet κ} {key : κ} : s.contains key = true ↔ key ∈ s.toList :=
  any_compare_iff

theorem contains_ofList_iff [Std.TransOrd κ] {keys : List κ} {key : κ} :
    (ofList keys).contains key = true ↔ key ∈ keys := by
  rw [contains_ofList, any_compare_iff]

theorem mem_toList_ofList [Std.TransOrd κ] {keys : List κ} {key : κ} :
    key ∈ (ofList keys).toList ↔ key ∈ keys :=
  contains_iff.symm.trans contains_ofList_iff

theorem nodup_toList (s : SortedSet κ) : s.toList.Nodup := nodup_of_ascending s.ascending

theorem eq_of_mem_iff [Std.TransOrd κ] {s other : SortedSet κ}
    (same : ∀ key, key ∈ s.toList ↔ key ∈ other.toList) : s = other := by
  have perm : s.toList.Perm other.toList :=
    (List.perm_ext_iff_of_nodup s.nodup_toList other.nodup_toList).2 same
  refine ext (perm.eq_of_pairwise (fun first second _ _ less greater => ?_) s.ascending
    other.ascending)
  rw [Std.OrientedCmp.gt_of_lt less] at greater
  cases greater

end SortedSet

namespace SortedMap

variable {α : Type} {m : SortedMap κ α} {key other : κ} {value : α}

theorem get?_eq_some_iff : m.get? key = some value ↔ (key, value) ∈ m.entries := by
  obtain ⟨entries, ascending⟩ := m
  simp only [get?]
  induction entries with
  | nil => simp
  | cons head rest ih =>
    obtain ⟨below, tail⟩ := List.pairwise_cons.1 ascending
    rw [List.mem_cons]
    by_cases same : head.1 = key
    · rw [List.find?_cons_of_pos (by rw [same, Std.ReflOrd.compare_self]; rfl), Option.map_some,
        Option.some.injEq]
      constructor
      · rintro rfl
        exact .inl (Prod.ext same.symm rfl)
      · rintro (rfl | mem)
        · rfl
        -- A later entry would be both greater and equal.
        · have less := below _ mem
          rw [same, Std.ReflOrd.compare_self] at less
          cases less
    · have apart : ¬(compare head.1 key == .eq) = true := fun equal =>
        same (Std.LawfulEqOrd.eq_of_compare (beq_iff_eq.1 equal))
      have skip : (head :: rest).find? (fun entry => compare entry.1 key == .eq) =
          rest.find? fun entry => compare entry.1 key == .eq := List.find?_cons_of_neg apart
      rw [skip, ih tail]
      refine (or_iff_right ?_).symm
      rintro rfl
      exact same rfl

theorem mem_values_of_get? (found : m.get? key = some value) : value ∈ m.values :=
  List.mem_map.2 ⟨(key, value), get?_eq_some_iff.1 found, rfl⟩

theorem get?_filter {keep : κ → α → Bool} :
    (m.filter keep).get? key = some value ↔ m.get? key = some value ∧ keep key value = true := by
  rw [get?_eq_some_iff, get?_eq_some_iff]
  exact List.mem_filter

theorem get?_erase_self [Std.TransOrd κ] : (m.erase key).get? key = none := by
  rw [get?_erase, if_pos Std.ReflOrd.compare_self]

theorem get?_erase_of_ne [Std.TransOrd κ] (apart : other ≠ key) :
    (m.erase key).get? other = m.get? other := by
  rw [get?_erase, if_neg fun same => apart (Std.LawfulEqOrd.eq_of_compare same).symm]

theorem get?_insert_self [Std.TransOrd κ] : (m.insert key value).get? key = some value := by
  rw [get?_insert, if_pos Std.ReflOrd.compare_self]

theorem get?_insert_of_ne [Std.TransOrd κ] (apart : other ≠ key) :
    (m.insert key value).get? other = m.get? other := by
  rw [get?_insert, if_neg fun same => apart (Std.LawfulEqOrd.eq_of_compare same).symm]

theorem get?_insert_or [Std.TransOrd κ] [DecidableEq κ] : (m.insert key value).get? other =
    (if key = other then some value else none).or (m.get? other) := by
  by_cases same : key = other
  · rw [if_pos same, ← same, get?_insert_self, Option.some_or]
  · rw [if_neg same, get?_insert_of_ne (Ne.symm same), Option.none_or]

theorem nodup_keys (m : SortedMap κ α) : m.keys.Nodup :=
  nodup_of_ascending (List.pairwise_map.2 m.ascending)

end SortedMap

end Confide
