import Confide.Sorted.Map

/-! Finite sets as ascending lists. Two sets with the same members are equal. -/

set_option autoImplicit false

namespace Confide

structure SortedSet (κ : Type) [Ord κ] where
  toList : List κ
  ascending : toList.Pairwise fun first second => compare first second = .lt

namespace SortedSet

section
variable {κ : Type} [Ord κ]

theorem ext {first second : SortedSet κ} (same : first.toList = second.toList) :
    first = second := by
  cases first; cases second; cases same; rfl

instance [DecidableEq κ] : DecidableEq (SortedSet κ) := fun first second =>
  if h : first.toList = second.toList then .isTrue (ext h)
  else .isFalse fun same => h (same ▸ rfl)

def empty : SortedSet κ := ⟨[], .nil⟩

instance : Inhabited (SortedSet κ) := ⟨empty⟩

def contains (s : SortedSet κ) (key : κ) : Bool :=
  s.toList.any fun other => compare other key == .eq

def erase (s : SortedSet κ) (key : κ) : SortedSet κ :=
  ⟨s.toList.filter fun other => compare other key != .eq, s.ascending.filter _⟩

def ofKeys (m : SortedMap κ Unit) : SortedSet κ :=
  ⟨m.keys, List.pairwise_map.2 m.ascending⟩

theorem contains_ofKeys (m : SortedMap κ Unit) (key : κ) :
    (ofKeys m).contains key = m.contains key := by
  rw [Bool.eq_iff_iff]
  simp [contains, ofKeys, SortedMap.keys, SortedMap.contains, SortedMap.get?]

end

section
variable {κ : Type} [Ord κ] [Std.TransOrd κ]

def ofList (keys : List κ) : SortedSet κ := ofKeys (.ofList (keys.map (·, ())))

def insert (s : SortedSet κ) (key : κ) : SortedSet κ := ofList (s.toList ++ [key])

theorem ofList_toList (s : SortedSet κ) : ofList s.toList = s := by
  apply ext
  let m : SortedMap κ Unit := ⟨s.toList.map (·, ()), List.pairwise_map.2 s.ascending⟩
  have same : SortedMap.ofList (s.toList.map (·, ())) = m := SortedMap.ofList_entries m
  simp [ofList, ofKeys, same, m, SortedMap.keys, Function.comp_def]

theorem contains_ofList (keys : List κ) (key : κ) :
    (ofList keys).contains key = keys.any fun other => compare other key == .eq := by
  have inserted (m : SortedMap κ Unit) :
      ((keys.map (·, ())).foldl (fun m entry => m.insert entry.1 entry.2) m).contains key =
        (m.contains key || keys.any fun other => compare other key == .eq) := by
    induction keys generalizing m with
    | nil => simp
    | cons head rest ih =>
      rw [List.map_cons, List.foldl_cons, ih, SortedMap.contains_insert, List.any_cons,
        Bool.or_left_comm, Bool.or_assoc]
  rw [ofList, contains_ofKeys, SortedMap.ofList, inserted]
  rfl

end

end SortedSet

end Confide
