/-! Finite maps as lists of entries with ascending keys. Two maps with the same entries are equal,
and an insertion or a removal changes what is found under one key only. -/

set_option autoImplicit false

namespace Confide

structure SortedMap (κ α : Type) [Ord κ] where
  entries : List (κ × α)
  ascending : entries.Pairwise fun first second => compare first.1 second.1 = .lt

namespace SortedMap

section
variable {κ α : Type} [Ord κ]

theorem ext {first second : SortedMap κ α} (same : first.entries = second.entries) :
    first = second := by
  cases first; cases second; cases same; rfl

instance [DecidableEq κ] [DecidableEq α] : DecidableEq (SortedMap κ α) := fun first second =>
  if h : first.entries = second.entries then .isTrue (ext h)
  else .isFalse fun same => h (same ▸ rfl)

def empty : SortedMap κ α := ⟨[], .nil⟩

instance : Inhabited (SortedMap κ α) := ⟨empty⟩

def size (m : SortedMap κ α) : Nat := m.entries.length

def keys (m : SortedMap κ α) : List κ := m.entries.map (·.1)

def values (m : SortedMap κ α) : List α := m.entries.map (·.2)

def get? (m : SortedMap κ α) (key : κ) : Option α :=
  (m.entries.find? fun entry => compare entry.1 key == .eq).map (·.2)

def contains (m : SortedMap κ α) (key : κ) : Bool := (m.get? key).isSome

def filter (m : SortedMap κ α) (keep : κ → α → Bool) : SortedMap κ α :=
  ⟨m.entries.filter fun entry => keep entry.1 entry.2, m.ascending.filter _⟩

def erase (m : SortedMap κ α) (key : κ) : SortedMap κ α :=
  m.filter fun other _ => compare other key != .eq

def dropFirst (m : SortedMap κ α) : SortedMap κ α :=
  ⟨m.entries.tail, m.ascending.sublist (List.tail_sublist _)⟩

def insertEntry (key : κ) (value : α) : List (κ × α) → List (κ × α)
  | [] => [(key, value)]
  | entry :: rest =>
    match compare key entry.1 with
    | .lt => (key, value) :: entry :: rest
    | .eq => (key, value) :: rest
    | .gt => entry :: insertEntry key value rest

theorem mem_insertEntry {key : κ} {value : α} {entries : List (κ × α)} {entry : κ × α}
    (h : entry ∈ insertEntry key value entries) : entry = (key, value) ∨ entry ∈ entries := by
  induction entries with
  | nil => simpa [insertEntry] using h
  | cons head rest ih =>
    unfold insertEntry at h
    split at h
    · simpa using h
    · simp only [List.mem_cons] at h ⊢
      exact h.imp_right .inr
    · simp only [List.mem_cons] at h ⊢
      rcases h with h | h
      · exact .inr (.inl h)
      · exact (ih h).imp_right .inr

end

section
variable {κ α : Type} [Ord κ] [Std.TransOrd κ]

theorem ascending_insertEntry {key : κ} {value : α} {entries : List (κ × α)}
    (h : entries.Pairwise fun first second => compare first.1 second.1 = .lt) :
    (insertEntry key value entries).Pairwise fun first second =>
      compare first.1 second.1 = .lt := by
  induction entries with
  | nil => simp [insertEntry]
  | cons head rest ih =>
    have ⟨below, tail⟩ := List.pairwise_cons.1 h
    unfold insertEntry
    split
    · rename_i lt
      refine List.pairwise_cons.2 ⟨fun entry mem => ?_, h⟩
      rcases List.mem_cons.1 mem with rfl | mem
      · exact lt
      · exact Std.TransCmp.lt_trans lt (below entry mem)
    · rename_i eq
      exact List.pairwise_cons.2
        ⟨fun entry mem => (Std.TransCmp.congr_left eq).trans (below entry mem), tail⟩
    · rename_i gt
      refine List.pairwise_cons.2 ⟨fun entry mem => ?_, ih tail⟩
      rcases mem_insertEntry mem with rfl | mem
      · exact Std.OrientedCmp.lt_of_gt gt
      · exact below entry mem

def insert (m : SortedMap κ α) (key : κ) (value : α) : SortedMap κ α :=
  ⟨insertEntry key value m.entries, ascending_insertEntry m.ascending⟩

/-- Of several entries with one key, the last counts. -/
def ofList (entries : List (κ × α)) : SortedMap κ α :=
  entries.foldl (fun m entry => m.insert entry.1 entry.2) empty

theorem insertEntry_append {key : κ} {value : α} {entries : List (κ × α)}
    (h : ∀ entry ∈ entries, compare entry.1 key = .lt) :
    insertEntry key value entries = entries ++ [(key, value)] := by
  induction entries with
  | nil => rfl
  | cons head rest ih =>
    have gt : compare key head.1 = .gt := Std.OrientedCmp.gt_of_lt (h head (by simp))
    simp [insertEntry, gt, ih fun entry mem => h entry (by simp [mem])]

theorem get?_insert (m : SortedMap κ α) (key other : κ) (value : α) :
    (m.insert key value).get? other =
      if compare key other = .eq then some value else m.get? other := by
  obtain ⟨entries, ascending⟩ := m
  simp only [get?, insert]
  clear ascending
  induction entries with
  | nil => by_cases same : compare key other = .eq <;> simp [insertEntry, same]
  | cons head rest ih =>
    unfold insertEntry
    split
    · by_cases same : compare key other = .eq <;> simp [List.find?_cons, same]
    · rename_i eq
      by_cases same : compare key other = .eq <;> simp [← Std.TransCmp.congr_left eq, same]
    · rename_i gt
      by_cases found : compare head.1 other = .eq
      · have apart : compare key other ≠ .eq := by
          rw [← Std.TransCmp.congr_right found, gt]; decide
        simp [found, apart]
      · simpa [List.find?_cons, found] using ih

theorem contains_insert (m : SortedMap κ α) (key other : κ) (value : α) :
    (m.insert key value).contains other = (compare key other == .eq || m.contains other) := by
  rw [contains, get?_insert, contains]
  split <;> simp [*]

theorem get?_erase (m : SortedMap κ α) (key other : κ) :
    (m.erase key).get? other = if compare key other = .eq then none else m.get? other := by
  simp only [get?, erase, filter, List.find?_filter]
  by_cases same : compare key other = .eq
  · simp [same, ← Std.TransCmp.congr_right same]
  · rw [if_neg same]
    congr 2
    funext entry
    by_cases found : compare entry.1 other = .eq
    · have apart : compare entry.1 key ≠ .eq := fun eq =>
        same ((Std.TransCmp.congr_left eq).symm.trans found)
      simp [found, apart]
    · simp [found]

theorem entries_foldl_insert (m : SortedMap κ α) (rest : List (κ × α))
    (h : (m.entries ++ rest).Pairwise fun first second => compare first.1 second.1 = .lt) :
    (rest.foldl (fun m entry => m.insert entry.1 entry.2) m).entries = m.entries ++ rest := by
  induction rest generalizing m with
  | nil => simp
  | cons entry rest ih =>
    have appended : (m.insert entry.1 entry.2).entries = m.entries ++ [entry] :=
      insertEntry_append fun other mem =>
        (List.pairwise_append.1 h).2.2 other mem entry (by simp)
    rw [List.foldl_cons, ih, appended, List.append_assoc, List.singleton_append]
    rwa [appended, List.append_assoc, List.singleton_append]

theorem ofList_entries (m : SortedMap κ α) : ofList m.entries = m :=
  ext (by
    rw [ofList, entries_foldl_insert empty m.entries (by simpa [empty] using m.ascending)]
    rfl)

end

end SortedMap

end Confide
