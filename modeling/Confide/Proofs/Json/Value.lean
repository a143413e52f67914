import Confide.Json.Tree
import Confide.Proofs.Sorted
import Mathlib.Algebra.Ring.Nat

/-! Readable values as they are held: without floating-point numbers, with the keys of every object
in ascending order, and nested up to some depth. The value of a tree is taken back from it if it
does not nest too deep. -/

set_option autoImplicit false

namespace Confide.Json

/-- A value in which no floating-point number occurs. -/
inductive Whole : Json → Prop where
  | null : Whole .null
  | bool (value : Bool) : Whole (.bool value)
  | natural (value : UInt64) : Whole (.number (.natural value))
  | negative (below : Fin (2 ^ 63)) : Whole (.number (.negative below))
  | string (value : String) : Whole (.string value)
  | array {items : List Json} (whole : ∀ item ∈ items, Whole item) : Whole (.array items)
  | object {entries : List (String × Json)} (whole : ∀ entry ∈ entries, Whole entry.2) :
    Whole (.object entries)

/-- A value in which the keys of every object ascend. -/
inductive Ordered : Json → Prop where
  | null : Ordered .null
  | bool (value : Bool) : Ordered (.bool value)
  | number (value : Number) : Ordered (.number value)
  | string (value : String) : Ordered (.string value)
  | array {items : List Json} (ordered : ∀ item ∈ items, Ordered item) : Ordered (.array items)
  | object {entries : List (String × Json)}
    (ascending : entries.Pairwise fun first second => compare first.1 second.1 = .lt)
    (ordered : ∀ entry ∈ entries, Ordered entry.2) : Ordered (.object entries)

theorem Whole.single {key : String} {value : Json} (whole : value.Whole) :
    Whole (.object [(key, value)]) :=
  .object (List.forall_mem_singleton.2 whole)

theorem Whole.pair {key other : String} {first second : Json} (whole : first.Whole)
    (whole' : second.Whole) : Whole (.object [(key, first), (other, second)]) :=
  .object (List.forall_mem_cons.2 ⟨whole, List.forall_mem_singleton.2 whole'⟩)

theorem Ordered.single {key : String} {value : Json} (ordered : value.Ordered) :
    Ordered (.object [(key, value)]) :=
  .object (List.pairwise_singleton _ _) (List.forall_mem_singleton.2 ordered)

theorem Ordered.pair {key other : String} {first second : Json} (less : compare key other = .lt)
    (ordered : first.Ordered) (ordered' : second.Ordered) :
    Ordered (.object [(key, first), (other, second)]) :=
  .object (List.pairwise_pair.2 less)
    (List.forall_mem_cons.2 ⟨ordered, List.forall_mem_singleton.2 ordered'⟩)

mutual

def depth : Json → Nat
  | .array items => itemsDepth items + 1
  | .object entries => entriesDepth entries + 1
  | _ => 0

def itemsDepth : List Json → Nat
  | [] => 0
  | item :: rest => max item.depth (itemsDepth rest)

def entriesDepth : List (String × Json) → Nat
  | [] => 0
  | (_, value) :: rest => max value.depth (entriesDepth rest)

end

theorem sortedItems_eq {items : List Json} (same : ∀ item ∈ items, item.sorted = item) :
    sortedItems items = items := by
  induction items with
  | nil => rfl
  | cons item rest ih =>
    rw [sortedItems, same item List.mem_cons_self,
      ih fun other mem => same other (List.mem_cons_of_mem item mem)]

theorem sortedEntries_eq {entries : List (String × Json)}
    (same : ∀ entry ∈ entries, entry.2.sorted = entry.2) : sortedEntries entries = entries := by
  induction entries with
  | nil => rfl
  | cons entry rest ih =>
    rw [sortedEntries, same entry List.mem_cons_self,
      ih fun other mem => same other (List.mem_cons_of_mem entry mem)]

theorem Ordered.sorted_eq {value : Json} (ordered : value.Ordered) : value.sorted = value := by
  induction ordered with
  | null | bool | number | string => rfl
  | array _ ih => rw [sorted, sortedItems_eq ih]
  | @object entries ascending _ ih =>
    have same := SortedMap.ofList_entries ⟨entries, ascending⟩
    rw [sorted, sortedEntries_eq ih, sortedObject, same]

mutual

theorem value?_toTree (value : Json) (limit : Nat) (shallow : value.depth ≤ limit) :
    value.toTree.value? limit = some value.sorted := by
  match value, limit with
  | .null, _ | .bool _, _ | .number _, _ | .string _, _ => rfl
  | .array items, limit + 1 =>
    have items := values?_itemTrees items limit (Nat.le_of_succ_le_succ shallow)
    rw [toTree, Tree.value?, items]
    rfl
  | .object entries, limit + 1 =>
    have entries := entries?_entryTrees entries limit (Nat.le_of_succ_le_succ shallow)
    rw [toTree, Tree.value?, entries]
    rfl

theorem values?_itemTrees (items : List Json) (limit : Nat) (shallow : itemsDepth items ≤ limit) :
    Tree.values? limit (itemTrees items) = some (sortedItems items) := by
  match items with
  | [] => rfl
  | item :: rest =>
    have item := value?_toTree item limit (Nat.max_le.1 shallow).1
    have rest := values?_itemTrees rest limit (Nat.max_le.1 shallow).2
    rw [itemTrees, Tree.values?, item, rest]
    rfl

theorem entries?_entryTrees (entries : List (String × Json)) (limit : Nat)
    (shallow : entriesDepth entries ≤ limit) :
    Tree.entries? limit (entryTrees entries) = some (sortedEntries entries) := by
  match entries with
  | [] => rfl
  | (key, value) :: rest =>
    have value := value?_toTree value limit (Nat.max_le.1 shallow).1
    have rest := entries?_entryTrees rest limit (Nat.max_le.1 shallow).2
    rw [entryTrees, Tree.entries?, value, rest]
    rfl

end

end Confide.Json
