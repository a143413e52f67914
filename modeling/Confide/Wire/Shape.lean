import Confide.Bytes
import Confide.Sorted.Set

/-! Descriptions of the values which are stored and sent. One description serves the binary and the
readable format, so a type states its fields, their names and their order once. -/

set_option autoImplicit false

namespace Confide

mutual

inductive Shape : Type → Type 1 where
  /-- A number below a bound. -/
  | number (bound : Nat) : Shape (Fin bound)
  /-- A byte string of a known length. -/
  | octets (n : Nat) : Shape (Octets n)
  | blob : Shape Bytes
  | text : Shape String
  | list {α : Type} (item : Shape α) : Shape (List α)
  /-- A list of a known length. -/
  | vector {α : Type} (n : Nat) (item : Shape α) : Shape (Vector α n)
  | pair {α β : Type} (first : Shape α) (second : Shape β) : Shape (α × β)
  /-- The entries of a table in the order in which they are written. -/
  | entries {κ α : Type} (key : Shape κ) (value : Shape α) : Shape (List (κ × α))
  | option {α : Type} (item : Shape α) : Shape (Option α)
  /-- Named fields; a closed record refuses names it does not know. -/
  | record {σ α : Type} (closed : Bool) (fields : Fields σ α) : Shape α
  /-- One of several named alternatives. -/
  | choice {α : Type} (variants : Variants α) : Shape α
  /-- A value which is written as another one, from which it can be told. -/
  | convert {α β : Type} (base : Shape α) (of? : α → Option β) (back : β → α)
      (of?_back : ∀ value, of? (back value) = some value) : Shape β
  /-- A value of which another one is written, which need not tell all of it. -/
  | view {α β : Type} (base : Shape α) (of? : α → Option β) (back : β → α) : Shape β
  /-- A value which is written differently for machines and for people. -/
  | byForm {α : Type} (binary readable : Shape α) : Shape α

/-- Fields whose values make up `α`; while they are read, `σ` holds those already seen. -/
inductive Fields : Type → Type → Type 1 where
  | nil : Fields Unit Unit
  | field {α β σ : Type} (name : String) (shape : Shape α) (rest : Fields σ β) :
      Fields (Option α × σ) (α × β)

inductive Variants : Type → Type 1 where
  | nil : Variants Empty
  /-- An alternative which is its name. -/
  | plain {β : Type} (name : String) (rest : Variants β) : Variants (Unit ⊕ β)
  /-- An alternative with a value. -/
  | holding {α β : Type} (name : String) (shape : Shape α) (rest : Variants β) : Variants (α ⊕ β)
  /-- An alternative with fields. -/
  | fields {α β σ : Type} (name : String) (fields : Fields σ α) (rest : Variants β) :
      Variants (α ⊕ β)

end

/-- Types with one way to be written. -/
class Wire (α : Type) where
  shape : Shape α

namespace Fields

def unseen {σ α : Type} : Fields σ α → σ
  | .nil => ()
  | .field _ _ rest => (none, rest.unseen)

def names {σ α : Type} : Fields σ α → List String
  | .nil => []
  | .field name _ rest => name :: rest.names

end Fields

/-- The value of a field which is left out: only an optional field has one. -/
def Shape.absent? {α : Type} : Shape α → Option α
  | .option _ => some none
  | _ => none

def Fields.value? {σ α : Type} : Fields σ α → σ → Option α
  | .nil, _ => some ()
  | .field _ shape rest, seen => do
    let value ← seen.1.orElse fun _ => shape.absent?
    let others ← rest.value? seen.2
    some (value, others)

namespace Shape

def iso {α β : Type} (base : Shape α) (of : α → β) (back : β → α)
    (of_back : ∀ value, of (back value) = value) : Shape β :=
  .convert base (fun value => some (of value)) back fun value => congrArg some (of_back value)

def uint8 : Shape UInt8 := .iso (.number UInt8.size) .ofFin (·.toFin) fun _ => rfl
def uint16 : Shape UInt16 := .iso (.number UInt16.size) .ofFin (·.toFin) fun _ => rfl
def uint32 : Shape UInt32 := .iso (.number UInt32.size) .ofFin (·.toFin) fun _ => rfl
def uint64 : Shape UInt64 := .iso (.number UInt64.size) .ofFin (·.toFin) fun _ => rfl

/-- Of several entries with one key, the last counts. -/
def map {κ α : Type} [Ord κ] [Std.TransOrd κ] (key : Shape κ) (value : Shape α) :
    Shape (SortedMap κ α) :=
  .iso (.entries key value) .ofList (·.entries) SortedMap.ofList_entries

def set {κ : Type} [Ord κ] [Std.TransOrd κ] (item : Shape κ) : Shape (SortedSet κ) :=
  .iso (.list item) .ofList (·.toList) SortedSet.ofList_toList

end Shape

instance : Wire UInt8 := ⟨.uint8⟩
instance : Wire UInt16 := ⟨.uint16⟩
instance : Wire UInt32 := ⟨.uint32⟩
instance : Wire UInt64 := ⟨.uint64⟩
instance : Wire String := ⟨.text⟩
instance {n : Nat} : Wire (Octets n) := ⟨.octets n⟩
instance {α : Type} [Wire α] : Wire (Option α) := ⟨.option Wire.shape⟩
instance {α β : Type} [Wire α] [Wire β] : Wire (α × β) := ⟨.pair Wire.shape Wire.shape⟩

end Confide
