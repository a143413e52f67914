import Confide.Json.Tree
import Confide.Wire.Shape

/-! The readable format of described values. A record may be read from an object or from the array
of its fields, and an alternative from its name or from an object with one entry. -/

set_option autoImplicit false

namespace Confide

open Json

namespace Json

def ofNat (value : Nat) : Json := .number (.natural (.ofNat value))

def ofBytes (bytes : Bytes) : Json := .array (bytes.map fun byte => ofNat byte.toNat)

end Json

mutual

/-- The value as it is written, with the fields of records in their order. -/
def Shape.toJson : {α : Type} → Shape α → α → Json
  | _, .number _, value => ofNat value.val
  | _, .octets _, value => ofBytes value.toList
  | _, .blob, value => ofBytes value
  | _, .text, value => .string value
  | _, .list item, values => .array (values.map item.toJson)
  | _, .vector _ item, values => .array (values.toList.map item.toJson)
  | _, .pair first second, value => .array [first.toJson value.1, second.toJson value.2]
  | _, .entries key value, table =>
    .array (table.map fun entry => .array [key.toJson entry.1, value.toJson entry.2])
  | _, .option _, none => .null
  | _, .option item, some value => item.toJson value
  | _, .record _ fields, value => .object (fields.toEntries value)
  | _, .choice variants, value => variants.toJson value
  | _, .convert base _ back _, value => base.toJson (back value)
  | _, .view base _ back, value => base.toJson (back value)
  | _, .byForm _ readable, value => readable.toJson value

def Fields.toEntries : {σ α : Type} → Fields σ α → α → List (String × Json)
  | _, _, .nil, _ => []
  | _, _, .field name shape rest, value => (name, shape.toJson value.1) :: rest.toEntries value.2

def Variants.toJson : {α : Type} → Variants α → α → Json
  | _, .nil, value => nomatch value
  | _, .plain name _, .inl _ => .string name
  | _, .plain _ rest, .inr value => rest.toJson value
  | _, .holding name shape _, .inl value => .object [(name, shape.toJson value)]
  | _, .holding _ _ rest, .inr value => rest.toJson value
  | _, .fields name fields _, .inl value => .object [(name, .object (fields.toEntries value))]
  | _, .fields _ _ rest, .inr value => rest.toJson value

end

namespace Json.Tree

def number? (bound : Nat) : Tree → Option (Fin bound)
  | .number (some (.natural value)) =>
    if h : value.toNat < bound then some ⟨value.toNat, h⟩ else none
  | _ => none

def string? : Tree → Option String
  | .string value => value
  | _ => none

def items? : Tree → Option (List Tree)
  | .array items => some items
  | _ => none

def bytes? (tree : Tree) : Option Bytes := do
  (← tree.items?).mapM fun item => (item.number? 256).map fun value => .ofNat value.val

end Json.Tree

mutual

def Shape.ofTree? : {α : Type} → Shape α → Tree → Option α
  | _, .number bound, tree => tree.number? bound
  | _, .octets n, tree => do Octets.ofList? n (← tree.bytes?)
  | _, .blob, tree => tree.bytes?
  | _, .text, tree => tree.string?
  | _, .list item, tree => do (← tree.items?).mapM item.ofTree?
  | _, .vector n item, tree => do
    let values ← (← tree.items?).mapM item.ofTree?
    if h : values.length = n then some ⟨values.toArray, by simpa using h⟩ else none
  | _, .pair first second, tree => do
    match ← tree.items? with
    | [a, b] => some (← first.ofTree? a, ← second.ofTree? b)
    | _ => none
  | _, .entries key value, tree => do
    (← tree.items?).mapM fun entry =>
      match entry with
      | .array [a, b] => do some (← key.ofTree? a, ← value.ofTree? b)
      | _ => none
  | _, .option item, tree =>
    match tree with
    | .null => some none
    | tree => (item.ofTree? tree).map some
  | _, .record closed fields, tree =>
    match tree with
    | .object entries => do
      let seen ← entries.foldlM (fun seen entry => do
        fields.ofEntry? closed (← entry.1) entry.2 seen) fields.unseen
      fields.value? seen
    | .array items => fields.ofItems? items
    | _ => none
  | _, .choice variants, tree =>
    match tree with
    | .string name => do variants.ofName? (← name)
    | .object [(name, content)] => do variants.ofContent? (← name) content
    | _ => none
  | _, .convert base of? _ _, tree => do of? (← base.ofTree? tree)
  | _, .view base of? _, tree => do of? (← base.ofTree? tree)
  | _, .byForm _ readable, tree => readable.ofTree? tree

/-- Takes an entry into the field of its name; a second entry for a field is refused. -/
def Fields.ofEntry? : {σ α : Type} → Fields σ α → (closed : Bool) → (name : String) → Tree →
    σ → Option σ
  | _, _, .nil, closed, _, _, seen => if closed then none else some seen
  | _, _, .field own shape rest, closed, name, tree, seen =>
    if name = own then
      match seen.1 with
      | some _ => none
      | none => do some (some (← shape.ofTree? tree), seen.2)
    else do some (seen.1, ← rest.ofEntry? closed name tree seen.2)

def Fields.ofItems? : {σ α : Type} → Fields σ α → List Tree → Option α
  | _, _, .nil, [] => some ()
  | _, _, .nil, _ :: _ => none
  | _, _, .field _ _ _, [] => none
  | _, _, .field _ shape rest, item :: items => do
    some (← shape.ofTree? item, ← rest.ofItems? items)

def Variants.ofName? : {α : Type} → Variants α → (name : String) → Option α
  | _, .nil, _ => none
  | _, .plain own rest, name =>
    if name = own then some (.inl ()) else (rest.ofName? name).map .inr
  | _, .holding own _ rest, name => if name = own then none else (rest.ofName? name).map .inr
  | _, .fields own _ rest, name => if name = own then none else (rest.ofName? name).map .inr

def Variants.ofContent? : {α : Type} → Variants α → (name : String) → Tree → Option α
  | _, .nil, _, _ => none
  | _, .plain own rest, name, tree =>
    if name = own then
      match tree with
      | .null => some (.inl ())
      | _ => none
    else (rest.ofContent? name tree).map .inr
  | _, .holding own shape rest, name, tree =>
    if name = own then (shape.ofTree? tree).map .inl else (rest.ofContent? name tree).map .inr
  | _, .fields own fields rest, name, tree =>
    if name = own then
      match tree with
      | .object entries => do
        let seen ← entries.foldlM (fun seen entry => do
          fields.ofEntry? false (← entry.1) entry.2 seen) fields.unseen
        (fields.value? seen).map .inl
      | .array items => (fields.ofItems? items).map .inl
      | _ => none
    else (rest.ofContent? name tree).map .inr

end

namespace Json

def encode {α : Type} [Wire α] (value : α) : Json := (Wire.shape : Shape α).toJson value

def decode? {α : Type} [Wire α] (tree : Tree) : Option α := (Wire.shape : Shape α).ofTree? tree

def encodeText {α : Type} [Wire α] (value : α) : String := (encode value).text

def decodeText? {α : Type} [Wire α] (text : String) : Option α := do decode? (← Tree.ofText? text)

end Json

end Confide
