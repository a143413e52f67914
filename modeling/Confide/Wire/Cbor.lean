import Confide.Wire.Cbor.Item
import Confide.Wire.Shape

/-! The binary format. Values are written with shortest heads and known lengths; reading takes one
item in any form it may have and leaves what follows. -/

set_option autoImplicit false

namespace Confide

open Cbor

namespace Cbor

def encodeText (text : String) : Bytes :=
  encodeHead 3 (Utf8.encode text).length ++ Utf8.encode text

def maxDepth : Nat := 256

end Cbor

mutual

def Shape.encode : {α : Type} → Shape α → α → Bytes
  | _, .number _, value => encodeHead 0 value.val
  | _, .octets n, value => encodeHead 2 n ++ value.toList
  | _, .blob, value => encodeHead 2 (List.length value) ++ value
  | _, .text, value => encodeText value
  | _, .list item, values => encodeHead 4 values.length ++ values.flatMap item.encode
  | _, .vector n item, values => encodeHead 4 n ++ values.toList.flatMap item.encode
  | _, .pair first second, value =>
    encodeHead 4 2 ++ first.encode value.1 ++ second.encode value.2
  | _, .entries key value, table =>
    encodeHead 5 table.length ++
      table.flatMap fun entry => key.encode entry.1 ++ value.encode entry.2
  | _, .option _, none => encodeHead 7 22
  | _, .option item, some value => item.encode value
  | _, .record _ fields, value => encodeHead 5 fields.names.length ++ fields.encode value
  | _, .choice variants, value => variants.encode value
  | _, .convert base _ back _, value => base.encode (back value)
  | _, .view base _ back, value => base.encode (back value)
  | _, .byForm binary _, value => binary.encode value

def Fields.encode : {σ α : Type} → Fields σ α → α → Bytes
  | _, _, .nil, _ => []
  | _, _, .field name shape rest, value =>
    encodeText name ++ shape.encode value.1 ++ rest.encode value.2

def Variants.encode : {α : Type} → Variants α → α → Bytes
  | _, .nil, value => nomatch value
  | _, .plain name _, .inl _ => encodeText name
  | _, .plain _ rest, .inr value => rest.encode value
  | _, .holding name shape _, .inl value =>
    encodeHead 5 1 ++ encodeText name ++ shape.encode value
  | _, .holding _ _ rest, .inr value => rest.encode value
  | _, .fields name fields _, .inl value =>
    encodeHead 5 1 ++ encodeText name ++ encodeHead 5 fields.names.length ++ fields.encode value
  | _, .fields _ _ rest, .inr value => rest.encode value

end

namespace Shape

def ofByte? : {α : Type} → Shape α → UInt8 → Option α
  | _, .number bound, byte => if h : byte.toNat < bound then some ⟨byte.toNat, h⟩ else none
  | _, .convert base of? _ _, byte => (base.ofByte? byte).bind of?
  | _, .view base of? _, byte => (base.ofByte? byte).bind of?
  | _, _, _ => none

end Shape

namespace Cbor

def ofOption {α : Type} : Option α → Reader α
  | some value => pure value
  | none => Reader.fail .unexpected

/-- Reads `count` parts and does not look for more. -/
def readVector {α : Type} (item : Mark → Reader α) :
    (count : Nat) → (left : Option Nat) → Reader (Vector α count)
  | 0, _ => pure #v[]
  | count + 1, left => do
    let value ← item (← nextPart left)
    let rest ← readVector item count (left.map (· - 1))
    pure (((#v[value] ++ rest).cast (Nat.add_comm 1 count)))

def readByte (mark : Mark) : Reader UInt8 := do
  let value ← readNumber mark
  if value < 256 then pure (.ofNat value) else Reader.fail .unexpected

/-- A byte string of a known length: a short one, or an array of at least as many numbers. -/
def readOctets (n depth : Nat) (mark : Mark) : Reader (Octets n) := do
  let mark ← untagged mark
  match mark.head with
  | .bytes (some length) =>
    if length ≤ pieceLength then do ofOption (Octets.ofList? n (← Reader.take length))
    else Reader.fail .unexpected
  | .array length => deeper depth fun _ => do
    let bytes ← readVector readByte n length
    pure ⟨bytes.toList, by simp⟩
  | _ => Reader.fail .unexpected

def readList {α : Type} (depth : Nat) (item : Nat → Mark → Reader α) (ofByte? : UInt8 → Option α)
    (mark : Mark) : Reader (List α) := do
  let mark ← untagged mark
  match mark.head with
  | .array length => deeper depth fun depth => do
    let reversed ← parts length (fun sofar part => do pure ((← item depth part) :: sofar)) []
    pure reversed.reverse
  | .bytes _ => do ofOption ((← readBlob mark).mapM ofByte?)
  | _ => Reader.fail .unexpected

/-- A byte string in any form, or an array of numbers. -/
def readBytes (depth : Nat) (mark : Mark) : Reader Bytes := do
  let mark ← untagged mark
  match mark.head with
  | .array length => deeper depth fun _ => do
    let reversed ← parts length (fun sofar part => do pure ((← readByte part) :: sofar)) []
    pure reversed.reverse
  | .bytes _ => readBlob mark
  | _ => Reader.fail .unexpected

def readString (mark : Mark) : Reader String := do
  let mark ← untagged mark
  match mark.head with
  | .text _ => do ofOption (Utf8.decode? (← readTextSegments mark))
  | _ => Reader.fail .unexpected

def readTable {σ : Type} (depth : Nat) (entry : Nat → σ → Mark → Reader σ) (s : σ) (mark : Mark) :
    Reader σ := do
  let mark ← untagged mark
  match mark.head with
  | .table length => deeper depth fun depth => parts length (entry depth) s
  | _ => Reader.fail .unexpected

end Cbor

mutual

/-- Reads an item whose head was read already. -/
def Shape.read : {α : Type} → Shape α → (depth : Nat) → Mark → Reader α
  | _, .number bound, _, mark => do
    let value ← readNumber mark
    if h : value < bound then pure ⟨value, h⟩ else Reader.fail .unexpected
  | _, .octets n, depth, mark => readOctets n depth mark
  | _, .blob, depth, mark => readBytes depth mark
  | _, .text, _, mark => readString mark
  | _, .list item, depth, mark => readList depth item.read item.ofByte? mark
  | _, .vector n item, depth, mark => do
    let mark ← untagged mark
    match mark.head with
    | .array length => deeper depth fun depth => readVector (item.read depth) n length
    | .bytes _ => do
      let bytes ← readBlob mark
      match (bytes.take n).mapM item.ofByte? with
      | none => Reader.fail .unexpected
      | some values =>
        if h : values.length = n then pure ⟨values.toArray, by simpa using h⟩
        else Reader.fail .unexpected
    | _ => Reader.fail .unexpected
  | _, .pair first second, depth, mark => do
    let mark ← untagged mark
    match mark.head with
    | .array length => deeper depth fun depth => do
      let value ← first.read depth (← nextPart length)
      let other ← second.read depth (← nextPart (length.map (· - 1)))
      pure (value, other)
    | .bytes _ => do
      match ← readBlob mark with
      | byte :: other :: _ => do
        let value ← ofOption (first.ofByte? byte)
        let other ← ofOption (second.ofByte? other)
        pure (value, other)
      | _ => Reader.fail .unexpected
    | _ => Reader.fail .unexpected
  | _, .entries key value, depth, mark => do
    let reversed ← readTable depth (fun depth sofar part => do
      let name ← key.read depth part
      let item ← value.read depth (← readHead)
      pure ((name, item) :: sofar)) [] mark
    pure reversed.reverse
  | _, .option item, depth, mark =>
    match mark.head with
    | .simple 22 | .simple 23 => pure none
    | _ => do pure (some (← item.read depth (← again mark)))
  | _, .record closed fields, depth, mark => do
    let seen ← readTable depth (fun depth seen part => do
      let name ← readName part
      fields.readEntry depth closed name seen) fields.unseen mark
    ofOption (fields.value? seen)
  | _, .choice variants, depth, mark => do
    let mark ← untagged mark
    match mark.head with
    | .table (some 1) => deeper depth fun depth => do
      let name ← readName (← readHead)
      variants.readContent depth name
    | .text _ => deeper depth fun depth => do
      let name ← readName (← again mark)
      variants.readContent depth name
    | _ => Reader.fail .unexpected
  | _, .convert base of? _ _, depth, mark => do ofOption (of? (← base.read depth mark))
  | _, .view base of? _, depth, mark => do ofOption (of? (← base.read depth mark))
  | _, .byForm binary _, depth, mark => binary.read depth mark

def Fields.readEntry : {σ α : Type} → Fields σ α → (depth : Nat) → (closed : Bool) →
    (name : Bytes) → σ → Reader σ
  | _, _, .nil, depth, closed, _, seen => do
    if closed then Reader.fail .unexpected
    else do
      pass depth (← readHead)
      pure seen
  | _, _, .field own shape rest, depth, closed, name, seen =>
    if name = Utf8.encode own then
      match seen.1 with
      | some _ => Reader.fail .unexpected
      | none => do pure (some (← shape.read depth (← readHead)), seen.2)
    else do pure (seen.1, ← rest.readEntry depth closed name seen.2)

def Fields.readParts : {σ α : Type} → Fields σ α → (depth : Nat) → (left : Option Nat) → Reader α
  | _, _, .nil, _, _ => pure ()
  | _, _, .field _ shape rest, depth, left => do
    let value ← shape.read depth (← nextPart left)
    let others ← rest.readParts depth (left.map (· - 1))
    pure (value, others)

def Variants.readContent : {α : Type} → Variants α → (depth : Nat) → (name : Bytes) → Reader α
  | _, .nil, _, _ => Reader.fail .unexpected
  | _, .plain own rest, depth, name =>
    if name = Utf8.encode own then pure (.inl ())
    else do pure (.inr (← rest.readContent depth name))
  | _, .holding own shape rest, depth, name =>
    if name = Utf8.encode own then do pure (.inl (← shape.read depth (← readHead)))
    else do pure (.inr (← rest.readContent depth name))
  | _, .fields own fields rest, depth, name =>
    if name = Utf8.encode own then do
      let mark ← readHead
      match mark.head with
      | .table length => deeper depth fun depth => do
        let seen ← parts length (fun seen part => do
          let name ← readName part
          fields.readEntry depth false name seen) fields.unseen
        pure (.inl (← ofOption (fields.value? seen)))
      | .array length => deeper depth fun depth => do
        pure (.inl (← fields.readParts depth length))
      | _ => do
        passFlat depth mark fun _ => pure ()
        Reader.fail .unexpected
    else do pure (.inr (← rest.readContent depth name))

end

namespace Cbor

def encode {α : Type} [Wire α] (value : α) : Bytes := (Wire.shape : Shape α).encode value

def decodeItem {α : Type} (shape : Shape α) (input : Bytes) : Except Error (α × Bytes) :=
  match (do shape.read maxDepth (← readHead) : Reader α) { rest := input } with
  | .error error => .error error
  | .ok (value, cursor) => .ok (value, cursor.rest)

def decode {α : Type} [Wire α] (input : Bytes) : Except Error α :=
  (decodeItem Wire.shape input).map (·.1)

end Cbor

end Confide
