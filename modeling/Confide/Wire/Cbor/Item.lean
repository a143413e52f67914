import Confide.Bytes.Utf8
import Confide.Wire.Cbor.Head

/-! Parts of binary items: numbers, byte strings and texts in one or several segments, names, and
items which are passed over. -/

set_option autoImplicit false

namespace Confide.Cbor

/-- Strings and names which are read at once are no longer than this. -/
def pieceLength : Nat := 4096

/-- The parts of a string; a part is given its length and the position of its head. Strings of
unknown length nest, and `nested` counts the open ones. -/
def segmentsFrom {σ : Type} (lengthOf : Head → Option (Option Nat))
    (part : σ → Nat → Nat → Reader σ) (nested : Nat) : (fuel : Nat) → σ → Mark → Reader σ
  | 0, _, _ => Reader.fail .endOfInput
  | fuel + 1, s, mark =>
    match mark.head, nested with
    | .stop, 1 => pure s
    | .stop, nested + 2 => do segmentsFrom lengthOf part (nested + 1) fuel s (← readHead)
    | head, nested =>
      match lengthOf head with
      | none => Reader.fail (.malformed mark.offset)
      | some none => do segmentsFrom lengthOf part (nested + 1) fuel s (← readHead)
      | some (some length) => do
        let s ← part s length mark.offset
        match nested with
        | 0 => pure s
        | _ => segmentsFrom lengthOf part nested fuel s (← readHead)

def segments {σ : Type} (lengthOf : Head → Option (Option Nat)) (part : σ → Nat → Nat → Reader σ)
    (s : σ) (mark : Mark) : Reader σ := do
  let mark ← again mark
  segmentsFrom lengthOf part 0 ((← Reader.steps) + 2) s mark

def bytesLength? : Head → Option (Option Nat)
  | .bytes length => some length
  | _ => none

def textLength? : Head → Option (Option Nat)
  | .text length => some length
  | _ => none

def readBlob (mark : Mark) : Reader Bytes :=
  segments bytesLength? (fun sofar length _ => do pure (sofar ++ (← Reader.take length))) [] mark

/-- The rest of one segment of text, in pieces; `pending` are the bytes of a character which a
piece ended in. A broken character shows before a missing end of the input only if the input holds
its whole piece. -/
def readText (start : Nat) : (fuel : Nat) → (left : Nat) → (pending : Bytes) → Reader Bytes
  | 0, _, _ => Reader.fail .endOfInput
  | fuel + 1, left, pending =>
    if left = 0 then
      if pending.isEmpty then pure [] else Reader.fail (.malformed start)
    else do
      let count := min (pieceLength - pending.length) left
      let piece := pending ++ (← Reader.take count)
      let valid := Utf8.validLength piece
      if piece.length - valid > 3 then Reader.fail (.malformed start)
      else do
        let rest ← readText start fuel (left - count) (piece.drop valid)
        pure (piece.take valid ++ rest)

def readTextSegments (mark : Mark) : Reader Bytes :=
  segments textLength? (fun sofar length start => do
    let text ← readText start ((← Reader.steps) + 1) length []
    pure (sofar ++ text)) [] mark

def readShortText (mark : Mark) (length : Nat) : Reader Bytes := do
  let bytes ← Reader.take length
  if Utf8.isValid bytes then pure bytes else Reader.fail (.malformed mark.offset)

/-- A name is a short text or a short byte string of known length. -/
def readName (mark : Mark) : Reader Bytes := do
  let mark ← untagged mark
  match mark.head with
  | .text (some length) =>
    if length ≤ pieceLength then readShortText mark length else Reader.fail .unexpected
  | .bytes (some length) =>
    if length ≤ pieceLength then Reader.take length else Reader.fail .unexpected
  | _ => Reader.fail .unexpected

/-- Adds the digits of a large number in pieces of sixteen bytes; leading zeros do not count, and
sixteen digits are the most. -/
def digits : (fuel : Nat) → (left : Nat) → Bytes → Reader Bytes
  | 0, _, _ => Reader.fail .endOfInput
  | fuel + 1, left, sofar =>
    if left = 0 then pure sofar
    else do
      let piece ← Reader.take (min 16 left)
      let sofar := if sofar.isEmpty then piece.dropWhile (· == 0) else sofar ++ piece
      if sofar.length > 16 then Reader.fail .unexpected
      else digits fuel (left - min 16 left) sofar

def readDigits : Reader Nat := do
  let mark ← readHead
  match mark.head with
  | .bytes _ =>
    let bytes ← segments bytesLength?
      (fun sofar length _ => do digits ((← Reader.steps) + 1) length sofar) [] mark
    pure (Bytes.natBE bytes)
  | _ => Reader.fail .unexpected

/-- A number which is not negative, as a head or as a large number with tag 2. -/
def readNumberFrom : (fuel : Nat) → Mark → Reader Nat
  | 0, _ => Reader.fail .endOfInput
  | fuel + 1, mark =>
    match mark.head with
    | .positive n => pure n
    | .tag 2 => readDigits
    | .tag 3 => do
      let _ ← readDigits
      Reader.fail .unexpected
    | .tag _ => do readNumberFrom fuel (← readHead)
    | _ => Reader.fail .unexpected

def readNumber (mark : Mark) : Reader Nat := do
  readNumberFrom ((← Reader.steps) + 1) mark

/-- Reads an item of any kind which holds no others; the items of arrays, tables and unknown tags
are left to the argument. -/
def passFlat (depth : Nat) (mark : Mark) (nested : Nat → Reader Unit) : Reader Unit :=
  match mark.head with
  | .positive _ | .negative _ | .float => pure ()
  | .bytes (some length) =>
    if length ≤ pieceLength then do
      let _ ← Reader.take length
      pure ()
    else do
      let _ ← readBlob mark
      pure ()
  | .bytes none => do
    let _ ← readBlob mark
    pure ()
  | .text (some length) =>
    if length ≤ pieceLength then do
      let _ ← readShortText (← again mark) length
      pure ()
    else do
      let _ ← readTextSegments mark
      pure ()
  | .text none => do
    let _ ← readTextSegments mark
    pure ()
  | .tag 2 => do
    let _ ← readDigits
    pure ()
  | .tag 3 => do
    let value ← readDigits
    if value < 1 <<< 127 then pure () else Reader.fail .unexpected
  | .simple n => if 20 ≤ n ∧ n ≤ 23 then pure () else Reader.fail .unexpected
  | .stop => Reader.fail .unexpected
  | .array _ | .table _ | .tag _ => deeper depth nested

def pass : (depth : Nat) → Mark → Reader Unit
  | 0, mark => passFlat 0 mark fun _ => pure ()
  | depth + 1, mark =>
    passFlat (depth + 1) mark fun _ =>
      match mark.head with
      | .array length => parts length (fun _ part => pass depth part) ()
      | .table length => parts length (fun _ key => do
          pass depth key
          pass depth (← readHead)) ()
      | _ => do pass depth (← readHead)

end Confide.Cbor
