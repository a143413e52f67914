import Confide.Bytes
import Confide.Failure

/-! Heads of binary items: a major type in three bits and an argument in the least number of bytes
which holds it. Reading takes heads of any width. -/

set_option autoImplicit false

namespace Confide.Cbor

inductive Error where
  /-- The input ends within an item. -/
  | endOfInput
  /-- The input is no binary item. -/
  | malformed (offset : Nat)
  /-- The item is not of the wanted kind. -/
  | unexpected
  | tooDeep
  deriving DecidableEq, Repr

instance : Failure Error where
  code
    | .endOfInput => "Io"
    | .malformed _ => "Syntax"
    | .unexpected => "Semantic"
    | .tooDeep => "RecursionLimitExceeded"
  message
    | .malformed offset => some ("invalid cbor at position " ++ toString offset)
    | .tooDeep => some "cbor nesting too deep"
    | _ => none

/-- A length of `none` is not known in advance: the parts that follow end with a stop. -/
inductive Head where
  | positive (value : Nat)
  | negative (value : Nat)
  | bytes (length : Option Nat)
  | text (length : Option Nat)
  | array (length : Option Nat)
  | table (length : Option Nat)
  | tag (number : Nat)
  | simple (number : Nat)
  | float
  | stop
  deriving DecidableEq, Repr

def argument (value : Nat) : Nat × Bytes :=
  if value < 24 then (value, [])
  else if value < 0x100 then (24, Bytes.ofNatBE 1 value)
  else if value < 0x10000 then (25, Bytes.ofNatBE 2 value)
  else if value < 0x100000000 then (26, Bytes.ofNatBE 4 value)
  else (27, Bytes.ofNatBE 8 value)

def encodeHead (major value : Nat) : Bytes :=
  .ofNat (32 * major + (argument value).1) :: (argument value).2

/-- The length of the shortest form of a head, as it counts for positions. -/
def Head.length : Head → Nat
  | .positive n | .negative n | .tag n | .simple n => 1 + (argument n).2.length
  | .bytes n | .text n | .array n | .table n => 1 + (argument (n.getD 0)).2.length
  | .float => 9
  | .stop => 1

structure Cursor where
  rest : Bytes
  offset : Nat := 0

abbrev Reader (α : Type) := StateT Cursor (Except Error) α

namespace Reader

def fail {α : Type} (error : Error) : Reader α := fun _ => .error error

def take (n : Nat) : Reader Bytes := fun cursor =>
  if n ≤ cursor.rest.length then
    .ok (cursor.rest.take n, ⟨cursor.rest.drop n, cursor.offset + n⟩)
  else .error .endOfInput

def offset : Reader Nat := fun cursor => .ok (cursor.offset, cursor)

/-- As many steps as there are bytes left: a loop which reads in each step needs no more. -/
def steps : Reader Nat := fun cursor => .ok (cursor.rest.length, cursor)

end Reader

/-- A head which was read, and where it counts as having begun. -/
structure Mark where
  head : Head
  offset : Nat

/-- The meaning of a major type and its argument; an unknown length shows as `none`. -/
def Head.of? (major : Nat) (value : Option Nat) (width : Nat) : Option Head :=
  match major, value with
  | 0, some n => some (.positive n)
  | 1, some n => some (.negative n)
  | 2, n => some (.bytes n)
  | 3, n => some (.text n)
  | 4, n => some (.array n)
  | 5, n => some (.table n)
  | 6, some n => some (.tag n)
  | 7, some n => some (if width < 2 then .simple n else .float)
  | 7, none => some .stop
  | _, _ => none

/-- The number of argument bytes after the first byte, or `none` for a reserved width. -/
def argumentWidth? (low : Nat) : Option Nat :=
  if low < 24 then some 0
  else if low = 24 then some 1
  else if low = 25 then some 2
  else if low = 26 then some 4
  else if low = 27 then some 8
  else if low = 31 then some 0
  else none

def readHead : Reader Mark := do
  let start ← Reader.offset
  let first ← Reader.take 1
  let code := Bytes.natBE first
  let low := code % 32
  match argumentWidth? low with
  | none => Reader.fail (.malformed start)
  | some width =>
    let bytes ← Reader.take width
    let value :=
      if low = 31 then none else some (if width = 0 then low else Bytes.natBE bytes)
    match Head.of? (code / 32) value width with
    | none => Reader.fail (.malformed start)
    | some head => pure ⟨head, start⟩

/-- A head which is read again counts as if it had been written in its shortest form. -/
def again (mark : Mark) : Reader Mark := do
  let now ← Reader.offset
  pure ⟨mark.head, now - mark.head.length⟩

/-- The next head which is no tag; `fuel` bounds the number of tags. -/
def skipTags : (fuel : Nat) → Mark → Reader Mark
  | 0, mark =>
    match mark.head with
    | .tag _ => Reader.fail .endOfInput
    | _ => pure mark
  | fuel + 1, mark =>
    match mark.head with
    | .tag _ => do skipTags fuel (← readHead)
    | _ => pure mark

def untagged (mark : Mark) : Reader Mark := do
  skipTags ((← Reader.steps) + 1) mark

def counted {σ : Type} (step : σ → Mark → Reader σ) : (count : Nat) → σ → Reader σ
  | 0, s => pure s
  | count + 1, s => do counted step count (← step s (← readHead))

def stopped {σ : Type} (step : σ → Mark → Reader σ) : (fuel : Nat) → σ → Reader σ
  | 0, _ => Reader.fail .endOfInput
  | fuel + 1, s => do
    let mark ← readHead
    match mark.head with
    | .stop => pure s
    | _ => stopped step fuel (← step s (← again mark))

def parts {σ : Type} (length : Option Nat) (step : σ → Mark → Reader σ) (s : σ) : Reader σ :=
  match length with
  | some count => counted step count s
  | none => do stopped step ((← Reader.steps) + 1) s

/-- The head of the next part; `left` counts those still to come, if their number is known. -/
def nextPart (left : Option Nat) : Reader Mark := do
  match left with
  | some 0 => Reader.fail .unexpected
  | some _ => readHead
  | none =>
    let mark ← readHead
    match mark.head with
    | .stop => Reader.fail .unexpected
    | _ => again mark

def deeper {α : Type} (depth : Nat) (inner : Nat → Reader α) : Reader α :=
  match depth with
  | 0 => Reader.fail .tooDeep
  | depth + 1 => inner depth

end Confide.Cbor
