import Confide.Json.Value

/-! Reading readable text in two steps. The first checks only the form, so that parts which nobody
asks for may hold numbers out of range or broken characters; the second takes the values. -/

set_option autoImplicit false

namespace Confide.Json

/-- What a text says. A number out of range and a string with a broken character have no value. -/
inductive Tree where
  | null
  | bool (value : Bool)
  | number (value : Option Number)
  | string (value : Option String)
  | array (items : List Tree)
  | object (entries : List (Option String × Tree))

def isBlank (c : Char) : Bool := c = ' ' || c = '\n' || c = '\t' || c = '\r'

def skipBlanks (input : List Char) : List Char := input.dropWhile isBlank

def digitValue? (c : Char) : Option Nat :=
  if '0' ≤ c ∧ c ≤ '9' then some (c.toNat - 48) else none

def isDigit (c : Char) : Bool := (digitValue? c).isSome

structure Literal where
  negative : Bool
  whole : List Nat
  /-- The digits after the point, if there is one. -/
  fraction : Option (List Nat)
  /-- The exponent, if there is one: whether it is negative, and its digits. -/
  exponent : Option (Bool × List Nat)

/-- As many leading digits as a 64-bit word holds, and how many digits were left out. -/
def significant (start : Nat) : List Nat → Nat × Nat
  | [] => (start, 0)
  | digit :: rest =>
    if start * 10 + digit < 0x10000000000000000 then significant (start * 10 + digit) rest
    else (start, rest.length + 1)

def exponentLimit : Nat := 0x7fffffff

/-- The value of the exponent digits, or `none` if it is above the limit. -/
def exponentValue? (sofar : Nat) : List Nat → Option Nat
  | [] => some sofar
  | digit :: rest =>
    if sofar * 10 + digit ≤ exponentLimit then exponentValue? (sofar * 10 + digit) rest else none

/-- The floating-point number of a literal: digits beyond a 64-bit word count only by their
number, and a number which is too large has no value. -/
def Literal.float? (l : Literal) : Option Binary64 :=
  let (whole, extra) := significant 0 l.whole
  let fraction := l.fraction.getD []
  let (significand, unused) := significant whole fraction
  let start : Int := (extra : Int) - (fraction.length - unused : Nat)
  match l.exponent with
  | none => Binary64.ofDecimal? l.negative (.ofNat significand) start
  | some (negative, digits) =>
    match exponentValue? 0 digits with
    | none =>
      if significand ≠ 0 ∧ !negative then none else some (.zero l.negative)
    | some value =>
      let exponent := if negative then start - value else start + value
      Binary64.ofDecimal? l.negative (.ofNat significand) exponent

/-- A literal without point and exponent is a whole number, if it fits and is not minus zero. -/
def Literal.number? (l : Literal) : Option Number :=
  let value := l.whole.foldl (fun n digit => 10 * n + digit) 0
  match l.fraction, l.exponent with
  | none, none =>
    if !l.negative then
      if value < 0x10000000000000000 then some (.natural (.ofNat value)) else l.float?.map .float
    else if h : 0 < value ∧ value ≤ 0x8000000000000000 then some (.negative ⟨value - 1, by omega⟩)
    else l.float?.map .float
  | _, _ => l.float?.map .float

def takeDigits (input : List Char) : List Nat × List Char :=
  ((input.takeWhile isDigit).filterMap digitValue?, input.dropWhile isDigit)

/-- The whole part has no leading zero. -/
def readWhole? (input : List Char) : Option (List Nat × List Char) :=
  match takeDigits input with
  | ([], _) => none
  | (0 :: _ :: _, _) => none
  | (digits, rest) => some (digits, rest)

def readFraction? (input : List Char) : Option (Option (List Nat) × List Char) :=
  match input with
  | '.' :: rest =>
    match takeDigits rest with
    | ([], _) => none
    | (digits, rest) => some (some digits, rest)
  | _ => some (none, input)

def readExponent? (input : List Char) : Option (Option (Bool × List Nat) × List Char) :=
  match input with
  | c :: rest =>
    if c = 'e' ∨ c = 'E' then
      let (negative, rest) := match rest with
        | '-' :: rest => (true, rest)
        | '+' :: rest => (false, rest)
        | rest => (false, rest)
      match takeDigits rest with
      | ([], _) => none
      | (digits, rest) => some (some (negative, digits), rest)
    else some (none, input)
  | [] => some (none, [])

def readNumber? (input : List Char) : Option (Option Number × List Char) := do
  let (negative, rest) := match input with
    | '-' :: rest => (true, rest)
    | rest => (false, rest)
  let (whole, rest) ← readWhole? rest
  let (fraction, rest) ← readFraction? rest
  let (exponent, rest) ← readExponent? rest
  some (Literal.number? ⟨negative, whole, fraction, exponent⟩, rest)

/-- A character of a string, or half of one that is written in two escapes. -/
inductive Piece where
  | char (c : Char)
  | unit (code : Nat)

def hexValue? (c : Char) : Option Nat :=
  if '0' ≤ c ∧ c ≤ '9' then some (c.toNat - 48)
  else if 'a' ≤ c ∧ c ≤ 'f' then some (c.toNat - 87)
  else if 'A' ≤ c ∧ c ≤ 'F' then some (c.toNat - 55)
  else none

def unit? (a b c d : Char) : Option Nat := do
  some (((((← hexValue? a) * 16 + (← hexValue? b)) * 16) + (← hexValue? c)) * 16 + (← hexValue? d))

def readPieces? : List Char → Option (List Piece × List Char)
  | '"' :: rest => some ([], rest)
  | '\\' :: 'u' :: a :: b :: c :: d :: rest => do
    let code ← unit? a b c d
    let (pieces, rest) ← readPieces? rest
    some (.unit code :: pieces, rest)
  | '\\' :: e :: rest => do
    let c ← match e with
      | '"' => some '"'
      | '\\' => some '\\'
      | '/' => some '/'
      | 'b' => some (Char.ofNat 8)
      | 'f' => some (Char.ofNat 12)
      | 'n' => some '\n'
      | 'r' => some '\r'
      | 't' => some '\t'
      | _ => none
    let (pieces, rest) ← readPieces? rest
    some (.char c :: pieces, rest)
  | c :: rest =>
    if c.toNat < 32 ∨ c = '\\' then none
    else do
      let (pieces, rest) ← readPieces? rest
      some (.char c :: pieces, rest)
  | [] => none

def isHighHalf (code : Nat) : Bool := 0xd800 ≤ code && code < 0xdc00
def isLowHalf (code : Nat) : Bool := 0xdc00 ≤ code && code < 0xe000

/-- The characters of a string; a high half must be followed by a low half and a low half must
follow a high half. -/
def joinPieces? : List Piece → Option (List Char)
  | [] => some []
  | .char c :: rest => (joinPieces? rest).map (c :: ·)
  | .unit high :: .unit low :: rest =>
    if isHighHalf high then
      if isLowHalf low then
        (joinPieces? rest).map
          (Char.ofNat (0x10000 + (high - 0xd800) * 0x400 + (low - 0xdc00)) :: ·)
      else none
    else if isLowHalf high then none
    else (joinPieces? (.unit low :: rest)).map (Char.ofNat high :: ·)
  | .unit code :: rest =>
    if isHighHalf code || isLowHalf code then none
    else (joinPieces? rest).map (Char.ofNat code :: ·)

def readString? (input : List Char) : Option (Option String × List Char) := do
  let (pieces, rest) ← readPieces? input
  some ((joinPieces? pieces).map String.ofList, rest)

mutual

/-- Reads a value; `fuel` bounds the number of steps into and along values. -/
def readTree? : (fuel : Nat) → List Char → Option (Tree × List Char)
  | 0, _ => none
  | fuel + 1, input =>
    match skipBlanks input with
    | 'n' :: 'u' :: 'l' :: 'l' :: rest => some (.null, rest)
    | 't' :: 'r' :: 'u' :: 'e' :: rest => some (.bool true, rest)
    | 'f' :: 'a' :: 'l' :: 's' :: 'e' :: rest => some (.bool false, rest)
    | '"' :: rest => do
      let (value, rest) ← readString? rest
      some (.string value, rest)
    | '[' :: rest =>
      match skipBlanks rest with
      | ']' :: rest => some (.array [], rest)
      | rest => do
        let (items, rest) ← readItems? fuel rest
        some (.array items, rest)
    | '\x7b' :: rest =>
      match skipBlanks rest with
      | '\x7d' :: rest => some (.object [], rest)
      | rest => do
        let (entries, rest) ← readEntries? fuel rest
        some (.object entries, rest)
    | rest => do
      let (value, rest) ← readNumber? rest
      some (.number value, rest)

def readItems? : (fuel : Nat) → List Char → Option (List Tree × List Char)
  | 0, _ => none
  | fuel + 1, input => do
    let (item, rest) ← readTree? fuel input
    match skipBlanks rest with
    | ',' :: rest => do
      let (items, rest) ← readItems? fuel rest
      some (item :: items, rest)
    | ']' :: rest => some ([item], rest)
    | _ => none

def readEntries? : (fuel : Nat) → List Char → Option (List (Option String × Tree) × List Char)
  | 0, _ => none
  | fuel + 1, input =>
    match skipBlanks input with
    | '"' :: rest => do
      let (key, rest) ← readString? rest
      match skipBlanks rest with
      | ':' :: rest => do
        let (value, rest) ← readTree? fuel rest
        match skipBlanks rest with
        | ',' :: rest => do
          let (entries, rest) ← readEntries? fuel rest
          some ((key, value) :: entries, rest)
        | '\x7d' :: rest => some ([(key, value)], rest)
        | _ => none
      | _ => none
    | _ => none

end

/-- A text is one value with nothing but blanks around it. -/
def Tree.ofText? (text : String) : Option Tree := do
  let input := text.toList
  let (tree, rest) ← readTree? (2 * input.length + 2) input
  if (skipBlanks rest).isEmpty then some tree else none

def maxDepth : Nat := 127

mutual

/-- The value of a tree in which everything has a value; of several entries with one key, the last
counts. -/
def Tree.value? : (depth : Nat) → Tree → Option Json
  | _, .null => some .null
  | _, .bool value => some (.bool value)
  | _, .number value => value.map .number
  | _, .string value => value.map .string
  | 0, .array _ => none
  | depth + 1, .array items => (Tree.values? depth items).map .array
  | 0, .object _ => none
  | depth + 1, .object entries => (Tree.entries? depth entries).map sortedObject

def Tree.values? : (depth : Nat) → List Tree → Option (List Json)
  | _, [] => some []
  | depth, item :: rest => do
    let value ← item.value? depth
    some (value :: (← Tree.values? depth rest))

def Tree.entries? : (depth : Nat) → List (Option String × Tree) → Option (List (String × Json))
  | _, [] => some []
  | depth, (key, value) :: rest => do
    let key ← key
    let value ← value.value? depth
    some ((key, value) :: (← Tree.entries? depth rest))

end

mutual

def toTree : Json → Tree
  | .null => .null
  | .bool value => .bool value
  | .number value => .number (some value)
  | .string value => .string (some value)
  | .array items => .array (itemTrees items)
  | .object entries => .object (entryTrees entries)

def itemTrees : List Json → List Tree
  | [] => []
  | item :: rest => item.toTree :: itemTrees rest

def entryTrees : List (String × Json) → List (Option String × Tree)
  | [] => []
  | (key, value) :: rest => (some key, value.toTree) :: entryTrees rest

end

def ofText? (text : String) : Option Json := do (← Tree.ofText? text).value? maxDepth

end Confide.Json
