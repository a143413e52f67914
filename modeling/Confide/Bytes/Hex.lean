import Confide.Bytes

/-! Hexadecimal text: two lower-case digits per byte when written, digits of either case when
read. -/

set_option autoImplicit false

namespace Confide.Hex

/-- The lower-case digit of a number below sixteen. -/
def digit (value : Nat) : Char :=
  if value < 10 then Char.ofNat (48 + value) else Char.ofNat (87 + value)

def encodeByte (byte : UInt8) : List Char := [digit (byte.toNat / 16), digit (byte.toNat % 16)]

def encode (bytes : Bytes) : String := String.ofList (bytes.flatMap encodeByte)

/-- The value of a digit of either case, given as an ASCII code. -/
def digitValue? (code : UInt8) : Option Nat :=
  let n := code.toNat
  if 48 ≤ n ∧ n < 58 then some (n - 48)
  else if 97 ≤ n ∧ n < 103 then some (n - 87)
  else if 65 ≤ n ∧ n < 71 then some (n - 55)
  else none

inductive Error where
  | oddLength
  | invalidCharacter (code : UInt8) (position : Nat)
  deriving DecidableEq, Repr

/-- A character as it is quoted in messages; `code` is taken as a code point below 256. -/
def quoted (code : UInt8) : String :=
  let n := code.toNat
  let unicode := "\\u\x7b" ++ String.ofList (Nat.toDigits 16 n) ++ "\x7d"
  let body :=
    if n = 0 then "\\0"
    else if n = 9 then "\\t"
    else if n = 10 then "\\n"
    else if n = 13 then "\\r"
    else if n = 39 then "\\\x27"
    else if n = 92 then "\\\\"
    else if n < 32 ∨ 127 ≤ n ∧ n ≤ 160 ∨ n = 173 then unicode
    else String.ofList [Char.ofNat n]
  "\x27" ++ body ++ "\x27"

def Error.message : Error → String
  | .oddLength => "Odd number of digits"
  | .invalidCharacter code position =>
    "Invalid character " ++ quoted code ++ " at position " ++ toString position

/-- Reads pairs of digits; `position` counts the codes before the given ones. -/
def decodePairs (position : Nat) : Bytes → Except Error Bytes
  | [] => .ok []
  | [_] => .error .oddLength
  | high :: low :: rest =>
    match digitValue? high with
    | none => .error (.invalidCharacter high position)
    | some h =>
      match digitValue? low with
      | none => .error (.invalidCharacter low (position + 1))
      | some l =>
        match decodePairs (position + 2) rest with
        | .error e => .error e
        | .ok bytes => .ok (.ofNat (16 * h + l) :: bytes)

/-- An odd number of codes is reported before any invalid digit. -/
def decodeCodes (codes : Bytes) : Except Error Bytes :=
  if codes.length % 2 = 1 then .error .oddLength else decodePairs 0 codes

def decode (text : String) : Except Error Bytes := decodeCodes text.toUTF8.toList

end Confide.Hex
