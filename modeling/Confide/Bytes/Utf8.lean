import Confide.Bytes

/-! Checking that bytes are text. -/

set_option autoImplicit false

namespace Confide.Utf8

def isContinuation (byte : UInt8) : Bool := 0x80 ≤ byte && byte < 0xc0

/-- Which second bytes may follow a first byte; this excludes overlong forms, surrogates and
numbers above the last code point. -/
def isSecond (first second : UInt8) : Bool :=
  if first = 0xe0 then 0xa0 ≤ second && second < 0xc0
  else if first = 0xed then 0x80 ≤ second && second < 0xa0
  else if first = 0xf0 then 0x90 ≤ second && second < 0xc0
  else if first = 0xf4 then 0x80 ≤ second && second < 0x90
  else isContinuation second

/-- The number of bytes up to the first one which does not belong to a whole character. -/
def validLength : Bytes → Nat
  | [] => 0
  | a :: rest =>
    if a < 0x80 then 1 + validLength rest
    else if 0xc2 ≤ a && a < 0xe0 then
      match rest with
      | b :: rest => if isContinuation b then 2 + validLength rest else 0
      | _ => 0
    else if 0xe0 ≤ a && a < 0xf0 then
      match rest with
      | b :: c :: rest => if isSecond a b && isContinuation c then 3 + validLength rest else 0
      | _ => 0
    else if 0xf0 ≤ a && a < 0xf5 then
      match rest with
      | b :: c :: d :: rest =>
        if isSecond a b && isContinuation c && isContinuation d then 4 + validLength rest else 0
      | _ => 0
    else 0

def isValid (bytes : Bytes) : Bool := validLength bytes == bytes.length

def decode? (bytes : Bytes) : Option String := String.fromUTF8? (ByteArray.mk bytes.toArray)

def encode (text : String) : Bytes := text.toUTF8.toList

end Confide.Utf8
