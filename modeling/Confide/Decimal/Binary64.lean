import Confide.Decimal.Shortest

/-! Binary floating-point numbers of 64 bits, as they are read from decimals and written again. -/

set_option autoImplicit false

namespace Confide

/-- A number by its bit pattern, so that numbers are equal when they are written alike. -/
structure Binary64 where
  bits : UInt64
  deriving DecidableEq

namespace Binary64

def ofFloat (value : Float) : Binary64 := ⟨value.toBits⟩

def tenTo (exponent : Nat) : Float := Float.ofScientific 1 false exponent

/-- Scales by a power of ten in steps of at most 308 digits, each rounded; a number which is too
large gives none. -/
def scale? : (fuel : Nat) → Float → Int → Option Float
  | 0, _, _ => none
  | fuel + 1, value, exponent =>
    if 0 ≤ exponent then
      if exponent ≤ 308 then
        let scaled := value * tenTo exponent.toNat
        if scaled.isInf then none else some scaled
      else if value == 0 then some value
      else none
    else if -308 ≤ exponent then some (value / tenTo (-exponent).toNat)
    else if value == 0 then some value
    else scale? fuel (value / tenTo 308) (exponent + 308)

def ofDecimal? (negative : Bool) (significand : UInt64) (exponent : Int) : Option Binary64 :=
  let fuel := exponent.natAbs / 308 + 2
  (scale? (Nat.min fuel 10) significand.toFloat exponent).map fun value =>
    ofFloat (if negative then -value else value)

def zero (negative : Bool) : Binary64 := ofFloat (if negative then -0.0 else 0.0)

/-- Positional notation is used from 10^-5 up to below 10^16. -/
def isPositional (magnitude : Int) : Bool := -5 ≤ magnitude && magnitude ≤ 15

def digitsText (value : Nat) : List Char := Nat.toDigits 10 value

def exponentText (exponent : Int) : List Char :=
  let digits := digitsText exponent.natAbs
  let sign := if exponent < 0 then '-' else '+'
  'e' :: sign :: (List.replicate (2 - digits.length) '0' ++ digits)

def scaledText (s : Decimal.Scaled) : List Char :=
  let digits := digitsText s.digits
  let magnitude := s.exponent + digits.length - 1
  if isPositional magnitude then
    if 0 ≤ s.exponent then digits ++ List.replicate s.exponent.toNat '0' ++ ['.', '0']
    else if 0 ≤ magnitude then
      digits.take (magnitude.toNat + 1) ++ '.' :: digits.drop (magnitude.toNat + 1)
    else '0' :: '.' :: (List.replicate (-1 - magnitude).toNat '0' ++ digits)
  else
    let rest := match digits.tail with
      | [] => []
      | rest => '.' :: rest
    digits.take 1 ++ rest ++ exponentText magnitude

/-- The shortest decimal which reads back, always with a point or an exponent. -/
def chars (value : Binary64) : List Char :=
  let n := value.bits.toNat
  let exponent : Nat := n >>> 52 % 2048
  let fraction : Nat := n % (1 <<< 52)
  let magnitude :=
    if exponent = 0 then
      if fraction = 0 then ['0', '.', '0']
      else scaledText (Decimal.shortest (.of fraction (-1074) false))
    else
      let narrow := fraction = 0 ∧ exponent ≠ 1
      scaledText (Decimal.shortest (.of (1 <<< 52 + fraction) ((exponent : Int) - 1075) narrow))
  if n ≥ 1 <<< 63 then '-' :: magnitude else magnitude

end Binary64

end Confide
