import Confide.Bytes

/-! The field of 2^255 - 19 elements and its text of 32 bytes, least significant byte first. -/

set_option autoImplicit false

namespace Confide.Curve

def modulus : Nat := 1 <<< 255 - 19

-- The zero is the one of `Fin.ofNat`.
instance : @NeZero Nat Zero.ofOfNat0 modulus := ⟨Nat.ne_of_beq_eq_false rfl⟩

abbrev Element := Fin modulus

namespace Element

/-- Binary exponentiation; the exponent is at most `2 ^ bits - 1`. -/
def power (base : Element) : (bits exponent : Nat) → Element
  | 0, _ => 1
  | bits + 1, exponent =>
    let rest := power (base * base) bits (exponent / 2)
    if exponent % 2 = 1 then base * rest else rest

/-- The inverse of a unit; zero goes to zero. -/
def inverse (value : Element) : Element := power value 255 (modulus - 2)

/-- The highest bit is ignored and a number not below the modulus is reduced. -/
def ofOctets (octets : Octets 32) : Element :=
  Fin.ofNat modulus (Bytes.natLE octets.toList % (1 <<< 255))

def toOctets (value : Element) : Octets 32 :=
  ⟨Bytes.ofNatLE 32 value.val, Bytes.length_ofNatLE _ _⟩

def rootOfMinusOne : Element := power 2 253 ((modulus - 1) / 4)

/-- The even square root of a quotient, if the quotient is a square; a quotient by zero has
no root unless the numerator is zero as well. -/
def rootOfQuotient? (numerator denominator : Element) : Option Element :=
  let cube := denominator * denominator * denominator
  let seventh := cube * cube * denominator
  let root := numerator * cube * power (numerator * seventh) 252 ((modulus - 5) / 8)
  let check := denominator * root * root
  let even (value : Element) : Element := if value.val % 2 = 0 then value else -value
  if check = numerator then some (even root)
  else if check = -numerator then some (even (root * rootOfMinusOne))
  else none

end Element

end Confide.Curve
