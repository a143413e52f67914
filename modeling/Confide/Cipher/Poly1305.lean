import Confide.Bytes

/-! The one-time authenticator Poly1305: a polynomial in the clamped half of the key, evaluated
modulo 2^130 - 5 and masked by the other half. -/

set_option autoImplicit false

namespace Confide.Poly1305

def modulus : Nat := 1 <<< 130 - 5

def clamp (point : Nat) : Nat := point &&& 0x0ffffffc0ffffffc0ffffffc0fffffff

/-- Each block counts as a number with a one byte above its last byte. -/
def absorb (point accumulator : Nat) (block : Bytes) : Nat :=
  (accumulator + Bytes.natLE (block ++ [1])) * point % modulus

def tag (key : Octets 32) (message : Bytes) : Octets 16 :=
  let point := clamp (Bytes.natLE (key.toList.take 16))
  let mask := Bytes.natLE (key.toList.drop 16)
  let value := (Bytes.blocks 15 message).foldl (absorb point) 0
  ⟨Bytes.ofNatLE 16 (value + mask), Bytes.length_ofNatLE _ _⟩

end Confide.Poly1305
