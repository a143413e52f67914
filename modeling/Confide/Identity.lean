import Confide.Bytes.Hex
import Confide.Entropy
import Confide.Suite

/-! Long-term identities: a key pair for signatures and one for agreement. A peer is known by the
two public keys, which are ordered as their bytes on the wire. -/

set_option autoImplicit false

namespace Confide

instance {n : Nat} : Ord (Octets n) := ⟨compareOn Octets.toList⟩

instance {n : Nat} : Std.TransOrd (Octets n) :=
  inferInstanceAs (Std.TransCmp (compareOn Octets.toList))

instance {n : Nat} : Std.LawfulEqOrd (Octets n) where
  eq_of_compare same := Octets.ext (Std.LawfulEqOrd.eq_of_compare (α := Bytes) same)

structure IdentityKey where
  verifyingKey : VerifyingKey
  dhKey : PublicKey
  deriving DecidableEq

namespace IdentityKey

def toOctets (key : IdentityKey) : Octets 64 := key.verifyingKey.bytes.append key.dhKey.bytes

def ofOctets (octets : Octets 64) : IdentityKey :=
  ⟨⟨.left 32 32 octets⟩, ⟨.right 32 32 octets⟩⟩

/-- First by the verifying key, then by the key for agreement. -/
def compare : IdentityKey → IdentityKey → Ordering :=
  compareLex (compareOn fun key => key.verifyingKey.bytes) (compareOn fun key => key.dhKey.bytes)

instance : Ord IdentityKey := ⟨compare⟩

instance : Std.TransOrd IdentityKey := inferInstanceAs (Std.TransCmp (compareLex _ _))

instance : Std.LawfulEqOrd IdentityKey where
  eq_of_compare {first second} same := by
    obtain ⟨⟨first₁⟩, ⟨first₂⟩⟩ := first
    obtain ⟨⟨second₁⟩, ⟨second₂⟩⟩ := second
    have parts := compareLex_eq_eq.1 same
    have left : first₁ = second₁ := Std.LawfulEqOrd.eq_of_compare parts.1
    have right : first₂ = second₂ := Std.LawfulEqOrd.eq_of_compare parts.2
    rw [left, right]

def toHex (key : IdentityKey) : String := Hex.encode key.toOctets.toList

inductive ParseError where
  | hex (cause : Hex.Error)
  | invalidLength (length : Nat)
  deriving DecidableEq, Repr

def ParseError.message : ParseError → String
  | .hex cause => "invalid hex encoding: " ++ cause.message
  | .invalidLength length => "identity key has " ++ toString length ++ " bytes, expected 64"

instance : Failure ParseError where
  code
    | .hex _ => "Hex"
    | .invalidLength _ => "InvalidLength"
  message error := some error.message

def ofHex (text : String) : Except ParseError IdentityKey :=
  match Hex.decode text with
  | .error cause => .error (.hex cause)
  | .ok bytes =>
    match Octets.ofList? 64 bytes with
    | none => .error (.invalidLength bytes.length)
    | some octets => .ok (ofOctets octets)

/-- A peer is displayed by its verifying key. -/
def display (key : IdentityKey) : String := Hex.encode key.verifyingKey.bytes.toList

instance : Wire IdentityKey where
  shape := .iso
    (.record false (.field "verifying_key" Wire.shape <| .field "dh_key" Wire.shape .nil))
    (fun (verifying, dh, _) => ⟨verifying, dh⟩) (fun key => (key.verifyingKey, key.dhKey, ()))
    fun _ => rfl

def fingerprint (key : IdentityKey) : String := Hex.encode (key.verifyingKey.bytes.toList.take 8)

end IdentityKey

structure Identity where
  signingKey : SigningKey
  dhSecret : SecretKey
  deriving DecidableEq

namespace Identity

variable {G : Type} [Entropy G]

def generate (source : G) : Identity × G :=
  let (signing, source) := draw 32 source
  let (secret, source) := draw 32 source
  (⟨⟨signing⟩, ⟨secret⟩⟩, source)

instance : Wire Identity where
  shape := .iso
    (.record false (.field "signing_key" Wire.shape <| .field "dh_secret" Wire.shape .nil))
    (fun (signing, secret, _) => ⟨signing, secret⟩)
    (fun identity => (identity.signingKey, identity.dhSecret, ())) fun _ => rfl

def key (S : Suite) (identity : Identity) : IdentityKey :=
  ⟨S.verifyingKey identity.signingKey, S.publicKey identity.dhSecret⟩

end Identity

end Confide
