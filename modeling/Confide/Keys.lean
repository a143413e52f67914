import Confide.Wire.Shape

/-! Keys and signatures, told apart by their use. -/

set_option autoImplicit false

namespace Confide

structure SecretKey where
  bytes : Octets 32
  deriving DecidableEq

/-- The text for logs, which tells nothing of the key. -/
def SecretKey.display (_ : SecretKey) : String := "Secret(\"***\")"

structure PublicKey where
  bytes : Octets 32
  deriving DecidableEq

structure SigningKey where
  bytes : Octets 32
  deriving DecidableEq

structure VerifyingKey where
  bytes : Octets 32
  deriving DecidableEq

structure Signature where
  bytes : Octets 64
  deriving DecidableEq

/-- A key and a nonce, for one sealed text. -/
structure SealingKey where
  key : Octets 32
  nonce : Octets 24
  deriving DecidableEq

instance : Wire SecretKey := ⟨.iso (.octets 32) .mk (·.bytes) fun _ => rfl⟩
instance : Wire PublicKey := ⟨.iso (.octets 32) .mk (·.bytes) fun _ => rfl⟩
instance : Wire SigningKey := ⟨.iso (.octets 32) .mk (·.bytes) fun _ => rfl⟩
instance : Wire VerifyingKey := ⟨.iso (.octets 32) .mk (·.bytes) fun _ => rfl⟩
instance : Wire Signature := ⟨.iso (.octets 64) .mk (·.bytes) fun _ => rfl⟩

instance : Wire SealingKey where
  shape := .iso
    (.record false (.field "key" (.octets 32) <| .field "nonce" (.octets 24) .nil))
    (fun (key, nonce, _) => ⟨key, nonce⟩) (fun k => (k.key, k.nonce, ())) fun _ => rfl

end Confide
