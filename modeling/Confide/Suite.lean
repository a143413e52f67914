import Confide.Cipher.Sealing
import Confide.Curve.Edwards
import Confide.Digest.Hkdf
import Confide.Failure
import Confide.Keys

/-! The cryptographic operations which handshakes, ratchets and groups are built on, as one value:
the protocols are defined over any suite and run with the standard one. -/

set_option autoImplicit false

namespace Confide

abbrev SignatureError := Edwards.Error

instance : Failure SignatureError where
  code
    | .invalidKey => "InvalidKey"
    | .verificationFailed => "VerificationFailed"
  message error := some error.message

instance : Failure Hkdf.Error where
  code _ := "InvalidLength"
  message error := some error.message

/-- The public key of an agreement was of low order: the agreed secret is all zero. -/
structure LowOrder where
  deriving DecidableEq

instance : Failure LowOrder where
  code _ := "NonContributory"
  message _ := some "diffie-hellman produced an all-zero shared secret"

/-- A sealed text which does not belong to the key, the nonce or the associated data. -/
structure NotAuthentic where
  deriving DecidableEq

instance : Failure NotAuthentic where
  code _ := "Decrypt"
  message _ := some "could not decrypt with xchacha20-poly1305"

structure Suite where
  derive : (salt material info : Bytes) → (n : Nat) → Octets n
  encrypt : SealingKey → (associated plaintext : Bytes) → Bytes
  decrypt? : SealingKey → (associated sealed : Bytes) → Option Bytes
  publicKey : SecretKey → PublicKey
  sharedSecret : SecretKey → PublicKey → Octets 32
  verifyingKey : SigningKey → VerifyingKey
  sign : SigningKey → Bytes → Signature
  verify : VerifyingKey → Bytes → Signature → Except SignatureError Unit

namespace Suite

def agree (S : Suite) (secret : SecretKey) (theirs : PublicKey) : Except LowOrder (Octets 32) :=
  let shared := S.sharedSecret secret theirs
  if shared = .replicate 32 0 then .error {} else .ok shared

def standard : Suite where
  derive := Hkdf.derive
  encrypt key associated plaintext := Sealing.encrypt key.key key.nonce associated plaintext
  decrypt? key associated sealed := Sealing.decrypt? key.key key.nonce associated sealed
  publicKey secret := ⟨Montgomery.publicKey secret.bytes⟩
  sharedSecret secret theirs := Montgomery.agreement secret.bytes theirs.bytes
  verifyingKey signing := ⟨Edwards.publicKey signing.bytes⟩
  sign signing message := ⟨Edwards.sign signing.bytes message⟩
  verify key message signature := Edwards.verify key.bytes message signature.bytes

end Suite

end Confide
