import Confide.Identity
import Confide.Prekey.Lifetime

/-! The public keys which let peers start a session with someone who is offline: a signed prekey
with a lifetime, and prekeys for one use each. -/

set_option autoImplicit false

namespace Confide

structure SignedPrekey where
  id : UInt32
  key : PublicKey
  lifetime : Lifetime
  deriving DecidableEq

namespace SignedPrekey

instance : Wire SignedPrekey where
  shape := .iso
    (.record false (.field "id" .uint32 <| .field "key" Wire.shape <|
      .field "lifetime" Wire.shape .nil))
    (fun (id, key, lifetime, _) => ⟨id, key, lifetime⟩) (fun p => (p.id, p.key, p.lifetime, ()))
    fun _ => rfl

/-- Signatures of prekeys start with this text, so that they serve no other purpose. -/
def signatureContext : Bytes := "murmur-signed-prekey-v1".toUTF8.toList

def signedBytes (prekey : SignedPrekey) : Bytes :=
  signatureContext ++ Bytes.ofUInt32 prekey.id ++ prekey.key.bytes.toList ++
    Bytes.ofUInt64 prekey.lifetime.notBefore ++ Bytes.ofUInt64 prekey.lifetime.notAfter

end SignedPrekey

structure OneTimePrekey where
  id : UInt64
  key : PublicKey
  deriving DecidableEq

instance : Wire OneTimePrekey where
  shape := .iso
    (.record false (.field "id" .uint64 <| .field "key" Wire.shape .nil))
    (fun (id, key, _) => ⟨id, key⟩) (fun p => (p.id, p.key, ())) fun _ => rfl

structure Bundle where
  id : UInt64
  identity : IdentityKey
  signedPrekey : SignedPrekey
  signature : Signature
  oneTimePrekeys : List OneTimePrekey
  deriving DecidableEq

namespace Bundle

instance : Wire Bundle where
  shape := .iso
    (.record false (.field "bundle_id" .uint64 <| .field "identity_key" Wire.shape <|
      .field "signed_prekey" Wire.shape <| .field "prekey_signature" Wire.shape <|
      .field "onetime_prekeys" (.list Wire.shape) .nil))
    (fun (id, identity, prekey, signature, oneTime, _) =>
      ⟨id, identity, prekey, signature, oneTime⟩)
    (fun b => (b.id, b.identity, b.signedPrekey, b.signature, b.oneTimePrekeys, ()))
    fun _ => rfl

inductive Error where
  | signature (cause : SignatureError)
  | lifetime (cause : Lifetime.Error)
  deriving DecidableEq, Repr

def Error.message : Error → String
  | .signature cause => cause.message
  | .lifetime cause => cause.message

instance : Failure Error where
  code
    | .signature _ => "Signature"
    | .lifetime _ => "Lifetime"
  message error := some error.message

def withOneTimePrekey (bundle : Bundle) (prekey : Option OneTimePrekey) : Bundle :=
  { bundle with oneTimePrekeys := prekey.toList }

/-- A bundle is valid within its lifetime and with a signature of its owner; the lifetime is
checked first. -/
def verify (S : Suite) (bundle : Bundle) (now : UInt64) : Except Error Unit :=
  match bundle.signedPrekey.lifetime.check now .zero with
  | .error cause => .error (.lifetime cause)
  | .ok _ =>
    match S.verify bundle.identity.verifyingKey bundle.signedPrekey.signedBytes
        bundle.signature with
    | .error cause => .error (.signature cause)
    | .ok _ => .ok ()

end Bundle

end Confide
