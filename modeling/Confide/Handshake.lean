import Confide.Prekey.Bundle

/-! The handshake which starts a session with a peer who is offline. Three or four agreements
between identities, prekeys and an ephemeral key are mixed into a root key and a chain key; both
identities are bound to everything that follows. -/

set_option autoImplicit false

namespace Confide

/-- What the responder needs to know of the initiator's keys and of its own. -/
structure HandshakeHeader where
  identity : IdentityKey
  ephemeral : PublicKey
  signedPrekeyId : UInt32
  oneTimePrekeyId : Option UInt64
  deriving DecidableEq

instance : Wire HandshakeHeader where
  shape := .iso
    (.record false (.field "identity_key" Wire.shape <| .field "ephemeral_key" Wire.shape <|
      .field "signed_prekey_id" .uint32 <| .field "onetime_prekey_id" (.option .uint64) .nil))
    (fun (identity, ephemeral, signed, oneTime, _) => ⟨identity, ephemeral, signed, oneTime⟩)
    (fun h => (h.identity, h.ephemeral, h.signedPrekeyId, h.oneTimePrekeyId, ())) fun _ => rfl

structure SharedKeys where
  root : Octets 32
  chain : Octets 32
  deriving DecidableEq

structure Initiation where
  header : HandshakeHeader
  keys : SharedKeys
  ephemeral : SecretKey
  theirIdentity : IdentityKey
  associatedData : Bytes
  deriving DecidableEq

structure Response where
  keys : SharedKeys
  associatedData : Bytes
  deriving DecidableEq

namespace Handshake

inductive Error where
  | invalidBundle (cause : Bundle.Error)
  | oneTimeMismatch
  | lowOrder (cause : LowOrder)
  deriving DecidableEq

instance : Failure Error where
  code
    | .invalidBundle _ => "InvalidBundle"
    | .oneTimeMismatch => "OneTimePreKeyMismatch"
    | .lowOrder _ => "X25519"
  message
    | .invalidBundle cause => some ("invalid pre-key bundle: " ++ cause.message)
    | .oneTimeMismatch => some "handshake and provided one-time pre-key secret do not match"
    | .lowOrder cause => Failure.message cause

variable {G : Type} [Entropy G] (S : Suite)

/-- The initiator comes first. -/
def associatedData (initiator responder : IdentityKey) : Bytes :=
  initiator.toOctets.toList ++ responder.toOctets.toList

def keysInfo : Bytes := "murmur-x3dh".toUTF8.toList

/-- The agreed secrets follow 32 bytes which begin no agreed secret. -/
def mix (secrets : List (Octets 32)) : SharedKeys :=
  let material := List.replicate 32 0xff ++ secrets.flatMap (·.toList)
  let keys := S.derive (List.replicate 32 0) material keysInfo 64
  ⟨.left 32 32 keys, .right 32 32 keys⟩

/-- The agreed secrets in the order of the given pairs, up to the first of low order. -/
def agreeAll : List (SecretKey × PublicKey) → Except Error (List (Octets 32))
  | [] => .ok []
  | (secret, theirs) :: rest =>
    match S.agree secret theirs with
    | .error cause => .error (.lowOrder cause)
    | .ok shared =>
      match agreeAll rest with
      | .error error => .error error
      | .ok others => .ok (shared :: others)

/-- Starts a handshake on a verified bundle, with the first of its prekeys for one use, if any. -/
def initiate (ours : Identity) (bundle : Bundle) (now : UInt64) (source : G) :
    Except Error Initiation × G :=
  match bundle.verify S now with
  | .error cause => (.error (.invalidBundle cause), source)
  | .ok _ =>
    let (bytes, source) := draw 32 source
    let ephemeral : SecretKey := ⟨bytes⟩
    let prekey := bundle.signedPrekey
    let oneTime := bundle.oneTimePrekeys.head?
    let pairs := [(ours.dhSecret, prekey.key), (ephemeral, bundle.identity.dhKey),
      (ephemeral, prekey.key)] ++ (oneTime.map fun p => (ephemeral, p.key)).toList
    match agreeAll S pairs with
    | .error error => (.error error, source)
    | .ok secrets =>
      let header : HandshakeHeader :=
        ⟨ours.key S, S.publicKey ephemeral, prekey.id, oneTime.map (·.id)⟩
      (.ok ⟨header, mix S secrets, ephemeral, bundle.identity,
        associatedData header.identity bundle.identity⟩, source)

def respond (ours : Identity) (header : HandshakeHeader) (signed : SecretKey)
    (oneTime : Option SecretKey) : Except Error Response :=
  if header.oneTimePrekeyId.isSome != oneTime.isSome then .error .oneTimeMismatch
  else
    let pairs := [(signed, header.identity.dhKey), (ours.dhSecret, header.ephemeral),
      (signed, header.ephemeral)] ++ (oneTime.map fun secret => (secret, header.ephemeral)).toList
    match agreeAll S pairs with
    | .error error => .error error
    | .ok secrets => .ok ⟨mix S secrets, associatedData header.identity (ours.key S)⟩

end Handshake

end Confide
