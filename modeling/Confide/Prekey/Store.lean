import Confide.Prekey.Bundle

/-! Our own secret keys: the identity, signed prekeys which are replaced from time to time, and
prekeys for one use. The store draws new keys from a source of its own. -/

set_option autoImplicit false

namespace Confide

/-- Counts are 64-bit words. -/
structure KeyStoreConfig where
  lifetime : Duration := .ofSeconds (7 * 24 * 60 * 60)
  /-- How long a replaced prekey may still be used for handshakes after its lifetime. -/
  grace : Duration := .ofSeconds (2 * 24 * 60 * 60)
  oneTimePrekeys : UInt64 := 100
  deriving DecidableEq

instance : Wire KeyStoreConfig where
  shape := .iso
    (.record false (.field "signed_prekey_lifetime" Wire.shape <|
      .field "signed_prekey_grace" Wire.shape <| .field "onetime_prekeys" .uint64 .nil))
    (fun (lifetime, grace, count, _) => ⟨lifetime, grace, count⟩)
    (fun c => (c.lifetime, c.grace, c.oneTimePrekeys, ())) fun _ => rfl

structure SignedSecret where
  prekey : SignedPrekey
  signature : Signature
  secret : SecretKey
  deriving DecidableEq

instance : Wire SignedSecret where
  shape := .iso
    (.record false (.field "prekey" Wire.shape <| .field "signature" Wire.shape <|
      .field "secret" Wire.shape .nil))
    (fun (prekey, signature, secret, _) => ⟨prekey, signature, secret⟩)
    (fun s => (s.prekey, s.signature, s.secret, ())) fun _ => rfl

/-- All prekeys by their ids, the ids to be given next, and the id of the bundle, which grows with
every change of the prekeys. -/
structure Prekeys where
  bundleId : UInt64 := 0
  signed : SortedMap UInt32 SignedSecret := .empty
  nextSigned : UInt32 := 0
  oneTime : SortedMap UInt64 SecretKey := .empty
  nextOneTime : UInt64 := 0
  deriving DecidableEq

instance : Wire Prekeys where
  shape := .iso
    (.record false (.field "bundle_id" .uint64 <| .field "signed" (.map .uint32 Wire.shape) <|
      .field "signed_next_id" .uint32 <| .field "onetime" (.map .uint64 Wire.shape) <|
      .field "onetime_next_id" .uint64 .nil))
    (fun (bundle, signed, nextSigned, oneTime, nextOneTime, _) =>
      ⟨bundle, signed, nextSigned, oneTime, nextOneTime⟩)
    (fun p => (p.bundleId, p.signed, p.nextSigned, p.oneTime, p.nextOneTime, ())) fun _ => rfl

structure KeySnapshot where
  identity : Identity
  prekeys : Prekeys
  deriving DecidableEq

instance : Wire KeySnapshot where
  shape := .iso
    (.record false (.field "identity" Wire.shape <| .field "prekeys" Wire.shape .nil))
    (fun (identity, prekeys, _) => ⟨identity, prekeys⟩) (fun s => (s.identity, s.prekeys, ()))
    fun _ => rfl

namespace Prekeys

/-- Whether the first is to be published rather than the second: it ends later, or at the same
time with a higher id. -/
def isLater (first second : SignedPrekey) : Bool :=
  second.lifetime.notAfter < first.lifetime.notAfter ||
    (first.lifetime.notAfter == second.lifetime.notAfter && second.id < first.id)

/-- The valid signed prekey which ends last. -/
def latest? (prekeys : Prekeys) (now : UInt64) : Option SignedSecret :=
  (prekeys.signed.values.filter fun s => s.prekey.lifetime.isValid now .zero).foldl
    (fun best s =>
      match best with
      | none => some s
      | some b => if isLater b.prekey s.prekey then some b else some s) none

def changed (prekeys : Prekeys) : Prekeys := { prekeys with bundleId := prekeys.bundleId + 1 }

end Prekeys

structure KeyStore (G : Type) where
  config : KeyStoreConfig
  identity : Identity
  prekeys : Prekeys
  source : G

namespace KeyStore

inductive Error where
  | exhausted (id : UInt64)
  | unknownSigned (id : UInt32)
  | signedExpired (id : UInt32) (cause : Lifetime.Error)
  | noValidSigned
  deriving DecidableEq, Repr

def Error.message : Error → String
  | .exhausted id =>
    "one-time pre-key " ++ toString id.toNat ++ " does not exist or was already used"
  | .unknownSigned id => "unknown signed pre-key " ++ toString id.toNat
  | .signedExpired id cause =>
    "signed pre-key " ++ toString id.toNat ++ " can not be used anymore: " ++ cause.message
  | .noValidSigned => "no valid signed pre-key available, they are either expired or too early"

instance : Failure Error where
  code
    | .exhausted _ => "KeyExhausted"
    | .unknownSigned _ => "UnknownSignedPreKey"
    | .signedExpired _ _ => "SignedPreKeyExpired"
    | .noValidSigned => "NoValidSignedPreKey"
  message error := some error.message

variable {G : Type} [Entropy G] (S : Suite)

def restore (snapshot : KeySnapshot) (config : KeyStoreConfig) (source : G) : KeyStore G :=
  ⟨config, snapshot.identity, snapshot.prekeys, source⟩

def snapshot (store : KeyStore G) : KeySnapshot := ⟨store.identity, store.prekeys⟩

/-- Adds a signed prekey whose lifetime starts now. -/
def rotate (store : KeyStore G) (now : UInt64) : SignedPrekey × KeyStore G :=
  let (bytes, source) := draw 32 store.source
  let secret : SecretKey := ⟨bytes⟩
  let prekeys := store.prekeys
  let prekey : SignedPrekey :=
    ⟨prekeys.nextSigned, S.publicKey secret, .lasting now store.config.lifetime⟩
  let signature := S.sign store.identity.signingKey prekey.signedBytes
  let prekeys := { prekeys with
    signed := prekeys.signed.insert prekey.id ⟨prekey, signature, secret⟩
    nextSigned := prekeys.nextSigned + 1 }
  (prekey, { store with prekeys := prekeys.changed, source })

def drawSecrets : (n : Nat) → G → List SecretKey × G
  | 0, source => ([], source)
  | n + 1, source =>
    let (bytes, source) := draw 32 source
    let (secrets, source) := drawSecrets n source
    (⟨bytes⟩ :: secrets, source)

def addOneTime (prekeys : Prekeys) : List SecretKey → List OneTimePrekey × Prekeys
  | [] => ([], prekeys)
  | secret :: rest =>
    let id := prekeys.nextOneTime
    let (added, prekeys) := addOneTime
      { prekeys with oneTime := prekeys.oneTime.insert id secret, nextOneTime := id + 1 } rest
    (⟨id, S.publicKey secret⟩ :: added, prekeys)

def generate (store : KeyStore G) (n : Nat) : List OneTimePrekey × KeyStore G :=
  let (secrets, source) := drawSecrets n store.source
  let (added, prekeys) := addOneTime S store.prekeys secrets
  let prekeys := if n > 0 then prekeys.changed else prekeys
  (added, { store with prekeys, source })

def create (identity : Identity) (config : KeyStoreConfig) (source : G) (now : UInt64) :
    KeyStore G :=
  let store : KeyStore G := ⟨config, identity, {}, source⟩
  let (_, store) := store.rotate S now
  let (_, store) := store.generate S config.oneTimePrekeys.toNat
  store

def oneTimeSecret (store : KeyStore G) (id : UInt64) : Except Error SecretKey :=
  match store.prekeys.oneTime.get? id with
  | some secret => .ok secret
  | none => .error (.exhausted id)

def consume (store : KeyStore G) (id : UInt64) : Except Error (SecretKey × KeyStore G) :=
  match store.prekeys.oneTime.get? id with
  | some secret =>
    let prekeys := { store.prekeys with oneTime := store.prekeys.oneTime.erase id }
    .ok (secret, { store with prekeys := prekeys.changed })
  | none => .error (.exhausted id)

/-- The secret half of a signed prekey within its lifetime and grace. -/
def signedSecret (store : KeyStore G) (id : UInt32) (now : UInt64) : Except Error SecretKey :=
  match store.prekeys.signed.get? id with
  | none => .error (.unknownSigned id)
  | some s =>
    match s.prekey.lifetime.check now store.config.grace with
    | .error cause => .error (.signedExpired id cause)
    | .ok _ => .ok s.secret

def publish (store : KeyStore G) (now : UInt64) : Except Error Bundle :=
  match store.prekeys.latest? now with
  | none => .error .noValidSigned
  | some latest =>
    .ok { id := store.prekeys.bundleId
          identity := store.identity.key S
          signedPrekey := latest.prekey
          signature := latest.signature
          oneTimePrekeys :=
            store.prekeys.oneTime.entries.map fun entry => ⟨entry.1, S.publicKey entry.2⟩ }

def remaining (store : KeyStore G) : Nat := store.prekeys.oneTime.size

/-- Removes the signed prekeys which are out of their lifetime and grace, and counts them. -/
def removeExpired (store : KeyStore G) (now : UInt64) : Nat × KeyStore G :=
  let kept := store.prekeys.signed.filter fun _ s =>
    s.prekey.lifetime.isValid now store.config.grace
  let removed := store.prekeys.signed.size - kept.size
  let prekeys := { store.prekeys with signed := kept }
  (removed, { store with prekeys := if removed > 0 then prekeys.changed else prekeys })

end KeyStore

end Confide
