import Confide.Ratchet.Cache
import Confide.Ratchet.Message

/-! Sessions between two peers. Each side sends on a chain which belongs to a key pair of its own;
whenever a side sees a new public key of the other, both mix a new agreement into the root key and
start new chains. -/

set_option autoImplicit false

namespace Confide

structure RatchetConfig where
  /-- How many keys of one chain may be passed over to reach a message. -/
  maxSkip : UInt64 := 1000
  maxSkippedKeys : UInt64 := 2000
  deriving DecidableEq

instance : Wire RatchetConfig where
  shape := .iso
    (.record false (.field "max_skip" .uint64 <| .field "max_skipped_keys" .uint64 .nil))
    (fun (skip, keys, _) => ⟨skip, keys⟩) (fun c => (c.maxSkip, c.maxSkippedKeys, ())) fun _ => rfl

inductive SendingChain where
  /-- A responder which has sent nothing yet has no key pair. -/
  | uninitialised
  | current (ratchet : SecretKey) (chain : Chain)
  /-- The peer has moved on: the next message starts a new chain. -/
  | stale (previousLength : UInt64)
  deriving DecidableEq

instance : Wire SendingChain where
  shape := .iso
    (.choice (.plain "Uninitialised" <|
      .fields "Current" (.field "ratchet" Wire.shape <| .field "chain" Wire.shape .nil) <|
      .fields "Stale" (.field "previous_chain_length" .uint64 .nil) .nil))
    (fun
      | .inl _ => .uninitialised
      | .inr (.inl (ratchet, chain, _)) => .current ratchet chain
      | .inr (.inr (.inl (length, _))) => .stale length)
    (fun
      | .uninitialised => .inl ()
      | .current ratchet chain => .inr (.inl (ratchet, chain, ()))
      | .stale length => .inr (.inr (.inl (length, ()))))
    fun value => by cases value <;> rfl

structure ReceivingChain where
  ratchetKey : PublicKey
  chain : Chain
  deriving DecidableEq

instance : Wire ReceivingChain where
  shape := .iso
    (.record false (.field "ratchet_key" Wire.shape <| .field "chain" Wire.shape .nil))
    (fun (key, chain, _) => ⟨key, chain⟩) (fun r => (r.ratchetKey, r.chain, ())) fun _ => rfl

structure Session where
  theirIdentity : IdentityKey
  associatedData : Bytes
  root : Octets 32
  sending : SendingChain
  previousLength : UInt64
  receiving : Option ReceivingChain
  skipped : KeyCache
  /-- The handshake which goes with our messages until the peer answers. -/
  pending : Option HandshakeHeader
  /-- The ephemeral key of the last handshake of the peer which we answered. -/
  accepted : Option PublicKey
  deriving DecidableEq

namespace Session

/-- Bytes as a list of numbers. -/
def byteList : Shape Bytes := .list .uint8

instance : Wire Session where
  shape := .iso
    (.record false (.field "their_identity" Wire.shape <| .field "associated_data" byteList <|
      .field "root_key" (.octets 32) <| .field "sending" Wire.shape <|
      .field "previous_chain_length" .uint64 <| .field "receiving" (.option Wire.shape) <|
      .field "skipped" Wire.shape <| .field "pending_handshake" (.option Wire.shape) <|
      .field "accepted_handshake" (.option Wire.shape) .nil))
    (fun (identity, data, root, sending, previous, receiving, skipped, pending, accepted, _) =>
      ⟨identity, data, root, sending, previous, receiving, skipped, pending, accepted⟩)
    (fun s => (s.theirIdentity, s.associatedData, s.root, s.sending, s.previousLength, s.receiving,
      s.skipped, s.pending, s.accepted, ()))
    fun _ => rfl

inductive Error where
  | decryptionFailed
  | tooManySkipped (gap limit : UInt64)
  | corruptedState
  /-- The last number of a chain is used: the program stops. -/
  | overflow
  deriving DecidableEq, Repr

def Error.message : Error → String
  | .decryptionFailed => "could not decrypt message"
  | .tooManySkipped gap limit =>
    "message is " ++ toString gap.toNat ++ " keys ahead of the chain, exceeding the limit of " ++
      toString limit.toNat
  | .corruptedState => "session state is corrupted"
  | .overflow => "attempt to add with overflow"

instance : Failure Error where
  code
    | .decryptionFailed => "DecryptionFailed"
    | .tooManySkipped _ _ => "TooManySkipped"
    | .corruptedState => "CorruptedState"
    | .overflow => "Panic"
  message
    | .overflow => none
    | error => some error.message

/-- The messages sent on the current chain or, if it is stale, on the one before. -/
def sendingCounter (s : Session) : UInt64 :=
  match s.sending with
  | .uninitialised => 0
  | .current _ chain => chain.counter
  | .stale previousLength => previousLength

def receivingCounter (s : Session) : UInt64 := (s.receiving.map (·.chain.counter)).getD 0

def theirRatchetKey (s : Session) : Option PublicKey := s.receiving.map (·.ratchetKey)

/-- Whether the session was established with this handshake: a handshake is answered once. -/
def hasAccepted (s : Session) (handshake : HandshakeHeader) : Bool :=
  s.accepted = some handshake.ephemeral

/-- Marks a handshake as answered without taking over its session. -/
def accept (s : Session) (handshake : HandshakeHeader) : Session :=
  { s with accepted := some handshake.ephemeral }

/-- The initiator sends first, on the chain of its ephemeral key. -/
def initiator (h : Initiation) : Session where
  theirIdentity := h.theirIdentity
  associatedData := h.associatedData
  root := h.keys.root
  sending := .current h.ephemeral (.start h.keys.chain)
  previousLength := 0
  receiving := none
  skipped := {}
  pending := some h.header
  accepted := none

def responder (h : Response) (header : HandshakeHeader) : Session where
  theirIdentity := header.identity
  associatedData := h.associatedData
  root := h.keys.root
  sending := .uninitialised
  previousLength := 0
  receiving := some ⟨header.ephemeral, .start h.keys.chain⟩
  skipped := {}
  pending := none
  accepted := some header.ephemeral

variable {G : Type} [Entropy G] (S : Suite)

def ratchetKey (s : Session) : Option PublicKey :=
  match s.sending with
  | .current ratchet _ => some (S.publicKey ratchet)
  | _ => none

def rootInfo : Bytes := "murmur-ratchet-root".toUTF8.toList

def mixRoot (root shared : Octets 32) : Octets 32 × Octets 32 :=
  let keys := S.derive root.toList shared.toList rootInfo 64
  (.left 32 32 keys, .right 32 32 keys)

def startSending (s : Session) (previousLength : UInt64) (source : G) :
    Except Error (Session × SecretKey × Chain) × G :=
  match s.receiving with
  | none => (.error .corruptedState, source)
  | some receiving =>
    let (bytes, source) := draw 32 source
    let ratchet : SecretKey := ⟨bytes⟩
    match S.agree ratchet receiving.ratchetKey with
    | .error _ => (.error .corruptedState, source)
    | .ok shared =>
      let (root, chain) := mixRoot S s.root shared
      (.ok ({ s with root, previousLength }, ratchet, .start chain), source)

def sendingChain (s : Session) (source : G) : Except Error (Session × SecretKey × Chain) × G :=
  match s.sending with
  | .current ratchet chain => (.ok (s, ratchet, chain), source)
  | .uninitialised => s.startSending S 0 source
  | .stale previousLength => s.startSending S previousLength source

def sealNext (s : Session) (ratchet : SecretKey) (chain : Chain) (plaintext : Bytes) :
    Session × RatchetMessage :=
  let header : MessageHeader := ⟨S.publicKey ratchet, s.previousLength, chain.counter⟩
  let ciphertext :=
    S.encrypt (chain.messageKey S) (header.authenticated s.associatedData) plaintext
  ({ s with sending := .current ratchet (chain.next S) }, ⟨header, s.pending, ciphertext⟩)

def encrypt (s : Session) (plaintext : Bytes) (source : G) :
    Except Error (Session × RatchetMessage) × G :=
  match s.sendingChain S source with
  | (.error error, source) => (.error error, source)
  | (.ok (s, ratchet, chain), source) =>
    if HasNext chain.counter then (.ok (sealNext S s ratchet chain plaintext), source)
    else (.error .overflow, source)

def skip (receiving : ReceivingChain) (target : UInt64) (cache : KeyCache)
    (config : RatchetConfig) : Except Error (ReceivingChain × KeyCache) :=
  if target ≤ receiving.chain.counter then .ok (receiving, cache)
  else
    let gap := target - receiving.chain.counter
    if gap > config.maxSkip then .error (.tooManySkipped gap config.maxSkip)
    else
      let passed := receiving.chain.keys S gap.toNat
      let cache := passed.foldl (fun cache (counter, key) =>
        cache.insert ⟨receiving.ratchetKey, counter, key⟩ config.maxSkippedKeys.toNat) cache
      .ok ({ receiving with chain := receiving.chain.after S gap.toNat }, cache)

inductive Route where
  | cached (key : SealingKey)
  | currentChain (receiving : ReceivingChain)
  | newRatchet
  deriving DecidableEq

def route (s : Session) (header : MessageHeader) : Route :=
  match s.skipped.find? header.ratchetKey header.counter with
  | some key => .cached key
  | none =>
    match s.receiving with
    | some receiving =>
      if receiving.ratchetKey = header.ratchetKey then .currentChain receiving else .newRatchet
    | none => .newRatchet

def advance (s : Session) (receiving : ReceivingChain) (header : MessageHeader)
    (config : RatchetConfig) : Except Error (Session × SealingKey) :=
  match skip S receiving header.counter s.skipped config with
  | .error error => .error error
  | .ok (receiving, skipped) =>
    if HasNext receiving.chain.counter then
      let next := { receiving with chain := receiving.chain.next S }
      .ok ({ s with receiving := some next, skipped }, receiving.chain.messageKey S)
    else .error .overflow

/-- The messages of the peer's chain which are missing according to the header. -/
def previousGap (s : Session) (header : MessageHeader) : UInt64 :=
  match s.receiving with
  | none => 0
  | some receiving =>
    if header.previousLength ≤ receiving.chain.counter then 0
    else header.previousLength - receiving.chain.counter

/-- Completes the peer's old chain, as far as there is one. -/
def skipPrevious (s : Session) (header : MessageHeader) (config : RatchetConfig) :
    Except Error KeyCache :=
  match s.receiving with
  | none => .ok s.skipped
  | some receiving => (skip S receiving header.previousLength s.skipped config).map (·.2)

/-- Moves to the peer's new ratchet key. The limits of both chains are checked before anything is
derived. -/
def turn (s : Session) (header : MessageHeader) (config : RatchetConfig) :
    Except Error (Session × SealingKey) :=
  match s.sending with
  | .current ratchet chain =>
    let gap := s.previousGap header
    if gap > config.maxSkip then .error (.tooManySkipped gap config.maxSkip)
    else if header.counter > config.maxSkip then
      .error (.tooManySkipped header.counter config.maxSkip)
    else
      match S.agree ratchet header.ratchetKey with
      | .error _ => .error .decryptionFailed
      | .ok shared =>
        match s.skipPrevious S header config with
        | .error error => .error error
        | .ok skipped =>
          let (root, chainKey) := mixRoot S s.root shared
          let s := { s with root, sending := .stale chain.counter, skipped }
          s.advance S ⟨header.ratchetKey, .start chainKey⟩ header config
  | _ => .error .decryptionFailed

/-- The key of a message, and the session once the message turns out to be authentic. -/
def take (s : Session) (header : MessageHeader) (config : RatchetConfig) :
    Except Error (Session × SealingKey) :=
  match s.route header with
  | .cached key =>
    .ok ({ s with skipped := s.skipped.remove header.ratchetKey header.counter }, key)
  | .currentChain receiving =>
    if header.counter < receiving.chain.counter then .error .decryptionFailed
    else s.advance S receiving header config
  | .newRatchet => s.turn S header config

/-- An authentic message shows that the peer has the session, so the handshake is done. -/
def decrypt (s : Session) (message : RatchetMessage) (config : RatchetConfig) :
    Except Error (Session × Bytes) :=
  match s.take S message.header config with
  | .error error => .error error
  | .ok (s, key) =>
    match S.decrypt? key (message.header.authenticated s.associatedData) message.ciphertext with
    | none => .error .decryptionFailed
    | some plaintext => .ok ({ s with pending := none }, plaintext)

end Session

end Confide
