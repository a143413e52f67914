import Confide.Duration
import Confide.Group.Message

/-! A group as one of its members sees it. Every member has one sender chain per epoch; a change of
the members starts a new epoch with new chains, and the chains of earlier epochs are kept for a
while. -/

set_option autoImplicit false

namespace Confide

structure GroupConfig where
  /-- How many keys of one chain may be passed over to reach a message. -/
  maxSkip : UInt64 := 1000
  /-- How many passed keys are kept for each chain. -/
  maxSkippedKeys : UInt64 := 2000
  retiredGrace : Duration := .ofSeconds (5 * 60)
  deriving DecidableEq

instance : Wire GroupConfig where
  shape := .iso
    (.record false (.field "max_skip" .uint64 <| .field "max_skipped_keys" .uint64 <|
      .field "retired_epoch_grace" Wire.shape .nil))
    (fun (skip, keys, grace, _) => ⟨skip, keys, grace⟩)
    (fun c => (c.maxSkip, c.maxSkippedKeys, c.retiredGrace, ())) fun _ => rfl

structure OwnChain where
  chain : Chain
  signingKey : SigningKey
  deriving DecidableEq

instance : Wire OwnChain where
  shape := .iso
    (.record false (.field "chain" Wire.shape <| .field "signing_key" Wire.shape .nil))
    (fun (chain, key, _) => ⟨chain, key⟩) (fun c => (c.chain, c.signingKey, ())) fun _ => rfl

/-- The sender chain of another member, with the passed keys by their counters. -/
structure MemberChain where
  chain : Chain
  verifyingKey : VerifyingKey
  skipped : SortedMap UInt64 SealingKey
  deriving DecidableEq

instance : Wire MemberChain where
  shape := .iso
    (.record false (.field "chain" Wire.shape <| .field "verifying_key" Wire.shape <|
      .field "skipped" (.map .uint64 Wire.shape) .nil))
    (fun (chain, key, skipped, _) => ⟨chain, key, skipped⟩)
    (fun c => (c.chain, c.verifyingKey, c.skipped, ())) fun _ => rfl

structure RetiredEpoch where
  epoch : UInt64
  retiredAt : UInt64
  chains : SortedMap IdentityKey MemberChain
  deriving DecidableEq

instance : Wire RetiredEpoch where
  shape := .iso
    (.record false (.field "epoch" .uint64 <| .field "retired_at" .uint64 <|
      .field "chains" (.map Wire.shape Wire.shape) .nil))
    (fun (epoch, retiredAt, chains, _) => ⟨epoch, retiredAt, chains⟩)
    (fun r => (r.epoch, r.retiredAt, r.chains, ())) fun _ => rfl

structure Group where
  id : GroupId
  self : IdentityKey
  epoch : UInt64
  members : SortedSet IdentityKey
  ownChain : OwnChain
  chains : SortedMap IdentityKey MemberChain
  retired : List RetiredEpoch
  deriving DecidableEq

instance : Wire Group where
  shape := .iso
    (.record false (.field "group_id" Wire.shape <| .field "our_identity" Wire.shape <|
      .field "epoch" .uint64 <| .field "members" (.set Wire.shape) <|
      .field "own_chain" Wire.shape <| .field "chains" (.map Wire.shape Wire.shape) <|
      .field "retired" (.list Wire.shape) .nil))
    (fun (id, self, epoch, members, ownChain, chains, retired, _) =>
      ⟨id, self, epoch, members, ownChain, chains, retired⟩)
    (fun g => (g.id, g.self, g.epoch, g.members, g.ownChain, g.chains, g.retired, ()))
    fun _ => rfl

namespace Group

inductive Error where
  | decryptionFailed
  | tooManySkipped (gap limit : UInt64)
  | unknownSenderChain (sender : IdentityKey) (epoch : UInt64)
  | unknownEpoch (epoch : UInt64)
  | notMember (peer : IdentityKey)
  | groupMismatch (theirs ours : GroupId)
  | senderMismatch (session claimed : IdentityKey)
  | staleEpoch (theirs ours : UInt64)
  /-- The last number of a chain or an epoch is used: the program stops. -/
  | overflow
  deriving DecidableEq

def Error.message : Error → String
  | .decryptionFailed => "could not decrypt group message"
  | .tooManySkipped gap limit =>
    "message is " ++ toString gap.toNat ++
      " keys ahead of the sender chain, exceeding the limit of " ++ toString limit.toNat
  | .unknownSenderChain sender epoch =>
    "no sender chain known for " ++ sender.display ++ " in epoch " ++ toString epoch.toNat
  | .unknownEpoch epoch => "epoch " ++ toString epoch.toNat ++ " is unknown or already purged"
  | .notMember peer => peer.display ++ " is not a member of the group"
  | .groupMismatch theirs ours =>
    "message for group " ++ theirs.toHex ++ " was processed by group " ++ ours.toHex
  | .senderMismatch session claimed =>
    "distribution of " ++ claimed.display ++ " arrived over the session with " ++ session.display
  | .staleEpoch theirs ours =>
    "distribution for epoch " ++ toString theirs.toNat ++ " is older than the current epoch " ++
      toString ours.toNat
  | .overflow => "attempt to add with overflow"

instance : Failure Error where
  code
    | .decryptionFailed => "DecryptionFailed"
    | .tooManySkipped _ _ => "TooManySkipped"
    | .unknownSenderChain _ _ => "UnknownSenderChain"
    | .unknownEpoch _ => "UnknownEpoch"
    | .notMember _ => "NotMember"
    | .groupMismatch _ _ => "GroupMismatch"
    | .senderMismatch _ _ => "SenderMismatch"
    | .staleEpoch _ _ => "StaleEpoch"
    | .overflow => "Panic"
  message
    | .overflow => none
    | error => some error.message

end Group

namespace MemberChain

variable (S : Suite)

/-- Keeps a passed key, and drops the lowest ones beyond the capacity. -/
def keep (skipped : SortedMap UInt64 SealingKey) (counter : UInt64) (key : SealingKey)
    (capacity : Nat) : SortedMap UInt64 SealingKey :=
  dropLowest ((skipped.insert counter key).size - capacity) (skipped.insert counter key)
where
  dropLowest : Nat → SortedMap UInt64 SealingKey → SortedMap UInt64 SealingKey
    | 0, m => m
    | n + 1, m => dropLowest n m.dropFirst

/-- The key of a message: a passed one, or the one which the chain reaches. -/
def take (c : MemberChain) (counter : UInt64) (config : GroupConfig) :
    Except Group.Error (SealingKey × MemberChain) :=
  if counter < c.chain.counter then
    match c.skipped.get? counter with
    | none => .error .decryptionFailed
    | some key => .ok (key, { c with skipped := c.skipped.erase counter })
  else
    let gap := counter - c.chain.counter
    if gap > config.maxSkip then .error (.tooManySkipped gap config.maxSkip)
    else
      let skipped := (c.chain.keys S gap.toNat).foldl (fun skipped (counter, key) =>
        keep skipped counter key config.maxSkippedKeys.toNat) c.skipped
      let reached := c.chain.after S gap.toNat
      if HasNext reached.counter then
        .ok (reached.messageKey S, { c with chain := reached.next S, skipped })
      else .error .overflow

end MemberChain

namespace Group

def isMember (g : Group) (peer : IdentityKey) : Bool := g.members.contains peer

def recipients (g : Group) : List IdentityKey := g.members.toList.filter (· ≠ g.self)

def hasChain (g : Group) (member : IdentityKey) : Bool := g.chains.contains member

def skippedKeys (g : Group) (member : IdentityKey) : Nat :=
  ((g.chains.get? member).map (·.skipped.size)).getD 0

variable {G : Type} [Entropy G] (S : Suite)

/-- Our sender chain as it is now, for the other members. -/
def distribution (g : Group) : Distribution where
  groupId := g.id
  epoch := g.epoch
  sender := g.self
  members := g.members.toList
  chainKey := g.ownChain.chain.key
  counter := g.ownChain.chain.counter
  verifyingKey := S.verifyingKey g.ownChain.signingKey

/-- A new sender chain: its chain key, then the key for its signatures. -/
def drawChain (source : G) : OwnChain × G :=
  let (key, source) := draw 32 source
  let (signing, source) := draw 32 source
  (⟨.start key, ⟨signing⟩⟩, source)

def retire (g : Group) (now : UInt64) : Group :=
  { g with chains := .empty, retired := g.retired ++ [⟨g.epoch, now, g.chains⟩] }

/-- A group in which we are a member and know nobody's chain yet. -/
def start (id : GroupId) (self : IdentityKey) (epoch : UInt64) (members : List IdentityKey)
    (source : G) : Group × G :=
  let (ownChain, source) := drawChain source
  ({ id, self, epoch, members := .ofList (members ++ [self]), ownChain, chains := .empty,
     retired := [] }, source)

def found (id : GroupId) (self : IdentityKey) (members : List IdentityKey) (source : G) :
    (Group × Distribution) × G :=
  let (g, source) := start id self 0 members source
  ((g, g.distribution S), source)

def sealNext (g : Group) (plaintext : Bytes) : Group × GroupMessage :=
  let own := g.ownChain
  let position : GroupPosition := ⟨g.id, g.epoch, g.self, own.chain.counter⟩
  let ciphertext := S.encrypt (own.chain.messageKey S) position.toBytes plaintext
  let signature := S.sign own.signingKey (position.signedBytes ciphertext)
  ({ g with ownChain := { own with chain := own.chain.next S } },
    ⟨g.id, g.epoch, g.self, own.chain.counter, ciphertext, signature⟩)

def encrypt (g : Group) (plaintext : Bytes) : Except Error (Group × GroupMessage) :=
  if HasNext g.ownChain.chain.counter then .ok (g.sealNext S plaintext) else .error .overflow

/-- The chains of an epoch; the current one comes before the retired ones. -/
def chainsOf? (g : Group) (epoch : UInt64) : Option (SortedMap IdentityKey MemberChain) :=
  if epoch = g.epoch then some g.chains
  else (g.retired.find? (·.epoch = epoch)).map (·.chains)

def findChain (g : Group) (epoch : UInt64) (sender : IdentityKey) : Except Error MemberChain :=
  match g.chainsOf? epoch with
  | none => .error (.unknownEpoch epoch)
  | some chains =>
    match chains.get? sender with
    | none => .error (.unknownSenderChain sender epoch)
    | some chain => .ok chain

/-- Replaces the chain of a sender in the first of the retired epochs with the given number. -/
def setRetired (epoch : UInt64) (sender : IdentityKey) (chain : MemberChain) :
    List RetiredEpoch → List RetiredEpoch
  | [] => []
  | r :: rest =>
    if r.epoch = epoch then { r with chains := r.chains.insert sender chain } :: rest
    else r :: setRetired epoch sender chain rest

def setChain (g : Group) (epoch : UInt64) (sender : IdentityKey) (chain : MemberChain) : Group :=
  if epoch = g.epoch then { g with chains := g.chains.insert sender chain }
  else { g with retired := setRetired epoch sender chain g.retired }

/-- Opens a message of another member. The signature is checked before any key is derived. -/
def decrypt (g : Group) (message : GroupMessage) (config : GroupConfig) :
    Except Error (Group × Bytes) :=
  if message.groupId ≠ g.id then .error (.groupMismatch message.groupId g.id)
  else
    match g.findChain message.epoch message.sender with
    | .error error => .error error
    | .ok chain =>
      match S.verify chain.verifyingKey (message.position.signedBytes message.ciphertext)
          message.signature with
      | .error _ => .error .decryptionFailed
      | .ok _ =>
        match chain.take S message.counter config with
        | .error error => .error error
        | .ok (key, chain) =>
          match S.decrypt? key message.position.toBytes message.ciphertext with
          | none => .error .decryptionFailed
          | some plaintext => .ok (g.setChain message.epoch message.sender chain, plaintext)

/-- Whether a distribution moves the group to its epoch, or why it is refused before that. -/
def vet (g : Group) (sender : IdentityKey) (d : Distribution) : Except Error Bool :=
  if d.sender ≠ sender then .error (.senderMismatch sender d.sender)
  else if d.groupId ≠ g.id then .error (.groupMismatch d.groupId g.id)
  else if d.epoch < g.epoch then .error (.staleEpoch d.epoch g.epoch)
  else if d.epoch = g.epoch then .ok false
  else if (SortedSet.ofList d.members).contains g.self then .ok true
  else .error (.notMember g.self)

def enter (g : Group) (epoch : UInt64) (members : List IdentityKey) (now : UInt64) (source : G) :
    Group × G :=
  let (ownChain, source) := drawChain source
  ({ g.retire now with epoch, members := .ofList members, ownChain }, source)

/-- Takes the chain of a member, unless it is the chain we know. -/
def learn (g : Group) (sender : IdentityKey) (d : Distribution) : Except Error Group :=
  if !g.isMember sender then .error (.notMember sender)
  else if (g.chains.get? sender).any (·.verifyingKey = d.verifyingKey) then .ok g
  else
    let chain : MemberChain := ⟨⟨d.chainKey, d.counter⟩, d.verifyingKey, .empty⟩
    .ok { g with chains := g.chains.insert sender chain }

/-- Takes a distribution which arrived over the session with `sender`. If it announces a newer
epoch, our own chain for that epoch goes to all members. -/
def process (g : Group) (sender : IdentityKey) (d : Distribution) (now : UInt64) (source : G) :
    Except Error (Group × Option Distribution) × G :=
  match g.vet sender d with
  | .error error => (.error error, source)
  | .ok false => ((g.learn sender d).map fun g => (g, none), source)
  | .ok true =>
    let (g, source) := g.enter d.epoch d.members now source
    ((g.learn sender d).map fun learned => (learned, some (g.distribution S)), source)

def join (self sender : IdentityKey) (d : Distribution) (now : UInt64) (source : G) :
    Except Error (Group × Distribution) × G :=
  if self ∉ d.members then (.error (.notMember self), source)
  else
    let (g, source) := start d.groupId self d.epoch d.members source
    let (result, source) := g.process S sender d now source
    (result.map fun (learned, _) => (learned, g.distribution S), source)

/-- Replaces the members, with us among them, in a new epoch. -/
def updateMembers (g : Group) (members : List IdentityKey) (now : UInt64) (source : G) :
    Except Error (Group × Distribution) × G :=
  if HasNext g.epoch then
    let (g, source) := g.enter (g.epoch + 1) (members ++ [g.self]) now source
    (.ok (g, g.distribution S), source)
  else (.error .overflow, source)

def purge (g : Group) (now : UInt64) (config : GroupConfig) : Group :=
  let grace := config.retiredGrace.seconds
  { g with retired := g.retired.filter fun r =>
      now < .ofNat (min (r.retiredAt.toNat + grace.toNat) 0xffffffffffffffff) }

end Group

end Confide
