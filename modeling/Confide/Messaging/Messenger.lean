import Confide.Archive
import Confide.Config
import Confide.Directory
import Confide.Handshake
import Confide.Messaging.Error
import Confide.Messaging.Event
import Confide.Messaging.Payload
import Confide.Wire.Cbor

/-! One peer's end of all its conversations: the session or the group a message belongs to, and what
is kept of it. Every change is kept before its ciphertext leaves or its plaintext is heard. -/

set_option autoImplicit false

namespace Confide

abbrev Vault := Archive IdentityKey Session KeySnapshot GroupId Group

inductive StoreOperation where
  | loadKeys
  | saveKeys
  | loadSession
  | saveSession
  | loadGroup
  | saveGroup
  | recordMessage
  deriving DecidableEq, Repr

def StoreOperation.name : StoreOperation → String
  | .loadKeys => "load_keys"
  | .saveKeys => "save_keys"
  | .loadSession => "load_session"
  | .saveSession => "save_session"
  | .loadGroup => "load_group"
  | .saveGroup => "save_group"
  | .recordMessage => "record_message"

def StoreOperation.all : List StoreOperation :=
  [.loadKeys, .saveKeys, .loadSession, .saveSession, .loadGroup, .saveGroup, .recordMessage]

inductive DirectoryOperation where
  | publish
  | fetch
  deriving DecidableEq, Repr

def DirectoryOperation.name : DirectoryOperation → String
  | .publish => "publish"
  | .fetch => "fetch"

def DirectoryOperation.all : List DirectoryOperation := [.publish, .fetch]

inductive ReceiveError where
  | identityMismatch (expected actual : IdentityKey)
  | noSession
  | unknownGroup
  | crypto
  | keyStore (cause : KeyStore.Error)
  | malformed (cause : Cbor.Error)
  | store (detail : String)

def ReceiveError.mismatchText (expected actual : IdentityKey) : String :=
  "peer authenticated as " ++ actual.display ++ " instead of " ++ expected.display

/-- Errors among which a failure of the store has its place. -/
class OfStore (ε : Type) where
  ofStore : String → ε

instance : OfStore SendError := ⟨.store⟩
instance : OfStore ReceiveError := ⟨.store⟩

structure Messenger (G : Type) where
  config : Config
  keys : KeyStore G
  source : G
  /-- Sessions which peers started while ours with them was unanswered. -/
  superseded : SortedMap IdentityKey Session := .empty

structure Desk (G : Type) where
  messenger : Messenger G
  vault : Vault
  directory : Directory
  now : UInt64
  storeFails : StoreOperation → Bool := fun _ => false
  directoryFails : DirectoryOperation → Bool := fun _ => false
  /-- What the owner hears, oldest first. -/
  events : List SessionEvent := []

namespace Messenger

/-- Work which may fail; what was changed before a failure stays changed. -/
abbrev Work (G ε α : Type) := ExceptT ε (StateM (Desk G)) α

section
variable {G ε α : Type}

def messenger : Work G ε (Messenger G) := return (← get).messenger

def modifyMessenger (update : Messenger G → Messenger G) : Work G ε Unit :=
  modify fun desk => { desk with messenger := update desk.messenger }

def modifyKeys (update : KeyStore G → KeyStore G) : Work G ε Unit :=
  modifyMessenger fun m => { m with keys := update m.keys }

def drawing (take : G → α × G) : Work G ε α := do
  let (value, source) := take (← messenger).source
  modifyMessenger fun m => { m with source }
  return value

def emit (event : SessionEvent) : Work G ε Unit :=
  modify fun desk => { desk with events := desk.events ++ [event] }

variable [OfStore ε]

def onStore (operation : StoreOperation) : Work G ε Unit := do
  if (← get).storeFails operation then throw (OfStore.ofStore (operation.name ++ " failed"))

def modifyVault (update : Vault → Vault) : Work G ε Unit :=
  modify fun desk => { desk with vault := update desk.vault }

def saveKeys : Work G ε Unit := do
  onStore .saveKeys
  let keys := (← messenger).keys.snapshot
  modifyVault (·.saveKeys keys)

def loadSession (peer : IdentityKey) : Work G ε (Option Session) := do
  onStore .loadSession
  return (← get).vault.session? peer

def saveSession (peer : IdentityKey) (session : Session) : Work G ε Unit := do
  onStore .saveSession
  modifyVault (·.saveSession peer session)

def loadGroup (id : GroupId) : Work G ε (Option Group) := do
  onStore .loadGroup
  return (← get).vault.group? id

def saveGroup (group : Group) : Work G ε Unit := do
  onStore .saveGroup
  modifyVault (·.saveGroup group.id group)

def record (peer : IdentityKey) (direction : Direction) (counter : UInt64) (frame : Bytes) :
    Work G ε Unit := do
  onStore .recordMessage
  modifyVault (·.append ⟨peer, direction, counter, .ofCiphertext frame⟩)

end

variable {G : Type} [Entropy G] (S : Suite)

def emitGroupUpdated {ε : Type} (group : Group) : Work G ε Unit :=
  emit (.groupUpdated group.id group.epoch group.members.toList)

/-! Our own keys. -/

def bundle : Work G SendError Bundle := do
  match (← messenger).keys.publish S (← get).now with
  | .ok bundle => return bundle
  | .error cause => throw (.keyStore cause)

def publish (bundle : Bundle) : Work G SendError Unit := do
  if (← get).directoryFails .publish then
    throw (.directory (DirectoryOperation.publish.name ++ " failed"))
  modify fun desk => { desk with directory := desk.directory.publish bundle }

/-- Forgets expired prekeys, adds what is missing, and publishes the bundle. -/
def refresh : Work G SendError Unit := do
  let now := (← get).now
  modifyKeys fun keys => (keys.removeExpired now).2
  if !((← messenger).keys.publish S now).isOk then modifyKeys fun keys => (keys.rotate S now).2
  discard (bundle S)
  let keys := (← messenger).keys
  let target := (← messenger).config.keyStore.oneTimePrekeys.toNat
  if keys.remaining < target / 2 then
    modifyKeys fun keys => (keys.generate S (target - keys.remaining)).2
  let fresh ← bundle S
  saveKeys
  publish fresh

/-! Messages to one peer. -/

def initiate (peer : IdentityKey) : Work G SendError Session := do
  if (← get).directoryFails .fetch then
    throw (.directory (DirectoryOperation.fetch.name ++ " failed"))
  let (found, directory) := (← get).directory.fetch peer
  modify fun desk => { desk with directory }
  match found with
  | none => throw (.noBundle peer)
  | some bundle =>
    if bundle.identity ≠ peer then
      throw (.connectionDenied peer "pre-key bundle belongs to another identity")
    let identity := (← messenger).keys.identity
    let now := (← get).now
    match ← drawing (Handshake.initiate S identity bundle now) with
    | .ok initiation => return .initiator initiation
    | .error (.invalidBundle _) =>
      throw (.connectionDenied peer "pre-key bundle failed verification")
    | .error _ => throw .crypto

def sealFor (peer : IdentityKey) (payload : SessionPayload) : Work G SendError Bytes := do
  let session ← match ← loadSession peer with
    | some session => pure session
    | none => initiate S peer
  match ← drawing (session.encrypt S (Cbor.encode payload)) with
  | .error _ => throw .crypto
  | .ok (session, message) =>
    let frame := Cbor.encode (WireMessage.direct message)
    saveSession peer session
    record peer .outbound message.header.counter frame
    return frame

def putSuperseded (peer : IdentityKey) (session : Session) : Work G ReceiveError Unit :=
  modifyMessenger fun m => { m with superseded := m.superseded.insert peer session }

def dropSuperseded (peer : IdentityKey) : Work G ReceiveError Unit :=
  modifyMessenger fun m => { m with superseded := m.superseded.erase peer }

def orThrow {α : Type} : Except KeyStore.Error α → Work G ReceiveError α
  | .ok value => return value
  | .error cause => throw (.keyStore cause)

/-- Answers a handshake and opens its first message. The prekey for one use is gone after that. -/
def answer (handshake : HandshakeHeader) (message : RatchetMessage) :
    Work G ReceiveError (Session × Bytes) := do
  let m ← messenger
  let signed ← orThrow (m.keys.signedSecret handshake.signedPrekeyId (← get).now)
  let oneTime ← match handshake.oneTimePrekeyId with
    | none => pure none
    | some id => some <$> orThrow (m.keys.oneTimeSecret id)
  match Handshake.respond S m.keys.identity handshake signed oneTime with
  | .error _ => throw .crypto
  | .ok response =>
    match (Session.responder response handshake).decrypt S message m.config.ratchet with
    | .error _ => throw .crypto
    | .ok opened =>
      match handshake.oneTimePrekeyId with
      | none => pure ()
      | some id =>
        let (_, keys) ← orThrow ((← messenger).keys.consume id)
        modifyKeys fun _ => keys
        saveKeys
      return opened

/-- Opens a message whose handshake started another session than ours. When both sides started one
at the same time, the peer with the lower key keeps its own; messages of the other session are still
opened until the peer has switched over. -/
def openHandshake (peer : IdentityKey) (existing : Option Session) (handshake : HandshakeHeader)
    (message : RatchetMessage) : Work G ReceiveError (Session × Bytes) := do
  let m ← messenger
  let replayed := existing.any (·.hasAccepted handshake)
  let keep := existing.filter fun ours =>
    ours.pending.isSome && compare (m.keys.identity.key S) peer == .lt
  match keep, (m.superseded.get? peer).filter (·.hasAccepted handshake) with
  | some ours, some other =>
    match other.decrypt S message m.config.ratchet with
    | .error _ => throw .crypto
    | .ok (other, plaintext) =>
      putSuperseded peer other
      return (ours, plaintext)
  | _, _ =>
    if replayed then throw .crypto
    let (theirs, plaintext) ← answer S handshake message
    match keep with
    | some ours =>
      putSuperseded peer theirs
      return (ours.accept handshake, plaintext)
    | none =>
      dropSuperseded peer
      return (theirs, plaintext)

def openMessage (peer : IdentityKey) (existing : Option Session) (message : RatchetMessage) :
    Work G ReceiveError (Session × Bytes) := do
  let config := (← messenger).config.ratchet
  let opened : Option (Except Session.Error (Session × Bytes)) :=
    existing.map fun session => session.decrypt S message config
  match opened, message.handshake with
  | some (.ok opened), _ => return opened
  | some (.error _), none => throw .crypto
  | none, none => throw .noSession
  | _, some handshake =>
    if handshake.identity ≠ peer then
      emit (.denied peer (ReceiveError.mismatchText peer handshake.identity))
      throw (.identityMismatch peer handshake.identity)
    openHandshake S peer existing handshake message

def receiveDirect (peer : IdentityKey) (frame : Bytes) (message : RatchetMessage) :
    Work G ReceiveError SessionPayload := do
  let existing ← loadSession peer
  let (session, plaintext) ← openMessage S peer existing message
  saveSession peer session
  record peer .inbound message.header.counter frame
  match Cbor.decode plaintext with
  | .ok payload => return payload
  | .error cause => throw (.malformed cause)

/-! Groups. -/

def createGroup (members : List IdentityKey) : Work G SendError (Group × Distribution) := do
  let id ← drawing GroupId.random
  let self := (← messenger).keys.identity.key S
  let (group, own) ← drawing (Group.found S id self members)
  saveGroup group
  emitGroupUpdated group
  return (group, own)

def findGroup (id : GroupId) : Work G SendError Group := do
  match ← loadGroup id with
  | some group => return group
  | none => throw (.unknownGroup id)

def updateGroup (id : GroupId) (members : List IdentityKey) :
    Work G SendError (Group × Distribution) := do
  let group ← findGroup id
  let now := (← get).now
  match ← drawing (group.updateMembers S members now) with
  | .error _ => throw .crypto
  | .ok (group, own) =>
    let group := group.purge now (← messenger).config.group
    saveGroup group
    emitGroupUpdated group
    return (group, own)

/-- Seals a message once for all members: the group, the number of the message and its frame. -/
def sealForGroup (id : GroupId) (content : Bytes) : Work G SendError (Group × UInt64 × Bytes) := do
  let group ← findGroup id
  match group.encrypt S content with
  | .error _ => throw .crypto
  | .ok (group, message) =>
    saveGroup group
    return (group, message.counter, Cbor.encode (WireMessage.group message))

/-- Takes the chain of a member. In a new group or epoch our own chain goes to the others. -/
def receiveDistribution (peer : IdentityKey) (d : Distribution) :
    Work G ReceiveError (Option (Distribution × List IdentityKey)) := do
  let existing ← loadGroup d.groupId
  let now := (← get).now
  let self := (← messenger).keys.identity.key S
  let taken ← match existing with
    | none =>
      (fun joined => joined.map fun (g, own) => (g, some own)) <$>
        drawing (Group.join S self peer d now)
    | some group => drawing (group.process S peer d now)
  match taken with
  | .error _ => throw .crypto
  | .ok (group, own) =>
    let group := group.purge now (← messenger).config.group
    saveGroup group
    if existing.map (·.epoch) ≠ some group.epoch then emitGroupUpdated group
    return own.map fun own => (own, group.recipients)

def receiveGroup (peer : IdentityKey) (frame : Bytes) (message : GroupMessage) :
    Work G ReceiveError Unit := do
  match ← loadGroup message.groupId with
  | none => throw .unknownGroup
  | some group =>
    match group.decrypt S message (← messenger).config.group with
    | .error _ => throw .crypto
    | .ok (group, plaintext) =>
      saveGroup group
      record peer .inbound message.counter frame
      emit (.groupMessage message.groupId message.sender plaintext)

/-- Takes a frame of a peer. Our own chain is returned when it has to go to members of a group. -/
def receive (peer : IdentityKey) (frame : Bytes) :
    Work G ReceiveError (Option (Distribution × List IdentityKey)) := do
  match Cbor.decode (α := WireMessage) frame with
  | .error cause => throw (.malformed cause)
  | .ok (.group message) =>
    receiveGroup S peer frame message
    return none
  | .ok (.direct message) =>
    match ← receiveDirect S peer frame message with
    | .application plaintext =>
      emit (.message peer plaintext)
      return none
    | .senderKey distribution => receiveDistribution S peer distribution

end Messenger

end Confide
