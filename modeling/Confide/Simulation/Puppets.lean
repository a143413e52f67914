import Confide.Simulation.Connections

/-! Puppets: peers which are played by hand. They say what they are told to, also what no messenger
would say. -/

set_option autoImplicit false

namespace Confide.Simulation

structure Tampering where
  /-- Another identity in the handshake. -/
  claim : Option IdentityKey := none
  signedPrekey : Option UInt32 := none
  oneTimePrekey : Option (Option UInt64) := none
  withoutHandshake : Bool := false
  flipped : Bool := false

def flip (ciphertext : Bytes) : Bytes := ciphertext.modify 0 (· ^^^ 1)

namespace Tampering

def header (t : Tampering) (handshake : HandshakeHeader) : HandshakeHeader :=
  { handshake with
    identity := t.claim.getD handshake.identity
    signedPrekeyId := t.signedPrekey.getD handshake.signedPrekeyId
    oneTimePrekeyId := t.oneTimePrekey.getD handshake.oneTimePrekeyId }

def apply (t : Tampering) (message : RatchetMessage) : RatchetMessage :=
  { message with
    handshake := if t.withoutHandshake then none else message.handshake.map t.header
    ciphertext := if t.flipped then flip message.ciphertext else message.ciphertext }

end Tampering

namespace Puppet

variable (S : Suite)

/-- What a puppet does. It comes to nothing where the puppet lacks what it takes. -/
abbrev Play := OptionT (StateM Puppet)

def drawing {α : Type} (take : KeyStream → α × KeyStream) : Play α := do
  let (value, source) := take (← get).source
  modify fun p => { p with source }
  return value

def need {α : Type} (value : Option α) : Play α := OptionT.mk (pure value)

def session (peer : IdentityKey) : Play Session := do need ((← get).sessions.get? peer)

def putSession (peer : IdentityKey) (session : Session) : Play Unit :=
  modify fun p => { p with sessions := p.sessions.insert peer session }

def group (id : GroupId) : Play Group := do need ((← get).groups.get? id)

def putGroup (group : Group) : Play Unit :=
  modify fun p => { p with groups := p.groups.insert group.id group }

def start (peer : IdentityKey) (bundle : Bundle) (oneTime : Bool) (now : UInt64) : Play Unit := do
  let bundle := if oneTime then bundle else bundle.withOneTimePrekey none
  let identity := (← get).keys.identity
  let initiated ← drawing (Handshake.initiate S identity bundle now)
  putSession peer (.initiator (← need initiated.toOption))

def frame (peer : IdentityKey) (plaintext : Bytes) (tampering : Tampering := {}) : Play Bytes := do
  let session ← session peer
  let result ← drawing (session.encrypt S plaintext)
  let (session, message) ← need result.toOption
  putSession peer session
  return Cbor.encode (WireMessage.direct (tampering.apply message))

def foundGroup (id : GroupId) (members : List IdentityKey) : Play Unit := do
  let self := (← get).keys.identity.key S
  let (group, _) ← drawing (Group.found S id self members)
  putGroup group

def changeGroup (id : GroupId) (members : List IdentityKey) (now : UInt64) : Play Unit := do
  let group ← group id
  let updated ← drawing (group.updateMembers S members now)
  let (group, _) ← need updated.toOption
  putGroup group

def distribution (id : GroupId) (peer : IdentityKey) (sender : Option IdentityKey)
    (epoch : Option UInt64) : Play Bytes := do
  let own := (← group id).distribution S
  let own := { own with sender := sender.getD own.sender, epoch := epoch.getD own.epoch }
  frame S peer (Cbor.encode (SessionPayload.senderKey own))

def groupFrame (id : GroupId) (plaintext : Bytes) (flipped : Bool) : Play Bytes := do
  let (group, message) ← need ((← group id).encrypt S plaintext).toOption
  putGroup group
  let ciphertext := if flipped then flip message.ciphertext else message.ciphertext
  return Cbor.encode (WireMessage.group { message with ciphertext })

def openMessage (puppet : Puppet) (peer : IdentityKey) (now : UInt64) (message : RatchetMessage) :
    Option (Session × Bytes) :=
  let known := do ((← puppet.sessions.get? peer).decrypt S message {}).toOption
  known <|> do
    let handshake ← message.handshake
    let signed ← (puppet.keys.signedSecret handshake.signedPrekeyId now).toOption
    let oneTime ← match handshake.oneTimePrekeyId with
      | none => some none
      | some id => ((puppet.keys.oneTimeSecret id).toOption).map some
    let response ← (Handshake.respond S puppet.keys.identity handshake signed oneTime).toOption
    ((Session.responder response handshake).decrypt S message {}).toOption

def read (puppet : Puppet) (peer : IdentityKey) (now : UInt64) (frame : Bytes) :
    Reading × Puppet :=
  match Cbor.decode (α := WireMessage) frame with
  | .error _ => (.unreadable, puppet)
  | .ok (.group message) => (.group message, puppet)
  | .ok (.direct message) =>
    match puppet.openMessage S peer now message with
    | none => (.direct message none, puppet)
    | some (session, plaintext) =>
      (.direct message (Cbor.decode plaintext).toOption,
        { puppet with sessions := puppet.sessions.insert peer session })

end Puppet

def play {α : Type} (id : NodeId) (act : Puppet.Play α) : Sim (Option α) := do
  match ← part? id with
  | some (.puppet puppet) =>
    let (result, puppet) := act.run puppet
    modifyNode id fun node => { node with part := .puppet puppet }
    return result
  | _ => return none

def startSession (S : Suite) (id : NodeId) (peer : IdentityKey) (oneTime : Bool) :
    Sim (Option Unit) := do
  let w ← get
  let (found, directory) := w.directory.fetch peer
  set { w with directory }
  match found with
  | none => return none
  | some bundle => play id (Puppet.start S peer bundle oneTime w.clock)

end Confide.Simulation
