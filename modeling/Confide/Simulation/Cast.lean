import Confide.Simulation.Run

/-! A simulation with names for its peers and for what they made, and notes in these names of what
each peer learnt. -/

set_option autoImplicit false

namespace Confide.Simulation

/-- The newest bearer of a name comes first. -/
structure Cast where
  world : World
  peers : List (String × NodeId) := []
  /-- Channels by the names of their two ends. -/
  channels : List ((String × String) × AttemptId) := []
  tasks : List (String × TaskId) := []
  groups : List (String × GroupId) := []
  frames : List (String × Bytes) := []

/-- What a peer learnt: its kind, whom or what it is about, and the rest. -/
structure Note where
  kind : String
  about : String
  rest : List Json := []

namespace Note

def toJson (note : Note) : Json := .array (.string note.kind :: .string note.about :: note.rest)

/-- What is about the same comes together, otherwise in the order in which it was learnt. -/
def arrange (notes : List Note) : List Note := notes.mergeSort fun x y => x.about ≤ y.about

end Note

namespace Cast

def peer? (cast : Cast) (key : IdentityKey) : Option (String × Node) :=
  cast.peers.findSome? fun (name, id) =>
    (cast.world.nodes[id]?.filter (·.peer = key)).map (name, ·)

def peerName (cast : Cast) (key : IdentityKey) : String :=
  ((cast.peer? key).map (·.1)).getD key.fingerprint

def peerNames (cast : Cast) (keys : List IdentityKey) : Json :=
  .array ((keys.map cast.peerName).mergeSort.map .string)

def groupName (cast : Cast) (id : GroupId) : String :=
  ((cast.groups.find? (·.2 = id)).map (·.1)).getD id.toHex

/-- An envelope's payload. The ids which peers draw for their connections are left out. -/
def payload (cast : Cast) (envelope : Envelope) : Json :=
  let drawn := (cast.peer? envelope.source).any fun (_, node) =>
    match node.part with
    | .listener => false
    | _ => true
  match envelope.payload with
  | .object entries => .object (entries.map fun (key, value) =>
      (key, if drawn && key = "connection" then .string "*" else value))
  | payload => payload

def content (cast : Cast) : SessionPayload → Json
  | .application content => .string (Hex.encode content)
  | .senderKey d => .object [("counter", .ofUInt64 d.counter), ("epoch", .ofUInt64 d.epoch),
      ("group", .string (cast.groupName d.groupId)), ("members", cast.peerNames d.members)]

def reading (cast : Cast) : Reading → Json
  | .direct message payload => .object [("counter", .ofUInt64 message.header.counter),
      ("handshake", .bool message.handshake.isSome),
      ("payload", (payload.map cast.content).getD (.string "unreadable")),
      ("previous", .ofUInt64 message.header.previousLength)]
  | .group message => .object [("counter", .ofUInt64 message.counter),
      ("epoch", .ofUInt64 message.epoch), ("group", .string (cast.groupName message.groupId))]
  | .unreadable => .string "unreadable"

def connectionNote (cast : Cast) : ConnectionEvent → Note
  | .stateChanged peer state => ⟨"StateChanged", cast.peerName peer, [.string state.display]⟩
  | .connected peer => ⟨"Connected", cast.peerName peer, []⟩
  | .message peer content => ⟨"Message", cast.peerName peer, [.string (Hex.encode content)]⟩
  | .failed peer failure => ⟨"Failed", cast.peerName peer, [.string failure.message]⟩
  | .closed peer => ⟨"Closed", cast.peerName peer, []⟩

def sessionNote (cast : Cast) : SessionEvent → Note
  | .message peer plaintext => ⟨"Message", cast.peerName peer, [.string (Hex.encode plaintext)]⟩
  | .groupMessage group sender plaintext =>
    ⟨"GroupMessage", cast.peerName sender,
      [.string (cast.groupName group), .string (Hex.encode plaintext)]⟩
  | .groupUpdated group epoch members =>
    ⟨"GroupUpdated", cast.groupName group, [.ofUInt64 epoch, cast.peerNames members]⟩
  | .denied peer reason => ⟨"ConnectionDenied", cast.peerName peer, [.string reason]⟩
  | .connectionFailed peer failure =>
    ⟨"ConnectionFailed", cast.peerName peer, [.string failure.message]⟩
  | .disconnected peer => ⟨"Disconnected", cast.peerName peer, []⟩

def statusName : PresenceStatus → String
  | .online => "Online"
  | .away => "Away"
  | .offline => "Offline"

def note (cast : Cast) : Event → Note
  | .envelope envelope =>
    ⟨envelope.kind.display, cast.peerName envelope.source, [cast.payload envelope]⟩
  | .presence presence =>
    ⟨"presence", cast.peerName presence.peer, [.string (statusName presence.status)]⟩
  | .connection event => cast.connectionNote event
  | .reading peer reading => ⟨"Message", cast.peerName peer, [cast.reading reading]⟩
  | .session event => cast.sessionNote event

def attempts (cast : Cast) : List (String × Nat) :=
  cast.peers.map fun (name, id) =>
    (name, (cast.world.nodes[id]?.bind (cast.world.relay.attempts.get? ·.peer)).getD 0)

def act {α : Type} (act : Sim α) : StateM Cast α := do
  let (value, world) := act.run (← get).world
  modify fun cast => { cast with world }
  return value

/-- Gives a name to a peer; who had it before has none. -/
def enter (name : String) (id : NodeId) : StateM Cast Unit :=
  modify fun cast => { cast with peers := (name, id) :: cast.peers.filter (·.1 ≠ name) }

/-- What each peer learnt since the last time; those who learnt nothing are left out. -/
def takeNotes : StateM Cast (List (String × List Note)) := do
  let cast ← get
  cast.peers.filterMapM fun (name, id) => do
    match ← act (takeEvents id) with
    | [] => return none
    | events => return some (name, Note.arrange (events.map cast.note))

end Cast

end Confide.Simulation
