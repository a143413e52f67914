import Confide.Identity
import Confide.Wire.Json

/-! Messages between peers over the relay. They travel as text; the relay reads only the recipient,
and the kind tells what the payload means. -/

set_option autoImplicit false

namespace Confide

inductive EnvelopeKind where
  | offer
  | answer
  | candidate
  | presence
  deriving DecidableEq, Repr

namespace EnvelopeKind

instance : Wire EnvelopeKind where
  shape := .iso
    (.choice (.plain "offer" <| .plain "answer" <| .plain "candidate" <| .plain "presence" .nil))
    (fun
      | .inl _ => .offer
      | .inr (.inl _) => .answer
      | .inr (.inr (.inl _)) => .candidate
      | .inr (.inr (.inr (.inl _))) => .presence)
    (fun
      | .offer => .inl ()
      | .answer => .inr (.inl ())
      | .candidate => .inr (.inr (.inl ()))
      | .presence => .inr (.inr (.inr (.inl ()))))
    fun kind => by cases kind <;> rfl

def isNegotiation : EnvelopeKind → Bool
  | .presence => false
  | _ => true

def display : EnvelopeKind → String
  | .offer => "offer"
  | .answer => "answer"
  | .candidate => "candidate"
  | .presence => "presence"

end EnvelopeKind

structure Envelope where
  source : IdentityKey
  target : IdentityKey
  kind : EnvelopeKind
  payload : Json

namespace Envelope

/-- Peers are written in hexadecimal. -/
def peerShape : Shape IdentityKey :=
  .view .text (fun text => (IdentityKey.ofHex text).toOption) (·.toHex)

/-- All but the payload. -/
abbrev Routing := IdentityKey × IdentityKey × EnvelopeKind × Unit

def routingFields :=
  Fields.field "from" peerShape <| .field "to" peerShape <|
    .field "kind" (Wire.shape : Shape EnvelopeKind) .nil

/-- The routing comes first; the keys of the payload are in ascending order. -/
def toJson (envelope : Envelope) : Json :=
  let routing : Routing := (envelope.source, envelope.target, envelope.kind, ())
  .object (routingFields.toEntries routing ++ [("payload", envelope.payload.sorted)])

def toText (envelope : Envelope) : String := envelope.toJson.text

/-- How deep a payload may nest: one level is the envelope's. -/
def payloadDepth : Nat := Json.maxDepth - 1

def ofParts (routing : Routing) (payload : Json) : Envelope :=
  ⟨routing.1, routing.2.1, routing.2.2.1, payload⟩

abbrev Seen :=
  (Option IdentityKey × Option IdentityKey × Option EnvelopeKind × Unit) × Option Json

/-- Takes an entry of an envelope; a second one of the same name is refused. -/
def ofEntry? (seen : Seen) (entry : Option String × Json.Tree) : Option Seen := do
  let name ← entry.1
  if name = "payload" then
    match seen.2 with
    | some _ => none
    | none => do some (seen.1, some (← entry.2.value? payloadDepth))
  else do some (← routingFields.ofEntry? false name entry.2 seen.1, seen.2)

def ofTree? : Json.Tree → Option Envelope
  | .object entries => do
    let (routing, payload) ← entries.foldlM ofEntry? (routingFields.unseen, none)
    some (ofParts (← routingFields.value? routing) (← payload))
  | .array [source, target, kind, payload] => do
    let routing ← routingFields.ofItems? [source, target, kind]
    some (ofParts routing (← payload.value? payloadDepth))
  | _ => none

def ofText? (text : String) : Option Envelope := do ofTree? (← Json.Tree.ofText? text)

end Envelope

inductive PresenceStatus where
  | online
  | away
  | offline
  deriving DecidableEq, Repr

instance : Wire PresenceStatus where
  shape := .iso (.choice (.plain "online" <| .plain "away" <| .plain "offline" .nil))
    (fun
      | .inl _ => .online
      | .inr (.inl _) => .away
      | .inr (.inr (.inl _)) => .offline)
    (fun
      | .online => .inl ()
      | .away => .inr (.inl ())
      | .offline => .inr (.inr (.inl ())))
    fun status => by cases status <;> rfl

structure Presence where
  peer : IdentityKey
  status : PresenceStatus
  deriving DecidableEq

namespace Presence

def payloadShape : Shape PresenceStatus :=
  .iso (.record false (.field "status" Wire.shape .nil)) (·.1) (·, ()) fun _ => rfl

def ofEnvelope? (envelope : Envelope) : Option Presence := do
  if envelope.kind = .presence then
    some ⟨envelope.source, ← payloadShape.ofTree? envelope.payload.toTree⟩
  else none

end Presence

end Confide
