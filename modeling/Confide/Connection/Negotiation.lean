import Confide.Connection.Candidate
import Confide.Signaling.Envelope

/-! Messages by which two peers agree on a connection, as payloads of envelopes. -/

set_option autoImplicit false

namespace Confide

/-- The offering side numbers its attempts, so that late messages are told apart. -/
abbrev ConnectionId := UInt64

inductive Negotiation where
  | offer (connection : ConnectionId) (description : SessionDescription)
  | answer (connection : ConnectionId) (description : SessionDescription)
  | candidate (connection : ConnectionId) (candidate : Candidate)
  deriving DecidableEq

namespace Negotiation

def connection : Negotiation → ConnectionId
  | .offer connection _ | .answer connection _ | .candidate connection _ => connection

def kind : Negotiation → EnvelopeKind
  | .offer _ _ => .offer
  | .answer _ _ => .answer
  | .candidate _ _ => .candidate

def describing : Shape (ConnectionId × SessionDescription × Unit) :=
  .record false (.field "connection" .uint64 <| .field "description" Wire.shape .nil)

def naming : Shape (ConnectionId × Candidate × Unit) :=
  .record false (.field "connection" .uint64 <| .field "candidate" Wire.shape .nil)

def toPayload : Negotiation → Json
  | .offer connection description | .answer connection description =>
    (describing.toJson (connection, description, ())).sorted
  | .candidate connection found => (naming.toJson (connection, found, ())).sorted

inductive Error where
  | unexpectedKind (kind : EnvelopeKind)
  | badPayload
  deriving DecidableEq, Repr

instance : Failure Error where
  code
    | .unexpectedKind _ => "UnexpectedKind"
    | .badPayload => "Json"
  message
    | .unexpectedKind kind => some (kind.display ++ " envelope is not part of a negotiation")
    | .badPayload => none

/-- The kind of the envelope decides how its payload is read. -/
def ofEnvelope (envelope : Envelope) : Except Error Negotiation :=
  let tree := envelope.payload.toTree
  match envelope.kind with
  | .offer =>
    match describing.ofTree? tree with
    | some (connection, description, _) => .ok (.offer connection description)
    | none => .error .badPayload
  | .answer =>
    match describing.ofTree? tree with
    | some (connection, description, _) => .ok (.answer connection description)
    | none => .error .badPayload
  | .candidate =>
    match naming.ofTree? tree with
    | some (connection, found, _) => .ok (.candidate connection found)
    | none => .error .badPayload
  | .presence => .error (.unexpectedKind .presence)

def toEnvelope (negotiation : Negotiation) (source target : IdentityKey) : Envelope :=
  ⟨source, target, negotiation.kind, negotiation.toPayload⟩

end Negotiation

end Confide
