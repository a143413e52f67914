import Confide.Signaling.Envelope

/-! What a client of the relay is asked to do, and why it fails. -/

set_option autoImplicit false

namespace Confide

inductive RelayError where
  | unreachable (detail : String)
  | closed
  | invalidConfig (detail : String)
  deriving DecidableEq, Repr

def RelayError.message : RelayError → String
  | .unreachable detail => "relay is unreachable: " ++ detail
  | .closed => "relay connection closed"
  | .invalidConfig detail => "invalid relay configuration: " ++ detail

instance : Failure RelayError where
  code
    | .unreachable _ => "Unreachable"
    | .closed => "Closed"
    | .invalidConfig _ => "InvalidConfig"
  message error := some error.message

inductive SignalingError where
  | queueFull
  | stopped
  deriving DecidableEq, Repr

def SignalingError.message : SignalingError → String
  | .queueFull => "outgoing signaling queue is full"
  | .stopped => "signaling client stopped"

instance : Failure SignalingError where
  code
    | .queueFull => "QueueFull"
    | .stopped => "Stopped"
  message error := some error.message

inductive SignalingRequest where
  | send (kind : EnvelopeKind) (target : IdentityKey)
  | shutdown
  deriving DecidableEq

def SignalingRequest.display : SignalingRequest → String
  | .send kind target => "send " ++ kind.display ++ " envelope to peer " ++ target.display
  | .shutdown => "shutdown the actor"

end Confide
