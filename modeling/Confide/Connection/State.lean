import Confide.Address
import Confide.Failure

/-! The states of a connection to a peer and the reasons for which it fails. -/

set_option autoImplicit false

namespace Confide

inductive ConnectionState where
  | idle
  /-- Collecting our own candidates. -/
  | gathering
  /-- Our offer was sent and is not answered yet. -/
  | offering
  /-- We answer an offer of the peer. -/
  | answering
  /-- Trying pairs of candidates. -/
  | checking
  | connected
  | failed
  | closed
  deriving DecidableEq, Repr

namespace ConnectionState

def all : List ConnectionState :=
  [.idle, .gathering, .offering, .answering, .checking, .connected, .failed, .closed]

/-- No other state follows. -/
def isTerminal : ConnectionState → Bool
  | .failed | .closed => true
  | _ => false

def display : ConnectionState → String
  | .idle => "idle"
  | .gathering => "gathering"
  | .offering => "offering"
  | .answering => "answering"
  | .checking => "checking"
  | .connected => "connected"
  | .failed => "failed"
  | .closed => "closed"

end ConnectionState

inductive TransportError where
  | unreachable (address : Address)
  | noRemoteDescription
  | gathering (detail : String)
  | closed
  deriving DecidableEq

def TransportError.message : TransportError → String
  | .unreachable address => address.toText ++ " is unreachable"
  | .noRemoteDescription => "remote description is missing"
  | .gathering detail => "gathering failed: " ++ detail
  | .closed => "data channel closed"

instance : Failure TransportError where
  code
    | .unreachable _ => "Unreachable"
    | .noRemoteDescription => "NoRemoteDescription"
    | .gathering _ => "Gathering"
    | .closed => "Closed"
  message error := some error.message

inductive FailureReason where
  | noUsablePath
  | noCandidates
  | noAnswer
  | transport (detail : String)
  deriving DecidableEq

def FailureReason.message : FailureReason → String
  | .noUsablePath => "no usable network path found"
  | .noCandidates => "no local network candidates available"
  | .noAnswer => "peer did not answer"
  | .transport detail => "connection could not be opened: " ++ detail

instance : Failure FailureReason where
  code
    | .noUsablePath => "NoUsablePath"
    | .noCandidates => "NoCandidates"
    | .noAnswer => "NoAnswer"
    | .transport _ => "Transport"
  message reason := some reason.message

/-- Why an attempt failed, and the state from which it did not get on. -/
structure ConnectionFailure where
  stuckIn : ConnectionState
  reason : FailureReason
  deriving DecidableEq

def ConnectionFailure.message (failure : ConnectionFailure) : String :=
  failure.reason.message ++ " (stuck in " ++ failure.stuckIn.display ++ ")"

inductive ConnectionError where
  | failed (failure : ConnectionFailure)
  | cancelled
  | closed
  | stopped
  | transport (cause : TransportError)
  deriving DecidableEq

def ConnectionError.message : ConnectionError → String
  | .failed failure => "connection failed: " ++ failure.message
  | .cancelled => "connection attempt was cancelled"
  | .closed => "connection closed"
  | .stopped => "connection manager stopped"
  | .transport cause => cause.message

instance : Failure ConnectionError where
  code
    | .failed _ => "Failed"
    | .cancelled => "Cancelled"
    | .closed => "Closed"
    | .stopped => "Stopped"
    | .transport _ => "Transport"
  message error := some error.message

end Confide
