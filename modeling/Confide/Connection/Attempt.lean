import Confide.Connection.Config
import Confide.Connection.Frame
import Confide.Connection.Negotiation
import Confide.Connection.State
import Confide.Wire.Cbor

/-! One attempt to connect to a peer, from gathering candidates until the channel is closed, as a
machine: each thing it hears changes its state and asks for effects. Time, the network and the relay
are outside. -/

set_option autoImplicit false

namespace Confide

structure CandidatePair where
  ours : Candidate
  theirs : Candidate
  deriving DecidableEq

/-- The controlling side offers, checks the pairs and opens the channel. -/
inductive AttemptRole where
  | controlling
  | controlled (offer : SessionDescription)
  deriving DecidableEq

inductive TransportOperation where
  | create
  | host
  | reflexive
  | describe
  | check
  | connect
  | accept
  | send
  deriving DecidableEq, Repr

def TransportOperation.name : TransportOperation → String
  | .create => "create"
  | .host => "host"
  | .reflexive => "reflexive"
  | .describe => "describe"
  | .check => "check"
  | .connect => "connect"
  | .accept => "accept"
  | .send => "send"

def TransportOperation.all : List TransportOperation :=
  [.create, .host, .reflexive, .describe, .check, .connect, .accept, .send]

def TransportOperation.outOfOrder (operation : TransportOperation) : TransportError :=
  .gathering operation.name

/-- Attempts are numbered through all peers. -/
abbrev AttemptId := Nat

/-- One end of a channel, which is known by the attempt that opened it. -/
structure ChannelEnd where
  opener : AttemptId
  atOpener : Bool
  /-- The attempt at the other end. -/
  other : AttemptId
  deriving DecidableEq

namespace ChannelEnd

def ofOpener (opener other : AttemptId) : ChannelEnd := ⟨opener, true, other⟩

def ofListener (opener : AttemptId) : ChannelEnd := ⟨opener, false, opener⟩

end ChannelEnd

namespace Attempt

inductive Timer where
  | deadline
  /-- The interval which started with the state. -/
  | retransmit (state : ConnectionState)
  | nomination
  deriving DecidableEq

inductive Phase where
  | starting
  | gathering
  | offering
  /-- Waiting for the controlling peer to open the channel. -/
  | accepting
  /-- The pairs under check, and the fastest so far with its round trip in milliseconds. -/
  | checking (started : List CandidatePair) (best : Option (Nat × CandidatePair))
  | opening
  | connected (channel : ChannelEnd)
  | over
  deriving DecidableEq

end Attempt

structure Attempt where
  id : AttemptId
  connection : ConnectionId
  role : AttemptRole
  config : ConnectionConfig
  state : ConnectionState := .idle
  phase : Attempt.Phase := .starting
  /-- Whether the deadline passed while candidates were gathered. -/
  overdue : Bool := false
  remote : Option SessionDescription := none
  ours : List Candidate := []
  theirs : List Candidate := []
  /-- Messages which came before the attempt was ready for them. -/
  held : List Negotiation := []
  /-- Channels to us which are not accepted, and what came over them; nothing marks their end. -/
  arrivals : List AttemptId := []
  early : List (AttemptId × Option Bytes) := []

namespace Attempt

inductive Input where
  | start
  | gathered (found : List Candidate)
  | elapsed (timer : Timer)
  | told (negotiation : Negotiation)
  /-- The round trip in milliseconds, unless the check failed. -/
  | checked (pair : CandidatePair) (roundTrip : Option Nat)
  /-- Our opening of a channel reached an attempt of the peer. -/
  | opened (result : Except TransportError AttemptId)
  /-- An attempt of the peer opened a channel to us. -/
  | arrived (opener : AttemptId)
  /-- A frame at our end of a channel; nothing means that the other end is closed. -/
  | heard (opener : AttemptId) (atOpener : Bool) (frame : Option Bytes)
  | send (content : Bytes)
  | cancel

inductive Effect where
  | enter (state : ConnectionState)
  | connected
  | received (content : Bytes)
  | failed (failure : ConnectionFailure)
  | closed
  | signal (negotiation : Negotiation)
  | wake (after : Duration) (timer : Timer)
  | gather
  | check (pair : CandidatePair)
  | connect (pair : CandidatePair)
  | transmit (channel : ChannelEnd) (frame : Bytes)
  /-- The transport is not needed any more, nor our end of its channel. -/
  | release (channel : Option ChannelEnd)

def channel (attempt : Attempt) : Option ChannelEnd :=
  match attempt.phase with
  | .connected channel => some channel
  | _ => none

def heldCapacity : Nat := 64

/-- The name under which the transport of an attempt is known to the peer. -/
def fragment (id : AttemptId) : String := "ufrag-" ++ toString id

/-- An attempt and the effects it asked for so far, oldest first. -/
abbrev Turn := StateM (Attempt × List Effect)

def ask (effect : Effect) : Turn Unit :=
  modify fun (attempt, effects) => (attempt, effects ++ [effect])

def change (update : Attempt → Attempt) : Turn Unit :=
  modify fun (attempt, effects) => (update attempt, effects)

def current : Turn Attempt := return (← get).1

def enter (state : ConnectionState) : Turn Unit := do
  change fun a => { a with state }
  ask (.enter state)

def finish : Turn Unit := do
  ask (.release (← current).channel)
  change fun a => { a with phase := .over }

def fail (stuckIn : ConnectionState) (reason : FailureReason) : Turn Unit := do
  enter .failed
  ask (.failed ⟨stuckIn, reason⟩)
  finish

def close : Turn Unit := do
  enter .closed
  ask .closed
  finish

def announceCandidates : Turn Unit := do
  let a ← current
  a.ours.forM fun candidate => ask (.signal (.candidate a.connection candidate))

/-- Sends our offer or answer with all our candidates. -/
def announce : Turn Unit := do
  let a ← current
  let description : SessionDescription := ⟨fragment a.id⟩
  ask (.signal (match a.role with
    | .controlling => .offer a.connection description
    | .controlled _ => .answer a.connection description))
  announceCandidates

def retransmitLater : Turn Unit := do
  let a ← current
  ask (.wake a.config.retransmitInterval (.retransmit a.state))

def startChecks (theirs : Candidate) : Turn Unit := do
  let a ← current
  match a.phase with
  | .checking started best =>
    let fresh := (a.ours.map fun ours => ⟨ours, theirs⟩).filter (· ∉ started)
    change fun a => { a with phase := .checking (started ++ fresh) best }
    fresh.forM fun pair => ask (.check pair)
  | _ => pure ()

def hear (frame : Option Bytes) : Turn Unit := do
  match (← current).phase with
  | .connected _ =>
    match frame.map fun bytes => Cbor.decode (α := ChannelFrame) bytes with
    | none | some (.ok .close) => close
    | some (.ok (.data content)) => ask (.received content)
    | some (.error _) => pure ()
  | _ => pure ()

def establish (channel : ChannelEnd) : Turn Unit := do
  change fun a => { a with phase := .connected channel }
  enter .connected
  ask .connected

/-- Takes the first channel that was opened to us, with what came over it. -/
def accept (broken : TransportOperation → Bool) : Turn Unit := do
  let a ← current
  match a.phase with
  | .accepting =>
    if broken .accept then
      fail .checking (.transport TransportOperation.accept.outOfOrder.message)
    else
      match a.arrivals with
      | [] => pure ()
      | opener :: _ =>
        establish (.ofListener opener)
        (a.early.filter (·.1 = opener)).forM fun (_, frame) => hear frame
  | _ => pure ()

def listen (broken : TransportOperation → Bool) (negotiation : Negotiation) : Turn Unit := do
  let a ← current
  match a.phase, negotiation with
  | .offering, .answer _ description =>
    if broken .describe then
      fail .offering (.transport TransportOperation.describe.outOfOrder.message)
    else
      change fun a => { a with remote := some description, phase := .checking [] none }
      enter .checking
      a.theirs.forM startChecks
      retransmitLater
  | .offering, .candidate _ candidate =>
    change fun a => if candidate ∈ a.theirs then a else { a with theirs := a.theirs ++ [candidate] }
  | .accepting, .offer _ _ => announce
  | .checking _ _, .candidate _ candidate => startChecks candidate
  | .starting, _ | .gathering, _ | .opening, _ | .connected _, _ =>
    change fun a =>
      if a.held.length < heldCapacity then { a with held := a.held ++ [negotiation] } else a
  | _, _ => pure ()

/-- Goes on with the candidates which were found. The deadline only counts from here on. -/
def afterGathering (broken : TransportOperation → Bool) : Turn Unit := do
  let a ← current
  match a.role with
  | .controlling =>
    change fun a => { a with phase := .offering, held := [] }
    enter .offering
    announce
    if a.overdue then fail .offering .noAnswer
  | .controlled _ =>
    enter .answering
    announce
    change fun a => { a with phase := .accepting, held := [] }
    enter .checking
    if a.overdue then fail .checking .noUsablePath
  if !a.overdue then
    retransmitLater
    accept broken
    a.held.forM (listen broken)

/-- What an elapsed timer does; a timer of an earlier phase does nothing. -/
def elapse (timer : Timer) : Turn Unit := do
  let a ← current
  match timer, a.phase with
  | .deadline, .starting | .deadline, .gathering => change fun a => { a with overdue := true }
  | .deadline, .offering => fail .offering .noAnswer
  | .deadline, .accepting | .deadline, .checking _ _ | .deadline, .opening =>
    fail .checking .noUsablePath
  | .retransmit .offering, .offering =>
    announce
    retransmitLater
  | .retransmit .checking, .accepting | .retransmit .checking, .checking _ _ =>
    announceCandidates
    retransmitLater
  | .nomination, .checking _ (some (_, pair)) =>
    change fun a => { a with phase := .opening }
    ask (.connect pair)
  | _, _ => pure ()

/-- Notes a successful check; the first one starts the wait for faster pairs. -/
def noteCheck (pair : CandidatePair) (roundTrip : Nat) : Turn Unit := do
  let a ← current
  match a.phase with
  | .checking started none =>
    change fun a => { a with phase := .checking started (some (roundTrip, pair)) }
    ask (.wake a.config.nominationWindow .nomination)
  | .checking started (some (best, _)) =>
    if roundTrip < best then
      change fun a => { a with phase := .checking started (some (roundTrip, pair)) }
  | _ => pure ()

/-- Closes the channel after a farewell, or gives the attempt up. -/
def cancel (broken : TransportOperation → Bool) : Turn Unit := do
  match (← current).phase with
  | .over => pure ()
  | .connected channel =>
    if !broken .send then ask (.transmit channel (Cbor.encode ChannelFrame.close))
    close
  | _ => close

def react (broken : TransportOperation → Bool) : Input → Turn Unit
  | .start => do
    match (← current).role with
    | .controlled offer =>
      if broken .describe then
        fail .idle (.transport TransportOperation.describe.outOfOrder.message)
      else
        change fun a => { a with remote := some offer, phase := .gathering }
        enter .gathering
        ask .gather
    | .controlling =>
      change fun a => { a with phase := .gathering }
      enter .gathering
      ask .gather
  | .gathered found => do
    if (← current).phase = .gathering then
      if found.isEmpty then fail .gathering .noCandidates
      else
        change fun a => { a with ours := found }
        afterGathering broken
  | .elapsed timer => do
    elapse timer
    accept broken
  | .told negotiation => do
    listen broken negotiation
    accept broken
  | .checked pair (some roundTrip) => noteCheck pair roundTrip
  | .checked _ none => pure ()
  | .opened (.ok other) => do
    let a ← current
    if a.phase = .opening then establish (.ofOpener a.id other)
  | .opened (.error cause) => do
    if (← current).phase = .opening then fail .checking (.transport cause.message)
  | .arrived opener => do
    change fun a => { a with arrivals := a.arrivals ++ [opener] }
    accept broken
  | .heard opener atOpener frame => do
    match (← current).phase with
    | .connected channel =>
      if channel.opener = opener ∧ channel.atOpener = atOpener then hear frame
    | _ =>
      if !atOpener then change fun a => { a with early := a.early ++ [(opener, frame)] }
  | .send content => do
    match (← current).phase with
    | .connected channel =>
      if broken .send then close
      else ask (.transmit channel (Cbor.encode (ChannelFrame.data content)))
    | _ => pure ()
  | .cancel => cancel broken

/-- One turn of an attempt, with the operations of its transport which are out of order. -/
def step (broken : TransportOperation → Bool) (attempt : Attempt) (input : Input) :
    Attempt × List Effect :=
  (react broken input (attempt, [])).2

end Attempt

end Confide
