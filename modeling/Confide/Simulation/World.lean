import Confide.Connection.Attempt
import Confide.Entropy.KeyStream
import Confide.Messaging.Messenger
import Confide.Signaling.Error

/-! Several peers on one relay and one network, in a time of their own. What happens is kept in a
queue; the time only moves, to the next timer, when the queue is empty. -/

set_option autoImplicit false

namespace Confide.Simulation

/-- Peers are numbered in the order in which they were added. -/
abbrev NodeId := Nat

/-- Tasks stand for answers which are not there yet. -/
abbrev TaskId := Nat

/-- Times and delays are in milliseconds. -/
abbrev Millis := Nat

/-! The relay. -/

/-- One stay of a client at the relay. -/
structure Line where
  node : NodeId
  number : Nat
  deriving DecidableEq

structure Relay where
  online : Bool := true
  lines : SortedMap IdentityKey Line := .empty
  /-- How often each peer tried to reach the relay. -/
  attempts : SortedMap IdentityKey Nat := .empty
  /-- How many of the next envelopes of a kind get lost. -/
  dropping : List (EnvelopeKind × Nat) := []
  routed : Nat := 0

namespace Relay

def dropNext (relay : Relay) (kind : EnvelopeKind) (count : Nat) : Relay :=
  { relay with dropping := (kind, count) :: relay.dropping.filter (·.1 ≠ kind) }

def drops (relay : Relay) (kind : EnvelopeKind) : Bool × Relay :=
  match relay.dropping.lookup kind with
  | none | some 0 => (false, relay)
  | some (count + 1) => (true, relay.dropNext kind count)

end Relay

inductive ClientStatus where
  | connecting
  | connected (line : Nat)
  | failed (attempts : UInt32)
  | stopped
  deriving DecidableEq

def ClientStatus.display : ClientStatus → String
  | .connecting => "Connecting"
  | .connected _ => "Connected"
  | .failed attempts => "Failed \x7b attempts: " ++ toString attempts.toNat ++ " \x7d"
  | .stopped => "Stopped"

inductive ClientRequest where
  | send (envelope : Envelope)
  | shutdown

structure Client where
  status : ClientStatus := .connecting
  backoff : Backoff KeyStream
  /-- The attempts in a row which failed. -/
  failures : UInt32 := 0
  queue : List ClientRequest := []

/-! Connections. -/

inductive Waiter where
  /-- Somebody who wants the channel itself. -/
  | caller (task : TaskId)
  /-- A payload, which is sealed once it can be sent. -/
  | message (task : TaskId) (payload : SessionPayload)
  /-- A frame for a group, which is sealed already. -/
  | copy (task : TaskId) (counter : UInt64) (frame : Bytes)

/-- The attempt a peer is connected or being connected by. -/
structure Entry where
  attempt : AttemptId
  connection : ConnectionId
  controlling : Bool
  state : ConnectionState := .idle
  waiters : List Waiter := []

structure Manager where
  stopped : Bool := false
  entries : SortedMap IdentityKey Entry := .empty

structure LiveAttempt where
  node : NodeId
  peer : IdentityKey
  attempt : Attempt

structure Link where
  first : Address
  second : Address
  latency : Millis

def Link.joins (link : Link) (first second : Address) : Bool :=
  (link.first = first ∧ link.second = second) ∨ (link.first = second ∧ link.second = first)

/-! Peers. -/

/-- A peer which is played by hand, message by message. -/
structure Puppet where
  keys : KeyStore KeyStream
  source : KeyStream
  sessions : SortedMap IdentityKey Session := .empty
  groups : SortedMap GroupId Group := .empty

/-- What a peer does beside talking to the relay. -/
inductive Part where
  | listener
  | connector
  | messenger (messenger : Messenger KeyStream) (vault : Nat)
  | puppet (puppet : Puppet)

inductive Reading where
  | direct (message : RatchetMessage) (payload : Option SessionPayload)
  | group (message : GroupMessage)
  | unreadable

inductive Event where
  | envelope (envelope : Envelope)
  | presence (presence : Presence)
  | connection (event : ConnectionEvent)
  | reading (peer : IdentityKey) (reading : Reading)
  | session (event : SessionEvent)

/-- The addresses of a peer, and how long it takes to learn the outer one. -/
structure Interface where
  host : Option Address := none
  reflexive : Option Address := none
  reflexiveDelay : Millis := 100

structure Faults where
  transport : List TransportOperation := []
  store : List StoreOperation := []
  /-- What is sent instead of the next frame. -/
  replacement : Option Bytes := none

structure Node where
  peer : IdentityKey
  config : Config
  interface : Interface
  client : Client
  manager : Manager := {}
  part : Part
  faults : Faults := {}
  source : KeyStream
  /-- What the peer learnt since it was asked last, oldest first. -/
  events : List Event := []

/-! Answers. -/

inductive Reply where
  | done
  /-- A channel, and whether it was closed already when it was handed over. -/
  | channel (attempt : AttemptId) (closed : Bool)
  | epoch (number : UInt64)
  | notConnected (cause : ConnectionError)
  | notSent (cause : SendError)

inductive Task where
  | waiting
  /-- So many deliveries are under way, some have failed; the reply is for the case that none
  does. -/
  | delivering (left : Nat) (missed : List IdentityKey) (reply : Reply)
  | finished (reply : Reply)

namespace Task

def collected (missed : List IdentityKey) (reply : Reply) : Reply :=
  if missed.isEmpty then reply
  else .notSent (.partialDelivery (missed.mergeSort fun x y => (compare x y).isLE))

def start (count : Nat) (reply : Reply) : Task :=
  if count = 0 then .finished reply else .delivering count [] reply

def deliver (task : Task) (peer : IdentityKey) (result : Except SendError Unit) : Task :=
  match task, result with
  | .waiting, .ok _ => .finished .done
  | .waiting, .error cause => .finished (.notSent cause)
  | .delivering left missed reply, result =>
    let missed := match result with
      | .ok _ => missed
      | .error _ => missed ++ [peer]
    if left ≤ 1 then .finished (collected missed reply) else .delivering (left - 1) missed reply
  | .finished reply, _ => .finished reply

end Task

/-! What happens. -/

inductive Happening where
  /-- A client tries to reach the relay. -/
  | reach (node : NodeId)
  /-- A client works off its queue. -/
  | serve (node : NodeId)
  | relayed (line : Line) (envelope : Envelope)
  | lineLost (line : Line)
  | attempt (id : AttemptId) (input : Attempt.Input)
  /-- The opening of a channel arrives at the other side. -/
  | dialled (id : AttemptId) (pair : CandidatePair)
  | answered (node : NodeId) (peer : IdentityKey) (waiter : Waiter)
      (result : Except ConnectionError AttemptId)
  | frame (node : NodeId) (peer : IdentityKey) (content : Bytes)

structure Timer where
  due : Millis
  happening : Happening

structure World where
  time : Millis := 0
  /-- The wall clock, in seconds. -/
  clock : UInt64
  relay : Relay := {}
  links : List Link := []
  nodes : Array Node := #[]
  attempts : List LiveAttempt := []
  /-- The attempts and lines made so far. -/
  madeAttempts : Nat := 0
  madeLines : Nat := 0
  vaults : Shelf Vault := {}
  directory : Directory := {}
  directoryFaults : List DirectoryOperation := []
  tasks : Array Task := #[]
  /-- What happens now, in this order. -/
  ready : List Happening := []
  /-- What happens later; the next comes first, and of several at one time the oldest. -/
  timers : List Timer := []

abbrev Sim := StateM World

def push (happening : Happening) : Sim Unit :=
  modify fun w => { w with ready := w.ready ++ [happening] }

/-- Sets a timer behind those which are due before it or at the same time. -/
def schedule (after : Millis) (happening : Happening) : Sim Unit :=
  if after = 0 then push happening
  else
    modify fun w =>
      let due := w.time + after
      let (before, behind) := w.timers.span (·.due ≤ due)
      { w with timers := before ++ ⟨due, happening⟩ :: behind }

def node? (id : NodeId) : Sim (Option Node) := return (← get).nodes[id]?

def part? (id : NodeId) : Sim (Option Part) := return (← node? id).map (·.part)

def modifyNode (id : NodeId) (update : Node → Node) : Sim Unit :=
  modify fun w => { w with nodes := w.nodes.modify id update }

def emit (id : NodeId) (event : Event) : Sim Unit :=
  modifyNode id fun node => { node with events := node.events ++ [event] }

def drawing {α : Type} (id : NodeId) (default : α) (take : KeyStream → α × KeyStream) : Sim α := do
  match ← node? id with
  | none => return default
  | some node =>
    let (value, source) := take node.source
    modifyNode id fun node => { node with source }
    return value

def attempt? (id : AttemptId) : Sim (Option LiveAttempt) :=
  return (← get).attempts.find? (·.attempt.id = id)

def named? (fragment : String) : Sim (Option LiveAttempt) :=
  return (← get).attempts.find? (Attempt.fragment ·.attempt.id = fragment)

def latency? (first second : Address) : Sim (Option Millis) :=
  return ((← get).links.find? (·.joins first second)).map (·.latency)

def newTask (task : Task) : Sim TaskId := do
  let id := (← get).tasks.size
  modify fun w => { w with tasks := w.tasks.push task }
  return id

def modifyTask (id : TaskId) (update : Task → Task) : Sim Unit :=
  modify fun w => { w with tasks := w.tasks.modify id update }

def finishTask (id : TaskId) (reply : Reply) : Sim Unit := modifyTask id fun _ => .finished reply

def isClosed (id : AttemptId) : Sim Bool := return (← attempt? id).isNone

end Confide.Simulation
