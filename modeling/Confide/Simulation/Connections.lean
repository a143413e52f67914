import Confide.Simulation.Relay

/-! The connections of each peer: which attempt belongs to which peer, and what the attempts ask of
the network. When both peers offer, the one with the lower key stays the offering side. -/

set_option autoImplicit false

namespace Confide.Simulation

def checkTimeout : Millis := 500

def modifyManager (id : NodeId) (update : Manager → Manager) : Sim Unit :=
  modifyNode id fun node => { node with manager := update node.manager }

def modifyEntry (id : NodeId) (peer : IdentityKey) (update : Entry → Entry) : Sim Unit :=
  modifyManager id fun manager =>
    match manager.entries.get? peer with
    | none => manager
    | some entry => { manager with entries := manager.entries.insert peer (update entry) }

def removeEntry (id : NodeId) (peer : IdentityKey) : Sim Unit :=
  modifyManager id fun manager => { manager with entries := manager.entries.erase peer }

def answerAll (id : NodeId) (peer : IdentityKey) (waiters : List Waiter)
    (result : Except ConnectionError AttemptId) : Sim Unit :=
  waiters.forM fun waiter => push (.answered id peer waiter result)

def Node.broken (node : Node) (operation : TransportOperation) : Bool :=
  operation ∈ node.faults.transport

/-- Makes an attempt, whose deadline counts from now. -/
def startAttempt (id : NodeId) (peer : IdentityKey) (connection : ConnectionId)
    (role : AttemptRole) (waiters : List Waiter) : Sim (Except TransportError Unit) := do
  match ← node? id with
  | none => return .error .closed
  | some node =>
    if node.broken .create then return .error TransportOperation.create.outOfOrder
    let number := (← get).madeAttempts + 1
    let config := node.config.connection
    let attempt : Attempt := { id := number, connection, role, config }
    modify fun w => { w with
      madeAttempts := number, attempts := w.attempts ++ [⟨id, peer, attempt⟩] }
    modifyManager id fun manager => { manager with
      entries := manager.entries.insert peer
        { attempt := number, connection, controlling := role = .controlling, waiters } }
    schedule config.connectTimeout.ceilMillis (.attempt number (.elapsed .deadline))
    push (.attempt number .start)
    return .ok ()

/-- Connects to a peer, unless an attempt is under way already. -/
def connect (id : NodeId) (peer : IdentityKey) (waiter : Waiter) : Sim Unit := do
  match ← node? id with
  | none => pure ()
  | some node =>
    if node.manager.stopped then push (.answered id peer waiter (.error .stopped))
    else
      match node.manager.entries.get? peer with
      | some entry =>
        if entry.state = .connected then push (.answered id peer waiter (.ok entry.attempt))
        else modifyEntry id peer fun entry => { entry with waiters := entry.waiters ++ [waiter] }
      | none =>
        let connection ← drawing id 0 drawUInt64
        match ← startAttempt id peer connection .controlling [waiter] with
        | .ok _ => pure ()
        | .error cause => push (.answered id peer waiter (.error (.transport cause)))

/-- What a connection manager does unless it was stopped. -/
def managed {α : Type} (id : NodeId) (task : Manager → Sim α) : Sim (Except ConnectionError α) := do
  match ← node? id with
  | none => return .error .stopped
  | some node =>
    if node.manager.stopped then return .error .stopped
    return .ok (← task node.manager)

def connectionState? (id : NodeId) (peer : IdentityKey) :
    Sim (Except ConnectionError (Option ConnectionState)) :=
  managed id fun manager => return (manager.entries.get? peer).map (·.state)

def cancel (id : NodeId) (peer : IdentityKey) : Sim (Except ConnectionError Unit) :=
  managed id fun manager => do
    match manager.entries.get? peer with
    | none => pure ()
    | some entry =>
      push (.attempt entry.attempt .cancel)
      answerAll id peer entry.waiters (.error .cancelled)
      modifyEntry id peer fun entry => { entry with waiters := [] }

def stopManager (id : NodeId) : Sim Unit := do
  match ← node? id with
  | none => pure ()
  | some node =>
    node.manager.entries.entries.forM fun (peer, entry) => do
      push (.attempt entry.attempt .cancel)
      answerAll id peer entry.waiters (.error .stopped)
    modifyManager id fun _ => { stopped := true }

/-- Answers an offer, unless it repeats one or ours comes first. -/
def takeOffer (id : NodeId) (node : Node) (peer : IdentityKey) (connection : ConnectionId)
    (description : SessionDescription) : Sim Unit := do
  let replace (waiters : List Waiter) : Sim Unit := do
    match ← startAttempt id peer connection (.controlled description) waiters with
    | .ok _ => pure ()
    | .error cause =>
      removeEntry id peer
      answerAll id peer waiters (.error (.transport cause))
  match node.manager.entries.get? peer with
  | none => replace []
  | some entry =>
    let pending := !entry.state.isTerminal && entry.state ≠ .connected
    if entry.connection = connection then
      push (.attempt entry.attempt (.told (.offer connection description)))
    else if entry.controlling && pending && compare node.peer peer == .lt then pure ()
    else
      push (.attempt entry.attempt .cancel)
      replace entry.waiters

/-- Takes a negotiation message; those of other attempts than the current one are ignored. -/
def negotiate (id : NodeId) (node : Node) (envelope : Envelope) : Sim Unit := do
  if node.manager.stopped then return
  let peer := envelope.source
  match Negotiation.ofEnvelope envelope with
  | .error _ => pure ()
  | .ok (.offer connection description) => takeOffer id node peer connection description
  | .ok negotiation =>
    match node.manager.entries.get? peer with
    | none => pure ()
    | some entry =>
      if entry.connection = negotiation.connection then
        push (.attempt entry.attempt (.told negotiation))

/-- Takes an envelope from the relay. Those for others and those from ourselves are ignored. -/
def receiveEnvelope (line : Line) (envelope : Envelope) : Sim Unit := do
  if !(← isCurrent line) then return
  match ← node? line.node with
  | none => pure ()
  | some node =>
    if envelope.target ≠ node.peer ∨ envelope.source = node.peer then return
    if envelope.kind = .presence then
      (Presence.ofEnvelope? envelope).forM fun presence => emit line.node (.presence presence)
    else
      match node.part with
      | .listener => emit line.node (.envelope envelope)
      | _ => negotiate line.node node envelope

/-! What attempts ask of the network. -/

/-- Asks for our candidates. What takes too long is left out. -/
def gather (id : AttemptId) (node : Node) : Sim Unit := do
  let config := node.config.connection
  let limit := config.gatheringTimeout.ceilMillis
  let own := node.interface
  let hosts := if node.broken .host then [] else own.host.toList.map (⟨.host, ·⟩)
  let outer := own.reflexive.toList.map (⟨.serverReflexive, ·⟩)
  let (delay, outer) :=
    if node.broken .reflexive then (0, [])
    else if own.reflexiveDelay ≤ limit then (own.reflexiveDelay, outer)
    else (limit, [])
  schedule (max delay config.minGathering.ceilMillis) (.attempt id (.gathered (hosts ++ outer)))

/-- The latency of a pair, if the peer's transport is still there and a link joins the two. -/
def reachable (attempt : Attempt) (pair : CandidatePair) : Sim (Except TransportError Millis) := do
  match attempt.remote with
  | none => return .error .noRemoteDescription
  | some description =>
    match ← named? description.fragment, ← latency? pair.ours.address pair.theirs.address with
    | some _, some latency => return .ok latency
    | _, _ => return .error (.unreachable pair.theirs.address)

def check (attempt : Attempt) (node : Node) (pair : CandidatePair) : Sim Unit := do
  if node.broken .check then push (.attempt attempt.id (.checked pair none))
  else
    match ← reachable attempt pair with
    | .ok latency =>
      let roundTrip := 2 * latency
      schedule roundTrip (.attempt attempt.id (.checked pair (some roundTrip)))
    | .error _ => schedule checkTimeout (.attempt attempt.id (.checked pair none))

def dial (attempt : Attempt) (node : Node) (pair : CandidatePair) : Sim Unit := do
  let fail (cause : TransportError) : Sim Unit :=
    push (.attempt attempt.id (.opened (.error cause)))
  if node.broken .connect then fail TransportOperation.connect.outOfOrder
  else
    match ← reachable attempt pair with
    | .ok latency => schedule latency (.dialled attempt.id pair)
    | .error cause => fail cause

def transmit (id : NodeId) (channel : ChannelEnd) (frame : Bytes) : Sim Unit := do
  let replacement := (← node? id).bind (·.faults.replacement)
  if replacement.isSome then
    modifyNode id fun node => { node with faults := { node.faults with replacement := none } }
  push (.attempt channel.other
    (.heard channel.opener (!channel.atOpener) (some (replacement.getD frame))))

/-- Lets go of a transport: the other ends of its channels learn that it is gone. -/
def release (attempt : Attempt) (channel : Option ChannelEnd) : Sim Unit := do
  modify fun w => { w with attempts := w.attempts.filter (·.attempt.id ≠ attempt.id) }
  let ends := channel.toList ++ attempt.arrivals.map ChannelEnd.ofListener
  ends.eraseDups.forM fun channel =>
    push (.attempt channel.other (.heard channel.opener (!channel.atOpener) none))

def tell (id : NodeId) (node : Node) (event : ConnectionEvent) : Sim Unit := do
  match node.part, event with
  | .listener, _ => pure ()
  | .connector, event => emit id (.connection event)
  | .puppet _, .message peer content | .messenger _ _, .message peer content =>
    push (.frame id peer content)
  | .puppet _, event => emit id (.connection event)
  | .messenger _ _, .failed peer failure => emit id (.session (.connectionFailed peer failure))
  | .messenger _ _, .closed peer => emit id (.session (.disconnected peer))
  | .messenger _ _, _ => pure ()

/-- Takes a report of an attempt. Only the current attempt of a peer is heard. -/
def report (live : LiveAttempt) (node : Node) (effect : Attempt.Effect) : Sim Unit := do
  let id := live.node
  let peer := live.peer
  match node.manager.entries.get? peer with
  | none => pure ()
  | some entry =>
    if entry.connection ≠ live.attempt.connection then return
    match effect with
    | .enter state =>
      modifyEntry id peer fun entry => { entry with state }
      tell id node (.stateChanged peer state)
    | .connected =>
      modifyEntry id peer fun entry => { entry with waiters := [] }
      answerAll id peer entry.waiters (.ok entry.attempt)
      tell id node (.connected peer)
    | .received content => tell id node (.message peer content)
    | .failed failure =>
      removeEntry id peer
      answerAll id peer entry.waiters (.error (.failed failure))
      tell id node (.failed peer failure)
    | .closed =>
      removeEntry id peer
      answerAll id peer entry.waiters (.error .closed)
      tell id node (.closed peer)
    | _ => pure ()

def perform (live : LiveAttempt) (effect : Attempt.Effect) : Sim Unit := do
  match ← node? live.node with
  | none => pure ()
  | some node =>
    let attempt := live.attempt
    match effect with
    | .signal negotiation =>
      discard (signal live.node live.peer negotiation.kind negotiation.toPayload)
    | .wake after timer => schedule after.ceilMillis (.attempt attempt.id (.elapsed timer))
    | .gather => gather attempt.id node
    | .check pair => check attempt node pair
    | .connect pair => dial attempt node pair
    | .transmit channel frame => transmit live.node channel frame
    | .release channel => release attempt channel
    | effect => report live node effect

def turn (id : AttemptId) (input : Attempt.Input) : Sim Unit := do
  match ← attempt? id with
  | none => pure ()
  | some live =>
    match ← node? live.node with
    | none => pure ()
    | some node =>
      let (attempt, effects) := live.attempt.step node.broken input
      let live := { live with attempt }
      modify fun w => { w with
        attempts := w.attempts.map fun other => if other.attempt.id = id then live else other }
      effects.forM (perform live)

def dialled (id : AttemptId) (pair : CandidatePair) : Sim Unit := do
  match ← attempt? id with
  | none => pure ()
  | some live =>
    if live.attempt.phase ≠ .opening then return
    match live.attempt.remote with
    | none => turn id (.opened (.error .noRemoteDescription))
    | some description =>
      match ← named? description.fragment with
      | none => turn id (.opened (.error (.unreachable pair.theirs.address)))
      | some other =>
        push (.attempt other.attempt.id (.arrived id))
        turn id (.opened (.ok other.attempt.id))

def sendOver (id : AttemptId) (content : Bytes) : Sim (Except ConnectionError Unit) := do
  if ← isClosed id then return .error .closed
  push (.attempt id (.send content))
  return .ok ()

end Confide.Simulation
