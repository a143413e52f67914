import Confide.Simulation.World

/-! Clients and their relay. A client keeps its line to the relay; what it is asked to send while it
has none is lost. -/

set_option autoImplicit false

namespace Confide.Simulation

def modifyClient (id : NodeId) (update : Client → Client) : Sim Unit :=
  modifyNode id fun node => { node with client := update node.client }

def isCurrent (line : Line) : Sim Bool := do
  match ← node? line.node with
  | some node => return node.client.status = .connected line.number
  | none => return false

/-- Delivers an envelope over a line, and tells whether it arrives. -/
def sendDown (line : Line) (envelope : Envelope) : Sim Bool := do
  let arrives ← isCurrent line
  if arrives then push (.relayed line envelope)
  return arrives

/-- Passes an envelope on to its target. It is refused if the relay is not there. -/
def route (envelope : Envelope) : Sim (Except RelayError Unit) := do
  let relay := (← get).relay
  if !relay.online then return .error .closed
  let (dropped, relay) := relay.drops envelope.kind
  modify fun w => { w with relay }
  if !dropped then
    match relay.lines.get? envelope.target with
    | none => pure ()
    | some line =>
      if ← sendDown line envelope then
        modify fun w => { w with relay := { w.relay with routed := w.relay.routed + 1 } }
  return .ok ()

/-- Delivers an envelope over the line of a peer, whoever it is for. -/
def inject (peer : IdentityKey) (envelope : Envelope) : Sim Unit := do
  (← get).relay.lines.get? peer |>.forM fun line => discard (sendDown line envelope)

/-- Puts the relay on or off line; all lines are lost when it goes. -/
def setOnline (online : Bool) : Sim Unit := do
  if !online then (← get).relay.lines.values.forM fun line => push (.lineLost line)
  modify fun w => { w with relay := { w.relay with
    online, lines := if online then w.relay.lines else .empty } }

/-- Tries to reach the relay, and waits before the next attempt if it can not be reached. -/
def reach (id : NodeId) : Sim Unit := do
  match ← node? id with
  | none => pure ()
  | some node =>
    if node.client.status ≠ .connecting then return
    let relay := (← get).relay
    let tried := (relay.attempts.get? node.peer).getD 0 + 1
    let relay := { relay with attempts := relay.attempts.insert node.peer tried }
    if relay.online then
      let line : Line := ⟨id, (← get).madeLines⟩
      (relay.lines.get? node.peer).forM fun old => push (.lineLost old)
      modify fun w => { w with
        madeLines := w.madeLines + 1
        relay := { relay with lines := relay.lines.insert node.peer line } }
      modifyClient id fun client => { client with
        status := .connected line.number, failures := 0, backoff := client.backoff.reset }
      push (.serve id)
    else
      modify fun w => { w with relay }
      let failures := node.client.failures + 1
      if failures ≥ node.config.signaling.maxAttempts then
        modifyClient id fun client => { client with status := .failed failures, queue := [] }
      else
        let (delay, backoff) := node.client.backoff.next
        modifyClient id fun client => { client with failures, backoff }
        schedule delay.ceilMillis (.reach id)

/-- Works off requests as long as the line holds. -/
def serveAll (id : NodeId) : List ClientRequest → Sim Unit
  | [] => pure ()
  | .shutdown :: _ => modifyClient id fun client => { client with status := .stopped }
  | .send envelope :: rest => do
    match ← node? id with
    | none => pure ()
    | some node =>
      match node.client.status with
      | .connected _ =>
        match ← route envelope with
        | .ok _ => pure ()
        | .error _ =>
          modifyClient id fun client => { client with status := .connecting }
          push (.reach id)
      | _ => pure ()
      serveAll id rest

def serve (id : NodeId) : Sim Unit := do
  match ← node? id with
  | none => pure ()
  | some node =>
    modifyClient id fun client => { client with queue := [] }
    serveAll id node.client.queue

def loseLine (line : Line) : Sim Unit := do
  if ← isCurrent line then
    modifyClient line.node fun client => { client with status := .connecting }
    push (.reach line.node)

def signal (id : NodeId) (target : IdentityKey) (kind : EnvelopeKind) (payload : Json) :
    Sim (Except SignalingError Unit) := do
  match ← node? id with
  | none => return .error .stopped
  | some node =>
    match node.client.status with
    | .failed _ | .stopped => return .error .stopped
    | _ =>
      let capacity := max 1 node.config.signaling.queueCapacity.toNat
      if node.client.queue.length ≥ capacity then return .error .queueFull
      let envelope : Envelope := ⟨node.peer, target, kind, payload⟩
      modifyClient id fun client => { client with queue := client.queue ++ [.send envelope] }
      push (.serve id)
      return .ok ()

/-- Tells peers whether we are there, up to the first envelope which is refused. -/
def announce (id : NodeId) (status : PresenceStatus) :
    List IdentityKey → Sim (Except SignalingError Unit)
  | [] => return .ok ()
  | target :: rest => do
    match ← signal id target .presence (Presence.payloadShape.toJson status) with
    | .ok _ => announce id status rest
    | .error cause => return .error cause

def stopClient (id : NodeId) : Sim Unit := do
  match ← node? id with
  | none => pure ()
  | some node =>
    match node.client.status with
    | .failed _ | .stopped => pure ()
    | _ =>
      modifyClient id fun client => { client with queue := client.queue ++ [.shutdown] }
      push (.serve id)

end Confide.Simulation
