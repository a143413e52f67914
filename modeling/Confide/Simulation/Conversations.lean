import Confide.Simulation.Connections

/-! What messengers say to each other over their connections. -/

set_option autoImplicit false

namespace Confide.Simulation

variable (S : Suite)

/-- Lets the messenger of a peer work, with its vault and the directory. -/
def work {ε α : Type} (id : NodeId) (missing : ε) (task : Messenger.Work KeyStream ε α) :
    Sim (Except ε α) := do
  let w ← get
  match ← node? id with
  | none => return .error missing
  | some node =>
    match node.part with
    | .messenger messenger handle =>
      let desk : Desk KeyStream :=
        { messenger
          vault := (w.vaults.get? handle).getD {}
          directory := w.directory
          now := w.clock
          storeFails := (· ∈ node.faults.store)
          directoryFails := (· ∈ w.directoryFaults) }
      let (result, desk) := task.run desk
      modify fun w => { w with
        vaults := w.vaults.modify handle fun _ => desk.vault, directory := desk.directory }
      modifyNode id fun node => { node with
        part := .messenger desk.messenger handle
        events := node.events ++ desk.events.map Event.session }
      return result
    | _ => return .error missing

def deliver (id : NodeId) (peer : IdentityKey) (result : Except ConnectionError AttemptId)
    (sealed : Messenger.Work KeyStream SendError Bytes) : Sim (Except SendError Unit) := do
  match result with
  | .error cause => return .error (.ofConnection peer cause)
  | .ok attempt =>
    match ← work id .crypto sealed with
    | .error cause => return .error cause
    | .ok frame => return (← sendOver attempt frame).mapError (.ofConnection peer)

def answered (id : NodeId) (peer : IdentityKey) (waiter : Waiter)
    (result : Except ConnectionError AttemptId) : Sim Unit := do
  match waiter with
  | .caller task =>
    match result with
    | .ok attempt => finishTask task (.channel attempt (← isClosed attempt))
    | .error cause => finishTask task (.notConnected cause)
  | .message task payload =>
    let delivered ← deliver id peer result (Messenger.sealFor S peer payload)
    modifyTask task (·.deliver peer delivered)
  | .copy task counter frame =>
    let delivered ← deliver id peer result (do
      Messenger.record peer .outbound counter frame
      return frame)
    modifyTask task (·.deliver peer delivered)

def distribute (id : NodeId) (own : Distribution) (recipients : List IdentityKey) (reply : Reply) :
    Sim TaskId := do
  let task ← newTask (.start recipients.length reply)
  recipients.forM fun peer => connect id peer (.message task (.senderKey own))
  return task

def send (id : NodeId) (peer : IdentityKey) (content : Bytes) : Sim TaskId := do
  let task ← newTask .waiting
  connect id peer (.message task (.application content))
  return task

def refuse (cause : SendError) : Sim TaskId := newTask (.finished (.notSent cause))

def createGroup (id : NodeId) (members : List IdentityKey) :
    Sim (Except SendError (GroupId × TaskId)) := do
  match ← work id .crypto (Messenger.createGroup S members) with
  | .error cause => return .error cause
  | .ok (group, own) => return .ok (group.id, ← distribute id own group.recipients .done)

def updateGroup (id : NodeId) (group : GroupId) (members : List IdentityKey) : Sim TaskId := do
  match ← work id .crypto (Messenger.updateGroup S group members) with
  | .error cause => refuse cause
  | .ok (group, own) => distribute id own group.recipients (.epoch group.epoch)

def sendGroup (id : NodeId) (group : GroupId) (content : Bytes) : Sim TaskId := do
  match ← work id .crypto (Messenger.sealForGroup S group content) with
  | .error cause => refuse cause
  | .ok (group, counter, frame) =>
    let task ← newTask (.start group.recipients.length .done)
    group.recipients.forM fun peer => connect id peer (.copy task counter frame)
    return task

end Confide.Simulation
