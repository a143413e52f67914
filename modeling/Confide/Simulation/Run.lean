import Confide.Simulation.Conversations
import Confide.Simulation.Puppets

/-! Runs of a simulation: peers join, what is ready happens, and the time moves on. -/

set_option autoImplicit false

namespace Confide.Simulation

variable (S : Suite)

def takeFrame (id : NodeId) (peer : IdentityKey) (frame : Bytes) : Sim Unit := do
  match ← part? id with
  | some (.messenger _ _) =>
    match ← work id .crypto (Messenger.receive S peer frame) with
    | .ok (some (own, recipients)) => discard (distribute id own recipients .done)
    | _ => pure ()
  | some (.puppet puppet) =>
    let (reading, puppet) := puppet.read S peer (← get).clock frame
    modifyNode id fun node => { node with part := .puppet puppet }
    emit id (.reading peer reading)
  | _ => pure ()

def happen : Happening → Sim Unit
  | .reach node => reach node
  | .serve node => serve node
  | .relayed line envelope => receiveEnvelope line envelope
  | .lineLost line => loseLine line
  | .attempt id input => turn id input
  | .dialled id pair => dialled id pair
  | .answered node peer waiter result => answered S node peer waiter result
  | .frame node peer content => takeFrame S node peer content

/-- Moves to the time of the next timer, unless that is past the limit. All timers of that time go
off together. -/
def moveOn (limit : Option Millis) : Sim Bool := do
  let w ← get
  match w.timers with
  | timer :: _ =>
    if limit.any (· < timer.due) then
      set { w with time := limit.getD w.time }
      return false
    let (due, later) := w.timers.span (·.due ≤ timer.due)
    set { w with time := timer.due, timers := later, ready := due.map Timer.happening }
    return true
  | [] =>
    set { w with time := limit.getD w.time }
    return false

/-- Lets things happen until nothing is ready and the run may stop. The fuel bounds runs in which
something is always ready. -/
def runUntil (stop : World → Bool) (limit : Option Millis) : (fuel : Nat) → Sim Unit
  | 0 => pure ()
  | fuel + 1 => do
    let w ← get
    match w.ready with
    | next :: rest =>
      set { w with ready := rest }
      happen S next
      runUntil stop limit fuel
    | [] =>
      if stop w then return
      if ← moveOn limit then runUntil stop limit fuel

/-- More than any run needs that comes to rest. -/
def patience : Nat := 100000000

def settle : Sim Unit := runUntil S (fun _ => true) none patience

def sleep (duration : Millis) : Sim Unit := do
  let limit := (← get).time + duration
  runUntil S (fun w => limit ≤ w.time && w.timers.all (limit < ·.due)) (some limit) patience

def reply? (task : TaskId) : Sim (Option Reply) := do
  match (← get).tasks[task]? with
  | some (.finished reply) => return some reply
  | _ => return none

def await (task : TaskId) : Sim (Option Reply) := do
  let isDone (w : World) : Bool :=
    match w.tasks[task]? with
    | some (.finished _) => true
    | _ => false
  runUntil S isDone none patience
  reply? task

/-! Peers. -/

def seedStream (seed : UInt8) : KeyStream := { seed := .replicate 32 seed }

def seededIdentity (seed : UInt8) : Identity := (Identity.generate (seedStream seed)).1

def seededPeer (seed : UInt8) : IdentityKey := (seededIdentity seed).key S

def seededKeys (seed : UInt8) (config : KeyStoreConfig) (now : UInt64) : KeyStore KeyStream :=
  .create S (seededIdentity seed) config (seedStream seed) now

/-- A source which no other peer has. -/
def nodeStream (id : NodeId) : KeyStream := { seed := .fit 32 (Bytes.ofNatLE 31 id ++ [1]) }

def addNode (peer : IdentityKey) (config : Config) (interface : Interface) (part : Part)
    (faults : Faults) : Sim NodeId := do
  let id := (← get).nodes.size
  let source := nodeStream id
  let (seed, source) := draw 32 source
  let client : Client := { backoff := { config := config.signaling.backoff, source := { seed } } }
  modify fun w => { w with
    nodes := w.nodes.push { peer, config, interface, client, part, faults, source } }
  push (.reach id)
  return id

/-- Adds a peer which only hears the relay. -/
def addListener (seed : UInt8) (config : Config) (faults : Faults) : Sim NodeId :=
  addNode (seededPeer S seed) config {} .listener faults

/-- Adds a peer which has connections and no conversations. -/
def addConnector (seed : UInt8) (config : Config) (interface : Interface) (faults : Faults) :
    Sim NodeId :=
  addNode (seededPeer S seed) config interface .connector faults

/-- The first two seeds of the sources within a peer. -/
def nodeSeeds (id : NodeId) : Octets 32 × Octets 32 :=
  let (first, source) := draw 32 (nodeStream id)
  (first, (draw 32 source).1)

def addPuppet (seed : UInt8) (config : Config) (interface : Interface) (faults : Faults) :
    Sim NodeId := do
  let w ← get
  let keys := seededKeys S seed config.keyStore w.clock
  let source : KeyStream := { seed := (nodeSeeds w.nodes.size).2 }
  addNode (keys.identity.key S) config interface (.puppet { keys, source }) faults

def newVault (seed : UInt8) (config : KeyStoreConfig) : Sim Nat := do
  let vault : Vault := { keys := some (seededKeys S seed config (← get).clock).snapshot }
  let (handle, vaults) := (← get).vaults.add vault
  modify fun w => { w with vaults }
  return handle

/-- Adds a messenger with the keys from its vault, and publishes its bundle. -/
def addMessenger (handle : Nat) (config : Config) (interface : Interface) (faults : Faults) :
    Sim (Except SendError NodeId) := do
  if StoreOperation.loadKeys ∈ faults.store then
    return .error (.store (StoreOperation.loadKeys.name ++ " failed"))
  let w ← get
  let (keySeed, ownSeed) := nodeSeeds w.nodes.size
  let (identity, fresh) := Identity.generate { seed := keySeed : KeyStream }
  let keys := match ((w.vaults.get? handle).getD {}).keys with
    | some snapshot => KeyStore.restore snapshot config.keyStore fresh
    | none => .create S identity config.keyStore fresh w.clock
  let messenger : Messenger KeyStream := { config, keys, source := { seed := ownSeed } }
  let id ← addNode (keys.identity.key S) config interface (.messenger messenger handle) faults
  match ← work id .crypto (Messenger.refresh S) with
  | .ok _ => return .ok id
  | .error cause =>
    stopManager id
    modifyClient id fun client => { client with status := .stopped }
    return .error cause

def vaultOf? (id : NodeId) : Sim (Option (Nat × Vault)) := do
  match ← part? id with
  | some (.messenger _ handle) => return ((← get).vaults.get? handle).map (handle, ·)
  | _ => return none

/-- The bundle for the keys which a messenger keeps or a puppet has, and how many prekeys for one
use are left. -/
def currentBundle (id : NodeId) : Sim (Option (Except KeyStore.Error Bundle × Nat)) := do
  let now := (← get).clock
  let of (keys : KeyStore KeyStream) := (keys.publish S now, keys.remaining)
  match ← part? id, ← vaultOf? id with
  | some (.puppet puppet), _ => return some (of puppet.keys)
  | some (.messenger messenger _), some (_, vault) =>
    return vault.keys.map fun kept => of (.restore kept messenger.config.keyStore messenger.source)
  | _, _ => return none

def takeEvents (id : NodeId) : Sim (List Event) := do
  let events := ((← node? id).map (·.events)).getD []
  modifyNode id fun node => { node with events := [] }
  return events

end Confide.Simulation
