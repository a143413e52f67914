import Confide.Bytes.Hex
import Confide.Digest.Sha256
import Confide.Wire.Shape

/-! What a peer keeps: its sessions, its groups, its keys, and a log of messages which tells them
apart by their ciphertexts. -/

set_option autoImplicit false

namespace Confide

inductive Direction where
  | inbound
  | outbound
  deriving DecidableEq, Repr

instance : Wire Direction where
  shape := .iso (.choice (.plain "Inbound" <| .plain "Outbound" .nil))
    (fun
      | .inl _ => .inbound
      | .inr (.inl _) => .outbound)
    (fun
      | .inbound => .inl ()
      | .outbound => .inr (.inl ()))
    fun direction => by cases direction <;> rfl

structure CiphertextRef where
  bytes : Octets 32
  deriving DecidableEq

namespace CiphertextRef

instance : Wire CiphertextRef := ⟨.iso (.octets 32) .mk (·.bytes) fun _ => rfl⟩

def ofCiphertext (ciphertext : Bytes) : CiphertextRef := ⟨Sha256.digest ciphertext⟩

def toHex (ref : CiphertextRef) : String := Hex.encode ref.bytes.toList

def display (ref : CiphertextRef) : String := "CiphertextRef(" ++ ref.toHex ++ ")"

end CiphertextRef

structure MessageRecord (ι : Type) where
  /-- With whom the message was exchanged. -/
  id : ι
  direction : Direction
  counter : UInt64
  ciphertext : CiphertextRef
  deriving DecidableEq

instance {ι : Type} [Wire ι] : Wire (MessageRecord ι) where
  shape := .iso
    (.record false (.field "id" Wire.shape <| .field "direction" Wire.shape <|
      .field "counter" .uint64 <| .field "ciphertext_ref" Wire.shape .nil))
    (fun (id, direction, counter, ciphertext, _) => ⟨id, direction, counter, ciphertext⟩)
    (fun r => (r.id, r.direction, r.counter, r.ciphertext, ())) fun _ => rfl

/-- Sessions are kept by the peers `ι`, groups by their ids `γ`. -/
structure Archive (ι σ κ γ τ : Type) [Ord ι] [Std.TransOrd ι] [Ord γ] [Std.TransOrd γ] where
  sessions : SortedMap ι σ := .empty
  keys : Option κ := none
  groups : SortedMap γ τ := .empty
  /-- The oldest record comes first. -/
  log : List (MessageRecord ι) := []

namespace Archive

variable {ι σ κ γ τ : Type} [Ord ι] [Std.TransOrd ι] [Ord γ] [Std.TransOrd γ]

def session? (a : Archive ι σ κ γ τ) (id : ι) : Option σ := a.sessions.get? id

def saveSession (a : Archive ι σ κ γ τ) (id : ι) (session : σ) : Archive ι σ κ γ τ :=
  { a with sessions := a.sessions.insert id session }

def group? (a : Archive ι σ κ γ τ) (id : γ) : Option τ := a.groups.get? id

def saveGroup (a : Archive ι σ κ γ τ) (id : γ) (group : τ) : Archive ι σ κ γ τ :=
  { a with groups := a.groups.insert id group }

def saveKeys (a : Archive ι σ κ γ τ) (keys : κ) : Archive ι σ κ γ τ := { a with keys := some keys }

def append (a : Archive ι σ κ γ τ) (record : MessageRecord ι) : Archive ι σ κ γ τ :=
  { a with log := a.log ++ [record] }

def messages [DecidableEq ι] (a : Archive ι σ κ γ τ) (id : ι) : List (MessageRecord ι) :=
  a.log.filter (·.id = id)

end Archive

/-- Archives and the handles by which they are used; several handles may share an archive. -/
structure Shelf (α : Type) where
  archives : List α := []
  /-- The position of the archive of each handle. -/
  handles : List Nat := []

namespace Shelf

variable {α : Type}

def add (shelf : Shelf α) (archive : α) : Nat × Shelf α :=
  (shelf.handles.length,
    { archives := shelf.archives ++ [archive]
      handles := shelf.handles ++ [shelf.archives.length] })

/-- A further handle for the archive of a handle. -/
def share (shelf : Shelf α) (handle : Nat) : Nat × Shelf α :=
  (shelf.handles.length,
    { shelf with handles := shelf.handles ++ (shelf.handles[handle]?).toList })

def get? (shelf : Shelf α) (handle : Nat) : Option α := do shelf.archives[← shelf.handles[handle]?]?

def modify (shelf : Shelf α) (handle : Nat) (change : α → α) : Shelf α :=
  match shelf.handles[handle]? with
  | none => shelf
  | some position => { shelf with archives := shelf.archives.modify position change }

end Shelf

end Confide
