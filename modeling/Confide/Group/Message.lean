import Confide.Identity
import Confide.Ratchet.Chain

/-! What the members of a group send: their sender chains, to each other member, and messages, which
are sealed once for all members and signed. -/

set_option autoImplicit false

namespace Confide

structure GroupId where
  bytes : Octets 16
  deriving DecidableEq

namespace GroupId

instance : Ord GroupId := ⟨compareOn (·.bytes)⟩

instance : Std.TransOrd GroupId := inferInstanceAs (Std.TransCmp (compareOn _))

instance : Wire GroupId := ⟨.iso (.octets 16) .mk (·.bytes) fun _ => rfl⟩

def random {G : Type} [Entropy G] (source : G) : GroupId × G :=
  let (bytes, source) := draw 16 source
  (⟨bytes⟩, source)

def toHex (id : GroupId) : String := Hex.encode id.bytes.toList

def display (id : GroupId) : String := "GroupId(" ++ id.toHex ++ ")"

end GroupId

/-- The chain of one member in one epoch, from some message on. -/
structure Distribution where
  groupId : GroupId
  epoch : UInt64
  sender : IdentityKey
  members : List IdentityKey
  chainKey : Octets 32
  counter : UInt64
  verifyingKey : VerifyingKey
  deriving DecidableEq

instance : Wire Distribution where
  shape := .iso
    (.record false (.field "group_id" Wire.shape <| .field "epoch" .uint64 <|
      .field "sender" Wire.shape <| .field "members" (.list Wire.shape) <|
      .field "chain_key" (.octets 32) <| .field "counter" .uint64 <|
      .field "verifying_key" Wire.shape .nil))
    (fun (groupId, epoch, sender, members, chainKey, counter, verifyingKey, _) =>
      ⟨groupId, epoch, sender, members, chainKey, counter, verifyingKey⟩)
    (fun d =>
      (d.groupId, d.epoch, d.sender, d.members, d.chainKey, d.counter, d.verifyingKey, ()))
    fun _ => rfl

/-- The place of a message: nothing else is sealed or signed under it. -/
structure GroupPosition where
  groupId : GroupId
  epoch : UInt64
  sender : IdentityKey
  counter : UInt64
  deriving DecidableEq

namespace GroupPosition

/-- What a ciphertext is bound to besides its key. -/
def toBytes (position : GroupPosition) : Bytes :=
  position.groupId.bytes.toList ++ Bytes.ofUInt64 position.epoch ++
    position.sender.toOctets.toList ++ Bytes.ofUInt64 position.counter

/-- Signatures of messages start with this text, so that they serve no other purpose. -/
def signatureContext : Bytes := "murmur-group-message-v1".toUTF8.toList

def signedBytes (position : GroupPosition) (ciphertext : Bytes) : Bytes :=
  signatureContext ++ position.toBytes ++ ciphertext

end GroupPosition

structure GroupMessage where
  groupId : GroupId
  epoch : UInt64
  sender : IdentityKey
  counter : UInt64
  ciphertext : Bytes
  signature : Signature
  deriving DecidableEq

namespace GroupMessage

instance : Wire GroupMessage where
  shape := .iso
    (.record false (.field "group_id" Wire.shape <| .field "epoch" .uint64 <|
      .field "sender" Wire.shape <| .field "counter" .uint64 <| .field "ciphertext" .blob <|
      .field "signature" Wire.shape .nil))
    (fun (groupId, epoch, sender, counter, ciphertext, signature, _) =>
      ⟨groupId, epoch, sender, counter, ciphertext, signature⟩)
    (fun m => (m.groupId, m.epoch, m.sender, m.counter, m.ciphertext, m.signature, ()))
    fun _ => rfl

def position (message : GroupMessage) : GroupPosition :=
  ⟨message.groupId, message.epoch, message.sender, message.counter⟩

end GroupMessage

end Confide
