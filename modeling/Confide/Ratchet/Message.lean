import Confide.Handshake

/-! Messages of a session: a header in the clear, bound to the ciphertext, and the handshake for as
long as the peer has not answered it. -/

set_option autoImplicit false

namespace Confide

structure MessageHeader where
  ratchetKey : PublicKey
  /-- The number of messages sent under the ratchet key before this one. -/
  previousLength : UInt64
  counter : UInt64
  deriving DecidableEq

namespace MessageHeader

instance : Wire MessageHeader where
  shape := .iso
    (.record false (.field "ratchet_key" Wire.shape <|
      .field "previous_chain_length" .uint64 <| .field "counter" .uint64 .nil))
    (fun (ratchetKey, previous, counter, _) => ⟨ratchetKey, previous, counter⟩)
    (fun h => (h.ratchetKey, h.previousLength, h.counter, ())) fun _ => rfl

def toBytes (header : MessageHeader) : Bytes :=
  header.ratchetKey.bytes.toList ++ Bytes.ofUInt64 header.previousLength ++
    Bytes.ofUInt64 header.counter

def authenticated (associatedData : Bytes) (header : MessageHeader) : Bytes :=
  associatedData ++ header.toBytes

end MessageHeader

structure RatchetMessage where
  header : MessageHeader
  handshake : Option HandshakeHeader
  ciphertext : Bytes
  deriving DecidableEq

instance : Wire RatchetMessage where
  shape := .iso
    (.record false (.field "header" Wire.shape <| .field "handshake" (.option Wire.shape) <|
      .field "ciphertext" .blob .nil))
    (fun (header, handshake, ciphertext, _) => ⟨header, handshake, ciphertext⟩)
    (fun m => (m.header, m.handshake, m.ciphertext, ())) fun _ => rfl

end Confide
