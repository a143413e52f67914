import Confide.Ratchet.Chain

/-! Keys of messages which have not arrived yet, in the order in which they were passed over. -/

set_option autoImplicit false

namespace Confide

structure SkippedKey where
  ratchetKey : PublicKey
  counter : UInt64
  messageKey : SealingKey
  deriving DecidableEq

instance : Wire SkippedKey where
  shape := .iso
    (.record false (.field "ratchet_key" Wire.shape <| .field "counter" .uint64 <|
      .field "message_key" Wire.shape .nil))
    (fun (ratchetKey, counter, messageKey, _) => ⟨ratchetKey, counter, messageKey⟩)
    (fun s => (s.ratchetKey, s.counter, s.messageKey, ())) fun _ => rfl

/-- The oldest key comes first. -/
structure KeyCache where
  keys : List SkippedKey := []
  deriving DecidableEq

namespace KeyCache

instance : Wire KeyCache where
  shape := .iso (.list Wire.shape) .mk (·.keys) fun _ => rfl

def size (cache : KeyCache) : Nat := cache.keys.length

/-- Adds a key and drops the oldest ones beyond the capacity. -/
def insert (cache : KeyCache) (key : SkippedKey) (capacity : Nat) : KeyCache :=
  let keys := cache.keys ++ [key]
  ⟨keys.drop (keys.length - capacity)⟩

def isFor (ratchetKey : PublicKey) (counter : UInt64) (key : SkippedKey) : Bool :=
  key.ratchetKey = ratchetKey ∧ key.counter = counter

def find? (cache : KeyCache) (ratchetKey : PublicKey) (counter : UInt64) : Option SealingKey :=
  (cache.keys.find? (isFor ratchetKey counter)).map (·.messageKey)

def remove (cache : KeyCache) (ratchetKey : PublicKey) (counter : UInt64) : KeyCache :=
  ⟨cache.keys.eraseP (isFor ratchetKey counter)⟩

end KeyCache

end Confide
