import Confide.Suite

/-! A chain of message keys. Each step derives the key of one message and the next chain key, and
neither tells anything about earlier ones. -/

set_option autoImplicit false

namespace Confide

/-- A number can be counted on, because it is not the last one. The program stops rather than count
on from there. -/
abbrev HasNext (number : UInt64) : Prop := number.toNat < 0xffffffffffffffff

structure Chain where
  key : Octets 32
  /-- The number of the next message. -/
  counter : UInt64
  deriving DecidableEq

namespace Chain

instance : Wire Chain where
  shape := .iso
    (.record false (.field "chain_key" (.octets 32) <| .field "counter" .uint64 .nil))
    (fun (key, counter, _) => ⟨key, counter⟩) (fun c => (c.key, c.counter, ())) fun _ => rfl

def start (key : Octets 32) : Chain := ⟨key, 0⟩

def messageInfo : Bytes := "message".toUTF8.toList
def chainInfo : Bytes := "chain".toUTF8.toList

variable (S : Suite)

def messageKey (chain : Chain) : SealingKey :=
  let material := S.derive [] chain.key.toList messageInfo 56
  ⟨.left 32 24 material, .right 32 24 material⟩

/-- The chain after the next message. Whoever moves a chain on has looked up that the number of the
message `HasNext`, or goes on to a later message, so that the addition never overflows. -/
def next (chain : Chain) : Chain :=
  ⟨S.derive [] chain.key.toList chainInfo 32, chain.counter + 1⟩

def after (chain : Chain) : (n : Nat) → Chain
  | 0 => chain
  | n + 1 => after (chain.next S) n

def keys (chain : Chain) : (n : Nat) → List (UInt64 × SealingKey)
  | 0 => []
  | n + 1 => (chain.counter, chain.messageKey S) :: keys (chain.next S) n

end Chain

end Confide
