import Confide.Duration
import Confide.Entropy

/-! Delays between attempts. Their bound doubles with every attempt up to a cap, and each delay is
drawn evenly below its bound, so that many who lost the relay do not return at once. -/

set_option autoImplicit false

namespace Confide

structure BackoffConfig where
  base : Duration := .ofSeconds 1
  cap : Duration := .ofSeconds 30
  deriving DecidableEq

instance : Wire BackoffConfig where
  shape := .iso
    (.record false (.field "base" Wire.shape <| .field "cap" Wire.shape .nil))
    (fun (base, cap, _) => ⟨base, cap⟩) (fun c => (c.base, c.cap, ())) fun _ => rfl

structure Backoff (G : Type) where
  config : BackoffConfig
  /-- The delays since the last reset. -/
  attempts : UInt32 := 0
  source : G

namespace Backoff

variable {G : Type} [Entropy G]

/-- The attempts which still double the bound. -/
def maxDoublings : Nat := 31

def ceiling (backoff : Backoff G) : Duration :=
  match backoff.config.base.scale? (1 <<< min backoff.attempts.toNat maxDoublings) with
  | some bound => bound.min backoff.config.cap
  | none => backoff.config.cap

/-- A number from zero to a bound. The high word of a product with a random word is off by one in
rare cases, for which a second word is drawn. -/
def drawUpTo (bound : UInt64) (source : G) : UInt64 × G :=
  let range := bound + 1
  let (word, source) := drawUInt64 source
  if range = 0 then (word, source)
  else
    let product := word.toNat * range.toNat
    let high := product / 0x10000000000000000
    let low := product % 0x10000000000000000
    if 0x10000000000000000 - range.toNat < low then
      let (word, source) := drawUInt64 source
      let carry := (low + word.toNat * range.toNat / 0x10000000000000000) / 0x10000000000000000
      (.ofNat (high + carry), source)
    else (.ofNat high, source)

def saturatingSucc (n : UInt32) : UInt32 := .ofNat (min (n.toNat + 1) 0xffffffff)

/-- The next delay, in whole milliseconds. -/
def next (backoff : Backoff G) : Duration × Backoff G :=
  let (millis, source) := drawUpTo (.ofNat backoff.ceiling.millis) backoff.source
  (.ofMillis millis, { backoff with attempts := saturatingSucc backoff.attempts, source })

def reset (backoff : Backoff G) : Backoff G := { backoff with attempts := 0 }

end Backoff

end Confide
