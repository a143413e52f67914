import Confide.Wire.Shape

/-! Spans of time in whole nanoseconds, below 2^64 seconds. -/

set_option autoImplicit false

namespace Confide

structure Duration where
  nanos : Nat
  nanos_lt : nanos < 0x10000000000000000 * 1000000000
  deriving DecidableEq

namespace Duration

def ofNanos? (nanos : Nat) : Option Duration :=
  if h : nanos < 0x10000000000000000 * 1000000000 then some ⟨nanos, h⟩ else none

def ofMillis (millis : UInt64) : Duration :=
  ⟨millis.toNat * 1000000, by have := millis.toNat_lt; omega⟩

def ofSeconds (seconds : UInt64) : Duration :=
  ⟨seconds.toNat * 1000000000, by have := seconds.toNat_lt; omega⟩

def seconds (d : Duration) : UInt64 := .ofNat (d.nanos / 1000000000)

def subsecond (d : Duration) : UInt32 := .ofNat (d.nanos % 1000000000)

def millis (d : Duration) : Nat := d.nanos / 1000000

/-- The milliseconds, with a part of one counted as a whole. -/
def ceilMillis (d : Duration) : Nat := (d.nanos + 999999) / 1000000

def min (first second : Duration) : Duration := if first.nanos ≤ second.nanos then first else second

def scale? (d : Duration) (factor : Nat) : Option Duration := ofNanos? (d.nanos * factor)

/-- Whole seconds and a number of nanoseconds which may be more than a second. -/
def ofParts? (seconds : UInt64) (nanos : UInt32) : Option Duration :=
  ofNanos? (seconds.toNat * 1000000000 + nanos.toNat)

theorem ofParts?_parts (d : Duration) : ofParts? d.seconds d.subsecond = some d := by
  have bound := d.nanos_lt
  have whole : d.seconds.toNat = d.nanos / 1000000000 := by
    simp only [seconds, UInt64.toNat_ofNat']
    omega
  have part : d.subsecond.toNat = d.nanos % 1000000000 := by
    simp only [subsecond, UInt32.toNat_ofNat']
    omega
  have sum : d.seconds.toNat * 1000000000 + d.subsecond.toNat = d.nanos := by
    rw [whole, part]; omega
  rw [ofParts?, sum, ofNanos?, dif_pos bound]

instance : Wire Duration where
  shape := .convert
    (.record true (.field "secs" .uint64 <| .field "nanos" .uint32 .nil))
    (fun (seconds, nanos, _) => ofParts? seconds nanos)
    (fun d => (d.seconds, d.subsecond, ()))
    ofParts?_parts

end Duration

end Confide
