import Confide.Bytes

/-! Sources of random bytes. A source is a value: each draw returns the bytes and what is left of
the source, so a run is determined by the source it starts with. -/

set_option autoImplicit false

namespace Confide

class Entropy (G : Type) where
  draw : (n : Nat) → G → Octets n × G

export Entropy (draw)

def drawUInt64 {G : Type} [Entropy G] (source : G) : UInt64 × G :=
  let (octets, source) := draw 8 source
  (.ofNat (Bytes.natLE octets.toList), source)

end Confide
