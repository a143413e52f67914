import Confide.Cipher.ChaCha
import Confide.Entropy

/-! The key stream of a seed as a source of random bytes. -/

set_option autoImplicit false

namespace Confide

/-- Each draw takes whole 32-bit words of the stream; the unused bytes of its last word are lost. -/
structure KeyStream where
  seed : Octets 32
  usedWords : Nat := 0
  deriving DecidableEq

namespace KeyStream

/-- The block at a position which is counted in 64 bits. -/
def block (seed : Octets 32) (index : Nat) : Bytes :=
  (ChaCha.block seed (.fit 16 (Bytes.ofNatLE 8 index))).toList

def words (seed : Octets 32) (skipped count : Nat) : Bytes :=
  let first := skipped / 16
  let blocks := (skipped % 16 + count + 15) / 16
  ((List.range' first blocks).flatMap (block seed)).drop (4 * (skipped % 16))

def draw (n : Nat) (stream : KeyStream) : Octets n × KeyStream :=
  let count := (n + 3) / 4
  (.fit n (words stream.seed stream.usedWords count),
    { stream with usedWords := stream.usedWords + count })

instance : Entropy KeyStream := ⟨draw⟩

end KeyStream

end Confide
