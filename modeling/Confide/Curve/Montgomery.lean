import Confide.Curve.Field

/-! Key agreement on the Montgomery form of the curve, with coordinates of the u-line only. -/

set_option autoImplicit false

namespace Confide.Montgomery

open Curve

/-- The scalar of a secret: a multiple of eight with its highest bit at position 254. -/
def clamp (secret : Octets 32) : Nat :=
  let value := Bytes.natLE secret.toList % (1 <<< 255)
  1 <<< 254 + (value % (1 <<< 254) - value % 8)

structure Ladder where
  (x₂ z₂ x₃ z₃ : Element)

def Ladder.step (u : Element) (l : Ladder) : Ladder :=
  let a := l.x₂ + l.z₂
  let aa := a * a
  let b := l.x₂ - l.z₂
  let bb := b * b
  let e := aa - bb
  let da := (l.x₃ - l.z₃) * a
  let cb := (l.x₃ + l.z₃) * b
  let sum := da + cb
  let difference := da - cb
  ⟨aa * bb, e * (aa + 121665 * e), sum * sum, u * (difference * difference)⟩

def Ladder.swap (l : Ladder) : Ladder := ⟨l.x₃, l.z₃, l.x₂, l.z₂⟩

/-- Reads the scalar from bit `bits - 1` down to bit zero. -/
def Ladder.run (u : Element) (scalar : Nat) : (bits : Nat) → Ladder → Ladder
  | 0, l => l
  | bits + 1, l =>
    if scalar.testBit bits then run u scalar bits (l.swap.step u).swap
    else run u scalar bits (l.step u)

/-- The u-coordinate of a multiple; the point at infinity has coordinate zero. -/
def multiply (scalar : Nat) (u : Element) : Element :=
  let l := Ladder.run u scalar 255 ⟨1, 0, u, 1⟩
  l.x₂ * l.z₂.inverse

def agreement (secret theirs : Octets 32) : Octets 32 :=
  (multiply (clamp secret) (.ofOctets theirs)).toOctets

def publicKey (secret : Octets 32) : Octets 32 := (multiply (clamp secret) 9).toOctets

end Confide.Montgomery
