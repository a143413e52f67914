/-! The shortest decimal which reads back as a given binary number. -/

set_option autoImplicit false

namespace Confide.Decimal

/-- The number `digits * 10 ^ exponent`. -/
structure Scaled where
  digits : Nat
  exponent : Int
  deriving DecidableEq, Repr

/-- A positive number as a quotient, with the bounds of the numbers which round to it over the
same denominator; the bounds belong to them if `closed`. -/
structure Rounded where
  (value low high denominator : Nat)
  closed : Bool

def Rounded.contains (r : Rounded) (numerator denominator : Nat) : Bool :=
  let scaled := numerator * r.denominator
  let low := r.low * denominator
  let high := r.high * denominator
  if r.closed then low ≤ scaled && scaled ≤ high else low < scaled && scaled < high

/-- The numbers which round to `significand * 2 ^ exponent`; the gap below a power of two is half
as wide as the one above it. -/
def Rounded.of (significand : Nat) (exponent : Int) (narrow : Bool) : Rounded :=
  let below := if narrow then 1 else 2
  let up := exponent.toNat
  let down := (-exponent).toNat
  { value := (4 * significand) <<< up
    low := (4 * significand - below) <<< up
    high := (4 * significand + 2) <<< up
    denominator := 4 <<< down
    closed := significand % 2 = 0 }

/-- The greatest `e` up to `e + steps` with `10 ^ e` not above the number, from an `e` which has
it. -/
def climb (numerator denominator : Nat) : (steps : Nat) → Int → Int
  | 0, e => e
  | steps + 1, e =>
    let next := e + 1
    if Nat.pow 10 next.toNat * denominator ≤ numerator * Nat.pow 10 (-next).toNat then
      climb numerator denominator steps next
    else e

def magnitude (numerator denominator : Nat) : Int :=
  let guess : Int := ((numerator.log2 : Int) - denominator.log2) * 30103 / 100000 - 2
  climb numerator denominator 6 guess

/-- The neighbour on the grid of `10 ^ exponent` which rounds to the number, the nearer of two. -/
def onGrid? (r : Rounded) (exponent : Int) : Option Nat :=
  let numerator := r.value * Nat.pow 10 (-exponent).toNat
  let denominator := r.denominator * Nat.pow 10 exponent.toNat
  let floor := numerator / denominator
  let fits (digits : Nat) :=
    r.contains (digits * Nat.pow 10 exponent.toNat) (Nat.pow 10 (-exponent).toNat)
  let nearUp := 2 * (numerator % denominator) > denominator ∨
    2 * (numerator % denominator) = denominator ∧ floor % 2 = 1
  match fits floor, fits (floor + 1) with
  | true, true => some (if nearUp then floor + 1 else floor)
  | true, false => some floor
  | false, true => some (floor + 1)
  | false, false => none

def searchFrom (r : Rounded) (top : Int) : (fuel : Nat) → Int → Scaled
  | 0, count => ⟨r.value / r.denominator, top - count⟩
  | fuel + 1, count =>
    match onGrid? r (top - count) with
    | some digits => ⟨digits, top - count⟩
    | none => searchFrom r top fuel (count + 1)

def trim : (fuel : Nat) → Scaled → Scaled
  | 0, s => s
  | fuel + 1, s =>
    if s.digits % 10 = 0 ∧ s.digits ≠ 0 then trim fuel ⟨s.digits / 10, s.exponent + 1⟩ else s

/-- The first grid with a hit decides: one digit, two digits, and so on. -/
def shortest (r : Rounded) : Scaled :=
  trim 20 (searchFrom r (magnitude r.value r.denominator) 20 0)

end Confide.Decimal
