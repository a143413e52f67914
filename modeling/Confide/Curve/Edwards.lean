import Confide.Curve.Montgomery
import Confide.Digest.Sha512

/-! Signatures on the twisted Edwards form of the curve. -/

set_option autoImplicit false

namespace Confide.Edwards

open Curve

/-- A point in extended coordinates: `x = X / Z`, `y = Y / Z` and `X * Y = Z * T`. -/
structure Point where
  (X Y Z T : Element)

def d : Element := -121665 * Element.inverse 121666

def twoD : Element := d + d

namespace Point

def zero : Point := ⟨0, 1, 1, 0⟩

def add (p q : Point) : Point :=
  let a := (p.Y - p.X) * (q.Y - q.X)
  let b := (p.Y + p.X) * (q.Y + q.X)
  let c := p.T * twoD * q.T
  let e := b - a
  let z := p.Z * q.Z
  let z := z + z
  let f := z - c
  let g := z + c
  let h := b + a
  ⟨e * f, g * h, f * g, e * h⟩

def double (p : Point) : Point :=
  let a := p.X * p.X
  let b := p.Y * p.Y
  let z := p.Z * p.Z
  let h := a + b
  let s := p.X + p.Y
  let e := h - s * s
  let g := a - b
  let f := z + z + g
  ⟨e * f, g * h, f * g, e * h⟩

def neg (p : Point) : Point := ⟨-p.X, p.Y, p.Z, -p.T⟩

/-- Reads the scalar from bit `bits - 1` down to bit zero. -/
def multiplyFrom (p : Point) (scalar : Nat) : (bits : Nat) → Point → Point
  | 0, sum => sum
  | bits + 1, sum =>
    let sum := sum.double
    multiplyFrom p scalar bits (if scalar.testBit bits then sum.add p else sum)

def multiply (scalar : Nat) (p : Point) : Point := multiplyFrom p scalar 256 zero

def isZero (p : Point) : Bool := p.X = 0 ∧ p.Y = p.Z

/-- Whether eight times the point is zero. -/
def isSmallOrder (p : Point) : Bool := p.double.double.double.isZero

/-- The y-coordinate, with the parity of the x-coordinate in the highest bit. -/
def toOctets (p : Point) : Octets 32 :=
  let inverse := p.Z.inverse
  let x := p.X * inverse
  let y := p.Y * inverse
  ⟨Bytes.ofNatLE 32 (y.val + (x.val % 2) <<< 255), Bytes.length_ofNatLE _ _⟩

/-- The point with the given y-coordinate and parity; the y-coordinate need not be reduced, and
either parity is taken for a zero x-coordinate. -/
def ofOctets? (octets : Octets 32) : Option Point :=
  let y := Element.ofOctets octets
  let odd := Bytes.natLE octets.toList ≥ 1 <<< 255
  let square := y * y
  match Element.rootOfQuotient? (square - 1) (d * square + 1) with
  | none => none
  | some root =>
    let x := if odd then -root else root
    some ⟨x, y, 1, x * y⟩

/-- The base point, with even x-coordinate and y-coordinate 4/5. -/
def base : Point :=
  let y := 4 * Element.inverse 5
  (ofOctets? y.toOctets).getD zero

def doublings (p : Point) : (n : Nat) → List Point
  | 0 => []
  | n + 1 => p :: doublings p.double n

/-- Adds those points whose bit in the scalar is set; the first has bit zero. -/
def addChosen : List Point → (scalar : Nat) → Point → Point
  | [], _, sum => sum
  | p :: rest, scalar, sum =>
    addChosen rest (scalar / 2) (if scalar % 2 = 1 then sum.add p else sum)

def baseDoublings : List Point := base.doublings 256

/-- A multiple of the base point by a scalar below `2 ^ 256`. -/
def multiplyBase (scalar : Nat) : Point := addChosen baseDoublings scalar zero

end Point

def order : Nat := 1 <<< 252 + 27742317777372353535851937790883648493

def scalarOf (parts : Bytes) : Nat := Bytes.natLE (Sha512.digest parts).toList % order

def secretScalar (secret : Octets 32) : Nat :=
  Montgomery.clamp (.fit 32 (Sha512.digest secret.toList).toList)

def publicKey (secret : Octets 32) : Octets 32 :=
  (Point.multiplyBase (secretScalar secret)).toOctets

/-- The nonce is the digest of the second half of the expanded secret and the message. -/
def sign (secret : Octets 32) (message : Bytes) : Octets 64 :=
  let hidden := (Sha512.digest secret.toList).toList.drop 32
  let nonce := scalarOf (hidden ++ message)
  let commitment := (Point.multiplyBase nonce).toOctets
  let challenge := scalarOf (commitment.toList ++ (publicKey secret).toList ++ message)
  let response := (nonce + challenge * secretScalar secret) % order
  commitment.append ⟨Bytes.ofNatLE 32 response, Bytes.length_ofNatLE _ _⟩

inductive Error where
  | invalidKey
  | verificationFailed
  deriving DecidableEq, Repr

def Error.message : Error → String
  | .invalidKey => "invalid ed25519 public key"
  | .verificationFailed => "signature does not match public key and bytes"

/-- The strict check: a reduced response, no point of small order, and a commitment which is
byte for byte the one computed from key, message and response. -/
def isSignature (key : Octets 32) (point : Point) (message : Bytes)
    (signature : Octets 64) : Bool :=
  let commitment := Octets.left 32 32 signature
  let response := Bytes.natLE (Octets.right 32 32 signature).toList
  let challenge := scalarOf (commitment.toList ++ key.toList ++ message)
  match Point.ofOctets? commitment with
  | none => false
  | some r =>
    response < order && !r.isSmallOrder && !point.isSmallOrder &&
      ((Point.multiplyBase response).add (Point.multiply challenge point.neg)).toOctets
        == commitment

def verify (key : Octets 32) (message : Bytes) (signature : Octets 64) : Except Error Unit :=
  match Point.ofOctets? key with
  | none => .error .invalidKey
  | some point =>
    if isSignature key point message signature then .ok () else .error .verificationFailed

end Confide.Edwards
