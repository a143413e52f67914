import Confide.Digest.Sha256

/-! Key derivation by extraction and expansion, keyed with SHA-256 in the HMAC construction. -/

set_option autoImplicit false

namespace Confide.Hkdf

/-- The keyed digest; a key longer than one block is digested first. -/
def hmac (key message : Bytes) : Octets 32 :=
  let short := if key.length > 64 then (Sha256.digest key).toList else key
  let block := (Octets.fit 64 short).toList
  let inner := Sha256.digest (block.map (· ^^^ 0x36) ++ message)
  Sha256.digest (block.map (· ^^^ 0x5c) ++ inner.toList)

/-- An absent salt counts as a block of zeros, to which the keyed digest pads the empty salt. -/
def extract (salt material : Bytes) : Octets 32 := hmac salt material

/-- `count` more blocks of output after the block `last`, numbered from `index`. -/
def expandFrom (key info : Bytes) : (count : Nat) → (index : UInt8) → (last : Bytes) → Bytes
  | 0, _, _ => []
  | count + 1, index, last =>
    let block := (hmac key (last ++ info ++ [index])).toList
    block ++ expandFrom key info count (index + 1) block

def expand (key info : Bytes) (n : Nat) : Octets n :=
  .fit n (expandFrom key info ((n + 31) / 32) 1 [])

def derive (salt material info : Bytes) (n : Nat) : Octets n :=
  expand (extract salt material).toList info n

/-- The block index is one byte, so no more than 255 blocks can be asked for. -/
def maxLength : Nat := 255 * 32

inductive Error where
  | invalidLength (length : Nat)
  deriving DecidableEq, Repr

def Error.message : Error → String
  | .invalidLength length =>
    "requested " ++ toString length ++
      " bytes of key material which is too large for hkdf-sha256"

def derive? (salt material info : Bytes) (n : Nat) : Except Error (Octets n) :=
  if n ≤ maxLength then .ok (derive salt material info n) else .error (.invalidLength n)

end Confide.Hkdf
