/-! Byte strings, byte strings of a known length, and the two byte orders of machine words. -/

set_option autoImplicit false

namespace Confide

abbrev Bytes := List UInt8

/-- A byte string whose length is part of its type. -/
structure Octets (n : Nat) where
  toList : Bytes
  length_toList : toList.length = n
  deriving DecidableEq

namespace Octets

theorem ext {n : Nat} {first second : Octets n} (same : first.toList = second.toList) :
    first = second := by
  cases first; cases second; cases same; rfl

def ofList? (n : Nat) (bytes : Bytes) : Option (Octets n) :=
  if h : bytes.length = n then some ⟨bytes, h⟩ else none

@[simp] theorem ofList?_toList {n : Nat} (octets : Octets n) :
    ofList? n octets.toList = some octets := by
  simp [ofList?, octets.length_toList]

def replicate (n : Nat) (byte : UInt8) : Octets n :=
  ⟨List.replicate n byte, List.length_replicate⟩

/-- The first `n` bytes, with zeros for the missing ones. -/
def fit (n : Nat) (bytes : Bytes) : Octets n :=
  ⟨(bytes ++ List.replicate n 0).take n, by simp⟩

def append {m n : Nat} (first : Octets m) (second : Octets n) : Octets (m + n) :=
  ⟨first.toList ++ second.toList, by simp [first.length_toList, second.length_toList]⟩

def left (m n : Nat) (octets : Octets (m + n)) : Octets m :=
  ⟨octets.toList.take m, by simp [octets.length_toList]⟩

def right (m n : Nat) (octets : Octets (m + n)) : Octets n :=
  ⟨octets.toList.drop m, by simp [octets.length_toList]⟩

@[simp] theorem left_append {m n : Nat} (first : Octets m) (second : Octets n) :
    left m n (first.append second) = first := by
  apply ext
  simp [append, left, ← first.length_toList]

@[simp] theorem right_append {m n : Nat} (first : Octets m) (second : Octets n) :
    right m n (first.append second) = second := by
  apply ext
  simp [append, right, ← first.length_toList]

end Octets

namespace Bytes

/-- The number whose digits in base 256 are the bytes, least significant byte first. -/
def natLE : Bytes → Nat
  | [] => 0
  | byte :: rest => byte.toNat + 256 * natLE rest

/-- The `n` lowest digits of a number in base 256, least significant byte first. -/
def ofNatLE : (n : Nat) → Nat → Bytes
  | 0, _ => []
  | n + 1, value => UInt8.ofNat value :: ofNatLE n (value / 256)

def natBE (bytes : Bytes) : Nat := natLE bytes.reverse

def ofNatBE (n value : Nat) : Bytes := (ofNatLE n value).reverse

@[simp] theorem length_ofNatLE (n value : Nat) : (ofNatLE n value).length = n := by
  induction n generalizing value with
  | zero => rfl
  | succ n ih => simp [ofNatLE, ih]

@[simp] theorem length_ofNatBE (n value : Nat) : (ofNatBE n value).length = n := by
  simp [ofNatBE]

def ofUInt32 (word : UInt32) : Bytes := ofNatBE 4 word.toNat

def ofUInt64 (word : UInt64) : Bytes := ofNatBE 8 word.toNat

/-- Cuts a byte string into blocks of `size + 1` bytes; the last one may be shorter. -/
def blocks (size : Nat) (bytes : Bytes) : List Bytes :=
  match bytes with
  | [] => []
  | byte :: rest => (byte :: rest.take size) :: blocks size (rest.drop size)
  termination_by bytes.length
  decreasing_by simp only [List.length_drop, List.length_cons]; omega

def wordsLE (bytes : Bytes) : List UInt32 := (blocks 3 bytes).map fun word => .ofNat (natLE word)

def ofWordsLE (words : List UInt32) : Bytes := words.flatMap fun word => ofNatLE 4 word.toNat

def xor (first second : Bytes) : Bytes := List.zipWith (· ^^^ ·) first second

end Bytes

end Confide
