import Confide.Wire.Shape

/-! Socket addresses and their text: four decimal octets, or eight hexadecimal groups in brackets of
which one run of zeros may be left out, each with a port. -/

set_option autoImplicit false

namespace Confide

inductive Address where
  | v4 (octets : Octets 4) (port : UInt16)
  /-- The scope tells links of one machine apart. -/
  | v6 (groups : Vector UInt16 8) (port : UInt16) (scope : UInt32)
  deriving DecidableEq

namespace Address

/-- The value of a digit of either case in a radix of at most sixteen. -/
def digit? (radix : Nat) (c : Char) : Option Nat :=
  let n := c.toNat
  let value :=
    if 48 ≤ n ∧ n < 58 then n - 48
    else if 97 ≤ n ∧ n < 103 then n - 87
    else if 65 ≤ n ∧ n < 71 then n - 55
    else radix
  if value < radix then some value else none

def readDigits (radix : Nat) : List Char → List Nat × List Char
  | [] => ([], [])
  | c :: rest =>
    match digit? radix c with
    | none => ([], c :: rest)
    | some digit =>
      let (digits, rest) := readDigits radix rest
      (digit :: digits, rest)

def ofDigits (radix : Nat) (digits : List Nat) : Nat :=
  digits.foldl (fun value digit => radix * value + digit) 0

/-- A number below a bound, with any number of leading zeros. -/
def readBelow (bound : Nat) (text : List Char) : Option (Nat × List Char) :=
  match readDigits 10 text with
  | ([], _) => none
  | (digits, rest) => if ofDigits 10 digits < bound then some (ofDigits 10 digits, rest) else none

/-- An octet has at most three digits and no leading zero. -/
def readOctet (text : List Char) : Option (UInt8 × List Char) :=
  match readDigits 10 text with
  | ([], _) => none
  | (0 :: _ :: _, _) => none
  | (digits, rest) =>
    if digits.length ≤ 3 ∧ ofDigits 10 digits < 256 then some (.ofNat (ofDigits 10 digits), rest)
    else none

/-- A group has at most four digits. -/
def readGroup (text : List Char) : Option (UInt16 × List Char) :=
  match readDigits 16 text with
  | ([], _) => none
  | (digits, rest) =>
    if digits.length ≤ 4 then some (.ofNat (ofDigits 16 digits), rest) else none

def readChar (wanted : Char) : List Char → Option (List Char)
  | [] => none
  | c :: rest => if c = wanted then some rest else none

def readOctets (text : List Char) : Option (Octets 4 × List Char) := do
  let (a, text) ← readOctet text
  let (b, text) ← readOctet (← readChar '.' text)
  let (c, text) ← readOctet (← readChar '.' text)
  let (d, text) ← readOctet (← readChar '.' text)
  some (⟨[a, b, c, d], rfl⟩, text)

def pairOfOctets (octets : Octets 4) : List UInt16 :=
  [.ofNat (Bytes.natBE (octets.toList.take 2)), .ofNat (Bytes.natBE (octets.toList.drop 2))]

structure Groups where
  groups : List UInt16
  /-- Whether the last two were written as four octets, after which no group may follow. -/
  closed : Bool
  rest : List Char

/-- Reads at most `limit` groups with colons between them; `first` tells that no colon is due. -/
def readGroups : (limit : Nat) → (first : Bool) → List Char → Groups
  | 0, _, text => ⟨[], false, text⟩
  | limit + 1, first, text =>
    match (if first then some text else readChar ':' text) with
    | none => ⟨[], false, text⟩
    | some start =>
      match (if limit = 0 then none else readOctets start) with
      | some (octets, rest) => ⟨pairOfOctets octets, true, rest⟩
      | none =>
        match readGroup start with
        | none => ⟨[], false, text⟩
        | some (group, rest) =>
          let others := readGroups limit false rest
          { others with groups := group :: others.groups }

def vectorOf? (groups : List UInt16) : Option (Vector UInt16 8) :=
  if h : groups.length = 8 then some ⟨groups.toArray, by simpa using h⟩ else none

/-- Eight groups, or fewer with two colons in place of at least one group of zero. -/
def readAllGroups (text : List Char) : Option (Vector UInt16 8 × List Char) := do
  let front := readGroups 8 true text
  if front.groups.length = 8 then some (← vectorOf? front.groups, front.rest)
  else if front.closed then none
  else
    let text ← readChar ':' (← readChar ':' front.rest)
    let back := readGroups (7 - front.groups.length) true text
    let zeros := List.replicate (8 - front.groups.length - back.groups.length) 0
    some (← vectorOf? (front.groups ++ zeros ++ back.groups), back.rest)

def readPort (text : List Char) : Option (UInt16 × List Char) := do
  let (port, text) ← readBelow UInt16.size (← readChar ':' text)
  some (.ofNat port, text)

/-- A scope of zero may be left out. -/
def readScope (text : List Char) : UInt32 × List Char :=
  match (do readBelow UInt32.size (← readChar '%' text)) with
  | some (scope, text) => (.ofNat scope, text)
  | none => (0, text)

def readV4 (text : List Char) : Option (Address × List Char) := do
  let (octets, text) ← readOctets text
  let (port, text) ← readPort text
  some (.v4 octets port, text)

def readV6 (text : List Char) : Option (Address × List Char) := do
  let (groups, text) ← readAllGroups (← readChar '[' text)
  let (scope, text) := readScope text
  let (port, text) ← readPort (← readChar ']' text)
  some (.v6 groups port scope, text)

def ofText? (text : String) : Option Address :=
  match readV4 text.toList <|> readV6 text.toList with
  | some (address, []) => some address
  | _ => none

def octetsText (octets : Bytes) : String :=
  ".".intercalate (octets.map fun octet => toString octet.toNat)

def groupText (group : UInt16) : String := String.ofList (Nat.toDigits 16 group.toNat)

def groupsText (groups : List UInt16) : String := ":".intercalate (groups.map groupText)

/-- The start and the length of the first of the longest runs of zeros. -/
def longestZeros : List UInt16 → Nat × Nat
  | [] => (0, 0)
  | group :: rest =>
    let here := ((group :: rest).takeWhile (· = 0)).length
    let (start, length) := longestZeros rest
    if length ≤ here then (0, here) else (start + 1, length)

/-- The octets which a group stands for. -/
def octetsOfGroup (group : UInt16) : Bytes := Bytes.ofNatBE 2 group.toNat

/-- The first longest run of at least two zeros is left out. The last two groups are written as
octets if the others mark an address which stands for four octets. -/
def allGroupsText (groups : List UInt16) : String :=
  if groups.take 6 = [0, 0, 0, 0, 0, 0xffff] then
    "::ffff:" ++ octetsText ((groups.drop 6).flatMap octetsOfGroup)
  else
    let (start, length) := longestZeros groups
    if 1 < length then
      groupsText (groups.take start) ++ "::" ++ groupsText (groups.drop (start + length))
    else groupsText groups

def toText : Address → String
  | .v4 octets port => octetsText octets.toList ++ ":" ++ toString port.toNat
  | .v6 groups port scope =>
    let scopeText := if scope = 0 then "" else "%" ++ toString scope.toNat
    "[" ++ allGroupsText groups.toList ++ scopeText ++ "]:" ++ toString port.toNat

def groupsOf (octets : Vector UInt8 16) : Vector UInt16 8 :=
  .ofFn fun i => .ofNat (256 * octets[2 * i.val].toNat + octets[2 * i.val + 1].toNat)

def octetsOf (groups : Vector UInt16 8) : Vector UInt8 16 :=
  .ofFn fun i => .ofNat (groups[i.val / 2].toNat / if i.val % 2 = 0 then 256 else 1)

def octetsShape : Shape (Octets 4) :=
  .iso (.vector 4 .uint8) (fun v => ⟨v.toList, by simp⟩)
    (fun o => ⟨o.toList.toArray, by simp [o.length_toList]⟩) fun _ => rfl

/-- For machines, the octets and the port; the scope is of no use elsewhere. -/
def binaryShape : Shape Address :=
  .view (.choice (.holding "V4" (.pair octetsShape .uint16) <|
      .holding "V6" (.pair (.vector 16 .uint8) .uint16) .nil))
    (fun
      | .inl (octets, port) => some (.v4 octets port)
      | .inr (.inl (octets, port)) => some (.v6 (groupsOf octets) port 0))
    (fun
      | .v4 octets port => .inl (octets, port)
      | .v6 groups port _ => .inr (.inl (octetsOf groups, port)))

instance : Wire Address := ⟨.byForm binaryShape (.view .text ofText? toText)⟩

end Address

end Confide
