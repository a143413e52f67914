import Confide.Bytes.Hex
import Confide.Decimal.Binary64
import Confide.Sorted.Map

/-! Readable values: their numbers, their canonical order and their text. -/

set_option autoImplicit false

namespace Confide.Json

/-- A whole number is kept exactly if it fits 64 bits, with or without a sign. -/
inductive Number where
  | natural (value : UInt64)
  /-- The number `-(below + 1)`. -/
  | negative (below : Fin 0x8000000000000000)
  | float (value : Binary64)
  deriving DecidableEq

end Json

/-- Entries of an object stand in the order in which they are written. -/
inductive Json where
  | null
  | bool (value : Bool)
  | number (value : Json.Number)
  | string (value : String)
  | array (items : List Json)
  | object (entries : List (String × Json))

namespace Json

def ofUInt64 (value : UInt64) : Json := .number (.natural value)

def decimalChars (value : Nat) : List Char := Nat.toDigits 10 value

def Number.chars : Number → List Char
  | .natural value => decimalChars value.toNat
  | .negative below => '-' :: decimalChars (below.val + 1)
  | .float value => value.chars

/-- Quotes, backslashes and control characters are escaped, all else stands for itself. -/
def escape (c : Char) : List Char :=
  if c = '"' then ['\\', '"']
  else if c = '\\' then ['\\', '\\']
  else if c = '\n' then ['\\', 'n']
  else if c = '\r' then ['\\', 'r']
  else if c = '\t' then ['\\', 't']
  else if c = Char.ofNat 8 then ['\\', 'b']
  else if c = Char.ofNat 12 then ['\\', 'f']
  else if c.toNat < 32 then
    ['\\', 'u', '0', '0', Hex.digit (c.toNat / 16), Hex.digit (c.toNat % 16)]
  else [c]

def quoted (text : String) : List Char := '"' :: (text.toList.flatMap escape ++ ['"'])

mutual

def chars : Json → List Char
  | .null => ['n', 'u', 'l', 'l']
  | .bool true => ['t', 'r', 'u', 'e']
  | .bool false => ['f', 'a', 'l', 's', 'e']
  | .number value => value.chars
  | .string value => quoted value
  | .array items => '[' :: (itemsChars items ++ [']'])
  | .object entries => '\x7b' :: (entriesChars entries ++ ['\x7d'])

def itemsChars : List Json → List Char
  | [] => []
  | item :: rest => item.chars ++ moreItems rest

def moreItems : List Json → List Char
  | [] => []
  | item :: rest => ',' :: (item.chars ++ moreItems rest)

def entriesChars : List (String × Json) → List Char
  | [] => []
  | (key, value) :: rest => quoted key ++ ':' :: (value.chars ++ moreEntries rest)

def moreEntries : List (String × Json) → List Char
  | [] => []
  | (key, value) :: rest => ',' :: (quoted key ++ ':' :: (value.chars ++ moreEntries rest))

end

def text (value : Json) : String := String.ofList value.chars

/-- An object with ascending keys; of several entries with one key, the last counts. -/
def sortedObject (entries : List (String × Json)) : Json :=
  .object (SortedMap.ofList entries).entries

mutual

/-- The value with the keys of every object in ascending order. -/
def sorted : Json → Json
  | .array items => .array (sortedItems items)
  | .object entries => sortedObject (sortedEntries entries)
  | value => value

def sortedItems : List Json → List Json
  | [] => []
  | item :: rest => item.sorted :: sortedItems rest

def sortedEntries : List (String × Json) → List (String × Json)
  | [] => []
  | (key, value) :: rest => (key, value.sorted) :: sortedEntries rest

end

end Json

end Confide
