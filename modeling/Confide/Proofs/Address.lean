import Confide.Address
import Confide.Proofs.Digits

/-! The text of an address is read back: the octets, the groups of which a run of zeros was left
out, the scope and the port. -/

set_option autoImplicit false

namespace Confide.Address

/-! ### Numbers -/

/-- A text with which no number of the radix goes on. -/
def Stops (radix : Nat) (rest : List Char) : Prop := ∀ c ∈ rest.head?, digit? radix c = none

theorem Stops.nil {radix : Nat} : Stops radix [] := fun _ none => nomatch none

theorem Stops.cons {radix : Nat} {c : Char} (stop : digit? radix c = none) (rest : List Char) :
    Stops radix (c :: rest) := by
  intro other same
  cases same
  exact stop

theorem digit?_digitChar {radix digit : Nat} (small : radix ≤ 16) (below : digit < radix) :
    digit? radix digit.digitChar = some digit := by
  have all : ∀ digit : Fin 16, ∀ radix : Fin 17, digit.val < radix.val →
      digit? radix.val digit.val.digitChar = some digit.val := by decide
  exact all ⟨digit, by omega⟩ ⟨radix, by omega⟩ below

theorem readDigits_of_stops {radix : Nat} {rest : List Char} (stops : Stops radix rest) :
    readDigits radix rest = ([], rest) := by
  cases rest with
  | nil => rfl
  | cons c rest => simp only [readDigits, stops c rfl]

theorem readDigits_append {radix : Nat} {digits : List Nat} {rest : List Char}
    (small : radix ≤ 16) (below : ∀ digit ∈ digits, digit < radix) (stops : Stops radix rest) :
    readDigits radix (digits.map Nat.digitChar ++ rest) = (digits, rest) := by
  induction digits with
  | nil => exact readDigits_of_stops stops
  | cons digit more ih =>
    have first := digit?_digitChar small (below digit List.mem_cons_self)
    have others := ih fun other mem => below other (List.mem_cons_of_mem digit mem)
    simp only [List.map_cons, List.cons_append, readDigits, first, others]

theorem readDigits_toDigits {radix : Nat} (n : Nat) {rest : List Char} (big : 1 < radix)
    (small : radix ≤ 16) (stops : Stops radix rest) :
    ∃ digits, Written radix n digits ∧
      readDigits radix (Nat.toDigits radix n ++ rest) = (digits, rest) := by
  obtain ⟨digits, written⟩ := exists_written big n
  refine ⟨digits, written, ?_⟩
  rw [written.chars]
  exact readDigits_append small written.below stops

theorem readBelow_toDigits {n bound : Nat} {rest : List Char} (inside : n < bound)
    (stops : Stops 10 rest) : readBelow bound (Nat.toDigits 10 n ++ rest) = some (n, rest) := by
  obtain ⟨digits, written, read⟩ := readDigits_toDigits n (by decide) (by decide) stops
  have value : ofDigits 10 digits = n := written.value
  obtain ⟨first, more, rfl⟩ := List.exists_cons_of_ne_nil written.ne_nil
  simp only [readBelow, read, value, if_pos inside]

theorem readOctet_toDigits (octet : UInt8) {rest : List Char} (stops : Stops 10 rest) :
    readOctet (Nat.toDigits 10 octet.toNat ++ rest) = some (octet, rest) := by
  obtain ⟨digits, written, read⟩ := readDigits_toDigits octet.toNat (by decide) (by decide) stops
  have value : ofDigits 10 digits = octet.toNat := written.value
  have bound := octet.toNat_lt
  have length : digits.length ≤ 3 := written.length_le (by decide) (by decide) (by omega)
  have fits : digits.length ≤ 3 ∧ octet.toNat < 256 := ⟨length, bound⟩
  unfold readOctet
  rw [read]
  split
  · rename_i none
    exact absurd (congrArg Prod.fst none) written.ne_nil
  · rename_i leading
    rcases written.proper with same | ⟨first, more, same, nonzero⟩
    · rw [same] at leading
      cases leading
    · rw [same] at leading
      cases leading
      exact absurd rfl nonzero
  · rename_i same
    cases same
    rw [value, if_pos fits, UInt8.ofNat_toNat]

theorem readGroup_toDigits (group : UInt16) {rest : List Char} (stops : Stops 16 rest) :
    readGroup (Nat.toDigits 16 group.toNat ++ rest) = some (group, rest) := by
  obtain ⟨digits, written, read⟩ := readDigits_toDigits group.toNat (by decide) (by decide) stops
  have value : ofDigits 16 digits = group.toNat := written.value
  have bound := group.toNat_lt
  have length : digits.length ≤ 4 := written.length_le (by decide) (by decide) (by omega)
  obtain ⟨first, more, rfl⟩ := List.exists_cons_of_ne_nil written.ne_nil
  simp only [readGroup, read, if_pos length, value, UInt16.ofNat_toNat]

/-! ### Octets -/

def octetChars (octets : Octets 4) : List Char := (octetsText octets.toList).toList

theorem readOctets_octetChars (octets : Octets 4) {rest : List Char} (stops : Stops 10 rest) :
    readOctets (octetChars octets ++ rest) = some (octets, rest) := by
  obtain ⟨list, length⟩ := octets
  match list, length with
  | [a, b, c, d], length =>
    have point (rest : List Char) : Stops 10 ('.' :: rest) := .cons rfl rest
    have chars : octetChars ⟨[a, b, c, d], length⟩ ++ rest =
        Nat.toDigits 10 a.toNat ++ '.' :: (Nat.toDigits 10 b.toNat ++ '.' ::
          (Nat.toDigits 10 c.toNat ++ '.' :: (Nat.toDigits 10 d.toNat ++ rest))) := by
      simp [octetChars, octetsText]
    rw [chars]
    simp only [readOctets, readOctet_toDigits _ (point _), readOctet_toDigits d stops, readChar,
      if_true, Option.bind_eq_bind, Option.bind_some]

theorem rest_of_readOctet {text rest : List Char} {octet : UInt8}
    (read : readOctet text = some (octet, rest)) : rest = (readDigits 10 text).2 := by
  unfold readOctet at read
  split at read
  · cases read
  · cases read
  · rename_i digits tail _ _ same
    split at read
    · cases read
      rw [same]
    · cases read

/-- Octets are not read where no point follows the first number. -/
theorem readOctets_eq_none {text : List Char} (other : (readDigits 10 text).2.head? ≠ some '.') :
    readOctets text = none := by
  cases first : readOctet text with
  | none => simp [readOctets, first]
  | some result =>
    obtain ⟨octet, rest⟩ := result
    rw [← rest_of_readOctet first] at other
    have point : readChar '.' rest = none := by
      cases rest with
      | nil => rfl
      | cons c rest => exact if_neg fun same => other (congrArg some same)
    simp [readOctets, first, point]

/-! ### Groups -/

/-- A text which goes on neither with a group nor with octets. -/
def Halts (rest : List Char) : Prop := ∀ c ∈ rest.head?, digit? 16 c = none ∧ c ≠ '.'

theorem Halts.stops {rest : List Char} (halts : Halts rest) : Stops 16 rest :=
  fun c same => (halts c same).1

theorem digit?_ten {c : Char} (stop : digit? 16 c = none) : digit? 10 c = none := by
  grind [digit?]

theorem Halts.stops_ten {rest : List Char} (halts : Halts rest) : Stops 10 rest :=
  fun c same => digit?_ten (halts c same).1

/-- Groups are not taken for octets. -/
theorem readOctets_digits {digits : List Nat} {rest : List Char}
    (below : ∀ digit ∈ digits, digit < 16) (halts : Halts rest) :
    readOctets (digits.map Nat.digitChar ++ rest) = none := by
  apply readOctets_eq_none
  induction digits with
  | nil =>
    rw [List.map_nil, List.nil_append, readDigits_of_stops halts.stops_ten]
    intro point
    exact (halts '.' point).2 rfl
  | cons digit more ih =>
    rw [List.map_cons, List.cons_append, readDigits]
    cases digit? 10 digit.digitChar with
    | none =>
      intro point
      have point : digit.digitChar = '.' := Option.some.inj point
      exact Nat.digitChar_ne '.' (by decide) point
    | some value => exact ih fun other mem => below other (List.mem_cons_of_mem digit mem)

theorem readOctets_of_halts {rest : List Char} (halts : Halts rest) : readOctets rest = none := by
  have none := readOctets_digits (List.forall_mem_nil (· < 16)) halts
  exact none

theorem readGroup_of_halts {rest : List Char} (halts : Halts rest) : readGroup rest = none := by
  simp only [readGroup, readDigits_of_stops halts.stops]

/-- A text with which a list of groups does not go on. -/
structure Closes (rest : List Char) : Prop where
  halts : Halts rest
  halts_of_colon : ∀ tail, rest = ':' :: tail → Halts tail

theorem Halts.cons {c : Char} (stop : digit? 16 c = none ∧ c ≠ '.') (rest : List Char) :
    Halts (c :: rest) := by
  intro other same
  cases same
  exact stop

theorem readGroups_of_halts {rest : List Char} (halts : Halts rest) (limit : Nat) :
    readGroups limit true rest = ⟨[], false, rest⟩ := by
  cases limit with
  | zero => rfl
  | succ limit =>
    simp only [readGroups, if_true, readOctets_of_halts halts, readGroup_of_halts halts, ite_self]

theorem eq_cons_of_readChar {wanted : Char} {text rest : List Char}
    (read : readChar wanted text = some rest) : text = wanted :: rest := by
  cases text with
  | nil => cases read
  | cons c tail =>
    by_cases same : c = wanted
    · rw [readChar, if_pos same] at read
      rw [same, Option.some.inj read]
    · rw [readChar, if_neg same] at read
      cases read

theorem readGroups_of_closes {rest : List Char} (closes : Closes rest) (limit : Nat) :
    readGroups limit false rest = ⟨[], false, rest⟩ := by
  cases limit with
  | zero => rfl
  | succ limit =>
    cases start : readChar ':' rest with
    | none => simp only [readGroups, Bool.false_eq_true, if_false, start]
    | some tail =>
      have halts := closes.halts_of_colon tail (eq_cons_of_readChar start)
      simp only [readGroups, Bool.false_eq_true, if_false, start, readOctets_of_halts halts,
        readGroup_of_halts halts, ite_self]

def moreChars (groups : List UInt16) : List Char :=
  groups.flatMap fun group => ':' :: Nat.toDigits 16 group.toNat

def groupChars : List UInt16 → List Char
  | [] => []
  | group :: more => Nat.toDigits 16 group.toNat ++ moreChars more

theorem halts_moreChars {groups : List UInt16} {rest : List Char} (halts : Halts rest) :
    Halts (moreChars groups ++ rest) := by
  cases groups with
  | nil => exact halts
  | cons group more => exact .cons (by decide) _

theorem readOctets_group (group : UInt16) {rest : List Char} (halts : Halts rest) :
    readOctets (Nat.toDigits 16 group.toNat ++ rest) = none := by
  obtain ⟨digits, written⟩ := exists_written (by decide : 1 < 16) group.toNat
  rw [written.chars]
  exact readOctets_digits written.below halts

theorem readGroups_moreChars {groups : List UInt16} {rest : List Char} (closes : Closes rest)
    {limit : Nat} (fits : groups.length ≤ limit) :
    readGroups limit false (moreChars groups ++ rest) = ⟨groups, false, rest⟩ := by
  induction groups generalizing limit with
  | nil => exact readGroups_of_closes closes limit
  | cons group more ih =>
    obtain ⟨limit, rfl⟩ : ∃ n, limit = n + 1 := ⟨limit - 1, by simp at fits; omega⟩
    have halts : Halts (moreChars more ++ rest) := halts_moreChars closes.halts
    have text : moreChars (group :: more) ++ rest =
        ':' :: (Nat.toDigits 16 group.toNat ++ (moreChars more ++ rest)) := by
      simp [moreChars]
    rw [text]
    simp only [readGroups, Bool.false_eq_true, if_false, readChar, if_true,
      readOctets_group group halts, ite_self, readGroup_toDigits group halts.stops,
      ih (Nat.le_of_succ_le_succ fits)]

theorem readGroups_groupChars {groups : List UInt16} {rest : List Char} (closes : Closes rest)
    {limit : Nat} (fits : groups.length ≤ limit) :
    readGroups limit true (groupChars groups ++ rest) = ⟨groups, false, rest⟩ := by
  cases groups with
  | nil => exact readGroups_of_halts closes.halts limit
  | cons group more =>
    obtain ⟨limit, rfl⟩ : ∃ n, limit = n + 1 := ⟨limit - 1, by simp at fits; omega⟩
    have halts : Halts (moreChars more ++ rest) := halts_moreChars closes.halts
    rw [groupChars, List.append_assoc]
    simp only [readGroups, if_true, readOctets_group group halts, ite_self,
      readGroup_toDigits group halts.stops,
      readGroups_moreChars closes (Nat.le_of_succ_le_succ fits)]

theorem toList_groupText (group : UInt16) :
    (groupText group).toList = Nat.toDigits 16 group.toNat :=
  String.toList_ofList

theorem toList_groupsText (groups : List UInt16) :
    (groupsText groups).toList = groupChars groups := by
  cases groups with
  | nil => rfl
  | cons group more =>
    unfold groupsText
    induction more generalizing group with
    | nil => simp [groupChars, moreChars, toList_groupText]
    | cons next more ih =>
      have others := ih next
      rw [List.map_cons] at others
      rw [List.map_cons, List.map_cons, String.intercalate_cons_cons, String.toList_append,
        String.toList_append, others, toList_groupText]
      simp [groupChars, moreChars]

/-! ### Runs of zeros -/

theorem exists_longestZeros (groups : List UInt16) :
    ∃ front back, groups = front ++ (List.replicate (longestZeros groups).2 0 ++ back) ∧
      front.length = (longestZeros groups).1 := by
  induction groups with
  | nil => exact ⟨[], [], rfl, rfl⟩
  | cons group rest ih =>
    obtain ⟨front, back, same, length⟩ := ih
    by_cases longer : (longestZeros rest).2 ≤ ((group :: rest).takeWhile (· = 0)).length
    · have here : longestZeros (group :: rest) =
          (0, ((group :: rest).takeWhile (· = 0)).length) := if_pos longer
      have zeros : (group :: rest).takeWhile (· = 0) =
          List.replicate ((group :: rest).takeWhile (· = 0)).length 0 := by
        refine List.eq_replicate_of_mem fun other mem => ?_
        exact of_decide_eq_true (List.all_eq_true.1 List.all_takeWhile other mem)
      rw [here]
      refine ⟨[], (group :: rest).dropWhile (· = 0), ?_, rfl⟩
      rw [List.nil_append, ← zeros, List.takeWhile_append_dropWhile]
    · have later : longestZeros (group :: rest) =
          ((longestZeros rest).1 + 1, (longestZeros rest).2) := if_neg longer
      rw [later]
      exact ⟨group :: front, back, by rw [List.cons_append, ← same], congrArg (· + 1) length⟩

/-! ### Whole addresses -/

theorem vectorOf?_of_toList {list : List UInt16} {groups : Vector UInt16 8}
    (same : groups.toList = list) : vectorOf? list = some groups := by
  subst list
  obtain ⟨array, size⟩ := groups
  simp [vectorOf?, size]

theorem closes_of_colons (rest : List Char) : Closes (':' :: ':' :: rest) where
  halts := .cons (by decide) _
  halts_of_colon tail same := by
    cases same
    exact .cons (by decide) _

theorem readAllGroups_of_run {front back : List UInt16} {run : Nat} {groups : Vector UInt16 8}
    {rest : List Char} (same : groups.toList = front ++ (List.replicate run 0 ++ back))
    (long : 1 < run) (closes : Closes rest) :
    readAllGroups (groupChars front ++ ':' :: ':' :: (groupChars back ++ rest)) =
      some (groups, rest) := by
  have length : 8 = front.length + (run + back.length) := by
    have length := congrArg List.length same
    simpa using length
  have first : readGroups 8 true (groupChars front ++ ':' :: ':' :: (groupChars back ++ rest)) =
      ⟨front, false, ':' :: ':' :: (groupChars back ++ rest)⟩ :=
    readGroups_groupChars (closes_of_colons _) (by omega)
  have second : readGroups (7 - front.length) true (groupChars back ++ rest) =
      ⟨back, false, rest⟩ := readGroups_groupChars closes (by omega)
  have zeros : 8 - front.length - back.length = run := by omega
  have whole : vectorOf? (front ++ List.replicate run 0 ++ back) = some groups :=
    vectorOf?_of_toList (by rw [same, List.append_assoc])
  have partial_ : ¬front.length = 8 := by omega
  simp only [readAllGroups, first, if_neg partial_, Bool.false_eq_true, if_false, readChar,
    if_true, second, zeros, whole, Option.bind_eq_bind, Option.bind_some]

theorem readAllGroups_of_octets {high low : UInt16} {groups : Vector UInt16 8} {octets : Octets 4}
    {rest : List Char} (same : groups.toList = [0, 0, 0, 0, 0, 0xffff, high, low])
    (pair : pairOfOctets octets = [high, low]) (closes : Closes rest) :
    readAllGroups (':' :: ':' :: (Nat.toDigits 16 (0xffff : UInt16).toNat ++
      ':' :: (octetChars octets ++ rest))) = some (groups, rest) := by
  have first := readGroups_of_halts (closes_of_colons (Nat.toDigits 16 (0xffff : UInt16).toNat ++
    ':' :: (octetChars octets ++ rest))).halts 8
  have halts : Halts (':' :: (octetChars octets ++ rest)) := .cons (by decide) _
  have second : readGroups 6 false (':' :: (octetChars octets ++ rest)) =
      ⟨[high, low], true, rest⟩ := by
    simp [readGroups, readChar, readOctets_octetChars octets closes.halts.stops_ten, pair]
  have third : readGroups 7 true (Nat.toDigits 16 (0xffff : UInt16).toNat ++
      ':' :: (octetChars octets ++ rest)) = ⟨[0xffff, high, low], true, rest⟩ := by
    rw [readGroups]
    simp only [if_true, readOctets_group _ halts, ite_self, readGroup_toDigits _ halts.stops,
      second]
  have whole : vectorOf? ([] ++ List.replicate 5 0 ++ [0xffff, high, low]) = some groups :=
    vectorOf?_of_toList same
  simp only [readAllGroups, first, readChar, if_true, third, List.length_cons, List.length_nil,
    whole, Option.bind_eq_bind, Option.bind_some]
  rfl

theorem exists_octets (high low : UInt16) : ∃ octets : Octets 4,
    octets.toList = [high, low].flatMap octetsOfGroup ∧ pairOfOctets octets = [high, low] := by
  have length (group : UInt16) : (octetsOfGroup group).length = 2 := Bytes.length_ofNatBE 2 _
  have value (group : UInt16) : UInt16.ofNat (Bytes.natBE (octetsOfGroup group)) = group := by
    have bound : group.toNat < 256 ^ 2 := group.toNat_lt
    rw [octetsOfGroup, Bytes.natBE_ofNatBE, Nat.mod_eq_of_lt bound, UInt16.ofNat_toNat]
  refine ⟨⟨octetsOfGroup high ++ octetsOfGroup low, by simp [length]⟩, by simp, ?_⟩
  rw [pairOfOctets, List.take_left' (length high), List.drop_left' (length high), value, value]

/-- Eight groups are read back, however they are written. -/
theorem readAllGroups_allGroupsText (groups : Vector UInt16 8) {rest : List Char}
    (closes : Closes rest) :
    readAllGroups ((allGroupsText groups.toList).toList ++ rest) = some (groups, rest) := by
  have length : groups.toList.length = 8 := groups.length_toList
  unfold allGroupsText
  split
  · rename_i mapped
    have tail : (groups.toList.drop 6).length = 2 := by rw [List.length_drop, length]
    obtain ⟨high, low, pair⟩ := List.length_eq_two.1 tail
    obtain ⟨octets, bytes, same⟩ := exists_octets high low
    have whole : groups.toList = [0, 0, 0, 0, 0, 0xffff, high, low] := by
      rw [← List.take_append_drop 6 groups.toList, mapped, pair]
      rfl
    have chars : ("::ffff:" ++ octetsText ((groups.toList.drop 6).flatMap octetsOfGroup)).toList ++
        rest = ':' :: ':' :: (Nat.toDigits 16 (0xffff : UInt16).toNat ++
          ':' :: (octetChars octets ++ rest)) := by
      rw [pair, ← bytes, String.toList_append]
      rfl
    rw [chars]
    exact readAllGroups_of_octets whole same closes
  · obtain ⟨front, back, same, start⟩ := exists_longestZeros groups.toList
    generalize longestZeros groups.toList = found at same start ⊢
    obtain ⟨position, run⟩ := found
    dsimp only at same start ⊢
    by_cases long : 1 < run
    · have before : groups.toList.take position = front := by
        rw [same, List.take_left' start]
      have after : groups.toList.drop (position + run) = back := by
        rw [same, ← List.append_assoc]
        exact List.drop_left' (by simp [start])
      have chars : (groupsText front ++ "::" ++ groupsText back).toList ++ rest =
          groupChars front ++ ':' :: ':' :: (groupChars back ++ rest) := by
        simp [toList_groupsText]
      rw [if_pos long, before, after, chars]
      exact readAllGroups_of_run same long closes
    · have first : readGroups 8 true (groupChars groups.toList ++ rest) =
          ⟨groups.toList, false, rest⟩ := readGroups_groupChars closes (Nat.le_of_eq length)
      simp only [if_neg long, toList_groupsText, readAllGroups, first, if_pos length,
        vectorOf?_of_toList rfl, Option.bind_eq_bind, Option.bind_some]

/-! ### Scope and port -/

theorem readPort_toDigits (port : UInt16) :
    readPort (':' :: Nat.toDigits 10 port.toNat) = some (port, []) := by
  have read : readBelow UInt16.size (Nat.toDigits 10 port.toNat ++ []) = some (port.toNat, []) :=
    readBelow_toDigits port.toNat_lt .nil
  rw [List.append_nil] at read
  simp only [readPort, readChar, if_true, Option.bind_eq_bind, Option.bind_some, read,
    UInt16.ofNat_toNat]

def scopeChars (scope : UInt32) : List Char :=
  if scope = 0 then [] else '%' :: Nat.toDigits 10 scope.toNat

theorem readScope_scopeChars (scope : UInt32) (rest : List Char) :
    readScope (scopeChars scope ++ ']' :: rest) = (scope, ']' :: rest) := by
  unfold scopeChars
  split
  · rename_i zero
    rw [zero]
    rfl
  · have read : readBelow UInt32.size (Nat.toDigits 10 scope.toNat ++ ']' :: rest) =
        some (scope.toNat, ']' :: rest) := readBelow_toDigits scope.toNat_lt (.cons rfl rest)
    simp only [List.cons_append, readScope, readChar, if_true, Option.bind_eq_bind,
      Option.bind_some, read, UInt32.ofNat_toNat]

theorem closes_scopeChars (scope : UInt32) (rest : List Char) :
    Closes (scopeChars scope ++ ']' :: rest) := by
  unfold scopeChars
  split
  · exact ⟨.cons (by decide) _, fun _ same => nomatch same⟩
  · exact ⟨.cons (by decide) _, fun _ same => nomatch same⟩

theorem ofText?_toText_v4 (octets : Octets 4) (port : UInt16) :
    ofText? (toText (.v4 octets port)) = some (.v4 octets port) := by
  have chars : (toText (.v4 octets port)).toList =
      octetChars octets ++ ':' :: Nat.toDigits 10 port.toNat := by
    simp [toText, octetChars]
  have stops : Stops 10 (':' :: Nat.toDigits 10 port.toNat) := .cons rfl _
  have read : readV4 (toText (.v4 octets port)).toList = some (.v4 octets port, []) := by
    rw [chars]
    simp only [readV4, readOctets_octetChars octets stops, readPort_toDigits, Option.bind_eq_bind,
      Option.bind_some]
  rw [ofText?, read]
  rfl

theorem ofText?_toText_v6 (groups : Vector UInt16 8) (port : UInt16) (scope : UInt32) :
    ofText? (toText (.v6 groups port scope)) = some (.v6 groups port scope) := by
  let tail := ']' :: ':' :: Nat.toDigits 10 port.toNat
  have chars : (toText (.v6 groups port scope)).toList =
      '[' :: ((allGroupsText groups.toList).toList ++ (scopeChars scope ++ tail)) := by
    by_cases zero : scope = 0 <;> simp [toText, scopeChars, zero, tail]
  have other : readV4 (toText (.v6 groups port scope)).toList = none := by
    rw [chars, readV4, readOctets_of_halts (.cons (by decide) _)]
    rfl
  have read : readV6 (toText (.v6 groups port scope)).toList =
      some (.v6 groups port scope, []) := by
    have closes : Closes (scopeChars scope ++ tail) := closes_scopeChars scope _
    have rest : readScope (scopeChars scope ++ tail) = (scope, tail) :=
      readScope_scopeChars scope _
    rw [chars]
    simp only [readV6, readChar, if_true, readAllGroups_allGroupsText groups closes, rest, tail,
      readPort_toDigits, Option.bind_eq_bind, Option.bind_some]
  rw [ofText?, other, read]
  rfl

theorem ofText?_toText (address : Address) : ofText? address.toText = some address := by
  cases address with
  | v4 octets port => exact ofText?_toText_v4 octets port
  | v6 groups port scope => exact ofText?_toText_v6 groups port scope

end Confide.Address
