import Confide.Bytes.Utf8
import Confide.Identity
import Mathlib.Data.List.Basic

/-! Bytes which are written in hexadecimal are read back, and so are the identities of peers. Digits
of either case are read, and the first code which is none is refused. -/

set_option autoImplicit false

namespace Confide

namespace Utf8

theorem toList_eq_data (bytes : ByteArray) : bytes.toList = bytes.data.toList := by
  have loop (k i : Nat) (sofar : Bytes) (left : bytes.size - i = k) :
      ByteArray.toList.loop bytes i sofar = sofar.reverse ++ bytes.data.toList.drop i := by
    induction k generalizing i sofar with
    | zero =>
      have past : ¬i < bytes.size := by omega
      have none : bytes.data.toList.drop i = [] := List.drop_eq_nil_of_le (Nat.not_lt.1 past)
      rw [ByteArray.toList.loop, if_neg past, none, List.append_nil]
    | succ k ih =>
      have inside : i < bytes.size := by omega
      have next : bytes.get! i = bytes.data.toList[i] := getElem!_pos bytes.data i inside
      rw [ByteArray.toList.loop, if_pos inside, ih (i + 1) _ (by omega), List.reverse_cons,
        List.append_assoc, List.singleton_append, next, List.getElem_cons_drop]
  exact loop _ 0 [] rfl

theorem encode_ofList {chars : List Char} (ascii : ∀ c ∈ chars, c.toNat < 128) :
    (String.ofList chars).toUTF8.toList = chars.map fun c => UInt8.ofNat c.toNat := by
  have whole : (String.ofList chars).toUTF8.toList = chars.flatMap String.utf8EncodeChar := by
    rw [toList_eq_data, String.toUTF8_eq_toByteArray, String.toByteArray_ofList, List.utf8Encode,
      List.toList_data_toByteArray]
  rw [whole]
  clear whole
  induction chars with
  | nil => rfl
  | cons c rest ih =>
    have small : c.utf8Size = 1 := by
      rw [Char.utf8Size_eq_one_iff, UInt32.le_iff_toNat_le]
      exact Nat.le_of_lt_succ (ascii c List.mem_cons_self)
    rw [List.flatMap_cons, ih fun other mem => ascii other (List.mem_cons_of_mem c mem),
      List.map_cons, String.utf8EncodeChar_eq_singleton small]
    rfl

theorem encode_injective : Function.Injective encode := by
  intro first second same
  rw [encode, encode, toList_eq_data, toList_eq_data] at same
  exact String.toByteArray_inj.1 (ByteArray.ext (Array.toList_inj.1 same))

theorem ofNat_toNat_ofUInt8 (byte : UInt8) : UInt8.ofNat (Char.ofUInt8 byte).toNat = byte :=
  byte.ofNat_toNat

theorem ofUInt8_ofNat {c : Char} (ascii : c.toNat < 128) : Char.ofUInt8 (.ofNat c.toNat) = c := by
  apply Char.ext
  apply UInt32.toNat_inj.1
  have bound : c.toNat < 256 := by omega
  exact (UInt8.toNat_ofNat').trans (Nat.mod_eq_of_lt bound)

theorem length_encode (text : String) : (encode text).length = text.utf8ByteSize := by
  rw [encode, toList_eq_data, Array.length_toList]
  rfl

theorem toList_of_ascii {text : String} (ascii : ∀ byte ∈ encode text, byte.toNat < 128) :
    text.toList = (encode text).map Char.ofUInt8 := by
  have small : ∀ c ∈ (encode text).map Char.ofUInt8, c.toNat < 128 := by
    intro c mem
    obtain ⟨byte, inside, rfl⟩ := List.mem_map.1 mem
    exact ascii byte inside
  have bytes : encode (.ofList ((encode text).map Char.ofUInt8)) = encode text := by
    rw [encode, encode_ofList small, List.map_map]
    exact List.map_id'' ofNat_toNat_ofUInt8 _
  have same := encode_injective bytes
  rw [← same, String.toList_ofList, same]

theorem encode_of_ascii {text : String} (ascii : ∀ c ∈ text.toList, c.toNat < 128) :
    encode text = text.toList.map fun c => UInt8.ofNat c.toNat := by
  have bytes := encode_ofList ascii
  rwa [String.ofList_toList] at bytes

end Utf8

namespace Hex

theorem digitValue?_digit {value : Nat} (bound : value < 16) :
    (digit value).toNat < 128 ∧ digitValue? (.ofNat (digit value).toNat) = some value := by
  have all : ∀ value : Fin 16, (digit value).toNat < 128 ∧
      digitValue? (.ofNat (digit value).toNat) = some value.val := by decide
  exact all ⟨value, bound⟩

theorem decodePairs_encode (bytes : Bytes) (position : Nat) :
    decodePairs position ((bytes.flatMap encodeByte).map fun c => UInt8.ofNat c.toNat) =
      .ok bytes := by
  induction bytes generalizing position with
  | nil => rfl
  | cons byte rest ih =>
    have bound := byte.toNat_lt
    have high : byte.toNat / 16 < 16 := by omega
    have low : byte.toNat % 16 < 16 := by omega
    have whole : UInt8.ofNat (16 * (byte.toNat / 16) + byte.toNat % 16) = byte := by
      rw [Nat.div_add_mod, UInt8.ofNat_toNat]
    simp only [List.flatMap_cons, encodeByte, List.cons_append, List.nil_append, List.map_cons,
      decodePairs, (digitValue?_digit high).2, (digitValue?_digit low).2, ih, whole]

theorem length_flatMap_encodeByte (bytes : Bytes) :
    (bytes.flatMap encodeByte).length = 2 * bytes.length := by
  induction bytes with
  | nil => rfl
  | cons byte rest ih =>
    rw [List.flatMap_cons, List.length_append, ih]
    change 2 + 2 * rest.length = 2 * (rest.length + 1)
    omega

theorem toNat_lt_of_mem {bytes : Bytes} {c : Char} (mem : c ∈ bytes.flatMap encodeByte) :
    c.toNat < 128 := by
  obtain ⟨byte, -, mem⟩ := List.mem_flatMap.1 mem
  have bound := byte.toNat_lt
  rcases List.mem_pair.1 mem with rfl | rfl
  · exact (digitValue?_digit (by omega)).1
  · exact (digitValue?_digit (by omega)).1

theorem decode_encode (bytes : Bytes) : decode (encode bytes) = .ok bytes := by
  have even : ¬(bytes.flatMap encodeByte).length % 2 = 1 := by
    rw [length_flatMap_encodeByte]
    omega
  rw [decode, encode, Utf8.encode_ofList fun _ => toNat_lt_of_mem, decodeCodes, List.length_map,
    if_neg even, decodePairs_encode]

def IsDigit (c : Char) : Prop :=
  '0' ≤ c ∧ c ≤ '9' ∨ 'a' ≤ c ∧ c ≤ 'f' ∨ 'A' ≤ c ∧ c ≤ 'F'

instance (c : Char) : Decidable (IsDigit c) := by unfold IsDigit; infer_instance

theorem isDigit_iff {c : Char} : IsDigit c ↔
    48 ≤ c.toNat ∧ c.toNat < 58 ∨ 97 ≤ c.toNat ∧ c.toNat < 103 ∨ 65 ≤ c.toNat ∧ c.toNat < 71 := by
  simp only [Nat.lt_succ_iff]
  exact Iff.rfl

theorem IsDigit.toNat_lt {c : Char} (digit : IsDigit c) : c.toNat < 128 := by
  have range := isDigit_iff.1 digit
  omega

theorem digitValue?_eq_none_iff {code : UInt8} :
    digitValue? code = none ↔ ¬IsDigit (.ofUInt8 code) := by
  have same : (Char.ofUInt8 code).toNat = code.toNat := rfl
  rw [isDigit_iff, same]
  grind [digitValue?]

theorem digit_of_digitValue? {code : UInt8} {value : Nat} (found : digitValue? code = some value) :
    value < 16 ∧ digit value = (Char.ofUInt8 code).toLower := by
  have all : ∀ code : Fin 256, ∀ value ∈ digitValue? (.ofFin code),
      value < 16 ∧ digit value = (Char.ofUInt8 (.ofFin code)).toLower := by decide +kernel
  exact all code.toFin value found

theorem exists_value_of_digit {code : UInt8} (digit : IsDigit (.ofUInt8 code)) :
    ∃ value, digitValue? code = some value := by
  cases found : digitValue? code with
  | none => exact absurd digit (digitValue?_eq_none_iff.1 found)
  | some value => exact ⟨value, rfl⟩

theorem encodeByte_ofNat {high low : Nat} (below : high < 16) (below' : low < 16) :
    encodeByte (.ofNat (16 * high + low)) = [digit high, digit low] := by
  have whole : (UInt8.ofNat (16 * high + low)).toNat = 16 * high + low := by
    rw [UInt8.toNat_ofNat']
    omega
  have first : (16 * high + low) / 16 = high := by omega
  have second : (16 * high + low) % 16 = low := by omega
  rw [encodeByte, whole, first, second]

/-- Digits are read as bytes which are written as the same digits in lower case. -/
theorem decodePairs_of_digits (position : Nat) {codes : Bytes} (even : codes.length % 2 = 0)
    (digits : ∀ code ∈ codes, IsDigit (.ofUInt8 code)) :
    ∃ bytes, decodePairs position codes = .ok bytes ∧
      bytes.flatMap encodeByte = codes.map fun code => (Char.ofUInt8 code).toLower := by
  match codes with
  | [] => exact ⟨[], rfl, rfl⟩
  | [_] => cases even
  | high :: low :: rest =>
    simp only [List.mem_cons, forall_eq_or_imp] at digits
    obtain ⟨upper, lower, others⟩ := digits
    obtain ⟨h, first⟩ := exists_value_of_digit upper
    obtain ⟨l, second⟩ := exists_value_of_digit lower
    obtain ⟨below, same⟩ := digit_of_digitValue? first
    obtain ⟨below', same'⟩ := digit_of_digitValue? second
    have even : rest.length % 2 = 0 := by
      simp only [List.length_cons] at even
      omega
    obtain ⟨bytes, read, written⟩ := decodePairs_of_digits (position + 2) even others
    refine ⟨.ofNat (16 * h + l) :: bytes, ?_, ?_⟩
    · simp only [decodePairs, first, second, read]
    · rw [List.flatMap_cons, encodeByte_ofNat below below', written, same, same']
      rfl

theorem decodePairs_of_invalid (position : Nat) {digits rest : Bytes} {code : UInt8}
    (even : (digits ++ code :: rest).length % 2 = 0)
    (before : ∀ digit ∈ digits, IsDigit (.ofUInt8 digit)) (invalid : ¬IsDigit (.ofUInt8 code)) :
    decodePairs position (digits ++ code :: rest) =
      .error (.invalidCharacter code (position + digits.length)) := by
  have none := digitValue?_eq_none_iff.2 invalid
  match digits with
  | [] =>
    cases rest with
    | nil => cases even
    | cons low rest =>
      rw [List.nil_append, decodePairs, none]
      rfl
  | [high] =>
    obtain ⟨h, first⟩ := exists_value_of_digit (before high List.mem_cons_self)
    rw [List.singleton_append, decodePairs, first, none]
    rfl
  | high :: low :: more =>
    simp only [List.mem_cons, forall_eq_or_imp] at before
    obtain ⟨upper, lower, others⟩ := before
    obtain ⟨h, first⟩ := exists_value_of_digit upper
    obtain ⟨l, second⟩ := exists_value_of_digit lower
    have even : (more ++ code :: rest).length % 2 = 0 := by
      simp only [List.length_append, List.length_cons] at even ⊢
      omega
    have refused := decodePairs_of_invalid (position + 2) even others invalid
    have place : position + 2 + more.length = position + (more.length + 2) := by omega
    simp only [List.cons_append, decodePairs, first, second, refused, List.length_cons, place]

theorem digits_or_invalid (codes : Bytes) : (∀ code ∈ codes, IsDigit (.ofUInt8 code)) ∨
    ∃ digits code rest, codes = digits ++ code :: rest ∧
      (∀ digit ∈ digits, IsDigit (.ofUInt8 digit)) ∧ ¬IsDigit (.ofUInt8 code) := by
  cases found : codes.find? fun code => ¬IsDigit (.ofUInt8 code) with
  | none => exact .inl fun code mem => by simpa using List.find?_eq_none.1 found code mem
  | some code =>
    obtain ⟨invalid, digits, rest, whole, before⟩ := List.find?_eq_some_iff_append.1 found
    exact .inr ⟨digits, code, rest, whole, by simpa using before, by simpa using invalid⟩

/-- Digits are one byte each, so they may be sought among the characters or among the bytes. -/
theorem forall_isDigit_iff {text : String} : (∀ c ∈ text.toList, IsDigit c) ↔
    ∀ code ∈ Utf8.encode text, IsDigit (.ofUInt8 code) := by
  constructor
  · intro digits code mem
    rw [Utf8.encode_of_ascii fun c mem => (digits c mem).toNat_lt] at mem
    obtain ⟨c, inside, rfl⟩ := List.mem_map.1 mem
    rw [Utf8.ofUInt8_ofNat (digits c inside).toNat_lt]
    exact digits c inside
  · intro digits
    rw [Utf8.toList_of_ascii fun code mem => (digits code mem).toNat_lt]
    exact List.forall_mem_map.2 digits

theorem length_of_digits {text : String} (digits : ∀ c ∈ text.toList, IsDigit c) :
    (Utf8.encode text).length = text.length := by
  rw [Utf8.encode_of_ascii fun c mem => (digits c mem).toNat_lt, List.length_map,
    String.length_toList]

theorem decode_of_even {text : String} (even : (Utf8.encode text).length % 2 = 0) :
    decode text = decodePairs 0 (Utf8.encode text) := by
  have codes : ¬(Utf8.encode text).length % 2 = 1 := by omega
  exact if_neg codes

theorem decode_of_digits {text : String} (even : (Utf8.encode text).length % 2 = 0)
    (digits : ∀ code ∈ Utf8.encode text, IsDigit (.ofUInt8 code)) :
    ∃ bytes, decode text = .ok bytes ∧ encode bytes = text.toLower ∧
      2 * bytes.length = (Utf8.encode text).length := by
  obtain ⟨bytes, read, written⟩ := decodePairs_of_digits 0 even digits
  refine ⟨bytes, (decode_of_even even).trans read, ?_, ?_⟩
  · have ascii := Utf8.toList_of_ascii fun code mem => (digits code mem).toNat_lt
    apply String.toList_inj.1
    change _ = (String.map Char.toLower text).toList
    rw [encode, String.toList_ofList, written, String.toList_map, ascii, List.map_map]
    rfl
  · rw [← length_flatMap_encodeByte, written, List.length_map]

end Hex

namespace IdentityKey

theorem ofOctets_toOctets (key : IdentityKey) : ofOctets key.toOctets = key := by
  simp only [ofOctets, toOctets, Octets.left_append, Octets.right_append]

theorem ofHex_toHex (key : IdentityKey) : ofHex key.toHex = .ok key := by
  simp only [ofHex, toHex, Hex.decode_encode, Octets.ofList?_toList, ofOctets_toOctets]

end IdentityKey

end Confide
