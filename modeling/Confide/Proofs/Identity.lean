import Confide.Proofs.Hex

/-! Which texts are read as peers, and what is wrong with the others. -/

set_option autoImplicit false

namespace Confide.IdentityKey

theorem toOctets_ofOctets (octets : Octets 64) : (ofOctets octets).toOctets = octets := by
  apply Octets.ext
  simp only [toOctets, ofOctets, Octets.append, Octets.left, Octets.right, List.take_append_drop]

theorem ofHex_of_odd {text : String} (odd : (Utf8.encode text).length % 2 = 1) :
    ofHex text = .error (.hex .oddLength) := by
  have refused : Hex.decode text = .error .oddLength := if_pos odd
  rw [ofHex, refused]

theorem ofHex_of_invalid {text : String} {digits rest : Bytes} {code : UInt8}
    (even : (Utf8.encode text).length % 2 = 0) (whole : Utf8.encode text = digits ++ code :: rest)
    (before : ∀ digit ∈ digits, Hex.IsDigit (.ofUInt8 digit))
    (invalid : ¬Hex.IsDigit (.ofUInt8 code)) :
    ofHex text = .error (.hex (.invalidCharacter code digits.length)) := by
  have refused := Hex.decode_of_even even
  rw [whole] at even refused
  rw [Hex.decodePairs_of_invalid 0 even before invalid, Nat.zero_add] at refused
  rw [ofHex, refused]

section
variable {text : String} (digits : ∀ code ∈ Utf8.encode text, Hex.IsDigit (.ofUInt8 code))
include digits

theorem ofHex_of_other_length (even : (Utf8.encode text).length % 2 = 0)
    (other : (Utf8.encode text).length ≠ 128) :
    ofHex text = .error (.invalidLength ((Utf8.encode text).length / 2)) := by
  obtain ⟨bytes, read, -, length⟩ := Hex.decode_of_digits even digits
  have wrong : ¬bytes.length = 64 := by omega
  have none : Octets.ofList? 64 bytes = none := dif_neg wrong
  rw [ofHex, read, ← length, Nat.mul_div_cancel_left _ (by decide)]
  simp only [none]

theorem exists_ofHex (whole : (Utf8.encode text).length = 128) :
    ∃ key, ofHex text = .ok key ∧ key.toHex = text.toLower := by
  obtain ⟨bytes, read, written, length⟩ := Hex.decode_of_digits (by rw [whole]) digits
  have fits : bytes.length = 64 := by omega
  have octets : Octets.ofList? 64 bytes = some ⟨bytes, fits⟩ := dif_pos fits
  refine ⟨ofOctets ⟨bytes, fits⟩, ?_, ?_⟩
  · rw [ofHex, read]
    simp only [octets]
  · rw [toHex, toOctets_ofOctets, written]

end

theorem digits_of_ofHex {text : String} {key : IdentityKey} (read : ofHex text = .ok key) :
    (∀ code ∈ Utf8.encode text, Hex.IsDigit (.ofUInt8 code)) ∧ (Utf8.encode text).length = 128 := by
  rcases Nat.mod_two_eq_zero_or_one (Utf8.encode text).length with even | odd
  · rcases Hex.digits_or_invalid (Utf8.encode text) with digits | ⟨_, _, _, whole, before, invalid⟩
    · refine ⟨digits, ?_⟩
      by_contra other
      rw [ofHex_of_other_length digits even other] at read
      cases read
    · rw [ofHex_of_invalid even whole before invalid] at read
      cases read
  · rw [ofHex_of_odd odd] at read
    cases read

/-- The texts of peers are 128 digits of either case, and any other text is refused for its first
fault: an odd number of bytes, a byte which is no digit, a wrong number of digits. -/
theorem ofHex_accepts_or_names_fault (text : String) :
    ((∃ key, ofHex text = .ok key) ↔ text.length = 128 ∧ ∀ c ∈ text.toList, Hex.IsDigit c) ∧
      (∀ key, ofHex text = .ok key → key.toHex = text.toLower) ∧
      (∀ key : IdentityKey, ofHex key.toHex = .ok key) ∧
      (text.utf8ByteSize % 2 = 1 → ofHex text = .error (.hex .oddLength)) ∧
      (text.utf8ByteSize % 2 = 0 →
        (∀ digits code rest, Utf8.encode text = digits ++ code :: rest →
          (∀ digit ∈ digits, Hex.IsDigit (.ofUInt8 digit)) → ¬Hex.IsDigit (.ofUInt8 code) →
          ofHex text = .error (.hex (.invalidCharacter code digits.length))) ∧
        ((∀ code ∈ Utf8.encode text, Hex.IsDigit (.ofUInt8 code)) → text.utf8ByteSize ≠ 128 →
          ofHex text = .error (.invalidLength (text.utf8ByteSize / 2)))) := by
  rw [← Utf8.length_encode]
  refine ⟨⟨?_, ?_⟩, ?_, ofHex_toHex, ofHex_of_odd, fun even => ⟨?_, ?_⟩⟩
  · rintro ⟨key, read⟩
    obtain ⟨digits, whole⟩ := digits_of_ofHex read
    have digits := Hex.forall_isDigit_iff.2 digits
    exact ⟨(Hex.length_of_digits digits).symm.trans whole, digits⟩
  · rintro ⟨whole, digits⟩
    obtain ⟨key, read, -⟩ := exists_ofHex (Hex.forall_isDigit_iff.1 digits)
      ((Hex.length_of_digits digits).trans whole)
    exact ⟨key, read⟩
  · intro key read
    obtain ⟨digits, whole⟩ := digits_of_ofHex read
    obtain ⟨other, read', written⟩ := exists_ofHex digits whole
    cases read.symm.trans read'
    exact written
  · exact fun digits code rest whole before invalid => ofHex_of_invalid even whole before invalid
  · exact fun digits other => ofHex_of_other_length digits even other

/-- Upper case, three digits, a character of two bytes, and four digits. -/
theorem ofHex_upper_case_and_faults :
    (∃ key, ofHex (.ofList (.replicate 128 'A')) = .ok key ∧
      key.toHex = .ofList (.replicate 128 'a')) ∧
      ofHex "abc" = .error (.hex .oddLength) ∧
      ofHex "aé1" = .error (.hex (.invalidCharacter 0xc3 1)) ∧
      ofHex "abCD" = .error (.invalidLength 2) := by
  have upper : (String.ofList (.replicate 128 'A')).toList = .replicate 128 'A' :=
    String.toList_ofList
  have ascii : ∀ c ∈ List.replicate 128 'A', Hex.IsDigit c := by
    intro c mem
    rw [List.eq_of_mem_replicate mem]
    decide
  obtain ⟨succeeds, lower, -⟩ := ofHex_accepts_or_names_fault (.ofList (.replicate 128 'A'))
  obtain ⟨key, read⟩ := succeeds.2 ⟨by rw [← String.length_toList, upper]; rfl, by rwa [upper]⟩
  refine ⟨⟨key, read, ?_⟩, ?_, ?_, ?_⟩
  · rw [lower key read]
    apply String.toList_inj.1
    change (String.map Char.toLower _).toList = _
    rw [String.toList_map, upper, List.map_replicate, String.toList_ofList]
    rfl
  · exact (ofHex_accepts_or_names_fault "abc").2.2.2.1 (by decide)
  · have before : ∀ digit ∈ [0x61], Hex.IsDigit (.ofUInt8 digit) :=
      List.forall_mem_singleton.2 (by decide)
    exact ((ofHex_accepts_or_names_fault "aé1").2.2.2.2 (by decide)).1 [0x61] 0xc3 [0xa9, 0x31]
      (by decide +kernel) before (by decide)
  · exact ((ofHex_accepts_or_names_fault "abCD").2.2.2.2 (by decide)).2 (by decide +kernel)
      (by decide)

end Confide.IdentityKey
