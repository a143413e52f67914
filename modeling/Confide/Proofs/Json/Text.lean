import Confide.Proofs.Digits
import Confide.Proofs.Json.Value

/-! The text of a value without floating-point numbers is read back, whatever text follows it that
does not go on with a number. -/

set_option autoImplicit false

namespace Confide.Json

/-! ### Numbers -/

/-- A text with which no number goes on. -/
def Ends (rest : List Char) : Prop :=
  ∀ c ∈ rest.head?, isDigit c = false ∧ c ≠ '.' ∧ c ≠ 'e' ∧ c ≠ 'E'

theorem digitValue?_digitChar {digit : Nat} (bound : digit < 10) :
    digitValue? digit.digitChar = some digit := by
  have all : ∀ digit : Fin 10, digitValue? digit.val.digitChar = some digit.val := by decide
  exact all ⟨digit, bound⟩

theorem takeDigits_append {digits : List Nat} {rest : List Char}
    (below : ∀ digit ∈ digits, digit < 10) (ends : Ends rest) :
    takeDigits (digits.map Nat.digitChar ++ rest) = (digits, rest) := by
  have all : ∀ c ∈ digits.map Nat.digitChar, isDigit c = true := by
    intro c mem
    obtain ⟨digit, inside, rfl⟩ := List.mem_map.1 mem
    rw [isDigit, digitValue?_digitChar (below digit inside)]
    rfl
  have values : (digits.map Nat.digitChar).filterMap digitValue? = digits := by
    have same : ∀ digit ∈ digits, (digitValue? ∘ Nat.digitChar) digit = some digit :=
      fun digit inside => digitValue?_digitChar (below digit inside)
    rw [List.filterMap_map, List.filterMap_congr same, List.filterMap_some]
  have stop : rest.takeWhile isDigit = [] ∧ rest.dropWhile isDigit = rest := by
    cases rest with
    | nil => exact ⟨rfl, rfl⟩
    | cons c rest =>
      have other : ¬isDigit c = true := by simp [(ends c rfl).1]
      exact ⟨List.takeWhile_cons_of_neg other, List.dropWhile_cons_of_neg other⟩
  rw [takeDigits, List.takeWhile_append_of_pos all, List.dropWhile_append_of_pos all, stop.1,
    stop.2, List.append_nil, values]

theorem readWhole?_decimal {n : Nat} {digits : List Nat} {rest : List Char}
    (written : Written 10 n digits) (ends : Ends rest) :
    readWhole? (decimalChars n ++ rest) = some (digits, rest) := by
  rw [readWhole?, decimalChars, written.chars, takeDigits_append written.below ends]
  rcases written.proper with rfl | ⟨first, more, rfl, nonzero⟩
  · rfl
  · cases more with
    | nil => simp
    | cons => simp [nonzero]

theorem readFraction?_of_ends {rest : List Char} (ends : Ends rest) :
    readFraction? rest = some (none, rest) := by
  unfold readFraction?
  split
  · exact absurd rfl (ends '.' rfl).2.1
  · rfl

theorem readExponent?_of_ends {rest : List Char} (ends : Ends rest) :
    readExponent? rest = some (none, rest) := by
  cases rest with
  | nil => rfl
  | cons c rest =>
    obtain ⟨-, -, small, large⟩ := ends c rfl
    unfold readExponent?
    simp only [small, large, or_self, if_false]

theorem head_decimalChars {n : Nat} {digits : List Nat} (written : Written 10 n digits) :
    ∃ first rest, decimalChars n = first :: rest ∧ isDigit first = true := by
  obtain ⟨first, rest, rfl⟩ := List.exists_cons_of_ne_nil written.ne_nil
  refine ⟨first.digitChar, rest.map Nat.digitChar, written.chars, ?_⟩
  rw [isDigit, digitValue?_digitChar (written.below first List.mem_cons_self)]
  rfl

theorem readNumber?_negative (below : Fin 0x8000000000000000) {rest : List Char} (ends : Ends rest) :
    readNumber? ((Number.negative below).chars ++ rest) =
      some (some (.negative below), rest) := by
  obtain ⟨digits, written⟩ := exists_written (by decide : 1 < 10) (below.val + 1)
  have number : Literal.number? ⟨true, digits, none, none⟩ = some (.negative below) := by
    have bound := below.isLt
    have inside : 0 < below.val + 1 ∧ below.val + 1 ≤ 0x8000000000000000 := by omega
    simp only [Literal.number?, written.value, Bool.not_true, dif_pos inside]
    rfl
  have whole := readWhole?_decimal written ends
  simp only [Number.chars, List.cons_append, readNumber?, whole, readFraction?_of_ends ends,
    readExponent?_of_ends ends, number, Option.bind_eq_bind, Option.bind_some]

theorem readNumber?_natural (value : UInt64) {rest : List Char} (ends : Ends rest) :
    readNumber? ((Number.natural value).chars ++ rest) =
      some (some (.natural value), rest) := by
  obtain ⟨digits, written⟩ := exists_written (by decide : 1 < 10) value.toNat
  have number : Literal.number? ⟨false, digits, none, none⟩ = some (.natural value) := by
    simp only [Literal.number?, written.value, Bool.not_false, if_true, if_pos value.toNat_lt,
      UInt64.ofNat_toNat]
  have whole := readWhole?_decimal written ends
  obtain ⟨first, more, chars, digit⟩ := head_decimalChars written
  have unsigned : first ≠ '-' := by
    rintro rfl
    cases digit
  rw [chars] at whole
  rw [Number.chars, chars, readNumber?]
  · simp only [whole, readFraction?_of_ends ends, readExponent?_of_ends ends, number,
      Option.bind_eq_bind, Option.bind_some]
  · intro rest sign
    exact unsigned (List.cons.inj sign).1

/-! ### Strings -/

def isNumbered (c : Char) : Bool :=
  c.toNat < 32 && c != '\n' && c != '\r' && c != '\t' && c != Char.ofNat 8 && c != Char.ofNat 12

def piece (c : Char) : Piece := if isNumbered c then .unit c.toNat else .char c

theorem hexValue?_digit {value : Nat} (bound : value < 16) :
    hexValue? (Hex.digit value) = some value := by
  have all : ∀ value : Fin 16, hexValue? (Hex.digit value.val) = some value.val := by decide
  exact all ⟨value, bound⟩

theorem unit?_digits {c : Char} (control : c.toNat < 32) :
    unit? '0' '0' (Hex.digit (c.toNat / 16)) (Hex.digit (c.toNat % 16)) = some c.toNat := by
  have zero : hexValue? '0' = some 0 := rfl
  have high : hexValue? (Hex.digit (c.toNat / 16)) = some (c.toNat / 16) :=
    hexValue?_digit (by omega)
  have low : hexValue? (Hex.digit (c.toNat % 16)) = some (c.toNat % 16) :=
    hexValue?_digit (by omega)
  simp only [unit?, zero, high, low, Option.bind_eq_bind, Option.bind_some, Option.some.injEq]
  omega

theorem readPieces?_escape (c : Char) {input rest : List Char} {pieces : List Piece}
    (tail : readPieces? input = some (pieces, rest)) :
    readPieces? (escape c ++ input) = some (piece c :: pieces, rest) := by
  unfold escape
  split_ifs with quote slash newline carriage tab back form control
  -- Seven characters have an escape of their own.
  iterate 7
    · subst c
      simp only [List.cons_append, List.nil_append, readPieces?, tail]
      rfl
  · have numbered : isNumbered c = true := by
      simp [isNumbered, control, newline, carriage, tab, back, form]
    simp only [List.cons_append, List.nil_append, readPieces?, unit?_digits control, tail, piece,
      numbered, if_true, Option.bind_eq_bind, Option.bind_some]
  · have plain : isNumbered c = false := by
      simp [isNumbered, control]
    rw [List.singleton_append, readPieces?, if_neg (not_or.2 ⟨control, slash⟩), tail, piece, plain]
    · rfl
    · exact quote
    · intro _ _ _ _ _ escaped
      exact absurd escaped slash
    · intro _ _ escaped
      exact absurd escaped slash

theorem joinPieces?_unit {code : Nat} (control : code < 32) (rest : List Piece) :
    joinPieces? (.unit code :: rest) = (joinPieces? rest).map (Char.ofNat code :: ·) := by
  have high : isHighHalf code = false := by simp [isHighHalf]; omega
  have low : isLowHalf code = false := by simp [isLowHalf]; omega
  cases rest with
  | nil => simp [joinPieces?, high, low]
  | cons next rest => cases next <;> simp [joinPieces?, high, low]

theorem joinPieces?_map_piece (chars : List Char) :
    joinPieces? (chars.map piece) = some chars := by
  induction chars with
  | nil => rfl
  | cons c rest ih =>
    by_cases numbered : isNumbered c = true
    · have control : c.toNat < 32 := by
        simp only [isNumbered, Bool.and_eq_true, decide_eq_true_eq] at numbered
        omega
      rw [List.map_cons, piece, if_pos numbered, joinPieces?_unit control, ih, Char.ofNat_toNat]
      rfl
    · rw [List.map_cons, piece, if_neg numbered, joinPieces?, ih]
      rfl

theorem readPieces?_flatMap_escape (chars rest : List Char) :
    readPieces? (chars.flatMap escape ++ '"' :: rest) = some (chars.map piece, rest) := by
  induction chars with
  | nil => rfl
  | cons c more ih =>
    rw [List.flatMap_cons, List.append_assoc]
    exact readPieces?_escape c ih

theorem readString?_escaped (text : String) (rest : List Char) :
    readString? (text.toList.flatMap escape ++ '"' :: rest) = some (some text, rest) := by
  simp only [readString?, readPieces?_flatMap_escape, joinPieces?_map_piece, Option.bind_eq_bind,
    Option.bind_some, Option.map_some, String.ofList_toList]

/-! ### Values -/

/-- The text of a value is read as its tree, with as much fuel as a whole text is given. -/
def Reads (value : Json) : Prop :=
  ∀ (fuel : Nat) (rest : List Char), Ends rest → 2 * (value.chars ++ rest).length ≤ fuel →
    readTree? fuel (value.chars ++ rest) = some (value.toTree, rest)

theorem skipBlanks_cons {c : Char} (visible : isBlank c = false) (rest : List Char) :
    skipBlanks (c :: rest) = c :: rest :=
  List.dropWhile_cons_of_neg (by simp [visible])

theorem Ends.cons {c : Char} (mark : c = ',' ∨ c = ']' ∨ c = '\x7d') (rest : List Char) :
    Ends (c :: rest) := by
  intro other same
  cases same
  rcases mark with rfl | rfl | rfl <;> decide

theorem ne_of_start {c other : Char} (start : isDigit c = true ∨ c = '-')
    (apart : isDigit other = false ∧ other ≠ '-') : c ≠ other := by
  rintro rfl
  rcases start with digit | minus
  · rw [apart.1] at digit
    cases digit
  · exact apart.2 minus

theorem isBlank_of_start {c : Char} (start : isDigit c = true ∨ c = '-') : isBlank c = false := by
  have space : c ≠ ' ' := ne_of_start start (by decide)
  have newline : c ≠ '\n' := ne_of_start start (by decide)
  have tab : c ≠ '\t' := ne_of_start start (by decide)
  have carriage : c ≠ '\r' := ne_of_start start (by decide)
  simp [isBlank, space, newline, tab, carriage]

theorem readTree?_number {c : Char} {input rest : List Char} {value : Option Number}
    (start : isDigit c = true ∨ c = '-') (read : readNumber? (c :: input) = some (value, rest))
    (fuel : Nat) : readTree? (fuel + 1) (c :: input) = some (.number value, rest) := by
  rw [readTree?, skipBlanks_cons (isBlank_of_start start)]
  split
  iterate 6
    · rename_i same
      exact absurd (List.cons.inj same).1 (ne_of_start start (by decide))
  · rw [read]
    rfl

theorem readItems?_itemsChars {items : List Json} (some : items ≠ [])
    (reads : ∀ item ∈ items, Reads item) {fuel : Nat} {rest : List Char}
    (fueled : 2 * (itemsChars items ++ ']' :: rest).length < fuel) :
    readItems? fuel (itemsChars items ++ ']' :: rest) = .some (itemTrees items, rest) := by
  induction items generalizing fuel with
  | nil => exact absurd rfl some
  | cons item more ih =>
    obtain ⟨fuel, rfl⟩ : ∃ n, fuel = n + 1 := ⟨fuel - 1, by omega⟩
    have first : Reads item := reads item List.mem_cons_self
    cases more with
    | nil =>
      have tail : itemsChars [item] ++ ']' :: rest = item.chars ++ ']' :: rest := by
        simp [itemsChars, moreItems]
      rw [tail] at fueled ⊢
      have head := first fuel (']' :: rest) (.cons (.inr (.inl rfl)) rest) (by omega)
      simp only [readItems?, head]
      rfl
    | cons next others =>
      have tail : itemsChars (item :: next :: others) ++ ']' :: rest =
          item.chars ++ ',' :: (itemsChars (next :: others) ++ ']' :: rest) := by
        simp [itemsChars, moreItems]
      rw [tail] at fueled ⊢
      have head := first fuel (',' :: (itemsChars (next :: others) ++ ']' :: rest))
        (.cons (.inl rfl) _) (by omega)
      have left : readItems? fuel (itemsChars (next :: others) ++ ']' :: rest) =
          .some (itemTrees (next :: others), rest) := by
        refine ih (List.cons_ne_nil _ _)
          (fun other mem => reads other (List.mem_cons_of_mem item mem)) ?_
        simp only [List.length_append, List.length_cons] at fueled ⊢
        omega
      have comma : isBlank ',' = false := rfl
      simp only [readItems?, head, skipBlanks_cons comma, left, Option.bind_eq_bind,
        Option.bind_some]
      rfl

theorem quoted_append (text : String) (rest : List Char) :
    quoted text ++ rest = '"' :: (text.toList.flatMap escape ++ '"' :: rest) := by
  simp [quoted]

theorem readEntries?_entriesChars {entries : List (String × Json)} (some : entries ≠ [])
    (reads : ∀ entry ∈ entries, Reads entry.2) {fuel : Nat} {rest : List Char}
    (fueled : 2 * (entriesChars entries ++ '\x7d' :: rest).length < fuel) :
    readEntries? fuel (entriesChars entries ++ '\x7d' :: rest) =
      .some (entryTrees entries, rest) := by
  induction entries generalizing fuel with
  | nil => exact absurd rfl some
  | cons entry more ih =>
    obtain ⟨key, value⟩ := entry
    obtain ⟨fuel, rfl⟩ : ∃ n, fuel = n + 1 := ⟨fuel - 1, by omega⟩
    have first : Reads value := reads (key, value) List.mem_cons_self
    have quote : isBlank '"' = false := rfl
    have colon : isBlank ':' = false := rfl
    cases more with
    | nil =>
      have tail : entriesChars [(key, value)] ++ '\x7d' :: rest =
          quoted key ++ ':' :: (value.chars ++ '\x7d' :: rest) := by
        simp [entriesChars, moreEntries]
      rw [tail, quoted_append] at fueled ⊢
      simp only [List.length_cons, List.length_append] at fueled
      have head := first fuel ('\x7d' :: rest) (.cons (.inr (.inr rfl)) rest) (by
        simp only [List.length_cons, List.length_append]
        omega)
      simp only [readEntries?, skipBlanks_cons quote, readString?_escaped, skipBlanks_cons colon,
        head, Option.bind_eq_bind, Option.bind_some]
      rfl
    | cons next others =>
      have tail : entriesChars ((key, value) :: next :: others) ++ '\x7d' :: rest =
          quoted key ++ ':' ::
            (value.chars ++ ',' :: (entriesChars (next :: others) ++ '\x7d' :: rest)) := by
        simp [entriesChars, moreEntries]
      rw [tail, quoted_append] at fueled ⊢
      simp only [List.length_cons, List.length_append] at fueled
      have head := first fuel (',' :: (entriesChars (next :: others) ++ '\x7d' :: rest))
        (.cons (.inl rfl) _) (by
          simp only [List.length_cons, List.length_append]
          omega)
      have left : readEntries? fuel (entriesChars (next :: others) ++ '\x7d' :: rest) =
          .some (entryTrees (next :: others), rest) := by
        refine ih (List.cons_ne_nil _ _)
          (fun other mem => reads other (List.mem_cons_of_mem _ mem)) ?_
        simp only [List.length_append, List.length_cons]
        omega
      have comma : isBlank ',' = false := rfl
      simp only [readEntries?, skipBlanks_cons quote, readString?_escaped, skipBlanks_cons colon,
        head, skipBlanks_cons comma, left, Option.bind_eq_bind, Option.bind_some]
      rfl

theorem Whole.exists_chars {value : Json} (whole : value.Whole) :
    ∃ c rest, value.chars = c :: rest ∧ isBlank c = false ∧ c ≠ ']' := by
  cases whole with
  | null => exact ⟨_, _, rfl, by decide, by decide⟩
  | bool value => cases value <;> exact ⟨_, _, rfl, by decide, by decide⟩
  | natural value =>
    obtain ⟨digits, written⟩ := exists_written (by decide : 1 < 10) value.toNat
    obtain ⟨first, rest, chars, digit⟩ := head_decimalChars written
    exact ⟨first, rest, chars, isBlank_of_start (.inl digit), ne_of_start (.inl digit) (by decide)⟩
  | negative below => exact ⟨_, _, rfl, by decide, by decide⟩
  | string value => exact ⟨_, _, rfl, by decide, by decide⟩
  | array _ => exact ⟨_, _, rfl, by decide, by decide⟩
  | object _ => exact ⟨_, _, rfl, by decide, by decide⟩

/-- One unit of fuel is spent on the first character. -/
theorem reads_of_cons {value : Json} {c : Char} {tail : List Char} (start : value.chars = c :: tail)
    (read : ∀ (fuel : Nat) (rest : List Char), Ends rest → 2 * (tail ++ rest).length < fuel →
      readTree? (fuel + 1) (c :: (tail ++ rest)) = some (value.toTree, rest)) : value.Reads := by
  intro fuel rest ends fueled
  rw [start, List.cons_append] at fueled ⊢
  rw [List.length_cons] at fueled
  obtain ⟨fuel, rfl⟩ : ∃ n, fuel = n + 1 := ⟨fuel - 1, by omega⟩
  exact read fuel rest ends (by omega)

theorem Whole.reads {value : Json} (whole : value.Whole) : value.Reads := by
  induction whole with
  | null => exact reads_of_cons rfl fun _ _ _ _ => rfl
  | bool value => cases value <;> exact reads_of_cons rfl fun _ _ _ _ => rfl
  | natural value =>
    obtain ⟨digits, written⟩ := exists_written (by decide : 1 < 10) value.toNat
    obtain ⟨first, more, start, digit⟩ := head_decimalChars written
    refine reads_of_cons start fun fuel rest ends _ => ?_
    have read := readNumber?_natural value ends
    rw [Number.chars, start] at read
    exact readTree?_number (.inl digit) read fuel
  | negative below =>
    refine reads_of_cons rfl fun fuel rest ends _ => ?_
    exact readTree?_number (.inr rfl) (readNumber?_negative below ends) fuel
  | string value =>
    refine reads_of_cons rfl fun fuel rest _ _ => ?_
    rw [List.append_assoc, List.singleton_append]
    have quote : isBlank '"' = false := rfl
    simp only [readTree?, skipBlanks_cons quote, readString?_escaped]
    rfl
  | @array items whole ih =>
    refine reads_of_cons rfl fun fuel rest _ fueled => ?_
    rw [List.append_assoc, List.singleton_append] at fueled ⊢
    cases items with
    | nil => rfl
    | cons item more =>
      have read := readItems?_itemsChars (List.cons_ne_nil item more) ih fueled
      obtain ⟨c, others, start, visible, unclosed⟩ := (whole item List.mem_cons_self).exists_chars
      have inside : itemsChars (item :: more) ++ ']' :: rest =
          c :: (others ++ (moreItems more ++ ']' :: rest)) := by
        simp [itemsChars, start]
      rw [inside] at read ⊢
      have bracket : isBlank '[' = false := rfl
      simp only [readTree?, skipBlanks_cons bracket, skipBlanks_cons visible]
      split
      · rename_i same
        exact absurd (List.cons.inj same).1 unclosed
      · rw [read]
        rfl
  | @object entries whole ih =>
    refine reads_of_cons rfl fun fuel rest _ fueled => ?_
    rw [List.append_assoc, List.singleton_append] at fueled ⊢
    cases entries with
    | nil => rfl
    | cons entry more =>
      have read := readEntries?_entriesChars (List.cons_ne_nil entry more) ih fueled
      obtain ⟨tail, inside⟩ :
          ∃ tail, entriesChars (entry :: more) ++ '\x7d' :: rest = '"' :: tail := ⟨_, rfl⟩
      rw [inside] at read ⊢
      have brace : isBlank '\x7b' = false := rfl
      have quote : isBlank '"' = false := rfl
      simp only [readTree?, skipBlanks_cons brace, skipBlanks_cons quote]
      split
      · rename_i same
        cases same
      · rw [read]
        rfl

theorem Whole.ofText?_text {value : Json} (whole : value.Whole) :
    Tree.ofText? value.text = some value.toTree := by
  have ends : Ends [] := by
    intro c none
    cases none
  have read := whole.reads (2 * value.chars.length + 2) [] ends
  rw [List.append_nil] at read
  simp only [Tree.ofText?, text, String.toList_ofList, read (by omega), Option.bind_eq_bind,
    Option.bind_some]
  rfl

end Confide.Json
