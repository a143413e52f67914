import Confide.Proofs.Identity

/-! Peers are ordered as their bytes on the wire and as their texts, so that it does not matter by
which of the three they are sorted. -/

set_option autoImplicit false

namespace Confide

section
variable {α β : Type} [Ord α] [Ord β]

theorem compare_append_of_length_eq {first second : List α} (same : first.length = second.length)
    (rest others : List α) :
    compare (first ++ rest) (second ++ others) =
      (compare first second).then (compare rest others) := by
  induction first generalizing second with
  | nil =>
    rw [List.length_eq_zero_iff.1 same.symm]
    rfl
  | cons head first ih =>
    cases second with
    | nil => cases same
    | cons other second =>
      rw [List.cons_append, List.cons_append, List.compare_cons_cons, List.compare_cons_cons,
        ih (Nat.succ.inj same), Ordering.then_assoc]

/-- Texts of words of one length are ordered as what the words stand for, if the words are. -/
theorem compare_flatMap {word : α → List β} {length : Nat}
    (lengths : ∀ value, (word value).length = length + 1) {first second : List α}
    (ordered : ∀ value ∈ first, ∀ other ∈ second,
      compare (word value) (word other) = compare value other) :
    compare (first.flatMap word) (second.flatMap word) = compare first second := by
  -- A text with a word in it is not empty, so that it comes behind the empty one.
  have written (value : α) (rest : List α) :
      ∃ symbol more, (value :: rest).flatMap word = symbol :: more := by
    obtain ⟨symbol, more, spelt⟩ := List.exists_cons_of_length_eq_add_one (lengths value)
    exact ⟨symbol, more ++ rest.flatMap word, by rw [List.flatMap_cons, spelt, List.cons_append]⟩
  induction first generalizing second with
  | nil =>
    cases second with
    | nil => rfl
    | cons other second =>
      obtain ⟨symbol, more, text⟩ := written other second
      rw [text]
      rfl
  | cons head first ih =>
    cases second with
    | nil =>
      obtain ⟨symbol, more, text⟩ := written head first
      rw [text]
      rfl
    | cons other second =>
      have rest := ih fun value mem other mem' =>
        ordered value (List.mem_cons_of_mem _ mem) other (List.mem_cons_of_mem _ mem')
      rw [List.flatMap_cons, List.flatMap_cons, List.compare_cons_cons,
        compare_append_of_length_eq ((lengths head).trans (lengths other).symm), rest,
        ordered head List.mem_cons_self other List.mem_cons_self]

end

namespace Utf8

theorem compare_char (c d : Char) : compare c d = compare c.toNat d.toNat := by
  have less : c < d ↔ c.toNat < d.toNat := Iff.rfl
  have same : c = d ↔ c.toNat = d.toNat := Char.toNat_inj.symm
  change compareOfLessAndEq c d = compareOfLessAndEq c.toNat d.toNat
  simp only [compareOfLessAndEq, less, same]

theorem compare_chars (first second : List Char) :
    compare first second = compareOfLessAndEq first second := by
  induction first generalizing second with
  | nil => cases second <;> rfl
  | cons head first ih =>
    cases second with
    | nil => rfl
    | cons other second =>
      rw [List.compare_cons_cons, ih]
      change (compareOfLessAndEq head other).then _ = _
      simp only [compareOfLessAndEq, List.cons_lt_cons_iff, List.cons.injEq]
      by_cases less : head < other
      · simp only [less, true_or, if_true, Ordering.then]
      · by_cases same : head = other
        · subst same
          simp only [less, true_and, false_or, if_false, if_true, Ordering.then]
        · simp only [less, same, false_and, or_self, if_false, Ordering.then]

theorem compare_toList (first second : String) :
    compare first second = compare first.toList second.toList := by
  rw [compare_chars]
  change compareOfLessAndEq first second = _
  simp only [compareOfLessAndEq, String.lt_iff, String.toList_inj]

theorem compare_encode {first second : String} (ascii : ∀ c ∈ first.toList, c.toNat < 128)
    (ascii' : ∀ c ∈ second.toList, c.toNat < 128) :
    compare (encode first) (encode second) = compare first second := by
  have byte {c : Char} (small : c.toNat < 128) : (UInt8.ofNat c.toNat).toNat = c.toNat := by
    rw [UInt8.toNat_ofNat']
    omega
  rw [encode_of_ascii ascii, encode_of_ascii ascii', List.map_eq_flatMap, List.map_eq_flatMap,
    compare_toList]
  refine compare_flatMap (fun _ => rfl) fun c mem d mem' => ?_
  rw [List.compare_cons_cons, UInt8.compare_eq_toNat_compare_toNat, byte (ascii c mem),
    byte (ascii' d mem'), compare_char]
  exact Ordering.then_eq

end Utf8

namespace Hex

theorem compare_digit {value other : Nat} (bound : value < 16) (bound' : other < 16) :
    compare (digit value) (digit other) = compare value other := by
  have all : ∀ value other : Fin 16,
      compare (digit value) (digit other) = compare value.val other.val := by decide
  exact all ⟨value, bound⟩ ⟨other, bound'⟩

theorem compare_div_mod (first second : Nat) : compare first second =
    (compare (first / 16) (second / 16)).then (compare (first % 16) (second % 16)) := by
  simp only [Nat.compare_eq_ite_lt]
  grind [Ordering.then]

theorem compare_encodeByte (byte other : UInt8) :
    compare (encodeByte byte) (encodeByte other) = compare byte other := by
  have bound := byte.toNat_lt
  have bound' := other.toNat_lt
  rw [encodeByte, encodeByte, List.compare_cons_cons, List.compare_cons_cons,
    compare_digit (by omega) (by omega), compare_digit (by omega) (by omega),
    UInt8.compare_eq_toNat_compare_toNat, compare_div_mod byte.toNat other.toNat]
  exact congrArg _ Ordering.then_eq

theorem compare_encode (first second : Bytes) :
    compare (encode first) (encode second) = compare first second := by
  rw [Utf8.compare_toList, encode, encode, String.toList_ofList, String.toList_ofList]
  exact compare_flatMap (fun _ => rfl) fun byte _ other _ => compare_encodeByte byte other

theorem toNat_lt_of_mem_encode {bytes : Bytes} {c : Char} (mem : c ∈ (encode bytes).toList) :
    c.toNat < 128 := by
  rw [encode, String.toList_ofList] at mem
  exact toNat_lt_of_mem mem

end Hex

/-- The second list holds what the first one holds, and nothing in it comes before a lower one. -/
structure Sorts {α : Type} (order : α → α → Ordering) (list sorted : List α) : Prop where
  perm : sorted.Perm list
  ascending : sorted.Pairwise fun first second => (order first second).isLE

/-- There is one way to sort a list by an order which tells all values apart. -/
theorem sorts_iff {α : Type} {order : α → α → Ordering} [Std.TransCmp order]
    [Std.LawfulEqCmp order] {list sorted : List α} :
    Sorts order list sorted ↔
      sorted = list.mergeSort fun first second => (order first second).isLE := by
  have merged : Sorts order list (list.mergeSort fun first second => (order first second).isLE) := by
    refine ⟨List.mergeSort_perm _ _, List.pairwise_mergeSort (fun _ _ _ => ?_) ?_ list⟩
    · exact Std.TransCmp.isLE_trans
    · intro first second
      have swapped : order first second = (order second first).swap := Std.OrientedCmp.eq_swap
      rw [swapped]
      cases order second first <;> rfl
  constructor
  · intro sorts
    refine (sorts.perm.trans merged.perm.symm).eq_of_pairwise (fun first second _ _ low high => ?_)
      sorts.ascending merged.ascending
    exact Std.LawfulEqCmp.eq_of_compare (Std.OrientedCmp.isLE_antisymm low high)
  · rintro rfl
    exact merged

namespace IdentityKey

theorem compare_toOctets (key other : IdentityKey) :
    Ord.compare key.toOctets.toList other.toOctets.toList = Ord.compare key other :=
  compare_append_of_length_eq
    (key.verifyingKey.bytes.length_toList.trans other.verifyingKey.bytes.length_toList.symm) _ _

theorem compare_toHex (key other : IdentityKey) :
    Ord.compare key.toHex other.toHex = Ord.compare key other :=
  (Hex.compare_encode _ _).trans (compare_toOctets key other)

theorem compare_encode_toHex (key other : IdentityKey) :
    Ord.compare (Utf8.encode key.toHex) (Utf8.encode other.toHex) = Ord.compare key other :=
  (Utf8.compare_encode (fun _ => Hex.toNat_lt_of_mem_encode)
    fun _ => Hex.toNat_lt_of_mem_encode).trans (compare_toHex key other)

def ascending (peers : List IdentityKey) : List IdentityKey :=
  peers.mergeSort fun key other => (Ord.compare key other).isLE

/-- Two peers compare as their bytes do and as their texts do, character by character or byte by
byte, and as equal only if these are the same. A list of peers is sorted in one way only, whichever
of them it is sorted by. -/
theorem order_is_of_bytes_and_texts :
    (∀ key other : IdentityKey,
      Ord.compare key other = Ord.compare key.toOctets.toList other.toOctets.toList ∧
      Ord.compare key other = Ord.compare key.toHex other.toHex ∧
      Ord.compare key other = Ord.compare (Utf8.encode key.toHex) (Utf8.encode other.toHex) ∧
      (Ord.compare key other = .eq ↔ key.toOctets = other.toOctets) ∧
      (Ord.compare key other = .eq ↔ key.toHex = other.toHex)) ∧
    ∀ peers sorted : List IdentityKey,
      (Sorts Ord.compare peers sorted ↔ sorted = ascending peers) ∧
      (Sorts (compareOn fun key => key.toOctets.toList) peers sorted ↔ sorted = ascending peers) ∧
      (Sorts (compareOn toHex) peers sorted ↔ sorted = ascending peers) := by
  have bytes : (compareOn fun key => key.toOctets.toList) = (Ord.compare : IdentityKey → _) :=
    funext₂ compare_toOctets
  have texts : compareOn toHex = (Ord.compare : IdentityKey → _) := funext₂ compare_toHex
  refine ⟨fun key other => ⟨(compare_toOctets key other).symm, (compare_toHex key other).symm,
    (compare_encode_toHex key other).symm, ?_, ?_⟩, fun peers sorted => ?_⟩
  · rw [← compare_toOctets, Std.LawfulEqOrd.compare_eq_iff_eq]
    exact ⟨Octets.ext, congrArg _⟩
  · rw [← compare_toHex, Std.LawfulEqOrd.compare_eq_iff_eq]
  · rw [bytes, texts]
    exact ⟨sorts_iff, sorts_iff, sorts_iff⟩

end IdentityKey

end Confide
