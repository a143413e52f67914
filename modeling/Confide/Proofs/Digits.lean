import Confide.Bytes
import Mathlib.Algebra.Ring.Nat
import Mathlib.Data.List.Basic

/-! The digits with which a number is written, in text or as bytes. -/

set_option autoImplicit false

namespace Confide

/-- The digits of a number. Its first digit is zero only if it has no other. -/
structure Written (base n : Nat) (digits : List Nat) : Prop where
  chars : Nat.toDigits base n = digits.map Nat.digitChar
  below : ∀ digit ∈ digits, digit < base
  value : digits.foldl (fun value digit => base * value + digit) 0 = n
  proper : digits = [0] ∨ ∃ first rest, digits = first :: rest ∧ first ≠ 0

theorem exists_written {base : Nat} (big : 1 < base) (n : Nat) :
    ∃ digits, Written base n digits := by
  induction n using Nat.strongRecOn with
  | ind n ih =>
    by_cases small : n < base
    · refine ⟨[n], Nat.toDigits_of_lt_base small, by simpa using small, by simp, ?_⟩
      by_cases zero : n = 0
      · exact .inl (by rw [zero])
      · exact .inr ⟨n, [], rfl, zero⟩
    · have positive : 0 < n / base := Nat.div_pos (Nat.not_lt.1 small) (by omega)
      obtain ⟨digits, written⟩ := ih (n / base) (Nat.div_lt_self (by omega) big)
      have last : n % base < base := Nat.mod_lt n (by omega)
      refine ⟨digits ++ [n % base], ?_, ?_, ?_, ?_⟩
      · rw [Nat.toDigits_of_base_le big (Nat.not_lt.1 small), written.chars, List.map_append]
        rfl
      · intro digit mem
        rcases List.mem_append.1 mem with mem | mem
        · exact written.below digit mem
        · rwa [List.mem_singleton.1 mem]
      · rw [List.foldl_append, written.value]
        exact Nat.div_add_mod n base
      · rcases written.proper with rfl | ⟨first, rest, rfl, nonzero⟩
        · have value := written.value
          simp only [List.foldl_cons, List.foldl_nil] at value
          omega
        · exact .inr ⟨first, rest ++ [n % base], rfl, nonzero⟩

namespace Written

variable {base n : Nat} {digits : List Nat}

theorem ne_nil (written : Written base n digits) : digits ≠ [] := by
  rcases written.proper with rfl | ⟨first, rest, rfl, -⟩ <;> exact List.cons_ne_nil _ _

theorem length_le {k : Nat} (written : Written base n digits) (big : 1 < base) (positive : 0 < k)
    (bound : n < base ^ k) : digits.length ≤ k := by
  have length := (Nat.length_toDigits_le_iff big positive).2 bound
  rwa [written.chars, List.length_map] at length

end Written

namespace Bytes

theorem natLE_ofNatLE (n value : Nat) : natLE (ofNatLE n value) = value % 256 ^ n := by
  induction n generalizing value with
  | zero => simp [natLE, ofNatLE, Nat.mod_one]
  | succ n ih =>
    have byte : (UInt8.ofNat value).toNat = value % 256 := by simp
    rw [ofNatLE, natLE, ih, byte, Nat.pow_succ, Nat.mul_comm (256 ^ n) 256, Nat.mod_mul]

theorem natBE_ofNatBE (n value : Nat) : natBE (ofNatBE n value) = value % 256 ^ n := by
  simp [natBE, ofNatBE, natLE_ofNatLE]

end Bytes

end Confide
