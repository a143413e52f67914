import Confide.Ratchet.Chain
import Mathlib.Algebra.Ring.Nat

/-! Chains step by step: how far a chain is, and the keys on the way there. -/

set_option autoImplicit false

namespace Confide

theorem HasNext.toNat_add_one {number : UInt64} (short : HasNext number) :
    (number + 1).toNat = number.toNat + 1 := by
  rw [UInt64.toNat_add]
  change (_ + 1) % 2 ^ 64 = _
  omega

theorem HasNext.lt_add_one {number : UInt64} (short : HasNext number) : number < number + 1 := by
  rw [UInt64.lt_iff_toNat_lt, short.toNat_add_one]
  omega

namespace Chain

variable (S : Suite)

theorem after_add (chain : Chain) (m n : Nat) :
    chain.after S (m + n) = (chain.after S m).after S n := by
  induction m generalizing chain with
  | zero => simp [after]
  | succ m ih => rw [Nat.add_right_comm, after, ih, after]

theorem after_succ (chain : Chain) (n : Nat) :
    chain.after S (n + 1) = (chain.after S n).next S := by
  rw [after_add]
  rfl

theorem counter_after (chain : Chain) (n : Nat) :
    (chain.after S n).counter = chain.counter + .ofNat n := by
  induction n with
  | zero => simp [after]
  | succ n ih =>
    rw [after_succ, UInt64.ofNat_add, ← UInt64.add_assoc, ← ih]
    rfl

theorem toNat_counter_after {chain : Chain} {n : Nat} (bound : chain.counter.toNat + n < 2 ^ 64) :
    (chain.after S n).counter.toNat = chain.counter.toNat + n := by
  rw [counter_after, UInt64.toNat_add, UInt64.toNat_ofNat', Nat.mod_eq_of_lt (a := n) (by omega)]
  exact Nat.mod_eq_of_lt bound

theorem counter_after_sub {chain : Chain} {counter : UInt64}
    (reached : chain.counter.toNat ≤ counter.toNat) :
    (chain.after S (counter.toNat - chain.counter.toNat)).counter = counter := by
  have bound := counter.toNat_lt
  apply UInt64.toNat_inj.1
  rw [toNat_counter_after S (by omega)]
  omega

theorem keys_eq_map (chain : Chain) (n : Nat) :
    chain.keys S n =
      (List.range n).map fun i => ((chain.after S i).counter, (chain.after S i).messageKey S) := by
  induction n generalizing chain with
  | zero => rfl
  | succ n ih =>
    rw [keys, ih, List.range_succ_eq_map, List.map_cons, List.map_map]
    rfl

end Chain

end Confide
