import Confide.Proofs.Ratchet.Steps

/-! The turns of a conversation as both sides could list them. A turn has a key pair of the party
whose turn it is, the chain which both sides derive for it, and the number of messages sent on it.
Turn zero is the handshake's. -/

set_option autoImplicit false

namespace Confide

theorem ofNat_inj_of_lt {m n : Nat} (first : m < 2 ^ 64) (second : n < 2 ^ 64) :
    UInt64.ofNat m = UInt64.ofNat n ↔ m = n := by
  rw [← UInt64.toNat_inj, UInt64.toNat_ofNat', UInt64.toNat_ofNat', Nat.mod_eq_of_lt first,
    Nat.mod_eq_of_lt second]

structure Turns where
  keys : SharedKeys
  secret : Nat → SecretKey
  sent : Nat → Nat

namespace Turns

/-- The number of messages which were sent in the turn before last, by the same party. -/
def previous (T : Turns) : Nat → Nat
  | 0 | 1 => 0
  | n + 2 => T.sent n

variable (S : Suite)

def publicKey (T : Turns) (n : Nat) : PublicKey := S.publicKey (T.secret n)

def derived (T : Turns) : Nat → Octets 32 × Octets 32
  | 0 => (T.keys.root, T.keys.chain)
  | n + 1 =>
    Session.mixRoot S (T.derived n).1 (S.sharedSecret (T.secret (n + 1)) (T.publicKey S n))

def root (T : Turns) (n : Nat) : Octets 32 := (T.derived S n).1

def chain (T : Turns) (n i : Nat) : Chain := (Chain.start (T.derived S n).2).after S i

def messageKey (T : Turns) (n i : Nat) : SealingKey := (T.chain S n i).messageKey S

def header (T : Turns) (n i : Nat) : MessageHeader :=
  ⟨T.publicKey S n, .ofNat (T.previous n), .ofNat i⟩

def entry (T : Turns) (n i : Nat) : SkippedKey := ⟨T.publicKey S n, .ofNat i, T.messageKey S n i⟩

def receiving (T : Turns) (n i : Nat) : ReceivingChain := ⟨T.publicKey S n, T.chain S n i⟩

/-- What the party whose turn is `k` hears: the turn before, if there is one. -/
def receivingBefore (T : Turns) : (k i : Nat) → Option ReceivingChain
  | 0, _ => none
  | n + 1, i => some (T.receiving S n i)

theorem counter_chain (T : Turns) (n i : Nat) : (T.chain S n i).counter = .ofNat i := by
  simp [chain, Chain.counter_after, Chain.start]

theorem toNat_counter_header (T : Turns) {n i : Nat} (bound : i < 2 ^ 64) :
    (T.header S n i).counter.toNat = i :=
  UInt64.toNat_ofNat_of_lt' bound

theorem after_chain (T : Turns) (n i j : Nat) :
    (T.chain S n i).after S j = T.chain S n (i + j) :=
  (Chain.after_add S _ i j).symm

theorem next_chain (T : Turns) (n i : Nat) : (T.chain S n i).next S = T.chain S n (i + 1) :=
  (Chain.after_succ S _ i).symm

theorem gap_receiving (T : Turns) {n i j : Nat} (first : i < 2 ^ 64) (second : j < 2 ^ 64) :
    (T.receiving S n i).gap (.ofNat j) = j - i := by
  rw [ReceivingChain.gap, receiving, counter_chain, UInt64.toNat_ofNat', UInt64.toNat_ofNat',
    Nat.mod_eq_of_lt first, Nat.mod_eq_of_lt second]

theorem mem_passed_receiving {T : Turns} {n i j : Nat} {entry : SkippedKey} :
    entry ∈ (T.receiving S n i).passed S j ↔
      ∃ number, i ≤ number ∧ number < i + j ∧ entry = T.entry S n number := by
  have same (offset : Nat) : T.entry S n (i + offset) =
      ⟨T.publicKey S n, ((T.chain S n i).after S offset).counter,
        ((T.chain S n i).after S offset).messageKey S⟩ := by
    rw [after_chain, counter_chain]
    rfl
  simp only [ReceivingChain.passed, receiving, ← same, List.mem_map, List.mem_range]
  constructor
  · rintro ⟨offset, bound, rfl⟩
    exact ⟨i + offset, by omega, by omega, rfl⟩
  · rintro ⟨number, low, high, rfl⟩
    exact ⟨number - i, by omega, by rw [Nat.add_sub_cancel' low]⟩

theorem derived_congr {first second : Turns} (keys : second.keys = first.keys) {n : Nat}
    (secret : ∀ i ≤ n, second.secret i = first.secret i) :
    second.derived S n = first.derived S n := by
  -- A turn is derived from its own key pair and the one before.
  induction n with
  | zero => simp only [derived, keys]
  | succ n ih =>
    simp only [derived, publicKey, ih fun i low => secret i (by omega), secret (n + 1) (by omega),
      secret n (by omega)]

end Turns

end Confide
