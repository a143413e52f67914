import Confide.Proofs.Ratchet.Hearing

/-! What a party sends makes the list of turns grow, and nothing that was said of the shorter list
is lost. -/

set_option autoImplicit false

namespace Confide

namespace Turns

variable {S : Suite} {data : Bytes} {T : Turns} {count k r n i : Nat}
  {receiving : Option ReceivingChain} {cache : KeyCache} {inFlight : List Sent}

/-- Only turn `j` differs, and no more than by a key pair where there was none and by messages. -/
structure Grows (T T' : Turns) (count j : Nat) : Prop where
  keys : T'.keys = T.keys
  secret : ∀ n < count, T'.secret n = T.secret n
  sent : ∀ n, n ≠ j → T'.sent n = T.sent n
  more : j < count → T.sent j ≤ T'.sent j
  late : count ≤ j + 2

namespace Grows

variable {T' : Turns} {j : Nat} (grows : T.Grows T' count j)
include grows

theorem publicKey_eq (inside : n < count) : T'.publicKey S n = T.publicKey S n := by
  rw [publicKey, grows.secret n inside]
  rfl

theorem derived_eq (inside : n < count) : T'.derived S n = T.derived S n :=
  derived_congr S grows.keys fun i low => grows.secret i (by omega)

theorem chain_eq (inside : n < count) : T'.chain S n i = T.chain S n i := by
  rw [chain, grows.derived_eq inside]
  rfl

theorem messageKey_eq (inside : n < count) : T'.messageKey S n i = T.messageKey S n i := by
  rw [messageKey, grows.chain_eq inside]
  rfl

theorem entry_eq (inside : n < count) : T'.entry S n i = T.entry S n i := by
  rw [entry, grows.publicKey_eq inside, grows.messageKey_eq inside]
  rfl

theorem previous_eq (other : n ≠ j + 2) : T'.previous n = T.previous n := by
  match n with
  | 0 | 1 => rfl
  | n + 2 => exact grows.sent n fun same => other (congrArg (· + 2) same)

theorem header_eq (inside : n < count) : T'.header S n i = T.header S n i := by
  have late := grows.late
  rw [header, grows.publicKey_eq inside, grows.previous_eq (by omega)]
  rfl

theorem sent_le (inside : n < count) : T.sent n ≤ T'.sent n := by
  by_cases same : n = j
  · subst same
    exact grows.more inside
  · exact Nat.le_of_eq (grows.sent n same).symm

theorem short (short : ∀ n, T.sent n < 2 ^ 64) (last : T'.sent j < 2 ^ 64) (n : Nat) :
    T'.sent n < 2 ^ 64 := by
  by_cases same : n = j
  · rw [same]
    exact last
  · rw [grows.sent n same]
    exact short n

theorem carries {sent : Sent} (inside : n < count) (carries : T.Carries S data n i sent) :
    T'.Carries S data n i sent where
  number := Nat.lt_of_lt_of_le carries.number (grows.sent_le inside)
  header := by rw [grows.header_eq inside, carries.header]
  ciphertext := by
    rw [grows.header_eq inside, grows.messageKey_eq inside, carries.ciphertext]

theorem receives {count' : Nat} (longer : count ≤ count')
    (receives : T.Receives S data count k r receiving cache inFlight) :
    T'.Receives S data count' k r receiving cache inFlight where
  turn := Nat.le_trans receives.turn longer
  chain := by
    have turn := receives.turn
    rw [receives.chain]
    cases k with
    | zero => rfl
    | succ n =>
      simp only [receivingBefore, Turns.receiving, grows.publicKey_eq turn, grows.chain_eq turn]
  heard n same := by
    have turn := receives.turn
    exact Nat.le_trans (receives.heard n same) (grows.sent_le (by omega))
  cached entry kept := by
    obtain ⟨n, i, passed, number, rfl⟩ := receives.cached entry kept
    have turn := receives.turn
    have below := passed.lt
    exact ⟨n, i, passed, Nat.lt_of_lt_of_le number (grows.sent_le (by omega)),
      (grows.entry_eq (by omega)).symm⟩
  carried sent mem := by
    obtain ⟨n, i, carries, parity, inside, isCached⟩ := receives.carried sent mem
    exact ⟨n, i, grows.carries inside carries, parity, Nat.lt_of_lt_of_le inside longer,
      fun passed => by rw [grows.entry_eq inside]; exact isCached passed⟩
  apart := receives.apart

theorem receives_append {count' : Nat} (longer : count ≤ count')
    (receives : T.Receives S data count k r receiving cache inFlight)
    (sound : T'.Sound S count') (short : ∀ n, T'.sent n < 2 ^ 64) {sent : Sent}
    (carries : T'.Carries S data j i sent) (inside : j < count') (new : j < count → T.sent j ≤ i)
    (parity : j % 2 ≠ k % 2) (near : k ≤ j + 1) :
    T'.Receives S data count' k r receiving cache (inFlight ++ [sent]) := by
  have grown := grows.receives longer receives
  refine ⟨grown.turn, grown.chain, grown.heard, grown.cached, fun other mem => ?_, ?_⟩
  · rcases List.mem_append.1 mem with old | last
    · exact grown.carried other old
    · obtain rfl := List.mem_singleton.1 last
      refine ⟨j, i, carries, parity, inside, fun passed => ?_⟩
      -- The receiver is past no message which was not sent yet.
      rcases passed with before | ⟨same, low⟩
      · omega
      · have heard := receives.heard j same
        have turn := receives.turn
        have := new (by omega)
        omega
  · rw [List.map_append, List.map_singleton]
    refine List.nodup_append.2 ⟨grown.apart, List.nodup_singleton _, ?_⟩
    rintro _ old _ last rfl
    obtain ⟨other, mem, same⟩ := List.mem_map.1 old
    rw [List.mem_singleton.1 last, carries.header] at same
    obtain ⟨n', i', carries', -, inside', -⟩ := receives.carried other mem
    rw [carries'.header, ← grows.header_eq inside'] at same
    obtain ⟨sameKey, -, sameCounter⟩ := MessageHeader.mk.inj same
    have number' := carries'.number
    obtain ⟨rfl, rfl⟩ := sound.place_inj short (Nat.lt_of_lt_of_le inside' longer) inside
      (Nat.lt_of_lt_of_le number' (grows.sent_le inside')) carries.number sameKey sameCounter
    exact Nat.not_lt.2 (new inside') number'

theorem speaks {s : Session} (inside : k < count) (other : k ≠ j) (speaks : T.Speaks S k s) :
    T'.Speaks S k s where
  sending := by
    rw [speaks.sending, grows.secret k inside, grows.sent k other, grows.chain_eq inside]
  previousLength := by
    have late := grows.late
    rw [speaks.previousLength, grows.previous_eq (by omega)]
  root := by
    rw [speaks.root, root, root, grows.derived_eq inside]

theorem waits {s : Session} (inside : n < count) (other : n ≠ j + 1) (waits : T.Waits S n s) :
    T'.Waits S n s where
  ended := by
    rw [waits.ended, grows.previous_eq (by omega)]
  root := by
    rw [waits.root, root, root, grows.derived_eq inside]

end Grows

theorem speaks_of_sealNext {started next : Session} {message : RatchetMessage} {plaintext : Bytes}
    (isSealed : started.sealNext S (T.secret k) (T.chain S k i) plaintext = (next, message))
    (sent : T.sent k = i + 1) (previousLength : started.previousLength = .ofNat (T.previous k))
    (root : started.root = T.root S k) (same : started.associatedData = data) :
    T.Speaks S k next ∧ T.Carries S data k i ⟨message, plaintext⟩ ∧
      next = { started with sending := next.sending } := by
  cases isSealed
  refine ⟨⟨?_, previousLength, root⟩, ⟨by omega, ?_, ?_⟩, rfl⟩
  · rw [sent, next_chain]
  · rw [previousLength, counter_chain]
    rfl
  · rw [previousLength, counter_chain, same]
    rfl

def again (T : Turns) (k : Nat) : Turns :=
  { T with sent := Function.update T.sent k (T.sent k + 1) }

def begin (T : Turns) (k : Nat) (secret : SecretKey) : Turns :=
  { T with secret := Function.update T.secret k secret, sent := Function.update T.sent k 1 }

variable {secret : SecretKey}

theorem sent_again : (T.again k).sent k = T.sent k + 1 :=
  Function.update_self ..

theorem sent_begin : (T.begin k secret).sent k = 1 :=
  Function.update_self ..

theorem secret_begin : (T.begin k secret).secret k = secret :=
  Function.update_self ..

theorem ratchets_begin :
    (List.range (k + 1)).map (T.begin k secret).secret =
      (List.range k).map T.secret ++ [secret] := by
  rw [List.range_succ, List.map_append, List.map_singleton, secret_begin]
  congr 1
  refine List.map_congr_left fun n inside => ?_
  exact Function.update_of_ne (Nat.ne_of_lt (List.mem_range.1 inside)) ..

theorem grows_again (late : count ≤ k + 2) : T.Grows (T.again k) count k where
  keys := rfl
  secret _ _ := rfl
  sent _ other := Function.update_of_ne other ..
  more _ := by
    rw [sent_again]
    exact Nat.le_succ _
  late := late

theorem grows_begin : T.Grows (T.begin k secret) k k where
  keys := rfl
  secret _ before := Function.update_of_ne (Nat.ne_of_lt before) ..
  sent _ other := Function.update_of_ne other ..
  more inside := absurd inside (Nat.lt_irrefl k)
  late := Nat.le_add_right k 2

theorem derived_begin :
    (T.begin (k + 1) secret).derived S (k + 1) =
      Session.mixRoot S (T.root S k) (S.sharedSecret secret (T.publicKey S k)) := by
  have before : k < k + 1 := Nat.lt_succ_self k
  rw [derived, grows_begin.derived_eq before, grows_begin.publicKey_eq before, secret_begin]
  rfl

end Turns

end Confide
