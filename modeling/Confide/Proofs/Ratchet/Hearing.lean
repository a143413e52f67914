import Confide.Proofs.Ratchet.Conversation
import Confide.Proofs.Ratchet.Turns

/-! How a party hears what the other one sends. Its cache holds the keys of messages which it has
passed over; a message in flight is either still to come on a chain or waits there. -/

set_option autoImplicit false

namespace Confide

namespace Turns

variable (S : Suite)

/-- The key pairs of the first `count` turns agree and are told apart. -/
structure Sound (T : Turns) (count : Nat) : Prop where
  agree : ∀ m < count, ∀ n < count,
    S.agree (T.secret m) (T.publicKey S n) = .ok (S.sharedSecret (T.secret n) (T.publicKey S m))
  distinct : ∀ m < count, ∀ n < count, T.publicKey S m = T.publicKey S n → m = n

theorem Sound.of_ratchets {T : Turns} {count : Nat}
    (sound : S.Sound ((List.range count).map T.secret)) : T.Sound S count where
  agree m hm n hn := by
    have first := List.mem_map_of_mem (f := T.secret) (List.mem_range.2 hm)
    have second := List.mem_map_of_mem (f := T.secret) (List.mem_range.2 hn)
    simp only [publicKey, Suite.agree, sound.commutes _ first _ second,
      if_neg (sound.nonzero _ second _ first)]
  distinct m hm n hn same := by
    have distinct := sound.distinct
    rw [List.map_map] at distinct
    exact List.inj_on_of_nodup_map distinct (List.mem_range.2 hm) (List.mem_range.2 hn) same

variable {S} in
theorem Sound.place_inj {T : Turns} {count n n' i i' : Nat} (sound : T.Sound S count)
    (short : ∀ n, T.sent n < 2 ^ 64) (inside : n < count) (inside' : n' < count)
    (number : i < T.sent n) (number' : i' < T.sent n')
    (sameKey : T.publicKey S n = T.publicKey S n')
    (sameCounter : UInt64.ofNat i = UInt64.ofNat i') : n = n' ∧ i = i' :=
  ⟨sound.distinct n inside n' inside' sameKey,
    (ofNat_inj_of_lt (Nat.lt_trans number (short n)) (Nat.lt_trans number' (short n'))).1
      sameCounter⟩

variable (data : Bytes)

structure Carries (T : Turns) (n i : Nat) (sent : Sent) : Prop where
  number : i < T.sent n
  header : sent.message.header = T.header S n i
  ciphertext : sent.message.ciphertext =
    S.encrypt (T.messageKey S n i) ((T.header S n i).authenticated data) sent.plaintext

/-- A party whose own turn is `k`, and which has heard `r` messages of the turn before, counting the
skipped ones, is past this message. -/
def Passed (k r n i : Nat) : Prop := n + 1 < k ∨ n + 1 = k ∧ i < r

/-- The receiving half of a party: its cache holds keys of messages which it is past, among them
those of all such messages in flight. -/
structure Receives (T : Turns) (count k r : Nat) (receiving : Option ReceivingChain)
    (cache : KeyCache) (inFlight : List Sent) : Prop where
  turn : k ≤ count
  chain : receiving = T.receivingBefore S k r
  heard : ∀ n, n + 1 = k → r ≤ T.sent n
  cached : ∀ entry ∈ cache.keys, ∃ n i, Passed k r n i ∧ i < T.sent n ∧ entry = T.entry S n i
  carried : ∀ sent ∈ inFlight, ∃ n i, T.Carries S data n i sent ∧ n % 2 ≠ k % 2 ∧ n < count ∧
    (Passed k r n i → T.entry S n i ∈ cache.keys)
  apart : (inFlight.map (·.message.header)).Nodup

variable {S} {data} {T : Turns} {count k r n i : Nat} {receiving : Option ReceivingChain}
  {cache : KeyCache} {inFlight : List Sent}

theorem Passed.lt (passed : Passed k r n i) : n < k := by
  unfold Passed at passed
  omega

namespace Receives

theorem find?_of_passed (receives : T.Receives S data count k r receiving cache inFlight)
    (sound : T.Sound S count) (short : ∀ n, T.sent n < 2 ^ 64) (number : i < T.sent n)
    (passed : Passed k r n i) (mem : T.entry S n i ∈ cache.keys) :
    cache.find? (T.publicKey S n) (.ofNat i) = some (T.messageKey S n i) := by
  cases found : cache.find? (T.publicKey S n) (.ofNat i) with
  | none => exact absurd rfl (KeyCache.find?_eq_none_iff.1 found _ mem rfl)
  | some key =>
    obtain ⟨n', i', passed', number', same⟩ := receives.cached _ (KeyCache.mem_of_find? found)
    obtain ⟨sameKey, sameCounter, rfl⟩ := SkippedKey.mk.inj same
    have inside := Nat.lt_of_lt_of_le passed.lt receives.turn
    have inside' := Nat.lt_of_lt_of_le passed'.lt receives.turn
    obtain ⟨rfl, rfl⟩ :=
      sound.place_inj short inside inside' number number' sameKey sameCounter
    rfl

theorem find?_of_not_passed (receives : T.Receives S data count k r receiving cache inFlight)
    (sound : T.Sound S count) (short : ∀ n, T.sent n < 2 ^ 64) (number : i < T.sent n)
    (inside : n < count) (ahead : ¬Passed k r n i) :
    cache.find? (T.publicKey S n) (.ofNat i) = none := by
  refine KeyCache.find?_eq_none_iff.2 fun entry mem sameKey sameCounter => ahead ?_
  obtain ⟨n', i', passed', number', rfl⟩ := receives.cached entry mem
  have inside' := Nat.lt_of_lt_of_le passed'.lt receives.turn
  obtain ⟨rfl, rfl⟩ := sound.place_inj short inside' inside number' number sameKey sameCounter
  exact passed'

theorem remove (receives : T.Receives S data count k r receiving cache inFlight)
    (sound : T.Sound S count) (short : ∀ n, T.sent n < 2 ^ 64) {sent : Sent}
    (mem : sent ∈ inFlight) (carries : T.Carries S data n i sent) (inside : n < count) :
    T.Receives S data count k r receiving (cache.remove (T.publicKey S n) (.ofNat i))
      (inFlight.erase sent) where
  turn := receives.turn
  chain := receives.chain
  heard := receives.heard
  cached entry kept := receives.cached entry ((KeyCache.remove_sublist _ _ _).mem kept)
  carried other kept := by
    obtain ⟨n', i', carries', parity, inside', isCached⟩ :=
      receives.carried other (List.mem_of_mem_erase kept)
    refine ⟨n', i', carries', parity, inside', fun passed => ?_⟩
    refine KeyCache.mem_remove (isCached passed) ?_
    rintro ⟨sameKey, sameCounter⟩
    obtain ⟨rfl, rfl⟩ := sound.place_inj short inside' inside carries'.number carries.number
      sameKey sameCounter
    exact Sent.header_ne_of_mem_erase receives.apart mem kept
      (carries'.header.trans carries.header.symm)
  apart := receives.apart.sublist ((inFlight.erase_sublist).map _)

/-- A party moves on to message `i` of turn `n`, with the keys of all messages before it cached. -/
theorem advance (receives : T.Receives S data count k r receiving cache inFlight)
    {sent : Sent} (mem : sent ∈ inFlight) (carries : T.Carries S data n i sent) (inside : n < count)
    (parity : n % 2 ≠ k % 2) (further : ∀ {n' i'}, Passed k r n' i' → Passed (n + 1) (i + 1) n' i')
    {added : List SkippedKey} {grown : KeyCache} (keys : grown.keys = cache.keys ++ added)
    (mem_added : ∀ entry, entry ∈ added ↔ ∃ n' i', n' % 2 ≠ k % 2 ∧ ¬Passed k r n' i' ∧
      Passed (n + 1) i n' i' ∧ i' < T.sent n' ∧ entry = T.entry S n' i') :
    T.Receives S data count (n + 1) (i + 1) (some (T.receiving S n (i + 1))) grown
      (inFlight.erase sent) where
  turn := inside
  chain := rfl
  heard m same := by
    cases same
    exact carries.number
  cached entry kept := by
    rw [keys, List.mem_append] at kept
    rcases kept with old | new
    · obtain ⟨n', i', passed, number, same⟩ := receives.cached entry old
      exact ⟨n', i', further passed, number, same⟩
    · obtain ⟨n', i', -, -, passed, number, same⟩ := (mem_added entry).1 new
      exact ⟨n', i', passed.imp_right fun ⟨same, low⟩ => ⟨same, by omega⟩, number, same⟩
  carried other kept := by
    obtain ⟨n', i', carries', parity', inside', isCached⟩ :=
      receives.carried other (List.mem_of_mem_erase kept)
    refine ⟨n', i', carries', by omega, inside', fun passed => ?_⟩
    rw [keys, List.mem_append]
    by_cases before : Passed k r n' i'
    · exact .inl (isCached before)
    · refine .inr ((mem_added _).2 ⟨n', i', parity', before, ?_, carries'.number, rfl⟩)
      -- Only the delivered message itself lies between `i` and `i + 1`.
      refine passed.imp_right fun ⟨same, low⟩ => ⟨same, ?_⟩
      have apart : i' ≠ i := by
        rintro rfl
        cases same
        exact Sent.header_ne_of_mem_erase receives.apart mem kept
          (carries'.header.trans carries.header.symm)
      omega
  apart := receives.apart.sublist ((inFlight.erase_sublist).map _)

end Receives

structure Speaks (S : Suite) (T : Turns) (k : Nat) (s : Session) : Prop where
  sending : s.sending = .current (T.secret k) (T.chain S k (T.sent k))
  previousLength : s.previousLength = .ofNat (T.previous k)
  root : s.root = T.root S k

structure Waits (S : Suite) (T : Turns) (n : Nat) (s : Session) : Prop where
  ended : s.sending.ended? = some (.ofNat (T.previous (n + 1)))
  root : s.root = T.root S n

section
variable {s : Session} {sent : Sent} {config : RatchetConfig}

theorem key_advanced (ahead : r ≤ i) (bound : i < 2 ^ 64) :
    ((T.receiving S n r).chain.after S
      ((T.receiving S n r).gap (T.header S n i).counter)).messageKey S = T.messageKey S n i := by
  rw [header, gap_receiving S T (Nat.lt_of_le_of_lt ahead bound) bound, receiving, after_chain,
    Nat.add_sub_cancel' ahead]
  rfl

theorem advanced_eq (ahead : r ≤ i) (bound : i < 2 ^ 64) :
    s.advanced S (T.receiving S n r) (T.header S n i) config =
      { s with
        receiving := some (T.receiving S n (i + 1))
        skipped := s.skipped.insertAll ((T.receiving S n r).passed S (i - r))
          config.maxSkippedKeys.toNat } := by
  have last : (T.receiving S n r).after S (i - r + 1) = T.receiving S n (i + 1) := by
    rw [ReceivingChain.after, receiving, after_chain, ← Nat.add_assoc, Nat.add_sub_cancel' ahead]
    rfl
  simp only [Session.advanced, header,
    gap_receiving S T (Nat.lt_of_le_of_lt ahead bound) bound, last]

theorem Receives.takes_current
    (receives : T.Receives S data count k r s.receiving s.skipped inFlight)
    (sound : T.Sound S count) (short : ∀ n, T.sent n < 2 ^ 64)
    (mem : sent ∈ inFlight) (carries : T.Carries S data n i sent)
    (fits : s.Fits (T.header S n i) config) (turn : n + 1 = k) (ahead : r ≤ i) :
    ∃ taken, s.Takes S (T.header S n i) config taken (T.messageKey S n i) ∧
      taken = { s with receiving := taken.receiving, skipped := taken.skipped } ∧
      T.Receives S data count k (i + 1) taken.receiving taken.skipped (inFlight.erase sent) := by
  subst turn
  have inside : n < count := receives.turn
  have number := carries.number
  have bound : i < 2 ^ 64 := Nat.lt_trans number (short n)
  have unknown := receives.find?_of_not_passed sound short number inside
    (by unfold Passed; omega)
  have chain : s.receiving = some (T.receiving S n r) := receives.chain
  have route : s.route (T.header S n i) = .currentChain (T.receiving S n r) :=
    Session.route_of_current unknown chain rfl
  have gap : (T.receiving S n r).gap (T.header S n i).counter = i - r :=
    T.gap_receiving S (Nat.lt_of_le_of_lt ahead bound) bound
  have gaps : s.gaps (T.header S n i) = (0, i - r) := by
    rw [Session.gaps, route, ← gap]
  have counter : (T.header S n i).counter.toNat = i := T.toNat_counter_header S bound
  have reached : (T.receiving S n r).chain.counter.toNat ≤ (T.header S n i).counter.toNat := by
    rw [counter, receiving, counter_chain, UInt64.toNat_ofNat']
    omega
  have last := short n
  have near := fits.own
  have room := fits.room
  rw [gaps] at near room
  have takes : s.Takes S (T.header S n i) config _ _ :=
    .current unknown chain rfl reached (by rw [gap]; exact near) (by omega)
  rw [advanced_eq ahead bound, key_advanced ahead bound] at takes
  refine ⟨_, takes, rfl, ?_⟩
  refine receives.advance mem carries inside (by omega)
    (fun passed => by unfold Passed at passed ⊢; omega)
    (KeyCache.keys_insertAll (by rw [ReceivingChain.length_passed]; omega)) fun entry => ?_
  rw [mem_passed_receiving]
  constructor
  · rintro ⟨number, low, high, rfl⟩
    exact ⟨n, number, by omega, by unfold Passed; omega, by unfold Passed; omega, by omega, rfl⟩
  · rintro ⟨n', i', parity', before, after, -, rfl⟩
    unfold Passed at before after
    obtain rfl : n' = n := by omega
    exact ⟨i', by omega, by omega, rfl⟩

theorem Receives.takes_cached (config : RatchetConfig)
    (receives : T.Receives S data count k r s.receiving s.skipped inFlight)
    (sound : T.Sound S count) (short : ∀ n, T.sent n < 2 ^ 64)
    (mem : sent ∈ inFlight) (carries : T.Carries S data n i sent) (inside : n < count)
    (passed : Passed k r n i) (cached : T.entry S n i ∈ s.skipped.keys) :
    ∃ taken, s.Takes S (T.header S n i) config taken (T.messageKey S n i) ∧
      taken = { s with receiving := taken.receiving, skipped := taken.skipped } ∧
      T.Receives S data count k r taken.receiving taken.skipped (inFlight.erase sent) := by
  have found : s.skipped.find? (T.header S n i).ratchetKey (T.header S n i).counter =
      some (T.messageKey S n i) :=
    receives.find?_of_passed sound short carries.number passed cached
  exact ⟨_, .cached found, rfl, receives.remove sound short mem carries inside⟩

theorem Receives.mem_missing
    (receives : T.Receives S data count k r s.receiving s.skipped inFlight)
    (short : ∀ n, T.sent n < 2 ^ 64) {entry : SkippedKey} :
    entry ∈ s.missing S (T.header S (k + 1) i) ↔
      ∃ n i', n + 1 = k ∧ r ≤ i' ∧ i' < T.sent n ∧ entry = T.entry S n i' := by
  cases k with
  | zero =>
    have chain : s.receiving = none := receives.chain
    simp [Session.missing, chain]
  | succ n =>
    have chain : s.receiving = some (T.receiving S n r) := receives.chain
    have heard := receives.heard n rfl
    have bound := short n
    have gap : (T.receiving S n r).gap (T.header S (n + 2) i).previousLength = T.sent n - r :=
      T.gap_receiving S (by omega) bound
    simp only [Session.missing, chain, gap, mem_passed_receiving]
    constructor
    · rintro ⟨i', low, high, rfl⟩
      exact ⟨n, i', rfl, low, by omega, rfl⟩
    · rintro ⟨m, i', same, low, high, rfl⟩
      cases same
      exact ⟨i', low, by omega, rfl⟩

theorem turned_eq (speaks : T.Speaks S k s) (bound : i < 2 ^ 64) (length : UInt64) :
    s.turned S (T.header S (k + 1) i) config length
        (S.sharedSecret (T.secret (k + 1)) (T.publicKey S k)) =
      { s with
        root := T.root S (k + 1)
        sending := .stale length
        receiving := some (T.receiving S (k + 1) (i + 1))
        skipped := s.skipped.insertAll
          (s.missing S (T.header S (k + 1) i) ++ (T.receiving S (k + 1) 0).passed S i)
          config.maxSkippedKeys.toNat } := by
  have derived : Session.mixRoot S s.root (S.sharedSecret (T.secret (k + 1)) (T.publicKey S k)) =
      T.derived S (k + 1) := by
    rw [speaks.root]
    rfl
  have counter := T.toNat_counter_header S (n := k + 1) bound
  rw [Session.turned, derived, counter]
  rfl

theorem key_turned (speaks : T.Speaks S k s) (bound : i < 2 ^ 64) :
    ((Chain.start (Session.mixRoot S s.root
      (S.sharedSecret (T.secret (k + 1)) (T.publicKey S k))).2).after S
        (T.header S (k + 1) i).counter.toNat).messageKey S = T.messageKey S (k + 1) i := by
  rw [speaks.root, T.toNat_counter_header S bound]
  rfl

theorem Receives.takes_turn
    (receives : T.Receives S data count k r s.receiving s.skipped inFlight)
    (sound : T.Sound S count) (short : ∀ n, T.sent n < 2 ^ 64) (speaks : T.Speaks S k s)
    (mem : sent ∈ inFlight) (carries : T.Carries S data (k + 1) i sent) (inside : k + 1 < count)
    (fits : s.Fits (T.header S (k + 1) i) config) :
    ∃ taken, s.Takes S (T.header S (k + 1) i) config taken (T.messageKey S (k + 1) i) ∧
      taken.associatedData = s.associatedData ∧ T.Waits S (k + 1) taken ∧
      T.Receives S data count (k + 2) (i + 1) taken.receiving taken.skipped
        (inFlight.erase sent) := by
  have number := carries.number
  have last := short (k + 1)
  have bound : i < 2 ^ 64 := Nat.lt_trans number last
  have unknown := receives.find?_of_not_passed sound short carries.number inside
    (by unfold Passed; omega)
  have other : s.theirRatchetKey ≠ some (T.header S (k + 1) i).ratchetKey := by
    rw [Session.theirRatchetKey, receives.chain]
    cases k with
    | zero => simp [receivingBefore]
    | succ n =>
      intro same
      have := sound.distinct n (by omega) (n + 2) inside (Option.some.inj same)
      omega
  have counter : (T.header S (k + 1) i).counter.toNat = i := T.toNat_counter_header S bound
  have gaps : s.gaps (T.header S (k + 1) i) =
      ((s.missing S (T.header S (k + 1) i)).length, i) := by
    simp only [Session.gaps, Session.route_of_other unknown other, Session.length_missing, counter]
  have complete := fits.previous
  have near := fits.own
  have room := fits.room
  rw [gaps] at complete near room
  have takes : s.Takes S (T.header S (k + 1) i) config _ _ :=
    .turn unknown other speaks.sending complete (by rw [counter]; exact near)
      (sound.agree k (by omega) (k + 1) inside) (by omega)
  rw [turned_eq speaks bound, key_turned speaks bound] at takes
  refine ⟨_, takes, rfl, ⟨by rw [counter_chain]; rfl, rfl⟩, ?_⟩
  refine receives.advance mem carries inside (by omega)
    (fun passed => by unfold Passed at passed ⊢; omega)
    (KeyCache.keys_insertAll (by rw [List.length_append, ReceivingChain.length_passed]; omega))
    fun entry => ?_
  rw [List.mem_append, receives.mem_missing short, mem_passed_receiving]
  constructor
  · rintro (⟨n, i', rfl, low, high, rfl⟩ | ⟨i', -, high, rfl⟩)
    · exact ⟨n, i', by omega, by unfold Passed; omega, by unfold Passed; omega, high, rfl⟩
    · exact ⟨k + 1, i', by omega, by unfold Passed; omega, by unfold Passed; omega, by omega, rfl⟩
  · rintro ⟨n', i', parity, before, after, number, rfl⟩
    unfold Passed at before after
    by_cases new : n' = k + 1
    · subst new
      exact .inr ⟨i', by omega, by omega, rfl⟩
    · exact .inl ⟨n', i', by omega, by omega, number, rfl⟩

end

end Turns

end Confide
