import Confide.Proofs.Ratchet.Commuting
import Confide.Proofs.Ratchet.Metering

/-! Which messages are refused, and why. The limits are looked at before anything is derived, and
within them only the agreement and the seal decide. -/

set_option autoImplicit false

namespace Confide.Session

/-- By how much a message exceeds the number of keys which may be passed over. -/
inductive Exceeds (s : Session) (header : MessageHeader) (limit : Nat) : Nat → Prop where
  | current {receiving : ReceivingChain}
      (unknown : s.skipped.find? header.ratchetKey header.counter = none)
      (receives : s.receiving = some receiving) (same : receiving.ratchetKey = header.ratchetKey)
      (far : limit < header.counter.toNat - receiving.chain.counter.toNat) :
      Exceeds s header limit (header.counter.toNat - receiving.chain.counter.toNat)
  | previous {ratchet : SecretKey} {chain : Chain} {receiving : ReceivingChain}
      (unknown : s.skipped.find? header.ratchetKey header.counter = none)
      (sends : s.sending = .current ratchet chain)
      (receives : s.receiving = some receiving) (other : receiving.ratchetKey ≠ header.ratchetKey)
      (far : limit < header.previousLength.toNat - receiving.chain.counter.toNat) :
      Exceeds s header limit (header.previousLength.toNat - receiving.chain.counter.toNat)
  | next {ratchet : SecretKey} {chain : Chain}
      (unknown : s.skipped.find? header.ratchetKey header.counter = none)
      (sends : s.sending = .current ratchet chain)
      (other : s.theirRatchetKey ≠ some header.ratchetKey)
      (complete : ∀ receiving ∈ s.receiving,
        header.previousLength.toNat - receiving.chain.counter.toNat ≤ limit)
      (far : limit < header.counter.toNat) :
      Exceeds s header limit header.counter.toNat

/-- The messages for which there is no key, whatever may be passed over. -/
inductive Keyless (S : Suite) (s : Session) (header : MessageHeader) : Prop where
  | behind {receiving : ReceivingChain}
      (unknown : s.skipped.find? header.ratchetKey header.counter = none)
      (receives : s.receiving = some receiving) (same : receiving.ratchetKey = header.ratchetKey)
      (late : header.counter < receiving.chain.counter)
  | unexpected (unknown : s.skipped.find? header.ratchetKey header.counter = none)
      (other : s.theirRatchetKey ≠ some header.ratchetKey)
      (silent : ∀ ratchet chain, s.sending ≠ .current ratchet chain)
  | zero {ratchet : SecretKey} {chain : Chain}
      (unknown : s.skipped.find? header.ratchetKey header.counter = none)
      (other : s.theirRatchetKey ≠ some header.ratchetKey)
      (sends : s.sending = .current ratchet chain)
      (zero : S.sharedSecret ratchet header.ratchetKey = .replicate 32 0)

variable {S : Suite} {s : Session} {header : MessageHeader} {config : RatchetConfig}

theorem length_missing_le_iff {limit : Nat} :
    (s.missing S header).length ≤ limit ↔ ∀ receiving ∈ s.receiving,
      header.previousLength.toNat - receiving.chain.counter.toNat ≤ limit := by
  unfold missing
  cases s.receiving with
  | none => simp
  | some receiving => simp [ReceivingChain.gap]

theorem exists_exceeds_or_near {limit : Nat} {ratchet : SecretKey} {chain : Chain}
    (unknown : s.skipped.find? header.ratchetKey header.counter = none)
    (other : s.theirRatchetKey ≠ some header.ratchetKey)
    (sends : s.sending = .current ratchet chain) :
    (∃ gap, s.Exceeds header limit gap) ∨
      (s.missing S header).length ≤ limit ∧ header.counter.toNat ≤ limit := by
  by_cases complete : ∀ receiving ∈ s.receiving,
      header.previousLength.toNat - receiving.chain.counter.toNat ≤ limit
  · by_cases far : limit < header.counter.toNat
    · exact .inl ⟨_, .next unknown sends other complete far⟩
    · exact .inr ⟨length_missing_le_iff.2 complete, Nat.not_lt.1 far⟩
  · obtain ⟨receiving, incomplete⟩ := not_forall.1 complete
    obtain ⟨receives, far⟩ := Classical.not_imp.1 incomplete
    have apart : receiving.ratchetKey ≠ header.ratchetKey := fun same =>
      other (theirRatchetKey_eq_some_iff.2 ⟨receiving, receives, same⟩)
    exact .inl ⟨_, .previous unknown sends receives apart (Nat.not_le.1 far)⟩

theorem take_of_exceeds {gap : UInt64}
    (exceeds : s.Exceeds header config.maxSkip.toNat gap.toNat) :
    s.take S header config = .error (.tooManySkipped gap config.maxSkip) := by
  -- Which number it is comes out of the cases only if it is a variable.
  generalize amount : gap.toNat = n at exceeds
  have whole : gap = .ofNat n := by rw [← amount, UInt64.ofNat_toNat]
  subst whole
  cases exceeds with
  | @current receiving unknown receives same far =>
    have ahead : receiving.chain.counter ≤ header.counter := by
      apply UInt64.le_iff_toNat_le.2
      omega
    have beyond : config.maxSkip.toNat < receiving.gap header.counter := far
    rw [take_of_current S unknown receives same, if_neg (UInt64.not_lt.2 ahead),
      advance_eq S s config (UInt64.le_iff_toNat_le.1 ahead), if_pos beyond,
      ← UInt64.toNat_sub_of_le _ _ ahead, UInt64.ofNat_toNat]
  | @previous ratchet chain receiving unknown sends receives other far =>
    have apart : s.theirRatchetKey ≠ some header.ratchetKey := by
      simpa [theirRatchetKey, receives] using other
    have many : (s.missing S header).length =
        header.previousLength.toNat - receiving.chain.counter.toNat := by
      simp [missing, receives, ReceivingChain.gap]
    rw [take_of_other S unknown apart, turn_eq S s header config sends, if_pos (many ▸ far), ← many,
      length_missing, UInt64.ofNat_toNat]
  | next unknown sends other complete far =>
    rw [take_of_other S unknown other, turn_eq S s header config sends,
      if_neg (Nat.not_lt.2 (length_missing_le_iff.2 complete)), if_pos far, UInt64.ofNat_toNat]

theorem take_of_keyless (keyless : s.Keyless S header)
    (within : ∀ gap, ¬s.Exceeds header config.maxSkip.toNat gap) :
    s.take S header config = .error .decryptionFailed := by
  cases keyless with
  | behind unknown receives same late =>
    rw [take_of_current S unknown receives same, if_pos late]
  | unexpected unknown other silent =>
    rw [take_of_other S unknown other]
    cases sends : s.sending with
    | current ratchet chain => exact absurd sends (silent ratchet chain)
    | uninitialised => simp only [turn, sends]
    | stale length => simp only [turn, sends]
  | zero unknown other sends zero =>
    rcases exists_exceeds_or_near (S := S) unknown other sends with
      ⟨gap, exceeds⟩ | ⟨complete, near⟩
    · exact absurd exceeds (within gap)
    · rw [take_of_other S unknown other, turn_eq S s header config sends,
        if_neg (Nat.not_lt.2 complete), if_neg (Nat.not_lt.2 near), Suite.agree, if_pos zero]

variable (S s header config) in
theorem exceeds_or_keyless_or_takes :
    (∃ gap, s.Exceeds header config.maxSkip.toNat gap) ∨ s.Keyless S header ∨
      (∃ taken key, s.Takes S header config taken key) ∨
        ¬HasNext header.counter ∧ s.take S header config = .error .overflow := by
  cases unknown : s.skipped.find? header.ratchetKey header.counter with
  | some key => exact .inr (.inr (.inl ⟨_, _, .cached unknown⟩))
  | none =>
    by_cases current : s.theirRatchetKey = some header.ratchetKey
    · obtain ⟨receiving, receives, same⟩ := theirRatchetKey_eq_some_iff.1 current
      by_cases late : header.counter < receiving.chain.counter
      · exact .inr (.inl (.behind unknown receives same late))
      by_cases far : config.maxSkip.toNat < receiving.gap header.counter
      · exact .inl ⟨_, .current unknown receives same far⟩
      have ahead := UInt64.le_iff_toNat_le.1 (UInt64.not_lt.1 late)
      by_cases short : HasNext header.counter
      · exact .inr (.inr (.inl
          ⟨_, _, .current unknown receives same ahead (Nat.not_lt.1 far) short⟩))
      · refine .inr (.inr (.inr ⟨short, ?_⟩))
        rw [take_of_current S unknown receives same, if_neg late, advance_eq S s config ahead,
          if_neg far, if_neg short]
    cases sends : s.sending with
    | uninitialised => exact .inr (.inl (.unexpected unknown current (by simp [sends])))
    | stale length => exact .inr (.inl (.unexpected unknown current (by simp [sends])))
    | current ratchet chain =>
      rcases exists_exceeds_or_near (S := S) unknown current sends with
        exceeds | ⟨complete, near⟩
      · exact .inl exceeds
      by_cases zero : S.sharedSecret ratchet header.ratchetKey = .replicate 32 0
      · exact .inr (.inl (.zero unknown current sends zero))
      have agreed := Suite.agree_eq_ok_iff.2 ⟨rfl, zero⟩
      by_cases short : HasNext header.counter
      · exact .inr (.inr (.inl ⟨_, _, .turn unknown current sends complete near agreed short⟩))
      · refine .inr (.inr (.inr ⟨short, ?_⟩))
        simp only [take_of_other S unknown current, turn_eq S s header config sends,
          if_neg (Nat.not_lt.2 complete), if_neg (Nat.not_lt.2 near), agreed, if_neg short]

theorem Exceeds.lt {limit gap : Nat} (exceeds : s.Exceeds header limit gap) : gap < 2 ^ 64 := by
  have counter := header.counter.toNat_lt
  have previous := header.previousLength.toNat_lt
  cases exceeds <;> omega

variable (S s header config) in
/-- A message exceeds a limit, or there is a key for it or none, whatever the limits are. Only at
the last number of a chain the key cannot be taken. -/
theorem take_cases :
    (∃ gap : UInt64, s.Exceeds header config.maxSkip.toNat gap.toNat ∧
        s.take S header config = .error (.tooManySkipped gap config.maxSkip)) ∨
      (∀ gap, ¬s.Exceeds header config.maxSkip.toNat gap) ∧
        (s.Keyless S header ∧ s.take S header config = .error .decryptionFailed ∨
          (∃ taken key, s.Takes S header config taken key ∧
            s.take S header config = .ok (taken, key)) ∨
          ¬HasNext header.counter ∧ s.take S header config = .error .overflow) := by
  by_cases exceeds : ∃ gap, s.Exceeds header config.maxSkip.toNat gap
  · obtain ⟨gap, exceeds⟩ := exceeds
    rw [← UInt64.toNat_ofNat_of_lt' exceeds.lt] at exceeds
    exact .inl ⟨_, exceeds, take_of_exceeds exceeds⟩
  · have within := not_exists.1 exceeds
    rcases (exceeds_or_keyless_or_takes S s header config).resolve_left exceeds with
      keyless | ⟨taken, key, takes⟩ | last
    · exact .inr ⟨within, .inl ⟨keyless, take_of_keyless keyless within⟩⟩
    · exact .inr ⟨within, .inr (.inl ⟨taken, key, takes, (take_eq_ok_iff S).2 takes⟩)⟩
    · exact .inr ⟨within, .inr (.inr last)⟩

theorem take_eq_tooManySkipped_iff {gap limit : UInt64} :
    s.take S header config = .error (.tooManySkipped gap limit) ↔
      limit = config.maxSkip ∧ s.Exceeds header config.maxSkip.toNat gap.toNat := by
  constructor
  · intro refused
    rcases take_cases S s header config with
      ⟨gap, exceeds, outcome⟩ | ⟨-, ⟨-, outcome⟩ | ⟨_, _, -, outcome⟩ | ⟨-, outcome⟩⟩ <;>
      rw [outcome] at refused <;> cases refused
    exact ⟨rfl, exceeds⟩
  · rintro ⟨rfl, exceeds⟩
    exact take_of_exceeds exceeds

theorem take_ne_corruptedState : s.take S header config ≠ .error .corruptedState := by
  rcases take_cases S s header config with
    ⟨gap, -, outcome⟩ | ⟨-, ⟨-, outcome⟩ | ⟨_, _, -, outcome⟩ | ⟨-, outcome⟩⟩ <;>
    rw [outcome] <;> nofun

variable {message : RatchetMessage}

/-- Opening a message fails in one way only. -/
theorem decrypt_eq_error_iff (error : Error) (other : error ≠ .decryptionFailed) :
    s.decrypt S message config = .error error ↔ s.take S message.header config = .error error := by
  unfold decrypt
  cases s.take S message.header config with
  | error => simp only [Except.error.injEq]
  | ok taken =>
    simp only [reduceCtorEq, iff_false]
    cases S.decrypt? taken.2 (message.header.authenticated taken.1.associatedData)
      message.ciphertext with
    | none => exact fun same => other (Except.error.inj same).symm
    | some plaintext => nofun

variable (S) in
structure Passable (s : Session) (header : MessageHeader) (config : RatchetConfig) : Prop where
  current : ∀ receiving, s.skipped.find? header.ratchetKey header.counter = none →
    s.receiving = some receiving → receiving.ratchetKey = header.ratchetKey →
      ∃ passed, skip S receiving header.counter s.skipped config = .ok passed
  previous : ∀ ratchet chain, s.skipped.find? header.ratchetKey header.counter = none →
    s.theirRatchetKey ≠ some header.ratchetKey → s.sending = .current ratchet chain →
      ∃ cache, s.skipPrevious S header config = .ok cache
  next : ∀ ratchet chain, s.skipped.find? header.ratchetKey header.counter = none →
    s.theirRatchetKey ≠ some header.ratchetKey → s.sending = .current ratchet chain →
      ∀ key cache, ∃ passed,
        skip S ⟨header.ratchetKey, .start key⟩ header.counter cache config = .ok passed

theorem exists_skip {receiving : ReceivingChain} {target : UInt64} (cache : KeyCache)
    (near : receiving.gap target ≤ config.maxSkip.toNat) :
    ∃ passed, skip S receiving target cache config = .ok passed := by
  rw [skip_eq, if_neg (Nat.not_lt.2 near)]
  exact ⟨_, rfl⟩

theorem passable_of_within (within : ∀ gap, ¬s.Exceeds header config.maxSkip.toNat gap) :
    s.Passable S header config where
  current receiving unknown receives same := by
    apply exists_skip
    by_contra far
    exact within _ (.current unknown receives same (Nat.not_le.1 far))
  previous ratchet chain unknown other sends := by
    rcases exists_exceeds_or_near (S := S) unknown other sends with ⟨gap, exceeds⟩ | ⟨complete, -⟩
    · exact absurd exceeds (within gap)
    · exact ⟨_, skipPrevious_eq S complete⟩
  next ratchet chain unknown other sends key cache := by
    rcases exists_exceeds_or_near (S := S) unknown other sends with ⟨gap, exceeds⟩ | ⟨-, near⟩
    · exact absurd exceeds (within gap)
    · exact exists_skip cache near

/-- What comes of a message whose key is taken: it is opened if it is authentic. -/
inductive Decides (S : Suite) (s : Session) (message : RatchetMessage) (key : SealingKey)
    (next : Session) : Except Error (Session × Bytes) → Prop where
  | opened {plaintext : Bytes}
      (authentic : S.decrypt? key (message.header.authenticated s.associatedData)
        message.ciphertext = some plaintext) :
      Decides S s message key next (.ok (next, plaintext))
  | refused
      (foreign : S.decrypt? key (message.header.authenticated s.associatedData)
        message.ciphertext = none) :
      Decides S s message key next (.error .decryptionFailed)

theorem decides_of_takes {taken : Session} {key : SealingKey}
    (takes : s.Takes S message.header config taken key) :
    s.Decides S message key { taken with pending := none } (s.decrypt S message config) := by
  have outcome : s.take S message.header config = .ok (taken, key) := (take_eq_ok_iff S).2 takes
  cases opened : S.decrypt? key (message.header.authenticated s.associatedData)
    message.ciphertext with
  | none =>
    simp only [decrypt, outcome, takes.associatedData, opened]
    exact .refused opened
  | some plaintext =>
    simp only [decrypt, outcome, takes.associatedData, opened]
    exact .opened opened

/-- The limits decide before anything is derived. Within them no step fails of itself, so a message
is refused only because it has no key or is not authentic. -/
theorem limits_decided_first (S : Suite) (s : Session) (message : RatchetMessage)
    (config : RatchetConfig) :
    let recorded := Metered.decrypt S s message config
    s.decrypt S message config ≠ .error .corruptedState ∧
      (∀ gap limit, s.decrypt S message config = .error (.tooManySkipped gap limit) ↔
        limit = config.maxSkip ∧ s.Exceeds message.header config.maxSkip.toNat gap.toNat) ∧
      (∀ gap limit, s.decrypt S message config = .error (.tooManySkipped gap limit) →
        recorded.derived = []) ∧
      ((∀ gap, ¬s.Exceeds message.header config.maxSkip.toNat gap) →
        s.Passable S message.header config ∧
          (HasNext message.header.counter →
            s.Keyless S message.header ∧ s.decrypt S message config = .error .decryptionFailed ∨
              ∃ taken key, s.Takes S message.header config taken key ∧
                s.Decides S message key { taken with pending := none }
                  (s.decrypt S message config))) ∧
      recorded.messageKeys.length ≤ 2 * config.maxSkip.toNat + 1 ∧
      recorded.result = (s.decrypt S message config).mapError .refused := by
  refine ⟨?_, ?_, ?_, ?_, Metered.length_messageKeys_decrypt_le, Metered.result_decrypt⟩
  · rw [Ne, decrypt_eq_error_iff .corruptedState nofun]
    exact take_ne_corruptedState
  · intro gap limit
    rw [decrypt_eq_error_iff (.tooManySkipped gap limit) nofun, take_eq_tooManySkipped_iff]
  · intro gap limit refused
    rw [decrypt_eq_error_iff (.tooManySkipped gap limit) nofun] at refused
    rw [Metered.derived_decrypt, Metered.take_of_refused refused nofun]
    rfl
  · intro within
    refine ⟨passable_of_within within, fun short => ?_⟩
    rcases take_cases S s message.header config with
      ⟨gap, exceeds, -⟩ | ⟨-, ⟨keyless, outcome⟩ | ⟨taken, key, takes, -⟩ | ⟨last, -⟩⟩
    · exact absurd exceeds (within _)
    · refine .inl ⟨keyless, ?_⟩
      rw [decrypt, outcome]
    · exact .inr ⟨taken, key, takes, decides_of_takes takes⟩
    · exact absurd short last

/-- The first message which a responder hears of may be message 1, but not message 1001. -/
theorem responder_limits :
    ∃ (s next : Session) (far near : RatchetMessage), s.Starts ∧
      s.decrypt .standard far {} = .error (.tooManySkipped 1001 1000) ∧
      (Metered.decrypt .standard s far {}).derived = [] ∧
      s.Passable .standard near.header {} ∧
      (Metered.decrypt .standard s near {}).result = .ok (next, [1]) := by
  let peer : PublicKey := ⟨.replicate 32 9⟩
  let chain : Chain := .start (.replicate 32 2)
  let s : Session := .responder ⟨⟨.replicate 32 1, .replicate 32 2⟩, []⟩
    ⟨⟨⟨.replicate 32 0⟩, peer⟩, peer, 0, none⟩
  let far : RatchetMessage := ⟨⟨peer, 0, 1001⟩, none, []⟩
  let header : MessageHeader := ⟨peer, 0, 1⟩
  let near : RatchetMessage := ⟨header, none,
    Suite.standard.encrypt ((chain.next .standard).messageKey .standard)
      (header.authenticated []) [1]⟩
  let next : Session := { s.advanced .standard ⟨peer, chain⟩ header {} with pending := none }
  have exceeds : s.Exceeds far.header 1000 1001 := by
    have receives : s.receiving = some ⟨peer, chain⟩ := rfl
    have unknown : s.skipped.find? peer 1001 = none := rfl
    have beyond : 1000 < far.header.counter.toNat - chain.counter.toNat := by
      change 1000 < 1001 - 0
      decide
    exact @Exceeds.current s far.header 1000 _ unknown receives rfl beyond
  have within : ∀ gap, ¬s.Exceeds near.header 1000 gap := by
    intro gap exceeds
    cases exceeds with
    | current _ receives _ far =>
      cases receives
      change 1000 < 1 - 0 at far
      omega
    | previous _ sends => cases sends
    | next _ sends => cases sends
  have short : HasNext near.header.counter := by
    change 1 < 2 ^ 64 - 1
    decide
  have opens : s.decrypt .standard near {} = .ok (next, [1]) := by
    refine (decrypt_eq_ok_iff .standard).2
      ⟨_, _, .current rfl rfl rfl (Nat.zero_le _) ?_ short, ?_, rfl⟩
    · change 1 ≤ 1000
      decide
    · exact Suite.standard_decrypt?_encrypt ((chain.next .standard).messageKey .standard) _ [1]
  obtain ⟨-, refused, first, -⟩ := limits_decided_first .standard s far {}
  obtain ⟨-, -, -, decided, -, recorded⟩ := limits_decided_first .standard s near {}
  have tooMany := (refused 1001 1000).2 ⟨rfl, exceeds⟩
  refine ⟨s, next, far, near, .responder _ _, tooMany, first 1001 1000 tooMany,
    (decided within).1, ?_⟩
  rw [recorded, opens]
  rfl

end Confide.Session
