import Confide.Proofs.Ratchet.Cache

/-! Decryption with a record of everything that is derived on the way. Here each step can fail in
its own right: the key derivation may refuse, a number may have no next one, a key or a chain which
was seen may be gone. What comes of it is the same as without a record. -/

set_option autoImplicit false

namespace Confide

/-- Key derivation as the library offers it, up to a greatest length. -/
def Suite.derive? (S : Suite) (salt material info : Bytes) (n : Nat) :
    Except Hkdf.Error (Octets n) :=
  if n ≤ Hkdf.maxLength then .ok (S.derive salt material info n) else .error (.invalidLength n)

theorem KeyCache.any_isFor (cache : KeyCache) (ratchetKey : PublicKey) (counter : UInt64) :
    cache.keys.any (isFor ratchetKey counter) = (cache.find? ratchetKey counter).isSome := by
  rw [find?, Option.isSome_map, List.isSome_find?]

namespace ReceivingChain

variable (S : Suite) (receiving : ReceivingChain)

theorem passed_succ (n : Nat) : receiving.passed S (n + 1) =
    ⟨receiving.ratchetKey, receiving.chain.counter, receiving.chain.messageKey S⟩ ::
      (receiving.after S 1).passed S n := by
  rw [Nat.add_comm, passed_add]
  rfl

end ReceivingChain

namespace Session

inductive Derivation where
  | message (key : SkippedKey)
  | chain
  | root
  deriving DecidableEq

def Derivation.messageKey? : Derivation → Option SkippedKey
  | .message key => some key
  | _ => none

inductive Fault where
  | refused (error : Error)
  | derivation (error : Hkdf.Error)
  deriving DecidableEq

structure Metered (α : Type) where
  result : Except Fault α
  /-- What was derived, in this order. -/
  derived : List Derivation

namespace Metered

variable {α β : Type}

def after (derived : List Derivation) (metered : Metered α) : Metered α :=
  ⟨metered.result, derived ++ metered.derived⟩

instance : Monad Metered where
  pure value := ⟨.ok value, []⟩
  bind metered next :=
    match metered.result with
    | .error fault => ⟨.error fault, metered.derived⟩
    | .ok value => (next value).after metered.derived

def fail (fault : Fault) : Metered α := ⟨.error fault, []⟩

@[simp] theorem pure_eq (value : α) : (pure value : Metered α) = ⟨.ok value, []⟩ := rfl

@[simp] theorem bind_ok (value : α) (derived : List Derivation) (next : α → Metered β) :
    (⟨.ok value, derived⟩ : Metered α) >>= next = (next value).after derived := rfl

def messageKeys (metered : Metered α) : List SkippedKey :=
  metered.derived.filterMap (·.messageKey?)

variable (S : Suite)

def derive (salt material info : Bytes) (n : Nat) (what : Octets n → Derivation) :
    Metered (Octets n) :=
  match S.derive? salt material info n with
  | .error error => fail (.derivation error)
  | .ok output => ⟨.ok output, [what output]⟩

def successor (counter : UInt64) : Metered UInt64 :=
  if HasNext counter then pure (counter + 1) else fail (.refused .overflow)

def nextKey (ratchetKey : PublicKey) (chain : Chain) : Metered (SealingKey × Chain) := do
  let material ← derive S [] chain.key.toList Chain.messageInfo 56 fun material =>
    .message ⟨ratchetKey, chain.counter, ⟨.left 32 24 material, .right 32 24 material⟩⟩
  let key ← derive S [] chain.key.toList Chain.chainInfo 32 fun _ => .chain
  let counter ← successor chain.counter
  pure (⟨.left 32 24 material, .right 32 24 material⟩, ⟨key, counter⟩)

def passOver (ratchetKey : PublicKey) (capacity : Nat) :
    (n : Nat) → Chain → KeyCache → Metered (Chain × KeyCache)
  | 0, chain, cache => pure (chain, cache)
  | n + 1, chain, cache => do
    let (messageKey, next) ← nextKey S ratchetKey chain
    passOver ratchetKey capacity n next
      (cache.insert ⟨ratchetKey, chain.counter, messageKey⟩ capacity)

def skip (receiving : ReceivingChain) (target : UInt64) (cache : KeyCache)
    (config : RatchetConfig) : Metered (ReceivingChain × KeyCache) :=
  if target ≤ receiving.chain.counter then pure (receiving, cache)
  else
    let gap := target - receiving.chain.counter
    if gap > config.maxSkip then fail (.refused (.tooManySkipped gap config.maxSkip))
    else do
      let (chain, cache) ← passOver S receiving.ratchetKey config.maxSkippedKeys.toNat gap.toNat
        receiving.chain cache
      pure ({ receiving with chain }, cache)

def advance (s : Session) (receiving : ReceivingChain) (header : MessageHeader)
    (config : RatchetConfig) : Metered (Session × SealingKey) := do
  let (receiving, skipped) ← skip S receiving header.counter s.skipped config
  let (messageKey, chain) ← nextKey S receiving.ratchetKey receiving.chain
  pure ({ s with receiving := some { receiving with chain }, skipped }, messageKey)

def takeCached (s : Session) (header : MessageHeader) : Metered (Session × SealingKey) :=
  match s.skipped.find? header.ratchetKey header.counter with
  | none => fail (.refused .corruptedState)
  | some key =>
    pure ({ s with skipped := s.skipped.remove header.ratchetKey header.counter }, key)

def takeCurrent (s : Session) (header : MessageHeader) (config : RatchetConfig) :
    Metered (Session × SealingKey) :=
  match s.receiving with
  | none => fail (.refused .corruptedState)
  | some receiving =>
    if header.counter < receiving.chain.counter then fail (.refused .decryptionFailed)
    else advance S s receiving header config

def skipPrevious (s : Session) (header : MessageHeader) (config : RatchetConfig) :
    Metered KeyCache :=
  match s.receiving with
  | none => pure s.skipped
  | some receiving => do
    let (_, skipped) ← skip S receiving header.previousLength s.skipped config
    pure skipped

def mixRoot (root shared : Octets 32) : Metered (Octets 32 × Octets 32) := do
  let keys ← derive S root.toList shared.toList rootInfo 64 fun _ => .root
  pure (.left 32 32 keys, .right 32 32 keys)

def takeTurn (s : Session) (header : MessageHeader) (config : RatchetConfig) :
    Metered (Session × SealingKey) :=
  match s.sending with
  | .current ratchet chain =>
    let gap := s.previousGap header
    if gap > config.maxSkip then fail (.refused (.tooManySkipped gap config.maxSkip))
    else if header.counter > config.maxSkip then
      fail (.refused (.tooManySkipped header.counter config.maxSkip))
    else
      match S.agree ratchet header.ratchetKey with
      | .error _ => fail (.refused .decryptionFailed)
      | .ok shared => do
        let skipped ← skipPrevious S s header config
        let (root, chainKey) ← mixRoot S s.root shared
        let s := { s with root, sending := .stale chain.counter, skipped }
        advance S s ⟨header.ratchetKey, .start chainKey⟩ header config
  | _ => fail (.refused .decryptionFailed)

def take (s : Session) (header : MessageHeader) (config : RatchetConfig) :
    Metered (Session × SealingKey) :=
  if s.skipped.keys.any (KeyCache.isFor header.ratchetKey header.counter) then takeCached s header
  else if s.theirRatchetKey = some header.ratchetKey then takeCurrent S s header config
  else takeTurn S s header config

def decrypt (s : Session) (message : RatchetMessage) (config : RatchetConfig) :
    Metered (Session × Bytes) := do
  let (s, key) ← take S s message.header config
  match S.decrypt? key (message.header.authenticated s.associatedData) message.ciphertext with
  | none => fail (.refused .decryptionFailed)
  | some plaintext => pure ({ s with pending := none }, plaintext)

section
variable {S}

theorem derive_eq {salt material info : Bytes} {n : Nat} (short : n ≤ Hkdf.maxLength)
    (what : Octets n → Derivation) :
    derive S salt material info n what =
      ⟨.ok (S.derive salt material info n), [what (S.derive salt material info n)]⟩ := by
  unfold derive Suite.derive?
  rw [if_pos short]

theorem mixRoot_eq (root shared : Octets 32) :
    mixRoot S root shared = ⟨.ok (Session.mixRoot S root shared), [.root]⟩ := by
  unfold mixRoot
  rw [derive_eq (by decide)]
  rfl

/-- A number for the message after it is all that can be missing. -/
theorem nextKey_eq (ratchetKey : PublicKey) (chain : Chain) :
    nextKey S ratchetKey chain =
      ⟨if HasNext chain.counter then .ok (chain.messageKey S, chain.next S)
        else .error (.refused .overflow),
        [.message ⟨ratchetKey, chain.counter, chain.messageKey S⟩, .chain]⟩ := by
  unfold nextKey successor
  rw [derive_eq (by decide), derive_eq (by decide)]
  by_cases short : HasNext chain.counter
  · rw [if_pos short, if_pos short]
    rfl
  · rw [if_neg short, if_neg short]
    rfl

end

def steps (keys : List SkippedKey) : List Derivation :=
  keys.flatMap fun key => [.message key, .chain]

@[simp] theorem steps_append (first second : List SkippedKey) :
    steps (first ++ second) = steps first ++ steps second :=
  List.flatMap_append

variable {S}

@[simp] theorem filterMap_steps (keys : List SkippedKey) :
    (steps keys).filterMap (·.messageKey?) = keys := by
  induction keys with
  | nil => rfl
  | cons key rest ih => exact congrArg (key :: ·) ih

theorem passOver_eq (capacity : Nat) {n : Nat} {receiving : ReceivingChain}
    (bound : receiving.chain.counter.toNat + n < 2 ^ 64) (cache : KeyCache) :
    passOver S receiving.ratchetKey capacity n receiving.chain cache =
      ⟨.ok ((receiving.after S n).chain, cache.insertAll (receiving.passed S n) capacity),
        steps (receiving.passed S n)⟩ := by
  induction n generalizing receiving cache with
  | zero => rfl
  | succ n ih =>
    have number : (receiving.after S 1).chain.counter.toNat = receiving.chain.counter.toNat + 1 :=
      ReceivingChain.toNat_counter_after (by omega)
    have rest := @ih (receiving.after S 1) (by omega)
      (cache.insert ⟨receiving.ratchetKey, receiving.chain.counter, receiving.chain.messageKey S⟩
        capacity)
    rw [passOver, nextKey_eq, if_pos (by omega), bind_ok, ReceivingChain.passed_succ]
    exact congrArg (after _) rest

theorem skip_eq (receiving : ReceivingChain) (target : UInt64) (cache : KeyCache)
    (config : RatchetConfig) :
    skip S receiving target cache config =
      if config.maxSkip.toNat < receiving.gap target then
        fail (.refused (.tooManySkipped (target - receiving.chain.counter) config.maxSkip))
      else
        ⟨.ok (receiving.after S (receiving.gap target),
            cache.insertAll (receiving.passed S (receiving.gap target))
              config.maxSkippedKeys.toNat),
          steps (receiving.passed S (receiving.gap target))⟩ := by
  unfold skip
  by_cases reached : target ≤ receiving.chain.counter
  · have none : receiving.gap target = 0 := Nat.sub_eq_zero_of_le (UInt64.le_iff_toNat_le.1 reached)
    rw [if_pos reached, none, if_neg (Nat.not_lt_zero _)]
    rfl
  · have whole : (target - receiving.chain.counter).toNat = receiving.gap target :=
      UInt64.toNat_sub_of_le _ _ (UInt64.le_of_lt (UInt64.not_le.1 reached))
    -- A message which is passed over comes before another one, so that no counter runs over here.
    simp only [if_neg reached, gt_iff_lt, UInt64.lt_iff_toNat_lt, whole,
      passOver_eq _ (receiving.counter_add_gap_lt target)]
    split
    · rfl
    · simp [after, ReceivingChain.after]

section
variable {s : Session} {receiving : ReceivingChain} {header : MessageHeader}
  {config : RatchetConfig}

theorem advance_of_far (far : config.maxSkip.toNat < receiving.gap header.counter) :
    advance S s receiving header config =
      fail (.refused (.tooManySkipped (header.counter - receiving.chain.counter)
        config.maxSkip)) := by
  rw [advance, skip_eq, if_pos far]
  rfl

theorem advance_of_near (ahead : receiving.chain.counter.toNat ≤ header.counter.toNat)
    (near : receiving.gap header.counter ≤ config.maxSkip.toNat) :
    advance S s receiving header config =
      ⟨if HasNext header.counter then
          .ok (s.advanced S receiving header config,
            (receiving.chain.after S (receiving.gap header.counter)).messageKey S)
        else .error (.refused .overflow),
        steps (receiving.passed S (receiving.gap header.counter) ++
          [receiving.entry S header.counter])⟩ := by
  have number : (receiving.chain.after S (receiving.gap header.counter)).counter = header.counter :=
    ReceivingChain.counter_after_gap ahead
  have next := nextKey_eq (S := S) receiving.ratchetKey
    (receiving.chain.after S (receiving.gap header.counter))
  rw [number] at next
  rw [advance, skip_eq, if_neg (Nat.not_lt.2 near), bind_ok]
  simp only [ReceivingChain.after, next, steps_append]
  by_cases short : HasNext header.counter
  · simp only [if_pos short, advanced, ReceivingChain.after, Chain.after_succ]
    rfl
  · simp only [if_neg short]
    rfl

theorem take_of_found {key : SealingKey}
    (found : s.skipped.find? header.ratchetKey header.counter = some key) :
    take S s header config =
      ⟨.ok ({ s with skipped := s.skipped.remove header.ratchetKey header.counter }, key), []⟩ := by
  have known : s.skipped.keys.any (KeyCache.isFor header.ratchetKey header.counter) = true := by
    rw [KeyCache.any_isFor, found]
    rfl
  rw [take, if_pos known, takeCached, found]
  rfl

section
variable (unknown : s.skipped.find? header.ratchetKey header.counter = none)
include unknown

theorem not_any_isFor :
    ¬s.skipped.keys.any (KeyCache.isFor header.ratchetKey header.counter) = true := by
  rw [KeyCache.any_isFor, unknown]
  exact Bool.false_ne_true

theorem take_of_current (receives : s.receiving = some receiving)
    (same : receiving.ratchetKey = header.ratchetKey) :
    take S s header config =
      if header.counter < receiving.chain.counter then fail (.refused .decryptionFailed)
      else advance S s receiving header config := by
  have current : s.theirRatchetKey = some header.ratchetKey :=
    theirRatchetKey_eq_some_iff.2 ⟨receiving, receives, same⟩
  rw [take, if_neg (not_any_isFor unknown), if_pos current, takeCurrent, receives]

theorem take_of_other (other : s.theirRatchetKey ≠ some header.ratchetKey) :
    take S s header config = takeTurn S s header config := by
  rw [take, if_neg (not_any_isFor unknown), if_neg other]

end

theorem skipPrevious_of_near (near : (s.missing S header).length ≤ config.maxSkip.toNat) :
    skipPrevious S s header config =
      ⟨.ok (s.skipped.insertAll (s.missing S header) config.maxSkippedKeys.toNat),
        steps (s.missing S header)⟩ := by
  unfold skipPrevious
  unfold missing at near ⊢
  cases receives : s.receiving with
  | none => rfl
  | some receiving =>
    simp only [receives, ReceivingChain.length_passed] at near
    simp only [skip_eq, if_neg (Nat.not_lt.2 near), bind_ok]
    simp [after]

theorem takeTurn_eq {ratchet : SecretKey} {chain : Chain}
    (sends : s.sending = .current ratchet chain) :
    takeTurn S s header config =
      if config.maxSkip.toNat < (s.missing S header).length then
        fail (.refused (.tooManySkipped (s.previousGap header) config.maxSkip))
      else if config.maxSkip.toNat < header.counter.toNat then
        fail (.refused (.tooManySkipped header.counter config.maxSkip))
      else
        match S.agree ratchet header.ratchetKey with
        | .error _ => fail (.refused .decryptionFailed)
        | .ok shared =>
          let fresh : ReceivingChain :=
            ⟨header.ratchetKey, .start (Session.mixRoot S s.root shared).2⟩
          ⟨if HasNext header.counter then
              .ok (s.turned S header config chain.counter shared,
                (fresh.chain.after S header.counter.toNat).messageKey S)
            else .error (.refused .overflow),
            steps (s.missing S header) ++ .root ::
              steps (fresh.passed S header.counter.toNat ++ [fresh.entry S header.counter])⟩ := by
  simp only [takeTurn, sends, gt_iff_lt, UInt64.lt_iff_toNat_lt, ← length_missing S]
  by_cases incomplete : config.maxSkip.toNat < (s.missing S header).length
  · simp only [if_pos incomplete]
  by_cases far : config.maxSkip.toNat < header.counter.toNat
  · simp only [if_neg incomplete, if_pos far]
  cases S.agree ratchet header.ratchetKey with
  | error => simp only [if_neg incomplete, if_neg far]
  | ok shared =>
    simp only [if_neg incomplete, if_neg far, skipPrevious_of_near (Nat.not_lt.1 incomplete),
      mixRoot_eq, bind_ok]
    rw [advance_of_near (Nat.zero_le _) (Nat.not_lt.1 far)]
    by_cases short : HasNext header.counter
    · simp only [if_pos short, advanced, turned, KeyCache.insertAll, List.foldl_append]
      rfl
    · simp only [if_neg short]
      rfl

variable (S) in
/-- A key which is not in the cache is derived after those which come into the cache. Only then does
the message's number matter. -/
structure Finds (s : Session) (header : MessageHeader) (config : RatchetConfig) (taken : Session)
    (key : SealingKey) (passed : List SkippedKey) : Prop where
  unknown : s.skipped.find? header.ratchetKey header.counter = none
  outcome : s.take S header config =
    if HasNext header.counter then .ok (taken, key) else .error .overflow
  result : (take S s header config).result = (s.take S header config).mapError .refused
  derived : (take S s header config).messageKeys =
    passed ++ [⟨header.ratchetKey, header.counter, key⟩]
  cached : taken.skipped = s.skipped.insertAll passed config.maxSkippedKeys.toNat
  bounded : passed.length ≤ 2 * config.maxSkip.toNat

theorem mapError_ite {α : Type} (short : Prop) [Decidable short] (value : α) :
    (if short then .ok value else .error .overflow : Except Error α).mapError Fault.refused =
      if short then .ok value else .error (.refused .overflow) := by
  split <;> rfl

theorem finds_of_near (unknown : s.skipped.find? header.ratchetKey header.counter = none)
    (receives : s.receiving = some receiving) (same : receiving.ratchetKey = header.ratchetKey)
    (ahead : receiving.chain.counter.toNat ≤ header.counter.toNat)
    (near : receiving.gap header.counter ≤ config.maxSkip.toNat) :
    Finds S s header config (s.advanced S receiving header config)
      ((receiving.chain.after S (receiving.gap header.counter)).messageKey S)
      (receiving.passed S (receiving.gap header.counter)) := by
  have late := UInt64.not_lt.2 (UInt64.le_iff_toNat_le.2 ahead)
  have outcome := Session.take_of_current S unknown receives same config
  have record : take S s header config = _ := take_of_current unknown receives same
  rw [if_neg late, advance_eq S s config ahead, if_neg (Nat.not_lt.2 near)] at outcome
  rw [if_neg late, advance_of_near ahead near] at record
  refine ⟨unknown, outcome, ?_, ?_, rfl, ?_⟩
  · rw [record, outcome, mapError_ite]
  · rw [record, messageKeys, filterMap_steps, ReceivingChain.entry, same]
  · rw [ReceivingChain.length_passed]
    omega

theorem finds_of_agreed {ratchet : SecretKey} {chain : Chain} {shared : Octets 32}
    (unknown : s.skipped.find? header.ratchetKey header.counter = none)
    (other : s.theirRatchetKey ≠ some header.ratchetKey)
    (sends : s.sending = .current ratchet chain)
    (complete : (s.missing S header).length ≤ config.maxSkip.toNat)
    (near : header.counter.toNat ≤ config.maxSkip.toNat)
    (agreed : S.agree ratchet header.ratchetKey = .ok shared) :
    let fresh := Chain.start (Session.mixRoot S s.root shared).2
    Finds S s header config (s.turned S header config chain.counter shared)
      ((fresh.after S header.counter.toNat).messageKey S)
      (s.missing S header ++
        ReceivingChain.passed S ⟨header.ratchetKey, fresh⟩ header.counter.toNat) := by
  have outcome := (Session.take_of_other S unknown other config).trans
    (turn_eq S s header config sends)
  have record : take S s header config = _ :=
    (take_of_other unknown other).trans (takeTurn_eq sends)
  simp only [if_neg (Nat.not_lt.2 complete), if_neg (Nat.not_lt.2 near), agreed]
    at outcome record
  refine ⟨unknown, outcome, ?_, ?_, rfl, ?_⟩
  · rw [record, outcome, mapError_ite]
  · rw [record, messageKeys, List.filterMap_append, filterMap_steps, List.append_assoc]
    exact congrArg (s.missing S header ++ ·) (filterMap_steps _)
  · rw [List.length_append, ReceivingChain.length_passed]
    omega

variable (S s header config) in
/-- A key is refused before anything is derived, or found in the cache, or derived. -/
theorem take_refused_or_found :
    (∃ error, s.take S header config = .error error ∧
        take S s header config = fail (.refused error) ∧ error ≠ .overflow) ∨
      (∃ key, s.skipped.find? header.ratchetKey header.counter = some key) ∨
      ∃ taken key passed, Finds S s header config taken key passed := by
  cases unknown : s.skipped.find? header.ratchetKey header.counter with
  | some key => exact .inr (.inl ⟨key, rfl⟩)
  | none =>
    by_cases current : s.theirRatchetKey = some header.ratchetKey
    · obtain ⟨receiving, receives, same⟩ := theirRatchetKey_eq_some_iff.1 current
      rw [Session.take_of_current S unknown receives same, take_of_current unknown receives same]
      by_cases late : header.counter < receiving.chain.counter
      · rw [if_pos late, if_pos late]
        exact .inl ⟨_, rfl, rfl, by rintro ⟨⟩⟩
      have ahead := UInt64.le_iff_toNat_le.1 (UInt64.not_lt.1 late)
      rw [if_neg late, if_neg late]
      by_cases far : config.maxSkip.toNat < receiving.gap header.counter
      · rw [advance_eq S s config ahead, if_pos far, advance_of_far far]
        exact .inl ⟨_, rfl, rfl, by rintro ⟨⟩⟩
      · exact .inr (.inr ⟨_, _, _, finds_of_near unknown receives same ahead (Nat.not_lt.1 far)⟩)
    · rw [Session.take_of_other S unknown current, take_of_other unknown current]
      cases sends : s.sending with
      | uninitialised | stale =>
        rw [turn, takeTurn, sends]
        exact .inl ⟨_, rfl, rfl, by rintro ⟨⟩⟩
      | current ratchet chain =>
        rw [turn_eq S s header config sends, takeTurn_eq sends]
        by_cases incomplete : config.maxSkip.toNat < (s.missing S header).length
        · rw [if_pos incomplete, if_pos incomplete]
          exact .inl ⟨_, rfl, rfl, by rintro ⟨⟩⟩
        by_cases far : config.maxSkip.toNat < header.counter.toNat
        · rw [if_neg incomplete, if_neg incomplete, if_pos far, if_pos far]
          exact .inl ⟨_, rfl, rfl, by rintro ⟨⟩⟩
        cases agreed : S.agree ratchet header.ratchetKey with
        | error =>
          rw [if_neg incomplete, if_neg incomplete, if_neg far, if_neg far]
          exact .inl ⟨_, rfl, rfl, by rintro ⟨⟩⟩
        | ok shared =>
          exact .inr (.inr ⟨_, _, _, finds_of_agreed unknown current sends
            (Nat.not_lt.1 incomplete) (Nat.not_lt.1 far) agreed⟩)

theorem take_of_refused {error : Error} (refused : s.take S header config = .error error)
    (other : error ≠ .overflow) :
    take S s header config = fail (.refused error) := by
  rcases take_refused_or_found S s header config with
    ⟨_, outcome, record, -⟩ | ⟨key, found⟩ | ⟨taken, key, passed, finds⟩
  · rw [outcome] at refused
    cases refused
    exact record
  · simp [Session.take, route_of_found found] at refused
  · have outcome := finds.outcome
    rw [refused] at outcome
    split at outcome <;> cases outcome
    exact absurd rfl other

theorem finds_of_takes {taken : Session} {key : SealingKey}
    (takes : s.Takes S header config taken key) :
    (s.skipped.find? header.ratchetKey header.counter = some key ∧
        taken.skipped = s.skipped.remove header.ratchetKey header.counter ∧
        take S s header config = ⟨.ok (taken, key), []⟩) ∨
      ∃ passed, Finds S s header config taken key passed := by
  cases takes with
  | cached found => exact .inl ⟨found, rfl, take_of_found found⟩
  | current unknown receives same ahead near =>
    exact .inr ⟨_, finds_of_near unknown receives same ahead near⟩
  | turn unknown other sends complete near agreed =>
    exact .inr ⟨_, finds_of_agreed unknown other sends complete near agreed⟩

variable {message : RatchetMessage}

theorem derived_decrypt :
    (decrypt S s message config).derived = (take S s message.header config).derived := by
  unfold decrypt
  cases (take S s message.header config) with
  | mk result derived =>
    cases result with
    | error fault => rfl
    | ok taken =>
      simp only [bind_ok, after]
      cases S.decrypt? taken.2 (message.header.authenticated taken.1.associatedData)
        message.ciphertext <;> exact List.append_nil derived

theorem messageKeys_decrypt :
    (decrypt S s message config).messageKeys = (take S s message.header config).messageKeys :=
  congrArg (·.filterMap (·.messageKey?)) derived_decrypt

/-- A decryption never derives more message keys than two chains may pass over, and its own. -/
theorem length_messageKeys_decrypt_le :
    (decrypt S s message config).messageKeys.length ≤ 2 * config.maxSkip.toNat + 1 := by
  rw [messageKeys_decrypt]
  rcases take_refused_or_found S s message.header config with
    ⟨_, -, record, -⟩ | ⟨key, found⟩ | ⟨taken, key, passed, finds⟩
  · rw [record]
    exact Nat.zero_le _
  · rw [take_of_found found]
    exact Nat.zero_le _
  · rw [finds.derived, List.length_append, List.length_singleton]
    exact Nat.succ_le_succ finds.bounded

theorem result_take :
    (take S s header config).result = (s.take S header config).mapError .refused := by
  rcases take_refused_or_found S s header config with
    ⟨_, outcome, record, -⟩ | ⟨key, found⟩ | ⟨taken, key, passed, finds⟩
  · rw [record, outcome]
    rfl
  · rw [take_of_found found, Session.take, route_of_found found]
    rfl
  · exact finds.result

/-- Neither the key derivation nor a part of the state gives out. -/
theorem result_decrypt :
    (decrypt S s message config).result = (s.decrypt S message config).mapError .refused := by
  have taken : (take S s message.header config).result = _ := result_take
  unfold decrypt Session.decrypt
  cases record : take S s message.header config with
  | mk result derived =>
    rw [record] at taken
    subst taken
    cases s.take S message.header config with
    | error error => rfl
    | ok taken =>
      simp only [Except.mapError, bind_ok, after]
      cases S.decrypt? taken.2 (message.header.authenticated taken.1.associatedData)
        message.ciphertext <;> rfl

end

end Metered

end Session

end Confide
