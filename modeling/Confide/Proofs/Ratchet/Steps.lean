import Confide.Proofs.Ratchet.Chain
import Confide.Ratchet.Session

/-! What the steps of a session can do: a relation for the ways to take the key of a message and one
for the ways to come to a sending chain. Each holds exactly when the step succeeds. -/

set_option autoImplicit false

namespace Confide

namespace KeyCache

def insertAll (cache : KeyCache) (keys : List SkippedKey) (capacity : Nat) : KeyCache :=
  keys.foldl (fun cache key => cache.insert key capacity) cache

theorem insertAll_suffix (cache : KeyCache) (keys : List SkippedKey) (capacity : Nat) :
    (cache.insertAll keys capacity).keys <:+ cache.keys ++ keys := by
  induction keys generalizing cache with
  | nil => simp [insertAll]
  | cons key rest ih =>
    have head : (cache.insert key capacity).keys <:+ cache.keys ++ [key] := List.drop_suffix _ _
    obtain ⟨dropped, same⟩ := head
    have tail : (cache.insert key capacity).keys ++ rest <:+ cache.keys ++ key :: rest :=
      ⟨dropped, by rw [← List.append_assoc, same, List.append_assoc, List.singleton_append]⟩
    exact (ih (cache.insert key capacity)).trans tail

theorem keys_insertAll {cache : KeyCache} {keys : List SkippedKey} {capacity : Nat}
    (room : keys.length = 0 ∨ cache.size + keys.length ≤ capacity) :
    (cache.insertAll keys capacity).keys = cache.keys ++ keys := by
  induction keys generalizing cache with
  | nil => simp [insertAll]
  | cons key rest ih =>
    simp only [List.length_cons] at room
    have head : (cache.insert key capacity).keys = cache.keys ++ [key] := by
      have : cache.keys.length + 1 - capacity = 0 := by unfold size at room; omega
      simp [insert, this]
    have left : rest.length = 0 ∨ (cache.insert key capacity).size + rest.length ≤ capacity := by
      simp only [size, head, List.length_append, List.length_singleton] at room ⊢
      omega
    have next := ih left
    rw [head, List.append_assoc] at next
    exact next

theorem isFor_iff {ratchetKey : PublicKey} {counter : UInt64} {entry : SkippedKey} :
    isFor ratchetKey counter entry ↔ entry.ratchetKey = ratchetKey ∧ entry.counter = counter := by
  simp [isFor]

theorem mem_of_find? {cache : KeyCache} {ratchetKey : PublicKey} {counter : UInt64}
    {key : SealingKey} (found : cache.find? ratchetKey counter = some key) :
    ⟨ratchetKey, counter, key⟩ ∈ cache.keys := by
  obtain ⟨entry, here, rfl⟩ := Option.map_eq_some_iff.1 found
  obtain ⟨rfl, rfl⟩ := isFor_iff.1 (List.find?_some here)
  exact List.mem_of_find?_eq_some here

theorem find?_eq_none_iff {cache : KeyCache} {ratchetKey : PublicKey} {counter : UInt64} :
    cache.find? ratchetKey counter = none ↔
      ∀ entry ∈ cache.keys, entry.ratchetKey = ratchetKey → entry.counter ≠ counter := by
  simp [find?, isFor]

theorem remove_sublist (cache : KeyCache) (ratchetKey : PublicKey) (counter : UInt64) :
    (cache.remove ratchetKey counter).keys.Sublist cache.keys :=
  List.eraseP_sublist

theorem mem_remove {cache : KeyCache} {ratchetKey : PublicKey} {counter : UInt64}
    {entry : SkippedKey} (mem : entry ∈ cache.keys)
    (other : ¬(entry.ratchetKey = ratchetKey ∧ entry.counter = counter)) :
    entry ∈ (cache.remove ratchetKey counter).keys :=
  (List.mem_eraseP_of_neg (mt isFor_iff.1 other)).2 mem

end KeyCache

namespace ReceivingChain

/-- How many messages of the chain come before the one with the given number. -/
def gap (receiving : ReceivingChain) (target : UInt64) : Nat :=
  target.toNat - receiving.chain.counter.toNat

theorem counter_add_gap_lt (receiving : ReceivingChain) (target : UInt64) :
    receiving.chain.counter.toNat + receiving.gap target < 2 ^ 64 := by
  have here := receiving.chain.counter.toNat_lt
  have last := target.toNat_lt
  unfold gap
  omega

variable (S : Suite)

def after (receiving : ReceivingChain) (n : Nat) : ReceivingChain :=
  { receiving with chain := receiving.chain.after S n }

/-- The keys of the next `n` messages as they are cached. -/
def passed (receiving : ReceivingChain) (n : Nat) : List SkippedKey :=
  (List.range n).map fun i =>
    ⟨receiving.ratchetKey, (receiving.chain.after S i).counter,
      (receiving.chain.after S i).messageKey S⟩

@[simp] theorem length_passed (receiving : ReceivingChain) (n : Nat) :
    (receiving.passed S n).length = n := by
  simp [passed]

end ReceivingChain

theorem Suite.agree_eq_ok_iff {S : Suite} {secret : SecretKey} {theirs : PublicKey}
    {shared : Octets 32} :
    S.agree secret theirs = .ok shared ↔
      S.sharedSecret secret theirs = shared ∧ shared ≠ .replicate 32 0 := by
  unfold Suite.agree
  by_cases zero : S.sharedSecret secret theirs = .replicate 32 0
  · simp only [if_pos zero, reduceCtorEq, false_iff]
    rintro ⟨rfl, contributory⟩
    exact contributory zero
  · simp only [if_neg zero, Except.ok.injEq]
    constructor
    · rintro rfl
      exact ⟨rfl, zero⟩
    · exact And.left

namespace SendingChain

/-- The length to be reported by the next chain, if the next message starts one. -/
def ended? : SendingChain → Option UInt64
  | .uninitialised => some 0
  | .current _ _ => none
  | .stale previousLength => some previousLength

end SendingChain

namespace Session

variable (S : Suite)

theorem skip_eq (receiving : ReceivingChain) (target : UInt64) (cache : KeyCache)
    (config : RatchetConfig) :
    skip S receiving target cache config =
      if config.maxSkip.toNat < receiving.gap target then
        .error (.tooManySkipped (target - receiving.chain.counter) config.maxSkip)
      else
        .ok (receiving.after S (receiving.gap target),
          cache.insertAll (receiving.passed S (receiving.gap target))
            config.maxSkippedKeys.toNat) := by
  unfold skip
  by_cases reached : target ≤ receiving.chain.counter
  · have none : receiving.gap target = 0 := Nat.sub_eq_zero_of_le (UInt64.le_iff_toNat_le.1 reached)
    rw [if_pos reached, none]
    simp [ReceivingChain.passed, ReceivingChain.after, Chain.after, KeyCache.insertAll]
  · have whole : (target - receiving.chain.counter).toNat = receiving.gap target :=
      UInt64.toNat_sub_of_le _ _ (UInt64.le_of_lt (UInt64.not_le.1 reached))
    simp only [if_neg reached, gt_iff_lt, UInt64.lt_iff_toNat_lt, whole, ReceivingChain.passed,
      ReceivingChain.after, KeyCache.insertAll, Chain.keys_eq_map, List.foldl_map]

def advanced (s : Session) (receiving : ReceivingChain) (header : MessageHeader)
    (config : RatchetConfig) : Session :=
  let gap := receiving.gap header.counter
  { s with
    receiving := some (receiving.after S (gap + 1))
    skipped := s.skipped.insertAll (receiving.passed S gap) config.maxSkippedKeys.toNat }

theorem advance_eq (s : Session) {receiving : ReceivingChain} {header : MessageHeader}
    (config : RatchetConfig) (ahead : receiving.chain.counter.toNat ≤ header.counter.toNat) :
    s.advance S receiving header config =
      if config.maxSkip.toNat < receiving.gap header.counter then
        .error (.tooManySkipped (header.counter - receiving.chain.counter) config.maxSkip)
      else if HasNext header.counter then
        .ok (s.advanced S receiving header config,
          (receiving.chain.after S (receiving.gap header.counter)).messageKey S)
      else .error .overflow := by
  have reached : (receiving.chain.after S (receiving.gap header.counter)).counter =
      header.counter := Chain.counter_after_sub S ahead
  rw [advance, skip_eq]
  by_cases far : config.maxSkip.toNat < receiving.gap header.counter
  · simp only [if_pos far]
  · simp only [if_neg far, advanced, ReceivingChain.after, reached, Chain.after_succ]

/-- The keys of the peer's chain which are missing according to the header. -/
def missing (s : Session) (header : MessageHeader) : List SkippedKey :=
  match s.receiving with
  | none => []
  | some receiving => receiving.passed S (receiving.gap header.previousLength)

theorem length_missing (s : Session) (header : MessageHeader) :
    (s.missing S header).length = (s.previousGap header).toNat := by
  unfold missing previousGap
  cases s.receiving with
  | none => rfl
  | some receiving =>
    simp only [ReceivingChain.length_passed, ReceivingChain.gap]
    split
    · exact Nat.sub_eq_zero_of_le (UInt64.le_iff_toNat_le.1 ‹_›)
    · exact (UInt64.toNat_sub_of_le _ _ (UInt64.le_of_lt (UInt64.not_le.1 ‹_›))).symm

theorem skipPrevious_eq {s : Session} {header : MessageHeader} {config : RatchetConfig}
    (near : (s.missing S header).length ≤ config.maxSkip.toNat) :
    s.skipPrevious S header config =
      .ok (s.skipped.insertAll (s.missing S header) config.maxSkippedKeys.toNat) := by
  unfold skipPrevious
  unfold missing at near ⊢
  cases receives : s.receiving with
  | none => rfl
  | some receiving =>
    simp only [receives, ReceivingChain.length_passed] at near
    simp only [skip_eq, if_neg (Nat.not_lt.2 near)]
    rfl

/-- The session after the first message which is heard under a new ratchet key, when `sent` messages
were sent on the own chain so far. -/
def turned (s : Session) (header : MessageHeader) (config : RatchetConfig) (sent : UInt64)
    (shared : Octets 32) : Session :=
  let (root, chainKey) := mixRoot S s.root shared
  { s with
    root
    sending := .stale sent
    receiving := some ⟨header.ratchetKey, (Chain.start chainKey).after S (header.counter.toNat + 1)⟩
    skipped := s.skipped.insertAll
      (s.missing S header ++
        ReceivingChain.passed S ⟨header.ratchetKey, .start chainKey⟩ header.counter.toNat)
      config.maxSkippedKeys.toNat }

theorem turn_eq (s : Session) (header : MessageHeader) (config : RatchetConfig)
    {ratchet : SecretKey} {chain : Chain} (sends : s.sending = .current ratchet chain) :
    s.turn S header config =
      if config.maxSkip.toNat < (s.missing S header).length then
        .error (.tooManySkipped (s.previousGap header) config.maxSkip)
      else if config.maxSkip.toNat < header.counter.toNat then
        .error (.tooManySkipped header.counter config.maxSkip)
      else
        match S.agree ratchet header.ratchetKey with
        | .error _ => .error .decryptionFailed
        | .ok shared =>
          let (_, chainKey) := mixRoot S s.root shared
          if HasNext header.counter then
            .ok (s.turned S header config chain.counter shared,
              ((Chain.start chainKey).after S header.counter.toNat).messageKey S)
          else .error .overflow := by
  simp only [turn, sends, gt_iff_lt, UInt64.lt_iff_toNat_lt, ← length_missing S]
  by_cases incomplete : config.maxSkip.toNat < (s.missing S header).length
  · simp only [if_pos incomplete]
  by_cases far : config.maxSkip.toNat < header.counter.toNat
  · simp only [if_neg incomplete, if_pos far]
  cases S.agree ratchet header.ratchetKey with
  | error => rfl
  | ok shared =>
    have gap (key : Octets 32) :
        ReceivingChain.gap ⟨header.ratchetKey, .start key⟩ header.counter = header.counter.toNat :=
      rfl
    simp only [if_neg incomplete, if_neg far, skipPrevious_eq S (Nat.not_lt.1 incomplete)]
    rw [advance_eq S _ config (Nat.zero_le _)]
    simp only [gap, if_neg far, advanced, turned, ReceivingChain.after, KeyCache.insertAll,
      List.foldl_append]

theorem theirRatchetKey_eq_some_iff {s : Session} {ratchetKey : PublicKey} :
    s.theirRatchetKey = some ratchetKey ↔
      ∃ receiving, s.receiving = some receiving ∧ receiving.ratchetKey = ratchetKey :=
  Option.map_eq_some_iff

theorem route_of_found {s : Session} {header : MessageHeader} {key : SealingKey}
    (found : s.skipped.find? header.ratchetKey header.counter = some key) :
    s.route header = .cached key := by
  simp only [route, found]

theorem route_of_current {s : Session} {header : MessageHeader} {receiving : ReceivingChain}
    (unknown : s.skipped.find? header.ratchetKey header.counter = none)
    (receives : s.receiving = some receiving) (same : receiving.ratchetKey = header.ratchetKey) :
    s.route header = .currentChain receiving := by
  simp only [route, unknown, receives, if_pos same]

theorem route_of_other {s : Session} {header : MessageHeader}
    (unknown : s.skipped.find? header.ratchetKey header.counter = none)
    (other : s.theirRatchetKey ≠ some header.ratchetKey) : s.route header = .newRatchet := by
  unfold theirRatchetKey at other
  cases receives : s.receiving with
  | none => simp only [route, unknown, receives]
  | some receiving =>
    have apart : receiving.ratchetKey ≠ header.ratchetKey := by simpa [receives] using other
    simp only [route, unknown, receives, if_neg apart]

theorem take_of_current {s : Session} {header : MessageHeader} {receiving : ReceivingChain}
    (unknown : s.skipped.find? header.ratchetKey header.counter = none)
    (receives : s.receiving = some receiving) (same : receiving.ratchetKey = header.ratchetKey)
    (config : RatchetConfig) :
    s.take S header config =
      if header.counter < receiving.chain.counter then .error .decryptionFailed
      else s.advance S receiving header config := by
  rw [take, route_of_current unknown receives same]

theorem take_of_other {s : Session} {header : MessageHeader}
    (unknown : s.skipped.find? header.ratchetKey header.counter = none)
    (other : s.theirRatchetKey ≠ some header.ratchetKey) (config : RatchetConfig) :
    s.take S header config = s.turn S header config := by
  rw [take, route_of_other unknown other]

/-- The ways to take the key of a message, with the session that has taken it. -/
inductive Takes (s : Session) (header : MessageHeader) (config : RatchetConfig) :
    Session → SealingKey → Prop where
  | cached {key : SealingKey}
      (found : s.skipped.find? header.ratchetKey header.counter = some key) :
      Takes s header config
        { s with skipped := s.skipped.remove header.ratchetKey header.counter } key
  | current {receiving : ReceivingChain}
      (unknown : s.skipped.find? header.ratchetKey header.counter = none)
      (receives : s.receiving = some receiving)
      (same : receiving.ratchetKey = header.ratchetKey)
      (ahead : receiving.chain.counter.toNat ≤ header.counter.toNat)
      (near : receiving.gap header.counter ≤ config.maxSkip.toNat)
      (short : HasNext header.counter) :
      Takes s header config (s.advanced S receiving header config)
        ((receiving.chain.after S (receiving.gap header.counter)).messageKey S)
  | turn {ratchet : SecretKey} {chain : Chain} {shared : Octets 32}
      (unknown : s.skipped.find? header.ratchetKey header.counter = none)
      (other : s.theirRatchetKey ≠ some header.ratchetKey)
      (sends : s.sending = .current ratchet chain)
      (complete : (s.missing S header).length ≤ config.maxSkip.toNat)
      (near : header.counter.toNat ≤ config.maxSkip.toNat)
      (agreed : S.agree ratchet header.ratchetKey = .ok shared)
      (short : HasNext header.counter) :
      Takes s header config (s.turned S header config chain.counter shared)
        (((Chain.start (mixRoot S s.root shared).2).after S header.counter.toNat).messageKey S)

theorem take_eq_ok_iff {s taken : Session} {header : MessageHeader} {config : RatchetConfig}
    {key : SealingKey} :
    s.take S header config = .ok (taken, key) ↔ s.Takes S header config taken key := by
  constructor
  · intro h
    -- The three routes in the order in which they are tried.
    cases found : s.skipped.find? header.ratchetKey header.counter with
    | some cachedKey =>
      simp only [take, route_of_found found] at h
      cases h
      exact .cached found
    | none =>
      by_cases current : s.theirRatchetKey = some header.ratchetKey
      · obtain ⟨receiving, receives, same⟩ := theirRatchetKey_eq_some_iff.1 current
        simp only [take, route_of_current found receives same] at h
        split at h
        · cases h
        · rename_i late
          have ahead := UInt64.le_iff_toNat_le.1 (UInt64.not_lt.1 late)
          rw [advance_eq S s config ahead] at h
          split at h
          · cases h
          · rename_i near
            split at h <;> cases h
            exact .current found receives same ahead (Nat.not_lt.1 near) ‹_›
      · simp only [take, route_of_other found current] at h
        cases sends : s.sending with
        | current ratchet chain =>
          rw [turn_eq S s header config sends] at h
          split at h
          · cases h
          · rename_i complete
            split at h
            · cases h
            · rename_i near
              split at h
              · cases h
              · rename_i agreed
                dsimp only at h
                split at h <;> cases h
                exact .turn found current sends (Nat.not_lt.1 complete) (Nat.not_lt.1 near) agreed
                  ‹_›
        | uninitialised => simp [turn, sends] at h
        | stale length => simp [turn, sends] at h
  · intro h
    cases h with
    | cached found => simp only [take, route_of_found found]
    | current unknown receives same ahead near short =>
      have reached := UInt64.not_lt.2 (UInt64.le_iff_toNat_le.2 ahead)
      simp only [take, route_of_current unknown receives same, if_neg reached,
        advance_eq S s config ahead, if_neg (Nat.not_lt.2 near), if_pos short]
    | turn unknown other sends complete near agreed short =>
      simp only [take, route_of_other unknown other, turn_eq S s header config sends,
        if_neg (Nat.not_lt.2 complete), if_neg (Nat.not_lt.2 near), agreed, if_pos short]

/-- The session with the handshake done, and what the taken key opens. -/
theorem decrypt_eq_ok_iff {s next : Session} {message : RatchetMessage} {config : RatchetConfig}
    {plaintext : Bytes} :
    s.decrypt S message config = .ok (next, plaintext) ↔
      ∃ taken key, s.Takes S message.header config taken key ∧
        S.decrypt? key (message.header.authenticated taken.associatedData) message.ciphertext =
          some plaintext ∧
        next = { taken with pending := none } := by
  unfold decrypt
  cases outcome : s.take S message.header config with
  | error error =>
    refine iff_of_false nofun ?_
    rintro ⟨taken, key, takes, -⟩
    rw [(take_eq_ok_iff S).2 takes] at outcome
    cases outcome
  | ok result =>
    obtain ⟨taken, key⟩ := result
    have takes := (take_eq_ok_iff S).1 outcome
    constructor
    · intro h
      cases opened : S.decrypt? key (message.header.authenticated taken.associatedData)
          message.ciphertext with
      | none => simp [opened] at h
      | some plaintext =>
        simp only [opened] at h
        cases h
        exact ⟨taken, key, takes, opened, rfl⟩
    · rintro ⟨other, otherKey, otherTakes, opened, rfl⟩
      rw [(take_eq_ok_iff S).2 otherTakes] at outcome
      cases outcome
      simp only [opened]

section
variable {G : Type} [Entropy G]

/-- The ways to come to the chain for the next message: on the current one, or with a key pair drawn
from the source. -/
inductive Sends (s : Session) (source : G) : Session → SecretKey → Chain → Prop where
  | current {ratchet : SecretKey} {chain : Chain} (sends : s.sending = .current ratchet chain) :
      Sends s source s ratchet chain
  | fresh {previousLength : UInt64} {receiving : ReceivingChain} {shared : Octets 32}
      (ended : s.sending.ended? = some previousLength) (receives : s.receiving = some receiving)
      (agreed : S.agree ⟨(draw 32 source).1⟩ receiving.ratchetKey = .ok shared) :
      Sends s source { s with root := (mixRoot S s.root shared).1, previousLength }
        ⟨(draw 32 source).1⟩ (.start (mixRoot S s.root shared).2)

theorem Sends.lt_last {S : Suite} {s started : Session} {source : G} {ratchet : SecretKey}
    {chain : Chain}
    (sends : s.Sends S source started ratchet chain)
    (unfinished : ∀ ratchet chain, s.sending = .current ratchet chain →
      HasNext chain.counter) :
    HasNext chain.counter := by
  cases sends with
  | current sends => exact unfinished ratchet chain sends
  | fresh => exact show 0 < 2 ^ 64 - 1 by decide

theorem sendingChain_of_ended {s : Session} {previousLength : UInt64}
    (ended : s.sending.ended? = some previousLength) (source : G) :
    s.sendingChain S source = s.startSending S previousLength source := by
  unfold sendingChain
  cases sends : s.sending with
  | uninitialised =>
    simp only [sends, SendingChain.ended?, Option.some.injEq] at ended
    simp only [ended]
  | current ratchet chain => simp [sends, SendingChain.ended?] at ended
  | stale length =>
    simp only [sends, SendingChain.ended?, Option.some.injEq] at ended
    simp only [ended]

theorem sendingChain_eq_ok_iff {s started : Session} {source : G} {ratchet : SecretKey}
    {chain : Chain} :
    (s.sendingChain S source).1 = .ok (started, ratchet, chain) ↔
      s.Sends S source started ratchet chain := by
  constructor
  · intro h
    cases ended : s.sending.ended? with
    | none =>
      cases sends : s.sending with
      | current =>
        simp only [sendingChain, sends] at h
        cases h
        exact .current sends
      | uninitialised => simp [sends, SendingChain.ended?] at ended
      | stale => simp [sends, SendingChain.ended?] at ended
    | some previousLength =>
      rw [sendingChain_of_ended S ended, startSending] at h
      cases receives : s.receiving with
      | none => simp [receives] at h
      | some receiving =>
        cases agreed : S.agree ⟨(draw 32 source).1⟩ receiving.ratchetKey with
        | error => simp [receives, agreed] at h
        | ok shared =>
          simp only [receives, agreed] at h
          cases h
          rw [← receives]
          exact .fresh ended receives agreed
  · intro h
    cases h with
    | current sends => simp only [sendingChain, sends]
    | fresh ended receives agreed =>
      simp only [sendingChain_of_ended S ended, startSending, receives, agreed]

theorem encrypt_eq_ok_iff {s next : Session} {plaintext : Bytes} {source : G}
    {message : RatchetMessage} :
    (s.encrypt S plaintext source).1 = .ok (next, message) ↔
      ∃ started ratchet chain, s.Sends S source started ratchet chain ∧
        HasNext chain.counter ∧
        started.sealNext S ratchet chain plaintext = (next, message) := by
  unfold encrypt
  cases start : s.sendingChain S source with
  | mk result rest =>
    have begins := congrArg Prod.fst start
    cases result with
    | error =>
      refine iff_of_false nofun ?_
      rintro ⟨started, ratchet, chain, sends, -⟩
      cases ((sendingChain_eq_ok_iff S).2 sends).symm.trans begins
    | ok result =>
      obtain ⟨started, ratchet, chain⟩ := result
      have sends := (sendingChain_eq_ok_iff S).1 begins
      constructor
      · intro h
        dsimp only at h
        split at h <;> cases h
        exact ⟨started, ratchet, chain, sends, ‹_›, rfl⟩
      · rintro ⟨other, otherRatchet, otherChain, otherSends, short, isSealed⟩
        cases ((sendingChain_eq_ok_iff S).2 otherSends).symm.trans begins
        dsimp only
        rw [if_pos short, isSealed]

end

end Session

end Confide
