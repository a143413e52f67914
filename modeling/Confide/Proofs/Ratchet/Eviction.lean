import Confide.Proofs.Ratchet.Changes
import Confide.Proofs.Ratchet.Metering
import Mathlib.Data.List.DropRight
import Mathlib.Data.List.Perm.Subperm

/-! What the cache of a session holds. Keys come in at the end and the oldest ones go first, so that
the cache is the end of all that was ever passed over, without what was used since. -/

set_option autoImplicit false

namespace Confide

namespace KeyCache

variable {cache : KeyCache} {ratchetKey : PublicKey} {counter : UInt64} {key : SealingKey}
  {capacity : Nat}

/-- To make room for one key after the other is to make room for all of them at once. -/
theorem insertAll_eq_rtake (room : cache.size ≤ capacity) (keys : List SkippedKey) :
    (cache.insertAll keys capacity).keys = (cache.keys ++ keys).rtake capacity := by
  have kept := List.suffix_iff_eq_drop.1 (cache.insertAll_suffix keys capacity)
  have size := cache.size_insertAll keys capacity
  rw [kept, List.rtake]
  -- Both are ends of one list, so that only their lengths are to be compared.
  congr 1
  unfold KeyCache.size at size room
  rw [size, List.length_append]
  split
  · subst keys
    simp only [List.length_nil]
    omega
  · omega

theorem length_rtake_le (keys : List SkippedKey) : (keys.rtake capacity).length ≤ capacity := by
  rw [List.rtake, List.length_drop]
  omega

theorem split_of_find? (found : cache.find? ratchetKey counter = some key) :
    ∃ before after, cache.keys = before ++ ⟨ratchetKey, counter, key⟩ :: after ∧
      ∀ other ∈ before, other.ratchetKey = ratchetKey → other.counter ≠ counter := by
  obtain ⟨entry, here, rfl⟩ := Option.map_eq_some_iff.1 found
  obtain ⟨own, before, after, split, first⟩ := List.find?_eq_some_iff_append.1 here
  obtain ⟨rfl, rfl⟩ := isFor_iff.1 own
  refine ⟨before, after, split, fun other mem isKey number => ?_⟩
  have apart := first other mem
  rw [isFor_iff.2 ⟨isKey, number⟩] at apart
  cases apart

theorem keys_remove_perm (found : cache.find? ratchetKey counter = some key) :
    cache.keys.Perm (⟨ratchetKey, counter, key⟩ :: (cache.remove ratchetKey counter).keys) := by
  obtain ⟨before, after, split, first⟩ := split_of_find? found
  rw [(find?_of_split split first).2, split]
  exact List.perm_middle

end KeyCache

theorem ReceivingChain.counters_passed (S : Suite) (receiving : ReceivingChain) (target : UInt64) :
    (receiving.passed S (receiving.gap target)).map (·.counter.toNat) =
      List.range' receiving.chain.counter.toNat (receiving.gap target) := by
  have bound := receiving.counter_add_gap_lt target
  rw [List.range'_eq_map_range, passed, List.map_map]
  apply List.map_congr_left
  intro i low
  apply Chain.toNat_counter_after
  have := List.mem_range.1 low
  omega

namespace Session

variable (S : Suite) (config : RatchetConfig)

/-- What the cache holds after a message: a key which came from it is gone, and otherwise the keys
before the message's own have come in, of which only the last ones are kept. -/
inductive Leaves (s : Session) (header : MessageHeader) : List SkippedKey → Prop where
  | late {before after : List SkippedKey} {own : SkippedKey}
      (split : s.skipped.keys = before ++ own :: after)
      (place : own.position = header.position)
      (first : ∀ other ∈ before, other.position ≠ header.position) :
      Leaves s header (before ++ after)
  | current {receiving : ReceivingChain}
      (unknown : ∀ entry ∈ s.skipped.keys, entry.position ≠ header.position)
      (receives : s.receiving = some receiving) (same : receiving.ratchetKey = header.ratchetKey) :
      Leaves s header
        ((s.skipped.keys ++ receiving.passed S (receiving.gap header.counter)).rtake
          config.maxSkippedKeys.toNat)
  | turn {ratchet : SecretKey} {chain : Chain} {shared : Octets 32}
      (unknown : ∀ entry ∈ s.skipped.keys, entry.position ≠ header.position)
      (other : s.theirRatchetKey ≠ some header.ratchetKey)
      (sends : s.sending = .current ratchet chain)
      (agreed : S.agree ratchet header.ratchetKey = .ok shared) :
      Leaves s header
        ((s.skipped.keys ++ (s.missing S header ++ ReceivingChain.passed S
          ⟨header.ratchetKey, .start (mixRoot S s.root shared).2⟩ header.counter.toNat)).rtake
          config.maxSkippedKeys.toNat)

variable {S config} {s taken next : Session} {header : MessageHeader} {key : SealingKey}
  {message : RatchetMessage} {plaintext : Bytes}

theorem position_ne_iff {entry : SkippedKey} : entry.position ≠ header.position ↔
    (entry.ratchetKey = header.ratchetKey → entry.counter ≠ header.counter) := by
  simp [SkippedKey.position, MessageHeader.position]

theorem Takes.leaves (takes : s.Takes S header config taken key)
    (room : s.skipped.size ≤ config.maxSkippedKeys.toNat) :
    s.Leaves S config header taken.skipped.keys := by
  cases takes with
  | cached found =>
    obtain ⟨before, after, split, first⟩ := KeyCache.split_of_find? found
    rw [(KeyCache.find?_of_split split first).2]
    exact .late split rfl fun other mem => position_ne_iff.2 (first other mem)
  | current unknown receives same =>
    rw [advanced, KeyCache.insertAll_eq_rtake room]
    refine .current (fun entry mem => ?_) receives same
    exact position_ne_iff.2 (KeyCache.find?_eq_none_iff.1 unknown entry mem)
  | turn unknown other sends complete near agreed =>
    simp only [turned, KeyCache.insertAll_eq_rtake room]
    refine .turn (fun entry mem => ?_) other sends agreed
    exact position_ne_iff.2 (KeyCache.find?_eq_none_iff.1 unknown entry mem)

theorem Leaves.length_le {keys : List SkippedKey} (leaves : s.Leaves S config header keys)
    (room : s.skipped.size ≤ config.maxSkippedKeys.toNat) :
    keys.length ≤ config.maxSkippedKeys.toNat := by
  cases leaves with
  | late split =>
    rw [KeyCache.size, split] at room
    simp only [List.length_append, List.length_cons] at room ⊢
    omega
  | current => exact KeyCache.length_rtake_le _
  | turn => exact KeyCache.length_rtake_le _

theorem Takes.find?_eq_none (takes : s.Takes S header config taken key)
    (unknown : s.skipped.find? header.ratchetKey header.counter = none) :
    taken.skipped.find? header.ratchetKey header.counter = none := by
  cases takes with
  | cached found => simp [unknown] at found
  | current =>
    exact KeyCache.find?_insertAll_eq_none unknown fun entry mem _ =>
      ReceivingChain.counter_ne_of_mem_passed mem
  | @turn ratchet chain shared _ other =>
    refine KeyCache.find?_insertAll_eq_none unknown fun entry mem isKey => ?_
    rcases List.mem_append.1 mem with old | new
    · unfold missing at old
      unfold theirRatchetKey at other
      cases receives : s.receiving with
      | none => simp [receives] at old
      | some receiving =>
        rw [receives] at old other
        rw [← isKey, ReceivingChain.ratchetKey_of_mem_passed old] at other
        exact absurd rfl other
    · exact ReceivingChain.counter_ne_of_mem_passed new

theorem skipped_of_encrypt {G : Type} [Entropy G] {source : G}
    (encrypted : (s.encrypt S plaintext source).1 = .ok (next, message)) :
    next.skipped = s.skipped := by
  obtain ⟨-, root, ratchet, chain, previousLength, rfl, -⟩ := encrypt_changes encrypted
  rfl

theorem Takes.conserves (takes : s.Takes S header config taken key) :
    taken.skipped.keys.Sublist
        (s.skipped.keys ++ (Metered.take S s header config).messageKeys) ∧
      (⟨header.ratchetKey, header.counter, key⟩ :: taken.skipped.keys).Subperm
        (s.skipped.keys ++ (Metered.take S s header config).messageKeys) := by
  rcases Metered.finds_of_takes takes with ⟨found, removed, record⟩ | ⟨passed, finds⟩
  · rw [record, removed]
    constructor
    · exact (s.skipped.remove_sublist _ _).trans (List.sublist_append_left _ _)
    · exact (KeyCache.keys_remove_perm found).symm.subperm.trans
        (List.sublist_append_left _ _).subperm
  · have kept : taken.skipped.keys.Sublist (s.skipped.keys ++ passed) := by
      rw [finds.cached]
      exact (s.skipped.insertAll_suffix _ _).sublist
    rw [finds.derived, ← List.append_assoc]
    constructor
    · exact kept.trans (List.sublist_append_left _ _)
    · exact (kept.cons_cons _).subperm.trans (List.perm_append_singleton _ _).symm.subperm

namespace History

variable {G : Type} [Entropy G] (S config)

/-- The message keys which an operation derives and keeps or uses. -/
def derives (h : History) : Operation G → List SkippedKey
  | .encrypt _ _ => []
  | .decrypt message =>
    match h.session.decrypt S message config with
    | .error _ => []
    | .ok _ => (Metered.decrypt S h.session message config).messageKeys

def uses (h : History) : Operation G → List SkippedKey
  | .encrypt _ _ => []
  | .decrypt message =>
    match h.session.decrypt S message config, h.session.take S message.header config with
    | .ok _, .ok (_, key) => [⟨message.header.ratchetKey, message.header.counter, key⟩]
    | _, _ => []

def gather (given : History → Operation G → List SkippedKey) :
    History → List (Operation G) → List SkippedKey
  | _, [] => []
  | h, operation :: rest => given h operation ++ gather given (h.step S config operation) rest

variable {S config} {h : History}

variable (S config) in
theorem conserves_step (h : History) (operation : Operation G) :
    (h.step S config operation).session.skipped.keys.Sublist
        (h.session.skipped.keys ++ h.derives S config operation) ∧
      (h.uses S config operation ++ (h.step S config operation).session.skipped.keys).Subperm
        (h.session.skipped.keys ++ h.derives S config operation) := by
  cases operation with
  | encrypt plaintext source =>
    have kept : (h.step S config (.encrypt plaintext source)).session.skipped =
        h.session.skipped := by
      cases encrypted : (h.session.encrypt S plaintext source).1 with
      | error error => simp only [step, encrypted]
      | ok result => simp only [step, encrypted, skipped_of_encrypt encrypted]
    rw [kept, derives, uses, List.append_nil, List.nil_append]
    exact ⟨List.Sublist.refl _, List.Subperm.refl _⟩
  | decrypt message =>
    cases decrypted : h.session.decrypt S message config with
    | error error =>
      simp only [step, derives, uses, decrypted, List.append_nil, List.nil_append]
      exact ⟨List.Sublist.refl _, List.Subperm.refl _⟩
    | ok result =>
      obtain ⟨taken, key, takes, -, same⟩ := (decrypt_eq_ok_iff S).1 decrypted
      simp only [step, derives, uses, decrypted, (take_eq_ok_iff S).2 takes, opens, same,
        Metered.messageKeys_decrypt]
      exact takes.conserves

variable (S config) in
/-- Over a run, what is used and what the cache holds at the end were derived apart from each
other, or the cache held them before. -/
theorem conserves_run (h : History) (operations : List (Operation G)) :
    (h.run S config operations).session.skipped.keys.Sublist
        (h.session.skipped.keys ++ h.gather S config (derives S config) operations) ∧
      (h.gather S config (uses S config) operations ++
        (h.run S config operations).session.skipped.keys).Subperm
        (h.session.skipped.keys ++ h.gather S config (derives S config) operations) := by
  induction operations generalizing h with
  | nil =>
    rw [gather, gather, List.append_nil, List.nil_append]
    exact ⟨List.Sublist.refl _, List.Subperm.refl _⟩
  | cons operation rest ih =>
    -- What the first operation uses is set aside before the rest of the run goes on.
    obtain ⟨order, apart⟩ := conserves_step S config h operation
    obtain ⟨order', apart'⟩ := ih (h.step S config operation)
    rw [gather, gather, ← List.append_assoc, List.append_assoc (uses ..)]
    constructor
    · exact order'.trans (order.append_right _)
    · refine ((List.subperm_append_left _).2 apart').trans ?_
      rw [← List.append_assoc]
      exact (List.subperm_append_right _).2 apart

theorem bounded_step (operation : Operation G)
    (room : h.session.skipped.size ≤ config.maxSkippedKeys.toNat) :
    (h.step S config operation).session.skipped.size ≤ config.maxSkippedKeys.toNat := by
  rcases step_cases S config h operation with
    same | ⟨_, _, _, _, encrypted, same⟩ | ⟨message, _, _, decrypted, same⟩ <;> rw [same]
  · exact room
  · rw [skipped_of_encrypt encrypted]
    exact room
  · obtain ⟨taken, key, takes, -, rfl⟩ := (decrypt_eq_ok_iff S).1 decrypted
    exact (takes.leaves room).length_le room

theorem bounded_run (operations : List (Operation G))
    (room : h.session.skipped.size ≤ config.maxSkippedKeys.toNat) :
    (h.run S config operations).session.skipped.size ≤ config.maxSkippedKeys.toNat := by
  induction operations generalizing h with
  | nil => exact room
  | cons operation rest ih => exact ih (bounded_step operation room)

end History

theorem Starts.skipped_eq (starts : s.Starts) : s.skipped = {} := by
  cases starts <;> rfl

variable (G : Type) [Entropy G] (S config)

/-- The cache holds the latest keys of those which were passed over, up to its capacity. None of
them has been used. -/
theorem cache_keeps_latest :
    (∀ (s next : Session) (message : RatchetMessage) (plaintext : Bytes),
      s.skipped.size ≤ config.maxSkippedKeys.toNat →
        s.decrypt S message config = .ok (next, plaintext) →
          s.Leaves S config message.header next.skipped.keys ∧
            (s.skipped.find? message.header.ratchetKey message.header.counter = none →
              next.skipped.find? message.header.ratchetKey message.header.counter = none)) ∧
    (∀ (receiving : ReceivingChain) (target : UInt64),
      (receiving.passed S (receiving.gap target)).map (·.counter.toNat) =
        List.range' receiving.chain.counter.toNat
          (target.toNat - receiving.chain.counter.toNat)) ∧
    ∀ (s : Session) (operations : List (Operation G)), s.Starts →
      let start := History.begin s
      let cache := (start.run S config operations).session.skipped
      let derived := start.gather S config (History.derives S config) operations
      let used := start.gather S config (History.uses S config) operations
      cache.size ≤ config.maxSkippedKeys.toNat ∧ cache.keys.Sublist derived ∧
        (used ++ cache.keys).Subperm derived := by
  refine ⟨?_, ReceivingChain.counters_passed S, ?_⟩
  · intro s next message plaintext room decrypted
    obtain ⟨taken, key, takes, -, rfl⟩ := (decrypt_eq_ok_iff S).1 decrypted
    exact ⟨takes.leaves room, takes.find?_eq_none⟩
  · intro s operations starts
    have none : (History.begin s).session.skipped.keys = [] := congrArg (·.keys) starts.skipped_eq
    have room : (History.begin s).session.skipped.size ≤ config.maxSkippedKeys.toNat := by
      rw [KeyCache.size, none]
      exact Nat.zero_le _
    have conserved := History.conserves_run S config (History.begin s) operations
    rw [none, List.nil_append] at conserved
    exact ⟨History.bounded_run operations room, conserved⟩

/-- Of two keys which are passed over only the later one stays where there is room for one. -/
theorem responder_evicts_first_key :
    ∃ (s next : Session) (message : RatchetMessage), s.Starts ∧
      s.decrypt .standard message { maxSkippedKeys := 1 } = .ok (next, []) ∧
      next.skipped.keys.map (·.counter) = [1] ∧
      ((History.begin s).run .standard { maxSkippedKeys := 1 }
        [(.decrypt message : Operation KeyStream)]).session.skipped.size ≤ 1 := by
  let peer : PublicKey := ⟨.replicate 32 9⟩
  let receiving : ReceivingChain := ⟨peer, .start (.replicate 32 2)⟩
  let s : Session := .responder ⟨⟨.replicate 32 1, .replicate 32 2⟩, []⟩
    ⟨⟨⟨.replicate 32 0⟩, peer⟩, peer, 0, none⟩
  let header : MessageHeader := ⟨peer, 0, 2⟩
  let key := (receiving.chain.after .standard 2).messageKey .standard
  let message : RatchetMessage :=
    ⟨header, none, Suite.standard.encrypt key (header.authenticated []) []⟩
  let config : RatchetConfig := { maxSkippedKeys := 1 }
  let next : Session := { s.advanced .standard receiving header config with pending := none }
  have starts : s.Starts := .responder _ _
  have decrypted : s.decrypt .standard message config = .ok (next, []) := by
    refine (decrypt_eq_ok_iff .standard).2
      ⟨_, _, .current rfl rfl rfl (Nat.zero_le _) ?_ ?_, ?_, rfl⟩
    · change 2 ≤ 1000
      decide
    · change 2 < 2 ^ 64 - 1
      decide
    · exact Suite.standard_decrypt?_encrypt key _ []
  obtain ⟨step, -, run⟩ := cache_keeps_latest .standard config KeyStream
  refine ⟨s, next, message, starts, decrypted, ?_, (run s [.decrypt message] starts).1⟩
  have leaves := (step s next message [] (Nat.zero_le _) decrypted).1
  generalize next.skipped.keys = keys at leaves
  cases leaves with
  | late split => simp [s, responder] at split
  | current _ receives =>
    cases receives
    rfl
  | turn _ _ sends => cases sends

end Session

end Confide
