import Confide.Entropy.KeyStream
import Confide.Proofs.Cipher.Sealing
import Confide.Proofs.Ratchet.Steps
import Mathlib.Data.List.Nodup

/-! No position of a message is opened twice. A session is followed through any operations, together
with the positions it has opened and the ratchet keys it has heard of: what is opened or cached
never comes again, as long as the peer does not go back to an old ratchet key. -/

set_option autoImplicit false

namespace Confide

/-- The place of a message: its ratchet key and its number on that chain. -/
abbrev Position := PublicKey × UInt64

def MessageHeader.position (header : MessageHeader) : Position :=
  (header.ratchetKey, header.counter)

def SkippedKey.position (key : SkippedKey) : Position := (key.ratchetKey, key.counter)

def KeyCache.positions (cache : KeyCache) : List Position := cache.keys.map (·.position)

theorem KeyCache.positions_remove {cache : KeyCache} {ratchetKey : PublicKey} {counter : UInt64}
    {key : SealingKey} (found : cache.find? ratchetKey counter = some key) :
    cache.positions.Perm
      ((ratchetKey, counter) :: (cache.remove ratchetKey counter).positions) := by
  have here : isFor ratchetKey counter ⟨ratchetKey, counter, key⟩ := isFor_iff.2 ⟨rfl, rfl⟩
  obtain ⟨entry, before, after, -, same, whole, rest⟩ :=
    List.exists_of_eraseP (mem_of_find? found) here
  obtain ⟨rfl, rfl⟩ := isFor_iff.1 same
  have kept : (cache.remove entry.ratchetKey entry.counter).keys = before ++ after := rest
  rw [positions, positions, kept, whole, List.map_append, List.map_append, List.map_cons]
  exact List.perm_middle

namespace ReceivingChain

variable {S : Suite} {receiving : ReceivingChain} {n : Nat}
  (bound : receiving.chain.counter.toNat + n < 2 ^ 64)
include bound

theorem toNat_counter_after :
    (receiving.after S n).chain.counter.toNat = receiving.chain.counter.toNat + n :=
  Chain.toNat_counter_after S bound

theorem mem_positions_passed {position : Position}
    (mem : position ∈ (receiving.passed S n).map (·.position)) :
    position.1 = receiving.ratchetKey ∧ receiving.chain.counter.toNat ≤ position.2.toNat ∧
      position.2.toNat < receiving.chain.counter.toNat + n := by
  simp only [passed, List.map_map, List.mem_map, List.mem_range, Function.comp_apply,
    SkippedKey.position] at mem
  obtain ⟨i, low, rfl⟩ := mem
  have counter := Chain.toNat_counter_after S
    (by omega : receiving.chain.counter.toNat + i < 2 ^ 64)
  exact ⟨rfl, by simp only [counter]; omega, by simp only [counter]; omega⟩

theorem nodup_positions_passed : ((receiving.passed S n).map (·.position)).Nodup := by
  rw [passed, List.map_map]
  refine List.Nodup.map_on (fun i low j low' same => ?_) List.nodup_range
  have first := Chain.toNat_counter_after S
    (by have := List.mem_range.1 low; omega : receiving.chain.counter.toNat + i < 2 ^ 64)
  have second := Chain.toNat_counter_after S
    (by have := List.mem_range.1 low'; omega : receiving.chain.counter.toNat + j < 2 ^ 64)
  have counters := congrArg UInt64.toNat (congrArg Prod.snd same)
  simp only [Function.comp_apply, SkippedKey.position, first, second] at counters
  omega

variable {last : Position} (number : last.2.toNat = receiving.chain.counter.toNat + n)
include number

theorem mem_positions_passed_append (key : last.1 = receiving.ratchetKey) {position : Position}
    (mem : position ∈ (receiving.passed S n).map (·.position) ++ [last]) :
    position.1 = receiving.ratchetKey ∧ receiving.chain.counter.toNat ≤ position.2.toNat ∧
      position.2.toNat ≤ receiving.chain.counter.toNat + n := by
  rcases List.mem_append.1 mem with passed | same
  · obtain ⟨isKey, low, high⟩ := mem_positions_passed bound passed
    exact ⟨isKey, low, Nat.le_of_lt high⟩
  · rw [List.mem_singleton.1 same]
    exact ⟨key, by omega, Nat.le_of_eq number⟩

theorem nodup_positions_passed_append :
    ((receiving.passed S n).map (·.position) ++ [last]).Nodup := by
  refine List.nodup_append.2 ⟨nodup_positions_passed bound, List.nodup_singleton _, ?_⟩
  rintro position passed _ same rfl
  have high := (mem_positions_passed bound passed).2.2
  rw [List.mem_singleton.1 same] at high
  omega

end ReceivingChain

namespace Session

inductive Starts : Session → Prop where
  | initiator (h : Initiation) : Starts (.initiator h)
  | responder (r : Response) (header : HandshakeHeader) : Starts (.responder r header)

inductive Operation (G : Type) where
  | encrypt (plaintext : Bytes) (source : G)
  | decrypt (message : RatchetMessage)

structure History where
  session : Session
  /-- The positions of the messages which were decrypted. -/
  opened : List Position
  /-- The peer's ratchet keys in the order in which they were adopted. -/
  adopted : List PublicKey

namespace History

def begin (s : Session) : History := ⟨s, [], s.theirRatchetKey.toList⟩

variable {G : Type} [Entropy G] (S : Suite) (config : RatchetConfig)

def opens (h : History) (message : RatchetMessage) (next : Session) : History where
  session := next
  opened := h.opened ++ [message.header.position]
  adopted :=
    if next.theirRatchetKey = h.session.theirRatchetKey then h.adopted
    else h.adopted ++ next.theirRatchetKey.toList

/-- What fails changes nothing. -/
def step (h : History) : Operation G → History
  | .encrypt plaintext source =>
    match (h.session.encrypt S plaintext source).1 with
    | .error _ => h
    | .ok (next, _) => { h with session := next }
  | .decrypt message =>
    match h.session.decrypt S message config with
    | .error _ => h
    | .ok (next, _) => h.opens message next

def run (h : History) (operations : List (Operation G)) : History :=
  operations.foldl (fun h operation => h.step S config operation) h

/-- Everything which is opened or cached is in its own place, of a ratchet key which was adopted; on
the peer's current chain it lies behind. -/
structure Sound (h : History) : Prop where
  distinct : (h.opened ++ h.session.skipped.positions).Nodup
  known : ∀ position ∈ h.opened ++ h.session.skipped.positions, position.1 ∈ h.adopted
  heard : ∀ receiving ∈ h.session.receiving, receiving.ratchetKey ∈ h.adopted
  behind : ∀ receiving ∈ h.session.receiving,
    ∀ position ∈ h.opened ++ h.session.skipped.positions,
      position.1 = receiving.ratchetKey → position.2.toNat < receiving.chain.counter.toNat

variable {S config} {h : History}

theorem nodup_of_suffix {opened cached added kept : List Position} {position : Position}
    (old : (opened ++ cached).Nodup) (new : (added ++ [position]).Nodup)
    (fresh : ∀ other ∈ added ++ [position], other ∉ opened ++ cached)
    (suffix : kept <:+ cached ++ added) : (opened ++ [position] ++ kept).Nodup := by
  have whole : (opened ++ cached ++ (added ++ [position])).Nodup :=
    old.append new fun other first second => fresh other second first
  have perm : (opened ++ [position] ++ (cached ++ added)).Perm
      (opened ++ cached ++ (added ++ [position])) := by
    rw [List.append_assoc, List.append_assoc, ← List.append_assoc cached]
    exact List.perm_append_comm.append_left opened
  exact (perm.nodup_iff.2 whole).sublist (suffix.sublist.append_left _)

/-- Different positions which nothing has taken, of ratchet keys which are adopted by then. -/
structure Fresh (h : History) (adopted : List PublicKey) (positions : List Position) : Prop where
  nodup : positions.Nodup
  unused : ∀ position ∈ positions, position ∉ h.opened ++ h.session.skipped.positions
  known : ∀ position ∈ positions, position.1 ∈ adopted

theorem Sound.fresh_of_unheard (sound : h.Sound) {key : PublicKey} {positions : List Position}
    (unheard : key ∉ h.adopted) (nodup : positions.Nodup)
    (keys : ∀ position ∈ positions, position.1 = key) :
    h.Fresh (h.adopted ++ [key]) positions where
  nodup := nodup
  unused position mem old := unheard (keys position mem ▸ sound.known position old)
  known position mem := by
    rw [keys position mem]
    exact List.mem_append_right _ (List.mem_singleton_self _)

theorem Fresh.append {adopted : List PublicKey} {key : PublicKey} {first second : List Position}
    (fresh : h.Fresh adopted first) (fresh' : h.Fresh (adopted ++ [key]) second)
    (apart : ∀ position ∈ second, position.1 ∉ adopted) :
    h.Fresh (adopted ++ [key]) (first ++ second) where
  nodup := fresh.nodup.append fresh'.nodup fun position mem mem' =>
    apart position mem' (fresh.known position mem)
  unused position mem :=
    (List.mem_append.1 mem).elim (fresh.unused position) (fresh'.unused position)
  known position mem :=
    (List.mem_append.1 mem).elim (fun mem => List.mem_append_left _ (fresh.known position mem))
      (fresh'.known position)

theorem Sound.grow (sound : h.Sound) {next : Session} {receiving : ReceivingChain}
    {added : List SkippedKey} {adopted : List PublicKey} {position : Position} {capacity : Nat}
    (cache : next.skipped = h.session.skipped.insertAll added capacity)
    (receives : next.receiving = some receiving)
    (fresh : h.Fresh adopted (added.map (·.position) ++ [position]))
    (more : ∀ key ∈ h.adopted, key ∈ adopted) (heard : receiving.ratchetKey ∈ adopted)
    (behind : ∀ other, other ∈ h.opened ++ h.session.skipped.positions ∨
      other ∈ added.map (·.position) ++ [position] →
        other.1 = receiving.ratchetKey → other.2.toNat < receiving.chain.counter.toNat) :
    (History.mk next (h.opened ++ [position]) adopted).Sound := by
  -- The cache may drop its oldest keys, but gains none besides the added ones.
  have suffix : next.skipped.positions <:+
      h.session.skipped.positions ++ added.map (·.position) := by
    rw [cache, KeyCache.positions, KeyCache.positions, ← List.map_append]
    exact (KeyCache.insertAll_suffix ..).map _
  have origin : ∀ other ∈ h.opened ++ [position] ++ next.skipped.positions,
      other ∈ h.opened ++ h.session.skipped.positions ∨
        other ∈ added.map (·.position) ++ [position] := by
    intro other mem
    have inside : other ∈ h.opened ++ [position] ++
        (h.session.skipped.positions ++ added.map (·.position)) :=
      (suffix.sublist.append_left _).mem mem
    simp only [List.mem_append] at inside ⊢
    tauto
  refine ⟨nodup_of_suffix sound.distinct fresh.nodup fresh.unused suffix, ?_, ?_, ?_⟩
  · intro other mem
    rcases origin other mem with old | new
    · exact more _ (sound.known other old)
    · exact fresh.known other new
  · intro other same
    rw [receives] at same
    cases same
    exact heard
  · intro other same place mem
    rw [receives] at same
    cases same
    exact behind place (origin place mem)

variable {message : RatchetMessage} {next : Session} {plaintext : Bytes}

theorem adopted_opens_of_eq (same : next.theirRatchetKey = h.session.theirRatchetKey) :
    (h.opens message next).adopted = h.adopted :=
  if_pos same

theorem adopted_opens_of_ne {key : PublicKey} (now : next.theirRatchetKey = some key)
    (other : h.session.theirRatchetKey ≠ some key) :
    (h.opens message next).adopted = h.adopted ++ [key] := by
  rw [opens, if_neg (by rw [now]; exact other.symm), now]
  rfl

theorem Sound.opens_cached (sound : h.Sound) {key : SealingKey}
    (found : h.session.skipped.find? message.header.ratchetKey message.header.counter = some key)
    (same : next = { h.session with
      skipped := h.session.skipped.remove message.header.ratchetKey message.header.counter
      pending := none }) : (h.opens message next).Sound := by
  have adopted : (h.opens message next).adopted = h.adopted :=
    adopted_opens_of_eq (by rw [same]; rfl)
  have perm : ((h.opens message next).opened ++ next.skipped.positions).Perm
      (h.opened ++ h.session.skipped.positions) := by
    rw [same, opens, List.append_assoc]
    exact (KeyCache.positions_remove found).symm.append_left h.opened
  have receiving : next.receiving = h.session.receiving := by rw [same]
  refine ⟨perm.nodup_iff.2 sound.distinct, fun position mem => ?_, fun other mem => ?_,
    fun other mem position inside => ?_⟩
  · rw [adopted]
    exact sound.known position (perm.mem_iff.1 mem)
  · rw [adopted]
    exact sound.heard other (receiving ▸ mem)
  · exact sound.behind other (receiving ▸ mem) position (perm.mem_iff.1 inside)

theorem Sound.opens_current (sound : h.Sound) {receiving : ReceivingChain}
    (short : HasNext message.header.counter)
    (receives : h.session.receiving = some receiving)
    (isKey : receiving.ratchetKey = message.header.ratchetKey)
    (ahead : receiving.chain.counter.toNat ≤ message.header.counter.toNat)
    (same : next = { h.session.advanced S receiving message.header config with pending := none }) :
    (h.opens message next).Sound := by
  have adopted : (h.opens message next).adopted = h.adopted :=
    adopted_opens_of_eq (by rw [same, theirRatchetKey, theirRatchetKey, receives]; rfl)
  have receives' : next.receiving =
      some (receiving.after S (receiving.gap message.header.counter + 1)) := by
    rw [same]
    rfl
  have reached : message.header.position.2.toNat =
      receiving.chain.counter.toNat + receiving.gap message.header.counter :=
    (Nat.add_sub_cancel' ahead).symm
  have number : message.header.position.2.toNat = message.header.counter.toNat := rfl
  have bound : receiving.chain.counter.toNat + receiving.gap message.header.counter < 2 ^ 64 := by
    omega
  have counter := ReceivingChain.toNat_counter_after (S := S)
    (by omega : receiving.chain.counter.toNat + (receiving.gap message.header.counter + 1) < 2 ^ 64)
  have place : ∀ position ∈ (receiving.passed S (receiving.gap message.header.counter)).map
      (·.position) ++ [message.header.position], position.1 = receiving.ratchetKey ∧
        receiving.chain.counter.toNat ≤ position.2.toNat ∧
        position.2.toNat ≤ receiving.chain.counter.toNat + receiving.gap message.header.counter :=
    fun _ => ReceivingChain.mem_positions_passed_append bound reached isKey.symm
  have grown : (History.mk next (h.opened ++ [message.header.position]) h.adopted).Sound := by
    refine sound.grow (by rw [same]; rfl) receives'
      ⟨ReceivingChain.nodup_positions_passed_append bound reached, fun position mem old => ?_,
        fun position mem => ?_⟩ (fun _ => id) (sound.heard receiving receives)
      fun position mem key => ?_
    · have low := (place position mem).2.1
      have high := sound.behind receiving receives position old (place position mem).1
      omega
    · rw [(place position mem).1]
      exact sound.heard receiving receives
    · rw [counter]
      rcases mem with old | new
      · have high := sound.behind receiving receives position old key
        omega
      · have high := (place position new).2.2
        omega
  rw [← adopted] at grown
  exact grown

theorem Sound.missing (sound : h.Sound) (header : MessageHeader) :
    h.Fresh h.adopted ((h.session.missing S header).map (·.position)) := by
  unfold Session.missing
  cases receives : h.session.receiving with
  | none => exact ⟨.nil, nofun, nofun⟩
  | some receiving =>
    have bound := receiving.counter_add_gap_lt header.previousLength
    refine ⟨ReceivingChain.nodup_positions_passed bound, fun position mem old => ?_,
      fun position mem => ?_⟩
    · obtain ⟨key, low, -⟩ := ReceivingChain.mem_positions_passed bound mem
      have high := sound.behind receiving receives position old key
      omega
    · rw [(ReceivingChain.mem_positions_passed bound mem).1]
      exact sound.heard receiving receives

theorem Sound.opens_turn (sound : h.Sound) {length : UInt64} {shared : Octets 32}
    (short : HasNext message.header.counter)
    (other : h.session.theirRatchetKey ≠ some message.header.ratchetKey)
    (once : (h.opens message next).adopted.Nodup)
    (same : next =
      { h.session.turned S message.header config length shared with pending := none }) :
    (h.opens message next).Sound := by
  let fresh : ReceivingChain :=
    ⟨message.header.ratchetKey, .start (mixRoot S h.session.root shared).2⟩
  have receives : next.receiving = some (fresh.after S (message.header.counter.toNat + 1)) := by
    rw [same]
    rfl
  have cache : next.skipped = h.session.skipped.insertAll (h.session.missing S message.header ++
      fresh.passed S message.header.counter.toNat) config.maxSkippedKeys.toNat := by
    rw [same]
    rfl
  have adopted : (h.opens message next).adopted = h.adopted ++ [message.header.ratchetKey] :=
    adopted_opens_of_ne (by rw [theirRatchetKey, receives]; rfl) other
  have unheard : message.header.ratchetKey ∉ h.adopted := by
    rw [adopted] at once
    exact fun mem => (List.nodup_append.1 once).2.2 _ mem _ (List.mem_singleton_self _) rfl
  have zero : fresh.chain.counter.toNat = 0 := rfl
  have number : message.header.position.2.toNat = message.header.counter.toNat := rfl
  have reached : message.header.position.2.toNat =
      fresh.chain.counter.toNat + message.header.counter.toNat := by omega
  have bound : fresh.chain.counter.toNat + message.header.counter.toNat < 2 ^ 64 := by omega
  have counter := ReceivingChain.toNat_counter_after (S := S)
    (by omega : fresh.chain.counter.toNat + (message.header.counter.toNat + 1) < 2 ^ 64)
  have place : ∀ position ∈ (fresh.passed S message.header.counter.toNat).map (·.position) ++
      [message.header.position], position.1 = message.header.ratchetKey ∧
        position.2.toNat ≤ message.header.counter.toNat := by
    intro position mem
    obtain ⟨key, -, high⟩ := ReceivingChain.mem_positions_passed_append bound reached rfl mem
    exact ⟨key, by omega⟩
  have missing := sound.missing (S := S) message.header
  have whole : (h.session.missing S message.header ++
        fresh.passed S message.header.counter.toNat).map (·.position) ++ [message.header.position] =
      (h.session.missing S message.header).map (·.position) ++
        ((fresh.passed S message.header.counter.toNat).map (·.position) ++
          [message.header.position]) := by
    rw [List.map_append, List.append_assoc]
  have grown : (History.mk next (h.opened ++ [message.header.position])
      (h.adopted ++ [message.header.ratchetKey])).Sound := by
    refine sound.grow cache receives ?_ (fun _ => List.mem_append_left _)
      (List.mem_append_right _ (List.mem_singleton_self _)) fun position mem key => ?_
    · rw [whole]
      refine missing.append (sound.fresh_of_unheard unheard
        (ReceivingChain.nodup_positions_passed_append bound reached)
        fun position mem => (place position mem).1) fun position mem => ?_
      rw [(place position mem).1]
      exact unheard
    -- What was there before is of older ratchet keys, only the new chain's own keys remain.
    · have new : position.1 ∉ h.adopted := by
        rw [key]
        exact unheard
      rw [whole] at mem
      rw [counter]
      rcases mem with old | mem
      · exact absurd (sound.known position old) new
      · rcases List.mem_append.1 mem with first | second
        · exact absurd (missing.known position first) new
        · have high := (place position second).2
          omega
  rw [← adopted] at grown
  exact grown

theorem Sound.begin {s : Session} (starts : s.Starts) : (History.begin s).Sound := by
  cases starts with
  | initiator h => exact ⟨.nil, nofun, nofun, nofun⟩
  | responder r header =>
    refine ⟨.nil, nofun, ?_, nofun⟩
    rintro receiving ⟨⟩
    exact List.mem_singleton_self _

theorem Sound.opens (sound : h.Sound)
    (decrypted : h.session.decrypt S message config = .ok (next, plaintext))
    (once : (h.opens message next).adopted.Nodup) : (h.opens message next).Sound := by
  -- Whether the seal was right does not matter, only by which route the key was taken.
  obtain ⟨taken, key, takes, -, same⟩ := (decrypt_eq_ok_iff S).1 decrypted
  cases takes with
  | cached found => exact sound.opens_cached found same
  | current _ receives isKey ahead _ short =>
    exact sound.opens_current short receives isKey ahead same
  | turn _ other _ _ _ _ short => exact sound.opens_turn short other once same

theorem Sound.encrypts {source : G} (sound : h.Sound)
    (encrypted : (h.session.encrypt S plaintext source).1 = .ok (next, message)) :
    (History.mk next h.opened h.adopted).Sound := by
  obtain ⟨started, ratchet, chain, sends, -, isSealed⟩ := (encrypt_eq_ok_iff S).1 encrypted
  have kept : next.receiving = h.session.receiving ∧ next.skipped = h.session.skipped := by
    cases isSealed
    cases sends <;> exact ⟨rfl, rfl⟩
  obtain ⟨receiving, skipped⟩ := kept
  refine ⟨?_, ?_, ?_, ?_⟩ <;> simp only [receiving, skipped]
  · exact sound.distinct
  · exact sound.known
  · exact sound.heard
  · exact sound.behind

variable (S config) in
theorem step_cases (h : History) (operation : Operation G) :
    h.step S config operation = h ∨
      (∃ plaintext source next message,
        (h.session.encrypt S plaintext source : Except Error _ × G).1 = .ok (next, message) ∧
          h.step S config operation = { h with session := next }) ∨
      ∃ message next plaintext, h.session.decrypt S message config = .ok (next, plaintext) ∧
        h.step S config operation = h.opens message next := by
  cases operation with
  | encrypt plaintext source =>
    cases outcome : (h.session.encrypt S plaintext source).1 with
    | error error =>
      refine .inl ?_
      simp only [step, outcome]
    | ok encrypted =>
      refine .inr (.inl ⟨plaintext, source, encrypted.1, encrypted.2, outcome, ?_⟩)
      simp only [step, outcome]
  | decrypt message =>
    cases outcome : h.session.decrypt S message config with
    | error error =>
      refine .inl ?_
      simp only [step, outcome]
    | ok decrypted =>
      refine .inr (.inr ⟨message, decrypted.1, decrypted.2, outcome, ?_⟩)
      simp only [step, outcome]

variable (S config) in
theorem prefix_step (h : History) (operation : Operation G) :
    h.opened <+: (h.step S config operation).opened ∧
      h.adopted <+: (h.step S config operation).adopted := by
  rcases step_cases S config h operation with
    same | ⟨_, _, _, _, -, same⟩ | ⟨message, next, _, -, same⟩ <;> rw [same]
  · exact ⟨List.prefix_rfl, List.prefix_rfl⟩
  · exact ⟨List.prefix_rfl, List.prefix_rfl⟩
  · refine ⟨List.prefix_append _ _, ?_⟩
    unfold opens
    split
    · exact List.prefix_rfl
    · exact List.prefix_append _ _

variable (S config) in
theorem prefix_run (h : History) (operations : List (Operation G)) :
    h.opened <+: (h.run S config operations).opened ∧
      h.adopted <+: (h.run S config operations).adopted := by
  induction operations generalizing h with
  | nil => exact ⟨List.prefix_rfl, List.prefix_rfl⟩
  | cons operation rest ih =>
    obtain ⟨opened, adopted⟩ := prefix_step S config h operation
    obtain ⟨opened', adopted'⟩ := ih (h.step S config operation)
    exact ⟨opened.trans opened', adopted.trans adopted'⟩

theorem Sound.step (sound : h.Sound) (operation : Operation G)
    (once : (h.step S config operation).adopted.Nodup) :
    (h.step S config operation).Sound := by
  rcases step_cases S config h operation with
    same | ⟨_, _, _, _, encrypted, same⟩ | ⟨_, _, _, decrypted, same⟩ <;> rw [same] at once ⊢
  · exact sound
  · exact sound.encrypts encrypted
  · exact sound.opens decrypted once

theorem Sound.run (sound : h.Sound) (operations : List (Operation G))
    (once : (h.run S config operations).adopted.Nodup) :
    (h.run S config operations).Sound := by
  induction operations generalizing h with
  | nil => exact sound
  | cons operation rest ih =>
    have adopted := (prefix_run S config (h.step S config operation) rest).2
    exact ih (sound.step operation (once.sublist adopted.sublist)) once

end History

/-- No position is opened twice. What is cached has one place each, and on the peer's current chain
it lies behind. -/
theorem run_opened_nodup {G : Type} [Entropy G] {S : Suite} {config : RatchetConfig} {s : Session}
    (starts : s.Starts) (operations : List (Operation G))
    (once : ((History.begin s).run S config operations).adopted.Nodup) :
    let h := (History.begin s).run S config operations
    h.opened.Nodup ∧ h.session.skipped.positions.Nodup ∧
      (∀ position ∈ h.opened, position ∉ h.session.skipped.positions) ∧
      ∀ receiving ∈ h.session.receiving, ∀ entry ∈ h.session.skipped.keys,
        entry.ratchetKey = receiving.ratchetKey → entry.counter < receiving.chain.counter := by
  have sound := (History.Sound.begin starts).run operations once
  obtain ⟨opened, cached, apart⟩ := List.nodup_append.1 sound.distinct
  refine ⟨opened, cached, fun position first second => apart _ first _ second rfl,
    fun receiving receives entry mem key => UInt64.lt_iff_toNat_lt.2 ?_⟩
  have inside : entry.position ∈ ((History.begin s).run S config operations).opened ++
      ((History.begin s).run S config operations).session.skipped.positions :=
    List.mem_append_right _ (List.mem_map_of_mem mem)
  exact sound.behind receiving receives entry.position inside key

theorem History.exists_run_out_of_order {S : Suite} (sealing : ∀ key associated plaintext,
      S.decrypt? key associated (S.encrypt key associated plaintext) = some plaintext) :
    ∃ (s last : Session) (first second : RatchetMessage), s.Starts ∧
      (History.begin s).run S {} [(.decrypt second : Operation KeyStream), .decrypt first] =
        ⟨last, [second.header.position, first.header.position], [second.header.ratchetKey]⟩ := by
  let peer : PublicKey := ⟨.replicate 32 9⟩
  let chain : Chain := .start (.replicate 32 2)
  let receiving : ReceivingChain := ⟨peer, chain⟩
  let s : Session := .responder ⟨⟨.replicate 32 1, .replicate 32 2⟩, []⟩
    ⟨⟨⟨.replicate 32 0⟩, peer⟩, peer, 0, none⟩
  let message (i : UInt64) (chain : Chain) : RatchetMessage :=
    let header : MessageHeader := ⟨peer, 0, i⟩
    ⟨header, none, S.encrypt (chain.messageKey S) (header.authenticated []) []⟩
  let first := message 0 chain
  let second := message 1 (chain.next S)
  let middle : Session := { s.advanced S receiving second.header {} with pending := none }
  let last : Session := { middle with skipped := middle.skipped.remove peer 0, pending := none }
  have opensSecond : s.decrypt S second {} = .ok (middle, []) := by
    have near : receiving.gap second.header.counter ≤ (RatchetConfig.maxSkip {}).toNat := by
      change 1 ≤ 1000
      decide
    have short : HasNext second.header.counter := by
      change 1 < 2 ^ 64 - 1
      decide
    refine (decrypt_eq_ok_iff S).2 ⟨_, _, .current rfl rfl rfl (Nat.zero_le _) near short, ?_, rfl⟩
    exact sealing ((chain.next S).messageKey S) _ []
  have opensFirst : middle.decrypt S first {} = .ok (last, []) := by
    have keys : middle.skipped.keys = [⟨peer, 0, chain.messageKey S⟩] :=
      KeyCache.keys_insertAll (.inr (by change 0 + 1 ≤ 2000; decide))
    have found : middle.skipped.find? peer 0 = some (chain.messageKey S) := by
      rw [KeyCache.find?, keys]
      rfl
    refine (decrypt_eq_ok_iff S).2 ⟨_, _, .cached found, ?_, rfl⟩
    exact sealing (chain.messageKey S) _ []
  have one : (History.begin s).step S {} (.decrypt second : Operation KeyStream) =
      ⟨middle, [second.header.position], [peer]⟩ := by
    simp only [History.step, History.begin, opensSecond]
    rfl
  have two : (History.mk middle [second.header.position] [peer]).step S {}
      (.decrypt first : Operation KeyStream) =
        ⟨last, [second.header.position, first.header.position], [peer]⟩ := by
    simp only [History.step, opensFirst]
    rfl
  refine ⟨s, last, first, second, .responder _ _, ?_⟩
  rw [History.run, List.foldl_cons, List.foldl_cons, one, two, List.foldl_nil]

theorem run_opened_out_of_order :
    ∃ (s : Session) (first second : RatchetMessage),
      let operations : List (Operation KeyStream) := [.decrypt second, .decrypt first]
      s.Starts ∧ ((History.begin s).run .standard {} operations).opened =
          [second.header.position, first.header.position] ∧
        ((History.begin s).run .standard {} operations).opened.Nodup := by
  obtain ⟨s, last, first, second, starts, run⟩ :=
    History.exists_run_out_of_order Suite.standard_decrypt?_encrypt
  refine ⟨s, first, second, starts, by rw [run], ?_⟩
  refine (run_opened_nodup starts _ ?_).1
  rw [run]
  exact List.nodup_singleton _

end Session

end Confide
