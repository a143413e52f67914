import Confide.Entropy.KeyStream
import Confide.Proofs.Cipher.Sealing
import Confide.Proofs.Ratchet.Replay

/-! What the operations change in a session and what they leave alone, and what follows for a whole
run: whom the session is with, which messages carry the handshake, and how many messages a chain
is said to have had when the peer moves on. -/

set_option autoImplicit false

namespace Confide.Session

variable {G : Type} [Entropy G] {S : Suite} {s next : Session} {message : RatchetMessage}
  {config : RatchetConfig} {plaintext : Bytes} {source : G}

/-- Sending leaves all alone that has to do with receiving, and on a chain which is current also the
root key. -/
theorem encrypt_changes (encrypted : (s.encrypt S plaintext source).1 = .ok (next, message)) :
    message.handshake = s.pending ∧ ∃ root ratchet chain previousLength,
      next = { s with root, sending := .current ratchet (chain.next S), previousLength } ∧
        (s.sending = .current ratchet chain ∧ root = s.root ∨
          s.sending.ended?.isSome ∧ chain.counter = 0) := by
  obtain ⟨started, ratchet, chain, sends, -, isSealed⟩ := (encrypt_eq_ok_iff S).1 encrypted
  cases isSealed
  cases sends with
  | current sends => exact ⟨rfl, _, ratchet, chain, _, rfl, .inl ⟨sends, rfl⟩⟩
  | fresh ended => exact ⟨rfl, _, _, _, _, rfl, .inr ⟨by rw [ended]; rfl, rfl⟩⟩

theorem decrypt_cached_changes
    (known : s.skipped.find? message.header.ratchetKey message.header.counter ≠ none)
    (decrypted : s.decrypt S message config = .ok (next, plaintext)) :
    ∃ skipped, next = { s with skipped, pending := none } := by
  obtain ⟨taken, key, takes, -, rfl⟩ := (decrypt_eq_ok_iff S).1 decrypted
  cases takes with
  | cached => exact ⟨_, rfl⟩
  | current unknown => exact absurd unknown known
  | turn unknown => exact absurd unknown known

theorem decrypt_current_changes
    (unknown : s.skipped.find? message.header.ratchetKey message.header.counter = none)
    (current : s.theirRatchetKey = some message.header.ratchetKey)
    (decrypted : s.decrypt S message config = .ok (next, plaintext)) :
    ∃ receiving skipped, next = { s with receiving, skipped, pending := none } := by
  obtain ⟨taken, key, takes, -, rfl⟩ := (decrypt_eq_ok_iff S).1 decrypted
  cases takes with
  | cached found => simp [unknown] at found
  | current => exact ⟨_, _, rfl⟩
  | turn _ other => exact absurd current other

/-- The peer's new ratchet key moves the root key on and ends the sending chain. -/
theorem decrypt_turn_changes
    (unknown : s.skipped.find? message.header.ratchetKey message.header.counter = none)
    (other : s.theirRatchetKey ≠ some message.header.ratchetKey)
    (decrypted : s.decrypt S message config = .ok (next, plaintext)) :
    ∃ ratchet chain shared receiving skipped, s.sending = .current ratchet chain ∧
      S.agree ratchet message.header.ratchetKey = .ok shared ∧
      next = { s with
        root := (mixRoot S s.root shared).1
        sending := .stale chain.counter
        receiving, skipped
        pending := none } := by
  obtain ⟨taken, key, takes, -, rfl⟩ := (decrypt_eq_ok_iff S).1 decrypted
  cases takes with
  | cached found => simp [unknown] at found
  | current _ receives same =>
    exact absurd (theirRatchetKey_eq_some_iff.2 ⟨_, receives, same⟩) other
  | turn _ _ sends _ _ agreed => exact ⟨_, _, _, _, _, sends, agreed, rfl⟩

inductive Deed where
  | sent (message : RatchetMessage)
  /-- A message of the peer was opened, and maybe it was the first one heard under its key. -/
  | opened (turned : Bool)

namespace Deed

def isSent : Deed → Bool
  | .sent _ => true
  | .opened _ => false

theorem of_append_singleton {deeds before after : List Deed} {deed own : Deed}
    (split : deeds ++ [deed] = before ++ own :: after) :
    deeds = before ∧ deed = own ∨ ∃ after, deeds = before ++ own :: after := by
  rcases List.eq_nil_or_concat after with rfl | ⟨rest, last, rfl⟩
  · obtain ⟨same, single⟩ := List.append_inj' split rfl
    exact .inl ⟨same, List.head_eq_of_cons_eq single⟩
  · rw [List.concat_eq_append, ← List.cons_append, ← List.append_assoc] at split
    exact .inr ⟨rest, (List.append_inj' split rfl).1⟩

/-- How many messages were sent since the last new ratchet key of the peer. -/
def sentSince : List Deed → Nat :=
  List.foldl (fun
    | count, .sent _ => count + 1
    | count, .opened turned => if turned then 0 else count) 0

theorem sentSince_append_sent (deeds : List Deed) (message : RatchetMessage) :
    sentSince (deeds ++ [.sent message]) = sentSince deeds + 1 := by
  simp [sentSince]

theorem sentSince_append_opened (deeds : List Deed) (turned : Bool) :
    sentSince (deeds ++ [.opened turned]) = if turned then 0 else sentSince deeds := by
  simp [sentSince]

end Deed

def turns (s : Session) (header : MessageHeader) : Bool :=
  (s.skipped.find? header.ratchetKey header.counter).isNone ∧
    s.theirRatchetKey ≠ some header.ratchetKey

variable (G S) in
/-- What a session comes to while messages are sent, and messages of any origin are opened. -/
inductive Lives (start : Session) : List Deed → Session → Prop where
  | refl : Lives start [] start
  | encrypt {deeds : List Deed} {s next : Session} {plaintext : Bytes} {source : G}
      {message : RatchetMessage} (lives : Lives start deeds s)
      (encrypted : (s.encrypt S plaintext source).1 = .ok (next, message)) :
      Lives start (deeds ++ [.sent message]) next
  | decrypt {deeds : List Deed} {s next : Session} {message : RatchetMessage}
      {config : RatchetConfig} {plaintext : Bytes} (lives : Lives start deeds s)
      (decrypted : s.decrypt S message config = .ok (next, plaintext)) :
      Lives start (deeds ++ [.opened (s.turns message.header)]) next

variable {start : Session} {deeds : List Deed}

theorem decrypt_keeps (decrypted : s.decrypt S message config = .ok (next, plaintext)) :
    next.theirIdentity = s.theirIdentity ∧ next.associatedData = s.associatedData ∧
      next.accepted = s.accepted ∧ next.pending = none := by
  obtain ⟨taken, key, takes, -, rfl⟩ := (decrypt_eq_ok_iff S).1 decrypted
  cases takes <;> exact ⟨rfl, rfl, rfl, rfl⟩

theorem turns_iff {header : MessageHeader} : s.turns header = true ↔
    s.skipped.find? header.ratchetKey header.counter = none ∧
      s.theirRatchetKey ≠ some header.ratchetKey := by
  simp [turns]

theorem decrypt_keeps_sending (stays : s.turns message.header = false)
    (decrypted : s.decrypt S message config = .ok (next, plaintext)) :
    next.root = s.root ∧ next.sending = s.sending := by
  by_cases unknown : s.skipped.find? message.header.ratchetKey message.header.counter = none
  · by_cases current : s.theirRatchetKey = some message.header.ratchetKey
    · obtain ⟨receiving, skipped, rfl⟩ := decrypt_current_changes unknown current decrypted
      exact ⟨rfl, rfl⟩
    · rw [turns_iff.2 ⟨unknown, current⟩] at stays
      cases stays
  · obtain ⟨skipped, rfl⟩ := decrypt_cached_changes unknown decrypted
    exact ⟨rfl, rfl⟩

theorem Lives.keeps (lives : Lives G S start deeds s) :
    s.theirIdentity = start.theirIdentity ∧ s.associatedData = start.associatedData ∧
      s.accepted = start.accepted := by
  induction lives with
  | refl => exact ⟨rfl, rfl, rfl⟩
  | encrypt lives encrypted ih =>
    obtain ⟨-, root, ratchet, chain, previousLength, rfl, -⟩ := encrypt_changes encrypted
    exact ih
  | decrypt lives decrypted ih =>
    obtain ⟨identity, data, accepted, -⟩ := decrypt_keeps decrypted
    rw [identity, data, accepted]
    exact ih

theorem Lives.pending (lives : Lives G S start deeds s) :
    s.pending = if deeds.all (·.isSent) then start.pending else none := by
  induction lives with
  | refl => rfl
  | encrypt lives encrypted ih =>
    obtain ⟨-, root, ratchet, chain, previousLength, rfl, -⟩ := encrypt_changes encrypted
    simpa [Deed.isSent] using ih
  | decrypt lives decrypted ih =>
    rw [(decrypt_keeps decrypted).2.2.2]
    simp [Deed.isSent]

theorem Lives.handshake (lives : Lives G S start deeds s) {before after : List Deed}
    (split : deeds = before ++ .sent message :: after) :
    message.handshake = if before.all (·.isSent) then start.pending else none := by
  induction lives generalizing after with
  | refl => simp at split
  | encrypt lives encrypted ih =>
    rcases Deed.of_append_singleton split with ⟨rfl, own⟩ | ⟨after, split⟩
    · cases own
      rw [(encrypt_changes encrypted).1, lives.pending]
    · exact ih split
  | decrypt lives decrypted ih =>
    rcases Deed.of_append_singleton split with ⟨-, own⟩ | ⟨after, split⟩
    · cases own
    · exact ih split

theorem Lives.counted (starts : start.Starts) (lives : Lives G S start deeds s) :
    (∀ ratchet chain, s.sending = .current ratchet chain →
      chain.counter = .ofNat (Deed.sentSince deeds)) ∧
    (s.sending.ended?.isSome → Deed.sentSince deeds = 0) := by
  induction lives with
  | refl =>
    cases starts with
    | initiator h =>
      refine ⟨?_, nofun⟩
      rintro ratchet chain ⟨⟩
      rfl
    | responder r header => exact ⟨nofun, fun _ => rfl⟩
  | @encrypt deeds s next plaintext source message lives encrypted ih =>
    obtain ⟨-, root, ratchet, chain, previousLength, rfl, either⟩ := encrypt_changes encrypted
    refine ⟨?_, nofun⟩
    rintro _ _ ⟨⟩
    have counter : chain.counter = .ofNat (Deed.sentSince deeds) := by
      rcases either with ⟨sends, -⟩ | ⟨ended, zero⟩
      · exact ih.1 ratchet chain sends
      · rw [ih.2 ended, zero]
        rfl
    rw [Deed.sentSince_append_sent, UInt64.ofNat_add, ← counter]
    rfl
  | @decrypt deeds s next message config plaintext lives decrypted ih =>
    rw [Deed.sentSince_append_opened]
    cases turns : s.turns message.header with
    | true =>
      obtain ⟨unknown, other⟩ := turns_iff.1 turns
      obtain ⟨ratchet, chain, shared, receiving, skipped, -, -, rfl⟩ :=
        decrypt_turn_changes unknown other decrypted
      exact ⟨nofun, fun _ => rfl⟩
    | false =>
      rw [(decrypt_keeps_sending turns decrypted).2]
      exact ih

variable (G S) in
/-- What sessions carry along unchanged, and what each operation may change. -/
theorem session_changes :
    (∀ (h : Initiation) (deeds : List Deed) (s : Session), Lives G S (.initiator h) deeds s →
      s.theirIdentity = h.theirIdentity ∧ s.associatedData = h.associatedData ∧
        ∀ before message after, deeds = before ++ .sent message :: after →
          message.handshake = if before.all (·.isSent) then some h.header else none) ∧
    (∀ (r : Response) (header : HandshakeHeader) (deeds : List Deed) (s : Session),
      Lives G S (.responder r header) deeds s →
        s.theirIdentity = header.identity ∧ s.associatedData = r.associatedData ∧
          s.hasAccepted header = true ∧
          ∀ message, .sent message ∈ deeds → message.handshake = none) ∧
    (∀ (s next : Session) (message : RatchetMessage) (config : RatchetConfig) (plaintext : Bytes),
      s.decrypt S message config = .ok (next, plaintext) →
        (s.skipped.find? message.header.ratchetKey message.header.counter ≠ none →
          next.root = s.root ∧ next.sending = s.sending ∧ next.receiving = s.receiving) ∧
        (s.skipped.find? message.header.ratchetKey message.header.counter = none →
          s.theirRatchetKey = some message.header.ratchetKey →
            next.root = s.root ∧ next.sending = s.sending) ∧
        (s.skipped.find? message.header.ratchetKey message.header.counter = none →
          s.theirRatchetKey ≠ some message.header.ratchetKey →
            ∃ ratchet chain shared, s.sending = .current ratchet chain ∧
              S.agree ratchet message.header.ratchetKey = .ok shared ∧
              next.root = (mixRoot S s.root shared).1 ∧
              next.previousLength = s.previousLength ∧ next.sending = .stale chain.counter)) ∧
    (∀ (start : Session) (deeds : List Deed) (s next : Session) (message : RatchetMessage)
      (config : RatchetConfig) (plaintext : Bytes), start.Starts → Lives G S start deeds s →
        s.decrypt S message config = .ok (next, plaintext) → s.turns message.header = true →
          next.sending = .stale (.ofNat (Deed.sentSince deeds))) ∧
    ∀ (s next : Session) (plaintext : Bytes) (source : G) (message : RatchetMessage),
      (s.encrypt S plaintext source).1 = .ok (next, message) →
        next.receiving = s.receiving ∧ next.skipped = s.skipped ∧
          (next.root ≠ s.root → ∀ ratchet chain, s.sending ≠ .current ratchet chain) := by
  refine ⟨?_, ?_, ?_, ?_, ?_⟩
  · intro h deeds s lives
    exact ⟨lives.keeps.1, lives.keeps.2.1, fun before message after => lives.handshake⟩
  · intro r header deeds s lives
    obtain ⟨identity, data, accepted⟩ := lives.keeps
    refine ⟨identity, data, ?_, fun message mem => ?_⟩
    · rw [hasAccepted, accepted]
      exact decide_eq_true rfl
    · obtain ⟨before, after, split⟩ := List.append_of_mem mem
      rw [lives.handshake split]
      exact ite_self none
  · intro s next message config plaintext decrypted
    refine ⟨fun known => ?_, fun unknown current => ?_, fun unknown other => ?_⟩
    · obtain ⟨skipped, rfl⟩ := decrypt_cached_changes known decrypted
      exact ⟨rfl, rfl, rfl⟩
    · obtain ⟨receiving, skipped, rfl⟩ := decrypt_current_changes unknown current decrypted
      exact ⟨rfl, rfl⟩
    · obtain ⟨ratchet, chain, shared, receiving, skipped, sends, agreed, rfl⟩ :=
        decrypt_turn_changes unknown other decrypted
      exact ⟨ratchet, chain, shared, sends, agreed, rfl, rfl, rfl⟩
  · intro start deeds s next message config plaintext starts lives decrypted turned
    obtain ⟨unknown, other⟩ := turns_iff.1 turned
    obtain ⟨ratchet, chain, shared, receiving, skipped, sends, -, rfl⟩ :=
      decrypt_turn_changes unknown other decrypted
    rw [(lives.counted starts).1 ratchet chain sends]
  · intro s next plaintext source message encrypted
    obtain ⟨-, root, ratchet, chain, previousLength, rfl, either⟩ := encrypt_changes encrypted
    refine ⟨rfl, rfl, fun moved otherRatchet otherChain sends => ?_⟩
    rcases either with ⟨-, same⟩ | ⟨ended, -⟩
    · exact moved same
    · rw [sends] at ended
      cases ended

theorem Lives.exists_answered
    (sealing : ∀ key associated plaintext,
      S.decrypt? key associated (S.encrypt key associated plaintext) = some plaintext)
    (h : Initiation) (source : G) (new : PublicKey) {shared shared' : Octets 32}
    (agreed : S.agree h.ephemeral new = .ok shared)
    (agreed' : S.agree ⟨(draw 32 source).1⟩ new = .ok shared') :
    ∃ (s next last : Session) (first answer second : RatchetMessage),
      Lives G S (.initiator h) [.sent first] s ∧ s.decrypt S answer {} = .ok (next, []) ∧
        s.turns answer.header = true ∧
        Lives G S (.initiator h) [.sent first, .opened true, .sent second] last := by
  let sent := (initiator h).sealNext S h.ephemeral (.start h.keys.chain) []
  let arriving : MessageHeader := ⟨new, 0, 0⟩
  let key := (Chain.start (mixRoot S h.keys.root shared).2).messageKey S
  let answer : RatchetMessage :=
    ⟨arriving, none, S.encrypt key (arriving.authenticated h.associatedData) []⟩
  let next : Session := { sent.1.turned S arriving {} 1 shared with pending := none }
  let keys := mixRoot S next.root shared'
  let started : Session := { next with root := keys.1, previousLength := 1 }
  let last := started.sealNext S ⟨(draw 32 source).1⟩ (.start keys.2) []
  have first : HasNext 0 := by decide
  have encrypted : ((initiator h).encrypt S [] source).1 = .ok sent :=
    (encrypt_eq_ok_iff S).2 ⟨_, _, _, .current rfl, first, rfl⟩
  have other : sent.1.theirRatchetKey ≠ some arriving.ratchetKey := (Option.some_ne_none _).symm
  have takes : sent.1.Takes S arriving {} (sent.1.turned S arriving {} 1 shared) key :=
    .turn rfl other rfl (Nat.zero_le 1000) (Nat.zero_le 1000) agreed first
  have decrypted : sent.1.decrypt S answer {} = .ok (next, []) :=
    (decrypt_eq_ok_iff S).2 ⟨_, _, takes, sealing key _ [], rfl⟩
  have turned : sent.1.turns answer.header = true := turns_iff.2 ⟨rfl, other⟩
  have encryptedAgain : (next.encrypt S [] source).1 = .ok last :=
    (encrypt_eq_ok_iff S).2 ⟨_, _, _, .fresh rfl rfl agreed', first, rfl⟩
  have lives : Lives G S (.initiator h) [.sent sent.2] sent.1 := .encrypt .refl encrypted
  have answered := lives.decrypt decrypted
  rw [turned] at answered
  exact ⟨sent.1, next, last.1, sent.2, answer, last.2, lives, decrypted, turned,
    answered.encrypt encryptedAgain⟩

/-- The answer to its first message ends the chain of an initiator, and its next message goes
without the handshake. -/
theorem initiator_answered :
    ∃ (h : Initiation) (next : Session) (first second : RatchetMessage),
      first.handshake = some h.header ∧ next.sending = .stale 1 ∧ second.handshake = none := by
  let peer : PublicKey := ⟨.replicate 32 9⟩
  let header : HandshakeHeader := ⟨⟨⟨.replicate 32 0⟩, peer⟩, peer, 0, none⟩
  let h : Initiation :=
    ⟨header, ⟨.replicate 32 1, .replicate 32 2⟩, ⟨.replicate 32 3⟩, header.identity, []⟩
  let source : KeyStream := ⟨.replicate 32 0, 0⟩
  obtain ⟨s, next, last, first, answer, second, lives, decrypted, turned, livesOn⟩ :=
    Lives.exists_answered Suite.standard_decrypt?_encrypt h source ⟨.replicate 32 7⟩
      (Suite.agree_eq_ok_iff.2 ⟨rfl, by decide +kernel⟩)
      (Suite.agree_eq_ok_iff.2 ⟨rfl, by decide +kernel⟩)
  obtain ⟨initiators, -, steps, counted, -⟩ := session_changes KeyStream .standard
  refine ⟨h, next, first, second, ?_, ?_, ?_⟩
  · exact (initiators h _ s lives).2.2 [] first [] rfl
  · exact counted _ _ s next answer {} [] (.initiator h) lives decrypted turned
  · exact (initiators h _ last livesOn).2.2 [.sent first, .opened true] second [] rfl

end Confide.Session
