import Confide.Entropy.KeyStream
import Confide.Proofs.Cipher.Sealing
import Confide.Proofs.Handshake
import Confide.Proofs.Ratchet.Steps

/-! A session can always send. To start a new sending chain it needs an agreement with the ratchet
key of the peer, which fails for keys of low order. But whatever key a session has heard of, it has
once agreed with: in the handshake which it answered, or when the peer moved to that key. -/

set_option autoImplicit false

namespace Confide

/-- Whether an agreement is all zero depends on the public key alone. -/
def Suite.ScreensKeys (S : Suite) : Prop :=
  ∀ (first second : SecretKey) (theirs : PublicKey),
    S.sharedSecret first theirs = .replicate 32 0 → S.sharedSecret second theirs = .replicate 32 0

def Suite.Contributes (S : Suite) (theirs : PublicKey) : Prop :=
  ∀ secret, ∃ shared, S.agree secret theirs = .ok shared

theorem Suite.ScreensKeys.contributes {S : Suite} (screens : S.ScreensKeys) {secret : SecretKey}
    {theirs : PublicKey} {shared : Octets 32} (agreed : S.agree secret theirs = .ok shared) :
    S.Contributes theirs := by
  intro other
  refine ⟨_, Suite.agree_eq_ok_iff.2 ⟨rfl, fun zero => ?_⟩⟩
  obtain ⟨rfl, nonzero⟩ := Suite.agree_eq_ok_iff.1 agreed
  exact nonzero (screens other secret theirs zero)

namespace Handshake

variable {S : Suite}

theorem exists_agree_of_agreeAll {pairs : List (SecretKey × PublicKey)}
    {secrets : List (Octets 32)} (agreed : agreeAll S pairs = .ok secrets)
    {pair : SecretKey × PublicKey} (mem : pair ∈ pairs) :
    ∃ shared, S.agree pair.1 pair.2 = .ok shared := by
  induction pairs generalizing secrets with
  | nil => cases mem
  | cons first rest ih =>
    simp only [agreeAll] at agreed
    cases head : S.agree first.1 first.2 with
    | error cause => simp [head] at agreed
    | ok shared =>
      cases tail : agreeAll S rest with
      | error error => simp [head, tail] at agreed
      | ok others =>
        rcases List.mem_cons.1 mem with rfl | later
        · exact ⟨shared, head⟩
        · exact ih tail later

theorem exists_agree_of_respond {ours : Identity} {header : HandshakeHeader} {signed : SecretKey}
    {oneTime : Option SecretKey} {r : Response}
    (responded : respond S ours header signed oneTime = .ok r) :
    ∃ shared, S.agree signed header.ephemeral = .ok shared := by
  unfold respond at responded
  split at responded
  · cases responded
  · simp only at responded
    split at responded
    · cases responded
    · rename_i agreed
      have mem : (signed, header.ephemeral) ∈ [(signed, header.identity.dhKey),
          (ours.dhSecret, header.ephemeral), (signed, header.ephemeral)] ++
            (oneTime.map fun secret => (secret, header.ephemeral)).toList := by simp
      exact exists_agree_of_agreeAll agreed mem

end Handshake

namespace Session

section
variable (S : Suite)

inductive Established (G : Type) [Entropy G] : Session → Prop where
  | initiator {ours : Identity} {bundle : Bundle} {now : UInt64} {source : G} {h : Initiation}
      (initiated : (Handshake.initiate S ours bundle now source).1 = .ok h) :
      Established G (.initiator h)
  | responder {ours : Identity} {header : HandshakeHeader} {signed : SecretKey}
      {oneTime : Option SecretKey} {r : Response}
      (responded : Handshake.respond S ours header signed oneTime = .ok r) :
      Established G (.responder r header)

/-- What becomes of a session while messages are sent, and messages of any origin arrive. -/
inductive Reachable (G : Type) [Entropy G] : Session → Prop where
  | established {s : Session} (established : Established S G s) : Reachable G s
  | encrypt {s next : Session} {plaintext : Bytes} {source : G} {message : RatchetMessage}
      (reachable : Reachable G s)
      (encrypted : (s.encrypt S plaintext source).1 = .ok (next, message)) : Reachable G next
  | decrypt {s next : Session} {message : RatchetMessage} {config : RatchetConfig}
      {plaintext : Bytes} (reachable : Reachable G s)
      (decrypted : s.decrypt S message config = .ok (next, plaintext)) : Reachable G next

/-- The peer's ratchet key has passed an agreement, and is known whenever the next message needs
one. -/
structure Ready (s : Session) : Prop where
  heard : ∀ receiving ∈ s.receiving, S.Contributes receiving.ratchetKey
  answers : s.sending.ended?.isSome = true → s.receiving.isSome = true

end

variable {G : Type} [Entropy G] {S : Suite} {s next : Session} {message : RatchetMessage}
  {config : RatchetConfig} {plaintext : Bytes} {source : G}

theorem Established.ready (established : Established S G s) (screens : S.ScreensKeys) :
    s.Ready S := by
  cases established with
  | initiator initiated => exact ⟨nofun, nofun⟩
  | responder responded =>
    obtain ⟨shared, agreed⟩ := Handshake.exists_agree_of_respond responded
    refine ⟨?_, fun _ => rfl⟩
    rintro receiving ⟨⟩
    exact screens.contributes agreed

theorem Ready.encrypt (ready : s.Ready S)
    (encrypted : (s.encrypt S plaintext source).1 = .ok (next, message)) : next.Ready S := by
  obtain ⟨started, ratchet, chain, sends, -, isSealed⟩ := (encrypt_eq_ok_iff S).1 encrypted
  cases isSealed
  -- The chain is current now, and the peer's key is the same.
  cases sends <;> exact ⟨ready.heard, nofun⟩

theorem Ready.decrypt (ready : s.Ready S) (screens : S.ScreensKeys)
    (decrypted : s.decrypt S message config = .ok (next, plaintext)) : next.Ready S := by
  obtain ⟨taken, key, takes, -, rfl⟩ := (decrypt_eq_ok_iff S).1 decrypted
  cases takes with
  | cached found => exact ⟨ready.heard, ready.answers⟩
  | @current receiving unknown receives =>
    refine ⟨?_, fun _ => rfl⟩
    rintro next ⟨⟩
    exact ready.heard receiving receives
  | turn unknown other sends complete near agreed =>
    refine ⟨?_, fun _ => rfl⟩
    rintro receiving ⟨⟩
    exact screens.contributes agreed

theorem Reachable.ready (reachable : Reachable S G s) (screens : S.ScreensKeys) : s.Ready S := by
  induction reachable with
  | established established => exact established.ready screens
  | encrypt reachable encrypted ready => exact ready.encrypt encrypted
  | decrypt reachable decrypted ready => exact ready.decrypt screens decrypted

theorem Ready.exists_receiving (ready : s.Ready S) {previousLength : UInt64}
    (ended : s.sending.ended? = some previousLength) :
    ∃ receiving, s.receiving = some receiving ∧ S.Contributes receiving.ratchetKey := by
  obtain ⟨receiving, receives⟩ := Option.isSome_iff_exists.1 (ready.answers (by rw [ended]; rfl))
  exact ⟨receiving, receives, ready.heard receiving receives⟩

theorem Ready.sends (ready : s.Ready S) (source : G) :
    ∃ started ratchet chain, s.Sends S source started ratchet chain := by
  cases sends : s.sending with
  | current ratchet chain => exact ⟨s, ratchet, chain, .current sends⟩
  | uninitialised | stale =>
    have ended : s.sending.ended? = some _ := congrArg SendingChain.ended? sends
    obtain ⟨receiving, receives, contributes⟩ := ready.exists_receiving ended
    obtain ⟨shared, agreed⟩ := contributes ⟨(draw 32 source).1⟩
    exact ⟨_, _, _, .fresh ended receives agreed⟩

/-- Whatever has arrived, the next message can be sent, unless the chain it goes on is used up. -/
theorem Reachable.can_encrypt (reachable : Reachable S G s) (screens : S.ScreensKeys) :
    ((∀ ratchet chain, s.sending = .current ratchet chain → HasNext chain.counter) →
      ∀ (plaintext : Bytes) (source : G),
        ∃ next message, (s.encrypt S plaintext source).1 = .ok (next, message)) ∧
    ∀ previousLength, s.sending.ended? = some previousLength →
      ∃ receiving, s.receiving = some receiving ∧ S.Contributes receiving.ratchetKey := by
  have ready := reachable.ready screens
  constructor
  · intro unfinished plaintext source
    obtain ⟨started, ratchet, chain, sends⟩ := ready.sends source
    have short := sends.lt_last unfinished
    exact ⟨_, _, (encrypt_eq_ok_iff S).2 ⟨started, ratchet, chain, sends, short, rfl⟩⟩
  · intro previousLength ended
    exact ready.exists_receiving ended

/-- A key is screened once, by one key pair for all. -/
def screened : Suite :=
  { Suite.standard with
    sharedSecret := fun secret theirs =>
      if Suite.standard.sharedSecret ⟨.replicate 32 1⟩ theirs = .replicate 32 0 then .replicate 32 0
      else
        let shared := Suite.standard.sharedSecret secret theirs
        if shared = .replicate 32 0 then .replicate 32 1 else shared }

theorem screened_decrypt?_encrypt (key : SealingKey) (associated plaintext : Bytes) :
    screened.decrypt? key associated (screened.encrypt key associated plaintext) = some plaintext :=
  Suite.standard_decrypt?_encrypt key associated plaintext

theorem screened_screensKeys : screened.ScreensKeys := by
  intro first second theirs zero
  simp only [screened] at zero ⊢
  split
  · rfl
  · rename_i contributes
    rw [if_neg contributes] at zero
    split at zero
    · exact absurd zero (by decide)
    · exact absurd zero ‹_›

theorem Reachable.exists_stale {r : Response} {header : HandshakeHeader}
    {shared shared' : Octets 32}
    (sealing : ∀ key associated plaintext,
      S.decrypt? key associated (S.encrypt key associated plaintext) = some plaintext)
    (reachable : Reachable S G (.responder r header)) (source : G) (new : PublicKey)
    (apart : header.ephemeral ≠ new)
    (agreed : S.agree ⟨(draw 32 source).1⟩ header.ephemeral = .ok shared)
    (agreed' : S.agree ⟨(draw 32 source).1⟩ new = .ok shared') :
    ∃ s, Reachable S G s ∧ s.sending = .stale 1 := by
  let s : Session := .responder r header
  let keys := mixRoot S s.root shared
  let sent := ({ s with root := keys.1, previousLength := 0 } : Session).sealNext S
    ⟨(draw 32 source).1⟩ (.start keys.2) []
  let arriving : MessageHeader := ⟨new, 0, 0⟩
  let key := (Chain.start (mixRoot S keys.1 shared').2).messageKey S
  let message : RatchetMessage :=
    ⟨arriving, none, S.encrypt key (arriving.authenticated sent.1.associatedData) []⟩
  have first : HasNext 0 := by decide
  have encrypted : (s.encrypt S [] source).1 = .ok sent :=
    (encrypt_eq_ok_iff S).2 ⟨_, _, _, .fresh rfl rfl agreed, first, rfl⟩
  have other : sent.1.theirRatchetKey ≠ some arriving.ratchetKey := by
    intro same
    exact apart (Option.some.inj same)
  have takes : sent.1.Takes S arriving {} (sent.1.turned S arriving {} 1 shared') key :=
    .turn rfl other rfl (Nat.zero_le 1000) (Nat.zero_le 1000) agreed' first
  have decrypted : sent.1.decrypt S message {} =
      .ok ({ sent.1.turned S arriving {} 1 shared' with pending := none }, []) :=
    (decrypt_eq_ok_iff S).2 ⟨_, _, takes, sealing key _ [], rfl⟩
  exact ⟨_, (reachable.encrypt encrypted).decrypt decrypted, rfl⟩

/-- Although its chain has ended, a responder which has heard of a new ratchet key can send. -/
theorem responder_can_encrypt_again :
    ∃ s : Session, Reachable screened KeyStream s ∧ s.sending = .stale 1 ∧
      ∀ (plaintext : Bytes) (source : KeyStream),
        ∃ next message, (s.encrypt screened plaintext source).1 = .ok (next, message) := by
  let source : KeyStream := ⟨.replicate 32 0, 0⟩
  let identity : IdentityKey := ⟨⟨.replicate 32 0⟩, ⟨.replicate 32 9⟩⟩
  let header : HandshakeHeader := ⟨identity, ⟨.replicate 32 9⟩, 0, none⟩
  have answers : (match Handshake.respond screened ⟨⟨.replicate 32 1⟩, ⟨.replicate 32 2⟩⟩ header
      ⟨.replicate 32 3⟩ none with
    | .error _ => false
    | .ok _ => true) = true := by decide +kernel
  split at answers
  · cases answers
  · rename_i r responded
    have reachable : Reachable screened KeyStream (.responder r header) :=
      .established (.responder responded)
    obtain ⟨s, reachable, stale⟩ := reachable.exists_stale screened_decrypt?_encrypt source
      ⟨.replicate 32 7⟩ (by decide)
      (Suite.agree_eq_ok_iff.2 ⟨rfl, by decide +kernel⟩)
      (Suite.agree_eq_ok_iff.2 ⟨rfl, by decide +kernel⟩)
    have unfinished : ∀ ratchet chain, s.sending = .current ratchet chain →
        HasNext chain.counter := by
      intro ratchet chain current
      cases stale.symm.trans current
    exact ⟨s, reachable, stale, (reachable.can_encrypt screened_screensKeys).1 unfinished⟩

end Session

end Confide
