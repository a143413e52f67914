import Confide.Entropy.KeyStream
import Confide.Proofs.Cipher.Sealing
import Confide.Proofs.Ratchet.Speaking

/-! The main result about conversations: a message opens to the plaintext it was made from whenever
the limits on skipped keys let it through. -/

set_option autoImplicit false

namespace Confide.Conversation

variable {S : Suite} {h : Initiation} {c : Conversation} {party : Party} {next : Session}
  {sent : Sent}

/-- One party speaks in turn `m`. The other has heard that turn, and speaks in the next one if it
has begun. -/
structure Described (S : Suite) (data : Bytes) (T : Turns) (m count : Nat) (c : Conversation) :
    Prop where
  ratchets : c.ratchets = (List.range count).map T.secret
  short : ∀ n, T.sent n < 2 ^ 64
  associated : ∀ party, (c.session party).associatedData = data
  speaks : T.Speaks S m (c.session (.ofTurn m))
  next : count = m + 2 ∧ T.Speaks S (m + 1) (c.session (.ofTurn (m + 1))) ∨
    count = m + 1 ∧ T.Waits S m (c.session (.ofTurn (m + 1)))
  receives : ∀ k, k = m ∨ k = m + 1 → ∃ r, T.Receives S data count k r
    (c.session (.ofTurn k)).receiving (c.session (.ofTurn k)).skipped (c.inFlight (.ofTurn k))

theorem Described.start (own : h.header.ephemeral = S.publicKey h.ephemeral) :
    Described S h.associatedData ⟨h.keys, fun _ => h.ephemeral, fun _ => 0⟩ 0 1 (start h) where
  ratchets := rfl
  short _ := Nat.two_pow_pos 64
  associated party := by cases party <;> rfl
  speaks := ⟨rfl, rfl, rfl⟩
  next := .inr ⟨rfl, rfl, rfl⟩
  receives k turn := by
    refine ⟨0, ?_⟩
    rcases turn with rfl | rfl
    · exact ⟨by decide, rfl, nofun, nofun, nofun, .nil⟩
    · refine ⟨by decide, ?_, fun _ _ => Nat.le_refl _, nofun, nofun, .nil⟩
      change some (ReceivingChain.mk h.header.ephemeral _) = _
      rw [own]
      rfl

theorem Described.associated_send {data : Bytes} {T : Turns} {m count : Nat}
    {generated : List SecretKey} (described : Described S data T m count c)
    (associated : next.associatedData = data) (other : Party) :
    ((c.send party next sent generated).session other).associatedData = data := by
  by_cases same : other = party
  · rw [same, session_send_self, associated]
  · rw [session_send_of_ne same, described.associated]

theorem Described.associated_deliver {data : Bytes} {T : Turns} {m count : Nat}
    (described : Described S data T m count c) (associated : next.associatedData = data)
    (other : Party) : ((c.deliver party next sent).session other).associatedData = data := by
  by_cases same : other = party
  · rw [same, session_deliver_self, associated]
  · rw [session_deliver_of_ne same, described.associated]

theorem Described.hear {data : Bytes} {T : Turns} {m count k r : Nat}
    (described : Described S data T m count c) (turn : k = m ∨ k = m + 1)
    (same : next = { c.session (.ofTurn k) with
      receiving := next.receiving
      skipped := next.skipped
      pending := next.pending })
    (receives : T.Receives S data count k r next.receiving next.skipped
      ((c.inFlight (.ofTurn k)).erase sent)) :
    Described S data T m count (c.deliver (.ofTurn k) next sent) := by
  have associated : next.associatedData = data := by
    rw [same]
    exact described.associated _
  have apart := Party.ofTurn_succ_ne m
  have speaks := described.speaks
  have voice := described.next
  refine ⟨described.ratchets, described.short, described.associated_deliver associated, ?_, ?_,
    fun k' turn' => ?_⟩
  · rcases turn with rfl | rfl
    · rw [session_deliver_self, same]
      exact ⟨speaks.sending, speaks.previousLength, speaks.root⟩
    · rwa [session_deliver_of_ne apart.symm]
  · rcases turn with rfl | rfl
    · rwa [session_deliver_of_ne apart]
    · rw [session_deliver_self, same]
      exact voice.imp
        (.imp_right fun speaks => ⟨speaks.sending, speaks.previousLength, speaks.root⟩)
        (.imp_right fun waits => ⟨waits.ended, waits.root⟩)
  · by_cases own : k' = k
    · subst own
      rw [session_deliver_self, inFlight_deliver_self]
      exact ⟨r, receives⟩
    · have other : Party.ofTurn k' ≠ .ofTurn k := Party.ofTurn_ne turn turn' own
      rw [session_deliver_of_ne other, inFlight_deliver_of_ne other]
      exact described.receives k' turn'

/-- A party hears the first message of the turn after its own. -/
theorem Described.hear_turn {data : Bytes} {T : Turns} {m r : Nat}
    (described : Described S data T m (m + 2) c)
    (associated : next.associatedData = data) (waits : T.Waits S (m + 1) next)
    (receives : T.Receives S data (m + 2) (m + 2) r next.receiving next.skipped
      ((c.inFlight (.ofTurn m)).erase sent)) :
    Described S data T (m + 1) (m + 2) (c.deliver (.ofTurn m) next sent) := by
  have apart := Party.ofTurn_succ_ne m
  have speaks : T.Speaks S (m + 1) (c.session (.ofTurn (m + 1))) := by
    rcases described.next with ⟨-, speaks⟩ | ⟨short, -⟩
    · exact speaks
    · omega
  refine ⟨described.ratchets, described.short, described.associated_deliver associated, ?_, ?_,
    fun k turn => ?_⟩
  · rwa [session_deliver_of_ne apart]
  · rw [Party.ofTurn_add_two, session_deliver_self]
    exact .inr ⟨rfl, waits⟩
  · rcases turn with rfl | rfl
    · rw [session_deliver_of_ne apart, inFlight_deliver_of_ne apart]
      exact described.receives (m + 1) (.inr rfl)
    · rw [Party.ofTurn_add_two, session_deliver_self, inFlight_deliver_self]
      exact ⟨r, receives⟩

theorem Described.send {data : Bytes} {T T' : Turns} {m count count' j i : Nat}
    {generated : List SecretKey} (described : Described S data T m count c)
    (grows : T.Grows T' count j) (sound : T'.Sound S count') (short : ∀ n, T'.sent n < 2 ^ 64)
    (turn : j = m ∧ count' = count ∨ j = m + 1 ∧ count' = m + 2)
    (speaks : T'.Speaks S j next) (carries : T'.Carries S data j i sent)
    (new : j < count → T.sent j ≤ i)
    (same : next = { c.session (.ofTurn j) with
      root := next.root
      previousLength := next.previousLength
      sending := next.sending })
    (ratchets : c.ratchets ++ generated = (List.range count').map T'.secret) :
    Described S data T' m count' (c.send (.ofTurn j) next sent generated) := by
  have associated : next.associatedData = data := by
    rw [same]
    exact described.associated _
  have apart := Party.ofTurn_succ_ne m
  have total : count = m + 1 ∨ count = m + 2 := described.next.symm.imp And.left And.left
  refine ⟨ratchets, short, described.associated_send associated, ?_, ?_, fun k turn' => ?_⟩
  · rcases turn with ⟨rfl, -⟩ | ⟨rfl, -⟩
    · rwa [session_send_self]
    · rw [session_send_of_ne apart.symm]
      exact grows.speaks (by omega) (by omega) described.speaks
  · rcases turn with ⟨rfl, rfl⟩ | ⟨rfl, rfl⟩
    · rw [session_send_of_ne apart]
      exact described.next.imp
        (fun ⟨whole, speaks⟩ => ⟨whole, grows.speaks (by omega) (by omega) speaks⟩)
        (fun ⟨whole, waits⟩ => ⟨whole, grows.waits (by omega) (by omega) waits⟩)
    · rw [session_send_self]
      exact .inl ⟨rfl, speaks⟩
  · obtain ⟨r, receives⟩ := described.receives k turn'
    refine ⟨r, ?_⟩
    by_cases own : k = j
    · subst own
      rw [session_send_self, inFlight_send_self, same]
      exact grows.receives (by omega) receives
    · have other : Party.ofTurn k ≠ .ofTurn j :=
        Party.ofTurn_ne (turn.imp And.left And.left) turn' own
      rw [session_send_of_ne other, inFlight_send_of_ne other]
      exact grows.receives_append (by omega) receives sound short carries (by omega) new (by omega)
        (by omega)

theorem Described.deliver {data : Bytes} {T : Turns} {m count : Nat} {config : RatchetConfig}
    (described : Described S data T m count c) (sound : S.Sound c.ratchets)
    (sealing : ∀ key associated plaintext,
      S.decrypt? key associated (S.encrypt key associated plaintext) = some plaintext)
    (mem : sent ∈ c.inFlight party) (fits : (c.session party).Fits sent.message.header config) :
    ∃ next, (c.session party).decrypt S sent.message config = .ok (next, sent.plaintext) ∧
      ∃ m', Described S data T m' count (c.deliver party next sent) := by
  obtain ⟨k, turn, rfl⟩ := Party.eq_ofTurn party m
  obtain ⟨r, receives⟩ := described.receives k turn
  obtain ⟨n, i, carries, parity, inside, isCached⟩ := receives.carried sent mem
  rw [described.ratchets] at sound
  have pairs := Turns.Sound.of_ratchets S sound
  have short := described.short
  have data := described.associated (.ofTurn k)
  rw [carries.header] at fits
  have opens {taken : Session}
      (takes : (c.session (.ofTurn k)).Takes S (T.header S n i) config taken (T.messageKey S n i))
      (same : taken.associatedData = (c.session (.ofTurn k)).associatedData) :
      (c.session (.ofTurn k)).decrypt S sent.message config =
        .ok ({ taken with pending := none }, sent.plaintext) := by
    refine (Session.decrypt_eq_ok_iff S).2 ⟨taken, _, carries.header ▸ takes, ?_, rfl⟩
    rw [carries.header, carries.ciphertext, same, data, sealing]
  -- Behind the chain it waits in the cache; else it is ahead on the chain, or opens the next one.
  by_cases passed : Turns.Passed k r n i
  · obtain ⟨taken, takes, same, heard⟩ := receives.takes_cached config pairs short mem carries
      inside passed (isCached passed)
    refine ⟨_, opens takes (by rw [same]), m, described.hear turn ?_ heard⟩
    rw [same]
  by_cases current : n + 1 = k
  · obtain ⟨taken, takes, same, heard⟩ := receives.takes_current pairs short mem carries fits
      current (by unfold Turns.Passed at passed; omega)
    refine ⟨_, opens takes (by rw [same]), m, described.hear turn ?_ heard⟩
    rw [same]
  · unfold Turns.Passed at passed
    have total : count = m + 1 ∨ count = m + 2 := described.next.symm.imp And.left And.left
    obtain ⟨rfl, rfl, rfl⟩ : n = k + 1 ∧ k = m ∧ count = m + 2 := by omega
    obtain ⟨taken, takes, same, waits, heard⟩ := receives.takes_turn pairs short described.speaks
      mem carries inside fits
    exact ⟨_, opens takes same, k + 1,
      described.hear_turn (same.trans data) ⟨waits.ended, waits.root⟩ heard⟩

section
variable {data : Bytes} {T : Turns} {m count : Nat} {message : RatchetMessage} {plaintext : Bytes}

theorem Described.send_again {k : Nat} (described : Described S data T m count c)
    (sound : S.Sound c.ratchets) (turn : k = m ∨ k = m + 1 ∧ count = m + 2)
    (speaks : T.Speaks S k (c.session (.ofTurn k)))
    (isSealed : (c.session (.ofTurn k)).sealNext S (T.secret k) (T.chain S k (T.sent k)) plaintext =
      (next, message))
    (short : T.sent k < 2 ^ 64 - 1) :
    Described S data (T.again k) m count (c.send (.ofTurn k) next ⟨message, plaintext⟩ []) := by
  have total : count = m + 1 ∨ count = m + 2 := described.next.symm.imp And.left And.left
  have grows : T.Grows (T.again k) count k := Turns.grows_again (by omega)
  have inside : k < count := by omega
  rw [← grows.chain_eq inside] at isSealed
  obtain ⟨speaks', carries, same⟩ := Turns.speaks_of_sealNext isSealed Turns.sent_again
    (by rw [speaks.previousLength, grows.previous_eq (by omega)])
    (by rw [speaks.root, Turns.root, Turns.root, grows.derived_eq inside])
    (described.associated (.ofTurn k))
  refine described.send grows (.of_ratchets S ?_) (grows.short described.short ?_) (by omega)
    speaks' carries (fun _ => Nat.le_refl _) ?_ ?_
  · rw [described.ratchets] at sound
    exact sound
  · rw [Turns.sent_again]
    omega
  · rw [same]
  · rw [List.append_nil, described.ratchets]
    rfl

/-- A party answers under a new key pair. -/
theorem Described.send_begin {started : Session} {secret : SecretKey} {shared : Octets 32}
    {previousLength : UInt64} {receiving : ReceivingChain}
    (described : Described S data T m (m + 1) c)
    (sound : S.Sound (c.ratchets ++ [secret]))
    (waits : T.Waits S m (c.session (.ofTurn (m + 1))))
    (ended : (c.session (.ofTurn (m + 1))).sending.ended? = some previousLength)
    (receives : (c.session (.ofTurn (m + 1))).receiving = some receiving)
    (agreed : S.agree secret receiving.ratchetKey = .ok shared)
    (isStarted : started = { c.session (.ofTurn (m + 1)) with
      root := (Session.mixRoot S (c.session (.ofTurn (m + 1))).root shared).1
      previousLength })
    (isSealed : started.sealNext S secret
      (.start (Session.mixRoot S (c.session (.ofTurn (m + 1))).root shared).2) plaintext =
        (next, message)) :
    Described S data (T.begin (m + 1) secret) m (m + 2)
      (c.send (.ofTurn (m + 1)) next ⟨message, plaintext⟩ [secret]) := by
  have grows : T.Grows (T.begin (m + 1) secret) (m + 1) (m + 1) := Turns.grows_begin
  have ratchets : c.ratchets ++ [secret] =
      (List.range (m + 2)).map (T.begin (m + 1) secret).secret := by
    rw [described.ratchets, Turns.ratchets_begin]
  obtain ⟨r, hears⟩ := described.receives (m + 1) (.inr rfl)
  obtain rfl : receiving = T.receiving S m r := by
    have chain := hears.chain
    rw [receives] at chain
    exact Option.some.inj chain
  have derived : Session.mixRoot S (c.session (.ofTurn (m + 1))).root shared =
      (T.begin (m + 1) secret).derived S (m + 1) := by
    rw [Turns.derived_begin, waits.root, ← (Suite.agree_eq_ok_iff.1 agreed).1]
    rfl
  have length : previousLength = .ofNat (T.previous (m + 1)) := by
    rw [waits.ended] at ended
    exact (Option.some.inj ended).symm
  have firstSealed : started.sealNext S ((T.begin (m + 1) secret).secret (m + 1))
      ((T.begin (m + 1) secret).chain S (m + 1) 0) plaintext = (next, message) := by
    rw [Turns.secret_begin, ← isSealed, derived]
    rfl
  have associated : started.associatedData = data := by
    rw [isStarted]
    exact described.associated (.ofTurn (m + 1))
  obtain ⟨speaks, carries, same⟩ := Turns.speaks_of_sealNext firstSealed Turns.sent_begin
    (by rw [isStarted, length, grows.previous_eq (by omega)])
    (by rw [isStarted, derived]; rfl)
    associated
  refine described.send grows (.of_ratchets S (ratchets ▸ sound)) (grows.short described.short ?_)
    (.inr ⟨rfl, rfl⟩) speaks carries (fun inside => absurd inside (Nat.lt_irrefl _)) ?_ ratchets
  · rw [Turns.sent_begin]
    decide
  · rw [same, isStarted]

/-- A party either speaks in a turn which has begun, or is the one who begins the next. -/
theorem Described.voice {k : Nat} (described : Described S data T m count c)
    (turn : k = m ∨ k = m + 1) :
    ((k = m ∨ k = m + 1 ∧ count = m + 2) ∧ T.Speaks S k (c.session (.ofTurn k))) ∨
      (k = m + 1 ∧ count = m + 1 ∧ T.Waits S m (c.session (.ofTurn k))) := by
  rcases turn with rfl | rfl
  · exact .inl ⟨.inl rfl, described.speaks⟩
  · exact described.next.imp (fun ⟨total, speaks⟩ => ⟨.inr ⟨rfl, total⟩, speaks⟩)
      fun ⟨total, waits⟩ => ⟨rfl, total, waits⟩

theorem Described.encrypt {G : Type} [Entropy G] {source : G}
    (described : Described S data T m count c)
    (sound : S.Sound (c.ratchets ++ (c.session party).generated source))
    (encrypted : ((c.session party).encrypt S plaintext source).1 = .ok (next, message)) :
    ∃ T' count', Described S data T' m count'
      (c.send party next ⟨message, plaintext⟩ ((c.session party).generated source)) := by
  obtain ⟨k, turn, rfl⟩ := Party.eq_ofTurn party m
  -- Which way the session goes is known from the turn: the other way contradicts its state.
  obtain ⟨started, ratchet, chain, sends, short, isSealed⟩ :=
    (Session.encrypt_eq_ok_iff S).1 encrypted
  rcases described.voice turn with ⟨turn, speaks⟩ | ⟨rfl, rfl, waits⟩
  · have nothing : (c.session (.ofTurn k)).generated source = [] := by
      simp only [Session.generated, speaks.sending, SendingChain.ended?]
    rw [nothing, List.append_nil] at sound
    rw [nothing]
    cases sends with
    | current sends =>
      rw [speaks.sending] at sends
      cases sends
      unfold HasNext at short
      rw [Turns.counter_chain, UInt64.toNat_ofNat_of_lt' (described.short k)] at short
      exact ⟨_, _, described.send_again sound turn speaks isSealed short⟩
    | fresh ended =>
      rw [speaks.sending] at ended
      cases ended
  · have drawn : (c.session (.ofTurn (m + 1))).generated source = [⟨(draw 32 source).1⟩] := by
      simp only [Session.generated, waits.ended]
    rw [drawn] at sound ⊢
    cases sends with
    | current sends =>
      have ended := waits.ended
      rw [sends] at ended
      cases ended
    | fresh ended receives agreed =>
      exact ⟨_, _, described.send_begin sound waits ended receives agreed rfl isSealed⟩

theorem Described.encrypts {G : Type} [Entropy G] {source : G}
    (described : Described S data T m count c)
    (sound : S.Sound (c.ratchets ++ (c.session party).generated source))
    (unfinished : ∀ ratchet chain, (c.session party).sending = .current ratchet chain →
      HasNext chain.counter) :
    ∃ next message, ((c.session party).encrypt S plaintext source).1 = .ok (next, message) := by
  obtain ⟨k, turn, rfl⟩ := Party.eq_ofTurn party m
  have encrypts {started : Session} {ratchet : SecretKey} {chain : Chain}
      (sends : (c.session (.ofTurn k)).Sends S source started ratchet chain) :
      ∃ next message, ((c.session (.ofTurn k)).encrypt S plaintext source).1 = .ok (next, message) :=
    ⟨_, _, (Session.encrypt_eq_ok_iff S).2 ⟨_, _, _, sends, sends.lt_last unfinished, rfl⟩⟩
  rcases described.voice turn with ⟨-, speaks⟩ | ⟨rfl, rfl, waits⟩
  · exact encrypts (.current speaks.sending)
  · have drawn : (c.session (.ofTurn (m + 1))).generated source = [⟨(draw 32 source).1⟩] := by
      simp only [Session.generated, waits.ended]
    rw [drawn, described.ratchets] at sound
    obtain ⟨r, hears⟩ := described.receives (m + 1) (.inr rfl)
    have last : T.secret m ∈ (List.range (m + 1)).map T.secret :=
      List.mem_map_of_mem (List.mem_range.2 (Nat.lt_succ_self m))
    have agreed := Suite.agree_eq_ok_iff.2 ⟨rfl, sound.nonzero ⟨(draw 32 source).1⟩ (by simp)
      (T.secret m) (List.mem_append_left _ last)⟩
    exact encrypts (.fresh waits.ended hears.chain agreed)

end

namespace Run

variable {G : Type} [Entropy G]
  (sealing : ∀ key associated plaintext,
    S.decrypt? key associated (S.encrypt key associated plaintext) = some plaintext)
  (own : h.header.ephemeral = S.publicKey h.ephemeral)
include sealing own

theorem described (run : Run G S h c) (sound : S.Sound c.ratchets) :
    ∃ T m count, Described S h.associatedData T m count c := by
  -- The key pairs of the whole run are sound, so those of any earlier part are.
  induction run with
  | start => exact ⟨_, _, _, .start own⟩
  | encrypt run encrypted ih =>
    obtain ⟨T, m, count, described⟩ := ih sound.of_append
    obtain ⟨T', count', described'⟩ := described.encrypt sound encrypted
    exact ⟨T', m, count', described'⟩
  | decrypt run mem fits decrypted ih =>
    obtain ⟨T, m, count, described⟩ := ih sound
    obtain ⟨next, same, m', described'⟩ := described.deliver sound sealing mem fits
    rw [decrypted] at same
    cases same
    exact ⟨T, m', count, described'⟩

/-- Either party can send at any time, unless its chain is used up. -/
theorem encrypts (run : Run G S h c) {source : G} {plaintext : Bytes}
    (sound : S.Sound (c.ratchets ++ (c.session party).generated source))
    (unfinished : ∀ ratchet chain, (c.session party).sending = .current ratchet chain →
      HasNext chain.counter) :
    ∃ next message, ((c.session party).encrypt S plaintext source).1 = .ok (next, message) := by
  obtain ⟨T, m, count, described⟩ := run.described sealing own sound.of_append
  exact described.encrypts sound unfinished

/-- Every message in flight which fits the limits is decrypted to what was sent. -/
theorem decrypts (run : Run G S h c) (sound : S.Sound c.ratchets) {config : RatchetConfig}
    (mem : sent ∈ c.inFlight party) (fits : (c.session party).Fits sent.message.header config) :
    ∃ next, (c.session party).decrypt S sent.message config = .ok (next, sent.plaintext) := by
  obtain ⟨T, m, count, described⟩ := run.described sealing own sound
  obtain ⟨next, decrypted, -⟩ := described.deliver sound sealing mem fits
  exact ⟨next, decrypted⟩

end Run

/-- Two messages are sent. The second one arrives first, and is answered under a new key pair. -/
theorem Run.exists_answered (sealing : ∀ key associated plaintext,
      S.decrypt? key associated (S.encrypt key associated plaintext) = some plaintext)
    {secret : SecretKey} {source : KeyStream} {shared : Octets 32}
    (agreed : S.agree ⟨(draw 32 source).1⟩ (S.publicKey secret) = .ok shared) :
    ∃ (h : Initiation) (c : Conversation) (first reply : Sent), Run KeyStream S h c ∧
      h.header.ephemeral = S.publicKey h.ephemeral ∧
      c.ratchets = [secret, ⟨(draw 32 source).1⟩] ∧
      c.inFlight .responder = [first] ∧ c.inFlight .initiator = [reply] ∧
      first.plaintext = [1] ∧ reply.plaintext = [3] ∧
      (c.session .responder).Fits first.message.header {} ∧
      (c.session .initiator).Fits reply.message.header {} := by
  let identity : IdentityKey := ⟨⟨.replicate 32 0⟩, ⟨.replicate 32 0⟩⟩
  let h : Initiation := ⟨⟨identity, S.publicKey secret, 0, none⟩,
    ⟨.replicate 32 1, .replicate 32 2⟩, secret, identity, []⟩
  let responder := Session.responder ⟨h.keys, h.associatedData⟩ h.header
  let chain := Chain.start h.keys.chain
  let receiving : ReceivingChain := ⟨S.publicKey secret, chain⟩
  -- The initiator sends twice on the chain of its ephemeral key.
  let sealedFirst := (Session.initiator h).sealNext S secret chain [1]
  let sealedSecond := sealedFirst.1.sealNext S secret (chain.next S) [2]
  let first : Sent := ⟨sealedFirst.2, [1]⟩
  let second : Sent := ⟨sealedSecond.2, [2]⟩
  have zero : HasNext 0 := by decide
  have one : HasNext 1 := by decide
  have sends (plaintext : Bytes) {s : Session} {chain : Chain} (short : HasNext chain.counter)
      (current : s.sending = .current secret chain) :
      (s.encrypt S plaintext source).1 = .ok (s.sealNext S secret chain plaintext) :=
    (Session.encrypt_eq_ok_iff S).2 ⟨_, _, _, .current current, short, rfl⟩
  let begun := (Conversation.start h).send .initiator sealedFirst.1 first []
  let waiting := begun.send .initiator sealedSecond.1 second []
  have sent : Run KeyStream S h begun := .encrypt .start (sends [1] zero rfl)
  have both : Run KeyStream S h waiting := .encrypt sent (sends [2] one rfl)
  -- The responder passes over the first message.
  let passing : Session :=
    { responder.advanced S receiving second.message.header {} with pending := none }
  have gap : receiving.gap second.message.header.counter = 1 := rfl
  have route : responder.route second.message.header = .currentChain receiving :=
    Session.route_of_current rfl rfl rfl
  have gaps : responder.gaps second.message.header = (0, 1) := by
    rw [Session.gaps, route, ← gap]
  have fits : responder.Fits second.message.header {} := by
    refine ⟨?_, ?_, .inr ?_⟩ <;> rw [gaps]
    · exact Nat.zero_le _
    · exact show 1 ≤ 1000 by decide
    · exact show 0 + (0 + 1) ≤ 2000 by decide
  have opened : responder.decrypt S second.message {} = .ok (passing, [2]) :=
    (Session.decrypt_eq_ok_iff S).2 ⟨_, _,
      .current rfl rfl rfl (Nat.zero_le _) (by rw [gap]; decide) one,
      sealing ((chain.next S).messageKey S) _ _, rfl⟩
  have mem : second ∈ waiting.inFlight .responder :=
    List.mem_cons_of_mem first (List.mem_singleton_self second)
  have heard : Run KeyStream S h (waiting.deliver .responder passing second) :=
    .decrypt both mem fits opened
  -- The reply starts a chain.
  let started : Session :=
    { passing with root := (Session.mixRoot S passing.root shared).1, previousLength := 0 }
  let answered := started.sealNext S ⟨(draw 32 source).1⟩
    (.start (Session.mixRoot S passing.root shared).2) [3]
  have answers : (passing.encrypt S [3] source).1 = .ok answered :=
    (Session.encrypt_eq_ok_iff S).2 ⟨_, _, _, .fresh rfl rfl agreed, zero, rfl⟩
  have replied : Run KeyStream S h ((waiting.deliver .responder passing second).send .responder
      answered.1 ⟨answered.2, [3]⟩ [⟨(draw 32 source).1⟩]) := .encrypt heard answers
  -- The key of the first message waits in the responder's cache.
  have found : passing.skipped.find? (S.publicKey secret) 0 = some (chain.messageKey S) := by
    have keys : passing.skipped.keys = [⟨S.publicKey secret, 0, chain.messageKey S⟩] :=
      KeyCache.keys_insertAll (.inr (by change 0 + 1 ≤ 2000; decide))
    rw [KeyCache.find?, keys]
    simp [KeyCache.isFor]
  have left : [first, second].erase second = [first] := by
    have apart : first ≠ second := by
      intro same
      have plaintexts : ([1] : Bytes) = [2] := congrArg Sent.plaintext same
      exact absurd plaintexts (by decide)
    rw [List.erase_cons_tail (by simpa using apart), List.erase_cons_head]
  refine ⟨h, _, first, ⟨answered.2, [3]⟩, replied, rfl, rfl, left, rfl, rfl, rfl, ?_, ?_⟩
  · have cached : answered.1.route first.message.header = _ := Session.route_of_found found
    have none : answered.1.gaps first.message.header = (0, 0) := by rw [Session.gaps, cached]
    exact Session.Fits.of_gaps_eq none
  · exact Session.Fits.of_gaps_eq rfl

/-- The answer opens, and so does the message which was overtaken before it. -/
theorem Run.decrypts_out_of_order :
    ∃ (h : Initiation) (c : Conversation) (first reply : Sent),
      Run KeyStream .standard h c ∧ c.ratchets.length = 2 ∧ c.inFlight .responder = [first] ∧
        c.inFlight .initiator = [reply] ∧ first.plaintext = [1] ∧ reply.plaintext = [3] ∧
        (∃ next, (c.session .responder).decrypt .standard first.message {} = .ok (next, [1])) ∧
        ∃ next, (c.session .initiator).decrypt .standard reply.message {} = .ok (next, [3]) := by
  let secret : SecretKey := ⟨.replicate 32 3⟩
  let source : KeyStream := ⟨.replicate 32 0, 0⟩
  have sound : Suite.standard.Sound [secret, ⟨(draw 32 source).1⟩] :=
    ⟨by decide +kernel, by decide +kernel, by decide +kernel⟩
  have agreed := Suite.agree_eq_ok_iff.2 ⟨rfl, sound.nonzero ⟨(draw 32 source).1⟩ (by simp)
    secret (by simp)⟩
  obtain ⟨h, c, first, reply, run, own, ratchets, waiting, answer, one, three, fits, fits'⟩ :=
    Run.exists_answered Suite.standard_decrypt?_encrypt agreed
  have opens {party : Party} {sent : Sent} (mem : sent ∈ c.inFlight party)
      (fits : (c.session party).Fits sent.message.header {}) :=
    run.decrypts Suite.standard_decrypt?_encrypt own (ratchets ▸ sound) mem fits
  refine ⟨h, c, first, reply, run, by rw [ratchets]; rfl, waiting, answer, one, three, ?_, ?_⟩
  · rw [← one]
    exact opens (by simp [waiting]) fits
  · rw [← three]
    exact opens (by simp [answer]) fits'

end Confide.Conversation
