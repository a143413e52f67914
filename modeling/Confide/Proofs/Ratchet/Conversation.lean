import Confide.Proofs.Ratchet.Steps
import Mathlib.Data.List.Nodup

/-! Conversations of two sessions which start from one handshake. Both parties send when they like,
and messages reach the other party in any order, each at most once. -/

set_option autoImplicit false

namespace Confide

inductive Party where
  | initiator
  | responder
  deriving DecidableEq

namespace Party

def other : Party → Party
  | .initiator => .responder
  | .responder => .initiator

def ofTurn (turn : Nat) : Party := if turn % 2 = 0 then .initiator else .responder

theorem other_ne (party : Party) : party.other ≠ party := by
  cases party <;> decide

theorem eq_other_of_ne {party other : Party} (apart : other ≠ party) : other = party.other := by
  cases party <;> cases other <;> trivial

theorem ofTurn_succ_ne (turn : Nat) : ofTurn (turn + 1) ≠ ofTurn turn := by
  unfold ofTurn
  rcases Nat.mod_two_eq_zero_or_one turn with even | odd
  · rw [if_neg (by omega), if_pos even]
    decide
  · rw [if_pos (by omega), if_neg (by omega)]
    decide

theorem ofTurn_add_two (turn : Nat) : ofTurn (turn + 2) = ofTurn turn := by
  simp only [ofTurn, Nat.add_mod_right]

theorem ofTurn_ne {turn k k' : Nat} (first : k = turn ∨ k = turn + 1)
    (second : k' = turn ∨ k' = turn + 1) (other : k' ≠ k) : ofTurn k' ≠ ofTurn k := by
  rcases first with rfl | rfl <;> rcases second with rfl | rfl
  · exact absurd rfl other
  · exact ofTurn_succ_ne _
  · exact (ofTurn_succ_ne _).symm
  · exact absurd rfl other

theorem eq_ofTurn (party : Party) (turn : Nat) :
    ∃ k, (k = turn ∨ k = turn + 1) ∧ party = ofTurn k := by
  by_cases same : party = ofTurn turn
  · exact ⟨turn, .inl rfl, same⟩
  · refine ⟨turn + 1, .inr rfl, ?_⟩
    rw [eq_other_of_ne same, eq_other_of_ne (ofTurn_succ_ne turn)]

end Party

structure Sent where
  message : RatchetMessage
  plaintext : Bytes
  deriving DecidableEq

namespace Session

/-- How many keys are passed over to reach a message: of the peer's chain so far, and of the
message's own chain. -/
def gaps (s : Session) (header : MessageHeader) : Nat × Nat :=
  match s.route header with
  | .cached _ => (0, 0)
  | .currentChain receiving => (0, receiving.gap header.counter)
  | .newRatchet => ((s.previousGap header).toNat, header.counter.toNat)

/-- Both gaps are within the limit, and there is room for the keys which are passed over: nothing is
dropped from the cache. -/
structure Fits (s : Session) (header : MessageHeader) (config : RatchetConfig) : Prop where
  previous : (s.gaps header).1 ≤ config.maxSkip.toNat
  own : (s.gaps header).2 ≤ config.maxSkip.toNat
  room : (s.gaps header).1 + (s.gaps header).2 = 0 ∨
    s.skipped.size + ((s.gaps header).1 + (s.gaps header).2) ≤ config.maxSkippedKeys.toNat

theorem Fits.of_gaps_eq {s : Session} {header : MessageHeader} {config : RatchetConfig}
    (none : s.gaps header = (0, 0)) : s.Fits header config where
  previous := by simp [none]
  own := by simp [none]
  room := .inl (by simp [none])

/-- The key pair which is generated for the next message, if it starts a new chain. -/
def generated {G : Type} [Entropy G] (s : Session) (source : G) : List SecretKey :=
  match s.sending.ended? with
  | none => []
  | some _ => [⟨(draw 32 source).1⟩]

end Session

structure Conversation where
  session : Party → Session
  /-- What was sent to a party and has not reached it. -/
  inFlight : Party → List Sent
  /-- All ratchet secrets which were generated, in their order. -/
  ratchets : List SecretKey

namespace Conversation

def start (h : Initiation) : Conversation where
  session
    | .initiator => .initiator h
    | .responder => .responder ⟨h.keys, h.associatedData⟩ h.header
  inFlight _ := []
  ratchets := [h.ephemeral]

def send (c : Conversation) (party : Party) (next : Session) (sent : Sent)
    (generated : List SecretKey) : Conversation where
  session := Function.update c.session party next
  inFlight := Function.update c.inFlight party.other (c.inFlight party.other ++ [sent])
  ratchets := c.ratchets ++ generated

def deliver (c : Conversation) (party : Party) (next : Session) (sent : Sent) : Conversation where
  session := Function.update c.session party next
  inFlight := Function.update c.inFlight party ((c.inFlight party).erase sent)
  ratchets := c.ratchets

/-- The conversations to which a handshake can lead, if what is delivered fits the limits. -/
inductive Run (G : Type) [Entropy G] (S : Suite) (h : Initiation) : Conversation → Prop where
  | start : Run G S h (start h)
  | encrypt {c : Conversation} {party : Party} {plaintext : Bytes} {source : G} {next : Session}
      {message : RatchetMessage} (run : Run G S h c)
      (encrypted : ((c.session party).encrypt S plaintext source).1 = .ok (next, message)) :
      Run G S h
        (c.send party next ⟨message, plaintext⟩ ((c.session party).generated source))
  | decrypt {c : Conversation} {party : Party} {sent : Sent} {config : RatchetConfig}
      {next : Session} {plaintext : Bytes} (run : Run G S h c) (mem : sent ∈ c.inFlight party)
      (fits : (c.session party).Fits sent.message.header config)
      (decrypted : (c.session party).decrypt S sent.message config = .ok (next, plaintext)) :
      Run G S h (c.deliver party next sent)

end Conversation

/-- What a conversation relies on of its ratchet key pairs: agreements are the same on both sides,
never all zero, and no public key comes twice. -/
structure Suite.Sound (S : Suite) (ratchets : List SecretKey) : Prop where
  commutes : ∀ first ∈ ratchets, ∀ second ∈ ratchets,
    S.sharedSecret first (S.publicKey second) = S.sharedSecret second (S.publicKey first)
  nonzero : ∀ first ∈ ratchets, ∀ second ∈ ratchets,
    S.sharedSecret first (S.publicKey second) ≠ .replicate 32 0
  distinct : (ratchets.map S.publicKey).Nodup

theorem Suite.Sound.of_append {S : Suite} {first second : List SecretKey}
    (sound : S.Sound (first ++ second)) : S.Sound first where
  commutes a ha b hb := sound.commutes a (by simp [ha]) b (by simp [hb])
  nonzero a ha b hb := sound.nonzero a (by simp [ha]) b (by simp [hb])
  distinct := by
    have distinct := sound.distinct
    rw [List.map_append] at distinct
    exact distinct.of_append_left

theorem Sent.header_ne_of_mem_erase {inFlight : List Sent} {first second : Sent}
    (apart : (inFlight.map (·.message.header)).Nodup) (mem : first ∈ inFlight)
    (kept : second ∈ inFlight.erase first) :
    second.message.header ≠ first.message.header := by
  obtain ⟨other, inside⟩ := (apart.of_map (·.message.header)).mem_erase_iff.1 kept
  exact fun same => other (List.inj_on_of_nodup_map apart inside mem same)

namespace Conversation

variable {c : Conversation} {party other : Party} {next : Session} {sent : Sent}
  {generated : List SecretKey}

theorem session_send_self : (c.send party next sent generated).session party = next :=
  Function.update_self ..

theorem session_send_of_ne (apart : other ≠ party) :
    (c.send party next sent generated).session other = c.session other :=
  Function.update_of_ne apart ..

theorem inFlight_send_self :
    (c.send party next sent generated).inFlight party = c.inFlight party :=
  Function.update_of_ne party.other_ne.symm ..

theorem inFlight_send_of_ne (apart : other ≠ party) :
    (c.send party next sent generated).inFlight other = c.inFlight other ++ [sent] := by
  rw [Party.eq_other_of_ne apart]
  exact Function.update_self ..

theorem session_deliver_self : (c.deliver party next sent).session party = next :=
  Function.update_self ..

theorem session_deliver_of_ne (apart : other ≠ party) :
    (c.deliver party next sent).session other = c.session other :=
  Function.update_of_ne apart ..

theorem inFlight_deliver_self :
    (c.deliver party next sent).inFlight party = (c.inFlight party).erase sent :=
  Function.update_self ..

theorem inFlight_deliver_of_ne (apart : other ≠ party) :
    (c.deliver party next sent).inFlight other = c.inFlight other :=
  Function.update_of_ne apart ..

end Conversation

end Confide
