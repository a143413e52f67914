import Confide.Entropy.KeyStream
import Confide.Proofs.Cipher.Sealing
import Confide.Proofs.Group.Steps

/-! Delivery in a group. A member hands out its chain and goes on sending. Whoever takes the chain
opens all later messages of the epoch, in whatever order they arrive, and none of the earlier
ones. -/

set_option autoImplicit false

namespace Confide

-- What is asked of the signatures, and only of those on messages which are sent.
def Suite.Signs (S : Suite) (key : SigningKey) (text : Bytes) : Prop :=
  S.verify (S.verifyingKey key) text (S.sign key text) = .ok ()

namespace Group

structure Spoken where
  message : GroupMessage
  plaintext : Bytes
  deriving DecidableEq

section
variable (S : Suite)

def emitted (g : Group) : Event → List Spoken
  | .encrypt plaintext =>
    match g.encrypt S plaintext with
    | .error _ => []
    | .ok (_, message) => [⟨message, plaintext⟩]
  | _ => []

/-- A group may send messages and see other events, as long as it stays in its epoch. -/
inductive Speaks (G : Type) [Entropy G] (origin : Group) : Group → List Spoken → Prop where
  | start : Speaks G origin origin []
  | step {speaker : Group} {sent : List Spoken} {event : Event} (source : G)
      (speaks : Speaks G origin speaker sent)
      (stays : (speaker.step S source event).1.epoch = speaker.epoch) :
      Speaks G origin (speaker.step S source event).1 (sent ++ speaker.emitted S event)

inductive Installs (G : Type) [Entropy G] (d : Distribution) : Group → Prop where
  | process {g next : Group} {sender : IdentityKey} {now : UInt64} {source : G}
      {ours : Option Distribution} (new : d.epoch = g.epoch → ¬g.Knows sender d)
      (accepted : (g.process S sender d now source).1 = .ok (next, ours)) : Installs G d next
  | join {self sender : IdentityKey} {next : Group} {now : UInt64} {source : G}
      {ours : Distribution} (joined : (join S self sender d now source).1 = .ok (next, ours)) :
      Installs G d next

/-- An event which leaves our copy of a member's chain alone. -/
def Event.Spares (g : Group) (peer : IdentityKey) : Event → Prop
  | .encrypt _ | .purge _ _ => True
  | .decrypt message config => message.sender = peer → message.epoch = g.epoch →
      ∃ error, g.decrypt S message config = .error error
  | .process sender d _ => ¬g.Moves sender d ∧ (sender = peer → g.Knows sender d)
  | .update _ _ => False

end

def Fits (g : Group) (message : GroupMessage) (config : GroupConfig) : Prop :=
  ∀ c, g.findChain message.epoch message.sender = .ok c → c.Fits message.counter config

/-- A group which took the chain of a distribution is given messages of its sender, each at most
once and within the limits, among other events. -/
inductive Hears (G : Type) [Entropy G] (S : Suite) (d : Distribution) (sent : List Spoken) :
    Group → List Spoken → Prop where
  | install {g : Group} (installs : Installs S G d g) : Hears G S d sent g []
  | hear {g : Group} {heard : List Spoken} {spoken : Spoken} {config : GroupConfig} {source : G}
      (hears : Hears G S d sent g heard) (mem : spoken ∈ sent) (new : spoken ∉ heard)
      (fits : g.Fits spoken.message config) :
      Hears G S d sent (g.step S source (.decrypt spoken.message config)).1 (heard ++ [spoken])
  | other {g : Group} {heard : List Spoken} {event : Event} {source : G}
      (hears : Hears G S d sent g heard) (spares : event.Spares S g d.sender) :
      Hears G S d sent (g.step S source event).1 heard

/-! ### The sender -/

/-- The message which a group sends after `i` others of its epoch. -/
def utterance (S : Suite) (g : Group) (i : Nat) (plaintext : Bytes) : GroupMessage :=
  (({ g with ownChain := { g.ownChain with chain := g.ownChain.chain.after S i } } : Group).sealNext
    S plaintext).2

/-- The sender has moved its chain on by one step for each message. -/
structure Sending (S : Suite) (origin : Group) (sent : List Spoken) (speaker : Group) : Prop where
  id : speaker.id = origin.id
  epoch : speaker.epoch = origin.epoch
  self : speaker.self = origin.self
  ownChain : speaker.ownChain =
    { origin.ownChain with chain := origin.ownChain.chain.after S sent.length }
  bound : origin.ownChain.chain.counter.toNat + sent.length < 2 ^ 64
  sent : ∀ i spoken, sent[i]? = some spoken →
    spoken.message = origin.utterance S i spoken.plaintext

section
variable {G : Type} [Entropy G] {S : Suite} {origin speaker g : Group} {sent heard : List Spoken}
  {d : Distribution}

theorem emitted_encrypt_of_short (short : HasNext g.ownChain.chain.counter)
    (plaintext : Bytes) :
    g.emitted S (.encrypt plaintext) = [⟨(g.sealNext S plaintext).2, plaintext⟩] := by
  simp only [emitted, encrypt, if_pos short]

theorem emitted_encrypt_of_last (last : ¬HasNext g.ownChain.chain.counter)
    (plaintext : Bytes) : g.emitted S (.encrypt plaintext) = [] := by
  simp only [emitted, encrypt, if_neg last]

theorem Speaks.encrypt (speaks : Speaks S G origin speaker sent) (source : G) (plaintext : Bytes)
    (short : HasNext speaker.ownChain.chain.counter) :
    Speaks S G origin (speaker.sealNext S plaintext).1
      (sent ++ [⟨(speaker.sealNext S plaintext).2, plaintext⟩]) := by
  rw [← step_encrypt_of_short S short source, ← emitted_encrypt_of_short short]
  refine speaks.step source ?_
  rw [step_encrypt_of_short S short]
  rfl

theorem Sending.start : Sending S origin [] origin where
  id := rfl
  epoch := rfl
  self := rfl
  ownChain := rfl
  bound := origin.ownChain.chain.counter.toNat_lt
  sent _ _ found := by cases found

theorem own_step_of_silent {event : Event} {source : G} (silent : g.emitted S event = [])
    (stays : (g.step S source event).1.epoch = g.epoch) :
    (g.step S source event).1.id = g.id ∧ (g.step S source event).1.self = g.self ∧
      (g.step S source event).1.ownChain = g.ownChain := by
  have steps := step_cases S g source event
  generalize (g.step S source event).1 = next at steps stays
  -- Besides our own messages, only what starts a new epoch touches our chain.
  cases steps with
  | refused => exact ⟨rfl, rfl, rfl⟩
  | encrypted plaintext short =>
    rw [emitted_encrypt_of_short short] at silent
    cases silent
  | decrypted opens => rw [setChain_eq]; exact ⟨rfl, rfl, rfl⟩
  | followed follows => rw [learned_eq]; exact ⟨rfl, rfl, rfl⟩
  | moved moves =>
    rw [learned_eq] at stays
    exact absurd stays (UInt64.ne_of_lt moves.newer).symm
  | updated members now short =>
    have stays : g.epoch + 1 = g.epoch := stays
    simp at stays
  | purged now config => exact ⟨rfl, rfl, rfl⟩

theorem Sending.emit (sending : Sending S origin sent speaker) (plaintext : Bytes)
    (short : HasNext speaker.ownChain.chain.counter) :
    Sending S origin (sent ++ [⟨(speaker.sealNext S plaintext).2, plaintext⟩])
      (speaker.sealNext S plaintext).1 where
  id := sending.id
  epoch := sending.epoch
  self := sending.self
  ownChain := by
    rw [List.length_append, List.length_singleton, Chain.after_succ]
    simp only [sealNext, sending.ownChain]
  bound := by
    have number := Chain.toNat_counter_after S sending.bound
    unfold HasNext at short
    rw [sending.ownChain, number] at short
    rw [List.length_append, List.length_singleton]
    omega
  sent i spoken found := by
    rcases Nat.lt_trichotomy i sent.length with old | last | beyond
    · rw [List.getElem?_append_left old] at found
      exact sending.sent i spoken found
    · subst last
      rw [List.getElem?_concat_length, Option.some.injEq] at found
      subst found
      simp only [utterance, sealNext, sending.id, sending.epoch, sending.self, sending.ownChain]
    · rw [List.getElem?_eq_none (by rw [List.length_append]; exact beyond)] at found
      cases found

theorem Sending.step (sending : Sending S origin sent speaker) {event : Event} {source : G}
    (stays : (speaker.step S source event).1.epoch = speaker.epoch) :
    Sending S origin (sent ++ speaker.emitted S event) (speaker.step S source event).1 := by
  by_cases silent : speaker.emitted S event = []
  · obtain ⟨id, self, own⟩ := own_step_of_silent silent stays
    rw [silent, List.append_nil]
    exact ⟨id.trans sending.id, stays.trans sending.epoch, self.trans sending.self,
      own.trans sending.ownChain, sending.bound, sending.sent⟩
  · cases event with
    | encrypt plaintext =>
      by_cases short : HasNext speaker.ownChain.chain.counter
      · rw [step_encrypt_of_short S short, emitted_encrypt_of_short short]
        exact sending.emit plaintext short
      · exact absurd (emitted_encrypt_of_last short plaintext) silent
    | _ => exact absurd rfl silent

theorem Speaks.sending (speaks : Speaks S G origin speaker sent) :
    Sending S origin sent speaker := by
  induction speaks with
  | start => exact .start
  | step _ _ stays ih => exact ih.step stays

theorem Sending.exists_utterance (sending : Sending S origin sent speaker) {spoken : Spoken}
    (mem : spoken ∈ sent) :
    ∃ i < sent.length, sent[i]? = some spoken ∧
      spoken.message = origin.utterance S i spoken.plaintext := by
  obtain ⟨i, low, found⟩ := List.mem_iff_getElem.1 mem
  have found : sent[i]? = some spoken := by rw [List.getElem?_eq_getElem low, found]
  exact ⟨i, low, found, sending.sent i spoken found⟩

theorem Sending.counter_inj (sending : Sending S origin sent speaker) {first second : Spoken}
    (mem : first ∈ sent) (mem' : second ∈ sent)
    (same : first.message.counter = second.message.counter) : first = second := by
  obtain ⟨i, low, found, message⟩ := sending.exists_utterance mem
  obtain ⟨j, low', found', message'⟩ := sending.exists_utterance mem'
  rw [message, message'] at same
  have index : i = j :=
    Chain.counter_after_inj sending.bound (Nat.le_of_lt low) (Nat.le_of_lt low') same
  rw [index, found'] at found
  exact (Option.some.inj found).symm

/-! ### The receiver -/

/-- Our copy of the sender's chain has given the keys of the messages which were heard. -/
structure Hearing (S : Suite) (d : Distribution) (heard : List Spoken) (g : Group) : Prop where
  id : d.groupId = g.id
  epoch : d.epoch = g.epoch
  chain : ∃ c n, g.chains.get? d.sender = some c ∧ c.verifyingKey = d.verifyingKey ∧
    c.Tracks S ⟨d.chainKey, d.counter⟩ (heard.map (·.message.counter)) n

/-- The group has the chain exactly as the distribution brought it. -/
structure Installed (d : Distribution) (g : Group) : Prop where
  id : d.groupId = g.id
  epoch : d.epoch = g.epoch
  chain : g.chains.get? d.sender = some d.memberChain

theorem installed_learned {sender : IdentityKey} (claimed : d.sender = sender)
    (id : d.groupId = g.id) (epoch : d.epoch = g.epoch) (unknown : ¬g.Knows sender d) :
    Installed d (g.learned sender d) := by
  have chain := get?_learned_self unknown
  rw [learned_of_not_knows unknown] at chain ⊢
  exact ⟨id, epoch, claimed ▸ chain⟩

theorem Installs.installed (installs : Installs S G d g) : Installed d g := by
  cases installs with
  | process new accepted =>
    rcases accepted_of_process S accepted with follows | moves
    · rw [process_of_follows S follows] at accepted
      cases accepted
      exact installed_learned follows.claimed follows.group follows.current (new follows.current)
    · rw [process_of_moves S moves] at accepted
      cases accepted
      exact installed_learned moves.claimed moves.group rfl (not_knows_of_chains_empty rfl)
  | join joined =>
    obtain ⟨-, follows, rfl, -⟩ := (join_eq_ok_iff S).1 joined
    exact installed_learned follows.claimed rfl rfl (not_knows_of_chains_empty rfl)

theorem Installs.hearing (installs : Installs S G d g) : Hearing S d [] g := by
  obtain ⟨id, epoch, chain⟩ := installs.installed
  exact ⟨id, epoch, d.memberChain, 0, chain, rfl, .begin⟩

theorem Installs.fits (installs : Installs S G d g) {message : GroupMessage} {config : GroupConfig}
    (epoch : message.epoch = d.epoch) (sender : message.sender = d.sender)
    (near : message.counter.toNat - d.counter.toNat ≤ config.maxSkip.toNat)
    (room : message.counter.toNat - d.counter.toNat ≤ config.maxSkippedKeys.toNat) :
    g.Fits message config := by
  obtain ⟨-, current, chain⟩ := installs.installed
  intro c known
  rw [epoch, current, sender, findChain_current_iff.2 chain] at known
  cases known
  -- No key is kept yet.
  exact ⟨near, .inr (Nat.zero_add _ ▸ room)⟩

theorem step_decrypt_of_ok {next : Group} {message : GroupMessage} {config : GroupConfig}
    {plaintext : Bytes} (decrypted : g.decrypt S message config = .ok (next, plaintext))
    (source : G) : (g.step S source (.decrypt message config)).1 = next := by
  simp only [step, decrypted]

theorem Hears.opened (hears : Hears G S d sent g heard) {spoken : Spoken} (mem : spoken ∈ sent)
    (new : spoken ∉ heard) {config : GroupConfig} (fits : g.Fits spoken.message config)
    {next : Group} {plaintext : Bytes}
    (decrypted : g.decrypt S spoken.message config = .ok (next, plaintext)) (source : G) :
    Hears G S d sent next (heard ++ [spoken]) := by
  rw [← step_decrypt_of_ok decrypted source]
  exact hears.hear mem new fits

theorem Hearing.of_same (hearing : Hearing S d heard g) {next : Group} (id : next.id = g.id)
    (epoch : next.epoch = g.epoch) (chain : next.chains.get? d.sender = g.chains.get? d.sender) :
    Hearing S d heard next :=
  ⟨hearing.id.trans id.symm, hearing.epoch.trans epoch.symm, by rw [chain]; exact hearing.chain⟩

theorem Hearing.step (hearing : Hearing S d heard g) {event : Event} {source : G}
    (spares : event.Spares S g d.sender) : Hearing S d heard (g.step S source event).1 := by
  have steps := step_cases S g source event
  generalize (g.step S source event).1 = next at steps
  cases steps with
  | refused => exact hearing
  | encrypted plaintext short => exact hearing.of_same rfl rfl rfl
  | @decrypted message config c taken plaintext opens =>
    -- A message of the sender in this epoch was refused, so the one opened here is another's.
    have other : d.sender ≠ message.sender ∨ message.epoch ≠ g.epoch := by
      by_contra same
      rw [not_or, not_not, not_not] at same
      obtain ⟨error, refused⟩ := spares same.1.symm same.2
      rw [(decrypt_eq_ok_iff S).2 ⟨c, taken, opens, rfl⟩] at refused
      cases refused
    have chain := get?_setChain_of_other (c := taken) other
    rw [setChain_eq] at chain ⊢
    exact hearing.of_same rfl rfl chain
  | @followed sender other now follows =>
    by_cases same : sender = d.sender
    · rw [learned_of_knows (spares.2 same)]
      exact hearing
    · have chain := get?_learned_of_ne (g := g) (d := other) (Ne.symm same)
      rw [learned_eq] at chain ⊢
      exact hearing.of_same rfl rfl chain
  | moved moves => exact absurd moves spares.1
  | updated members now short => exact spares.elim
  | purged now config => exact hearing.of_same rfl rfl rfl

theorem Hearing.refuses (hearing : Hearing S (origin.distribution S) heard g)
    {message : GroupMessage} (id : message.groupId = origin.id)
    (epoch : message.epoch = origin.epoch) (sender : message.sender = origin.self)
    (below : message.counter < origin.ownChain.chain.counter) (config : GroupConfig) :
    g.decrypt S message config = .error .decryptionFailed := by
  obtain ⟨group, current, c, n, found, -, tracks⟩ := hearing
  have chain : g.findChain message.epoch message.sender = .ok c := by
    rw [epoch.trans current, sender]
    exact findChain_current_iff.2 found
  exact decrypt_of_take_error S (id.trans group) chain (tracks.take_of_below below)

variable
  (sealing : ∀ key associated plaintext,
    S.decrypt? key associated (S.encrypt key associated plaintext) = some plaintext)
  (signs : ∀ spoken ∈ sent, S.Signs origin.ownChain.signingKey
    (spoken.message.position.signedBytes spoken.message.ciphertext))

include sealing signs

theorem Hearing.opens (hearing : Hearing S (origin.distribution S) heard g)
    (sending : Sending S origin sent speaker) (old : heard ⊆ sent) {spoken : Spoken}
    (mem : spoken ∈ sent) (new : spoken ∉ heard) {config : GroupConfig}
    (fits : g.Fits spoken.message config) :
    ∃ next, g.decrypt S spoken.message config = .ok (next, spoken.plaintext) ∧
      Hearing S (origin.distribution S) (heard ++ [spoken]) next := by
  obtain ⟨i, low, -, message⟩ := sending.exists_utterance mem
  have short : origin.ownChain.chain.counter.toNat + i < 2 ^ 64 - 1 := by
    have := sending.bound
    omega
  -- Counters stand for messages: one which was used belongs to a message we have heard.
  have unused : spoken.message.counter ∉ heard.map (·.message.counter) := by
    intro used
    obtain ⟨other, heard, same⟩ := List.mem_map.1 used
    exact new (sending.counter_inj (old heard) mem same ▸ heard)
  obtain ⟨id, epoch, c, n, found, key, tracks⟩ := hearing
  have group : spoken.message.groupId = g.id := by rw [message]; exact id
  have current : spoken.message.epoch = g.epoch := by rw [message]; exact epoch
  have sender : spoken.message.sender = (origin.distribution S).sender := by rw [message]; rfl
  have chain : g.findChain spoken.message.epoch spoken.message.sender = .ok c := by
    rw [current, sender]
    exact findChain_current_iff.2 found
  rw [message] at unused
  obtain ⟨taken, n', takes, same, tracks⟩ := tracks.takes short unused (message ▸ fits c chain)
  have opens : g.Opens S spoken.message config c taken spoken.plaintext := by
    have accepted := signs spoken mem
    rw [message] at group chain accepted ⊢
    exact ⟨group, chain, by rw [key]; exact accepted, _, takes, sealing _ _ _⟩
  refine ⟨_, (decrypt_eq_ok_iff S).2 ⟨c, taken, opens, rfl⟩, ?_⟩
  rw [current, sender, setChain, if_pos rfl]
  refine ⟨id, epoch, taken, n', SortedMap.get?_insert_self, same.trans key, ?_⟩
  rw [List.map_append, List.map_singleton, message]
  exact tracks

theorem Hears.hearing (speaks : Speaks S G origin speaker sent)
    (hears : Hears G S (origin.distribution S) sent g heard) :
    heard ⊆ sent ∧ Hearing S (origin.distribution S) heard g := by
  -- That what was heard opened is part of the induction: else the chain would not have moved.
  induction hears with
  | install installs => exact ⟨List.nil_subset _, installs.hearing⟩
  | hear _ mem new fits ih =>
    obtain ⟨next, decrypted, hearing⟩ := ih.2.opens sealing signs speaks.sending ih.1 mem new fits
    refine ⟨List.append_subset.2 ⟨ih.1, List.cons_subset.2 ⟨mem, List.nil_subset _⟩⟩, ?_⟩
    rw [step_decrypt_of_ok decrypted]
    exact hearing
  | other _ spares ih => exact ⟨ih.1, ih.2.step spares⟩

/-- Later messages are opened in any order, and earlier ones never. -/
theorem Hears.opens_in_any_order (speaks : Speaks S G origin speaker sent)
    (hears : Hears G S (origin.distribution S) sent g heard) :
    (∀ spoken ∈ sent, spoken ∉ heard → ∀ config : GroupConfig, g.Fits spoken.message config →
      ∃ next, g.decrypt S spoken.message config = .ok (next, spoken.plaintext)) ∧
    (∀ (message : GroupMessage) (config : GroupConfig), message.groupId = origin.id →
      message.epoch = origin.epoch → message.sender = origin.self →
      message.counter < origin.ownChain.chain.counter →
      g.decrypt S message config = .error .decryptionFailed) := by
  obtain ⟨old, hearing⟩ := hears.hearing sealing signs speaks
  constructor
  · intro spoken mem new config fits
    obtain ⟨next, decrypted, -⟩ :=
      hearing.opens sealing signs speaks.sending old mem new fits
    exact ⟨next, decrypted⟩
  · intro message config id epoch sender below
    exact hearing.refuses id epoch sender below config

end

/-- Marks made with the key itself stand in for signatures. -/
def keyed : Suite :=
  { Suite.standard with
    verifyingKey := fun key => ⟨key.bytes⟩
    sign := fun key text => ⟨Hkdf.derive [] key.bytes.toList text 64⟩
    verify := fun key text signature =>
      if signature.bytes = Hkdf.derive [] key.bytes.toList text 64 then .ok ()
      else .error .verificationFailed }

theorem keyed_decrypt?_encrypt (key : SealingKey) (associated plaintext : Bytes) :
    keyed.decrypt? key associated (keyed.encrypt key associated plaintext) = some plaintext :=
  Suite.standard_decrypt?_encrypt key associated plaintext

theorem keyed_signs (key : SigningKey) (text : Bytes) : keyed.Signs key text :=
  if_pos rfl

/-- A founder sends two messages, and the second is the first to arrive. -/
theorem second_message_opens_first :
    ∃ (origin speaker joiner : Group) (first second : Spoken),
      Speaks keyed KeyStream origin speaker [first, second] ∧
      Hears KeyStream keyed (origin.distribution keyed) [first, second] joiner [] ∧
      first.message.counter = 0 ∧ second.message.counter = 1 ∧
      ∃ next, joiner.decrypt keyed second.message {} = .ok (next, second.plaintext) ∧
        ∃ last, next.decrypt keyed first.message {} = .ok (last, first.plaintext) := by
  let self : IdentityKey := ⟨⟨.replicate 32 0⟩, ⟨.replicate 32 0⟩⟩
  let peer : IdentityKey := ⟨⟨.replicate 32 1⟩, ⟨.replicate 32 1⟩⟩
  let source : KeyStream := ⟨.replicate 32 0, 0⟩
  let origin := (found keyed ⟨.replicate 16 0⟩ self [peer] source).1.1
  let first : Spoken := ⟨(origin.sealNext keyed [1]).2, [1]⟩
  let second : Spoken := ⟨((origin.sealNext keyed [1]).1.sealNext keyed [2]).2, [2]⟩
  let d := origin.distribution keyed
  let joiner := (start d.groupId peer d.epoch d.members source).1.learned self d
  have silent : Speaks keyed KeyStream origin origin [] := .start
  have speaks := (silent.encrypt source [1] (by decide +kernel)).encrypt source [2]
    (by decide +kernel)
  have joined : (join keyed peer self d 0 source).1 = .ok (joiner, _) :=
    (join_eq_ok_iff keyed).2 ⟨by decide +kernel, ⟨by decide +kernel, rfl, rfl, rfl⟩, rfl, rfl⟩
  have installs : Installs keyed KeyStream d joiner := .join joined
  have hears : Hears KeyStream keyed d [first, second] joiner [] := .install installs
  have fits : joiner.Fits second.message {} :=
    installs.fits rfl rfl (by decide +kernel) (by decide +kernel)
  have inside : second ∈ [first, second] :=
    List.mem_cons_of_mem _ (List.mem_singleton_self _)
  obtain ⟨next, opened⟩ := (Hears.opens_in_any_order keyed_decrypt?_encrypt
    (fun _ _ => keyed_signs _ _) speaks hears).1 second inside List.not_mem_nil {} fits
  have hears' := hears.opened inside List.not_mem_nil fits opened source
  have apart : first ∉ [second] := by
    intro mem
    have same := congrArg (·.message.counter) (List.mem_singleton.1 mem)
    exact absurd same (by decide +kernel)
  -- Its key was passed over: nothing more is passed over now.
  have fits' : next.Fits first.message {} := by
    intro c _
    have gap : c.gap first.message.counter = 0 := Nat.zero_sub _
    exact ⟨gap ▸ Nat.zero_le _, .inl gap⟩
  refine ⟨origin, _, joiner, first, second, speaks, hears, by decide +kernel, by decide +kernel,
    next, opened, ?_⟩
  exact (Hears.opens_in_any_order keyed_decrypt?_encrypt (fun _ _ => keyed_signs _ _) speaks
    hears').1 first List.mem_cons_self apart {} fits'

end Group

end Confide
