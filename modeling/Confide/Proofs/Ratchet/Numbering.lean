import Confide.Proofs.Ratchet.Conversation
import Confide.Proofs.Ratchet.Replay
import Mathlib.Data.List.Forall2

/-! The numbers of sent messages. What a session sends falls into blocks, one for each ratchet key
which it generated: in a block the counters start from zero and leave nothing out, and every header
tells the length of the block before. A message is sealed under the key which the chain of its block
has for its number. -/

set_option autoImplicit false

namespace Confide

def Sent.SealedUnder (S : Suite) (data : Bytes) (sent : Sent) (key : SealingKey) : Prop :=
  sent.message.ciphertext =
    S.encrypt key (sent.message.header.authenticated data) sent.plaintext

namespace Session

/-- A ratchet key of our own, and how many messages were sent under it. -/
structure Block where
  ratchetKey : PublicKey
  /-- Where the chain of the block starts. -/
  chainKey : Octets 32
  length : UInt64
  deriving DecidableEq

namespace Block

/-- The headers of a block after one of length `previous`. -/
def headers (block : Block) (previous : UInt64) : List MessageHeader :=
  (List.range block.length.toNat).map fun n => ⟨block.ratchetKey, previous, .ofNat n⟩

def headersAll (previous : UInt64) : List Block → List MessageHeader
  | [] => []
  | block :: rest => block.headers previous ++ headersAll block.length rest

def sealingKeys (S : Suite) (block : Block) : List SealingKey :=
  (List.range block.length.toNat).map fun n => ((Chain.start block.chainKey).after S n).messageKey S

def lastLength (previous : UInt64) : List Block → UInt64
  | [] => previous
  | block :: rest => lastLength block.length rest

variable {block : Block} {blocks : List Block} {previous : UInt64} {ratchetKey : PublicKey}
  {chainKey : Octets 32} {length : UInt64}

theorem headersAll_append_singleton :
    headersAll previous (blocks ++ [block]) =
      headersAll previous blocks ++ block.headers (lastLength previous blocks) := by
  induction blocks generalizing previous with
  | nil => simp [headersAll, lastLength]
  | cons first rest ih => simp [headersAll, lastLength, ih]

theorem lastLength_append_singleton : lastLength previous (blocks ++ [block]) = block.length := by
  induction blocks generalizing previous with
  | nil => rfl
  | cons first rest ih => exact ih

theorem headers_succ (short : HasNext length) :
    headers ⟨ratchetKey, chainKey, length + 1⟩ previous =
      headers ⟨ratchetKey, chainKey, length⟩ previous ++ [⟨ratchetKey, previous, length⟩] := by
  simp only [headers, short.toNat_add_one, List.range_succ, List.map_append, List.map_singleton,
    UInt64.ofNat_toNat]

theorem sealingKeys_succ (S : Suite) (short : HasNext length) :
    sealingKeys S ⟨ratchetKey, chainKey, length + 1⟩ =
      sealingKeys S ⟨ratchetKey, chainKey, length⟩ ++
        [((Chain.start chainKey).after S length.toNat).messageKey S] := by
  simp only [sealingKeys, short.toNat_add_one, List.range_succ, List.map_append,
    List.map_singleton]

theorem mem_headers {header : MessageHeader} (mem : header ∈ block.headers previous) :
    header.ratchetKey = block.ratchetKey := by
  obtain ⟨n, -, rfl⟩ := List.mem_map.1 mem
  rfl

theorem mem_headersAll {header : MessageHeader} (mem : header ∈ headersAll previous blocks) :
    header.ratchetKey ∈ blocks.map (·.ratchetKey) := by
  induction blocks generalizing previous with
  | nil => cases mem
  | cons first rest ih =>
    rw [List.map_cons, List.mem_cons]
    exact (List.mem_append.1 mem).imp mem_headers ih

theorem nodup_positions_headers : ((block.headers previous).map (·.position)).Nodup := by
  rw [headers, List.map_map]
  refine List.Nodup.map_on (fun n small m small' same => ?_) List.nodup_range
  have whole := block.length.toNat_lt
  have counters := congrArg UInt64.toNat (congrArg Prod.snd same)
  simp only [Function.comp_apply, MessageHeader.position, UInt64.toNat_ofNat'] at counters
  rw [List.mem_range] at small small'
  rwa [Nat.mod_eq_of_lt (by omega), Nat.mod_eq_of_lt (by omega)] at counters

theorem nodup_positions_headersAll (distinct : (blocks.map (·.ratchetKey)).Nodup) :
    ((headersAll previous blocks).map (·.position)).Nodup := by
  induction blocks generalizing previous with
  | nil => exact .nil
  | cons first rest ih =>
    obtain ⟨apart, tail⟩ := List.nodup_cons.1 distinct
    rw [headersAll, List.map_append]
    -- A position in both parts would give two blocks the same ratchet key.
    refine nodup_positions_headers.append (ih tail) fun position here there => ?_
    obtain ⟨header, mem, rfl⟩ := List.mem_map.1 here
    obtain ⟨other, mem', same⟩ := List.mem_map.1 there
    have key : other.ratchetKey = first.ratchetKey :=
      (congrArg Prod.fst same).trans (mem_headers mem)
    have inside := mem_headersAll mem'
    rw [key] at inside
    exact apart inside

end Block

structure Outbox where
  session : Session
  emitted : List Sent
  /-- Our own ratchet keys in the order in which they were generated. -/
  ratchets : List PublicKey

namespace Outbox

variable {G : Type} [Entropy G] (S : Suite)

def headers (o : Outbox) : List MessageHeader := o.emitted.map (·.message.header)

def begin (s : Session) : Outbox := ⟨s, [], (s.ratchetKey S).toList⟩

def sends (o : Outbox) (source : G) (next : Session) (sent : Sent) : Outbox where
  session := next
  emitted := o.emitted ++ [sent]
  ratchets := o.ratchets ++ (o.session.generated source).map S.publicKey

/-- What fails changes nothing. -/
def step (o : Outbox) : Operation G × RatchetConfig → Outbox
  | (.encrypt plaintext source, _) =>
    match (o.session.encrypt S plaintext source).1 with
    | .error _ => o
    | .ok (next, message) => o.sends S source next ⟨message, plaintext⟩
  | (.decrypt message, config) =>
    match o.session.decrypt S message config with
    | .error _ => o
    | .ok (next, _) => { o with session := next }

def run (o : Outbox) (operations : List (Operation G × RatchetConfig)) : Outbox :=
  operations.foldl (step S) o

/-- Where a session is in the blocks it has sent: in the last one, or before a new one. -/
inductive Stands (s : Session) : List Block → Prop where
  | within {before : List Block} {ratchet : SecretKey} {chainKey : Octets 32} (chain : Chain)
      (sends : s.sending = .current ratchet chain)
      (reached : chain = (Chain.start chainKey).after S chain.counter.toNat)
      (previous : s.previousLength = Block.lastLength 0 before) :
      Stands s (before ++ [⟨S.publicKey ratchet, chainKey, chain.counter⟩])
  | between {blocks : List Block} (ended : s.sending.ended? = some (Block.lastLength 0 blocks)) :
      Stands s blocks

/-- What was sent so far is made up of blocks, and only the first one can be empty. -/
structure Counted (data : Bytes) (o : Outbox) (blocks : List Block) : Prop where
  associated : o.session.associatedData = data
  headers : o.headers = Block.headersAll 0 blocks
  seals : List.Forall₂ (Sent.SealedUnder S data) o.emitted (blocks.flatMap (·.sealingKeys S))
  ratchets : o.ratchets = blocks.map (·.ratchetKey)
  inhabited : ∀ block ∈ blocks.tail, block.length ≠ 0
  stands : Stands S o.session blocks

variable {S} {data : Bytes} {o : Outbox} {blocks before : List Block} {source : G}
  {plaintext : Bytes}

theorem Counted.begin {s : Session} (starts : s.Starts) :
    ∃ blocks, Counted S s.associatedData (Outbox.begin S s) blocks := by
  cases starts with
  | initiator h =>
    -- The chain of the handshake is a block, in which nothing has been sent yet.
    have stands : Stands S (.initiator h) ([] ++ [⟨S.publicKey h.ephemeral, h.keys.chain, 0⟩]) :=
      .within (.start h.keys.chain) rfl rfl rfl
    exact ⟨_, rfl, rfl, .nil, rfl, List.forall_mem_nil _, stands⟩
  | responder r header => exact ⟨[], rfl, rfl, .nil, rfl, List.forall_mem_nil _, .between rfl⟩

theorem mem_tail_append_singleton {block last : Block}
    (mem : block ∈ (before ++ [last]).tail) : block ∈ before.tail ∨ block = last := by
  cases before with
  | nil => cases mem
  | cons first rest => simpa using mem

theorem Counted.seals_append {keys : List SealingKey} {sent : Sent}
    (counted : Counted S data o blocks) (key : SealingKey)
    (isSealed : sent.SealedUnder S o.session.associatedData key)
    (same : keys = blocks.flatMap (·.sealingKeys S) ++ [key]) :
    List.Forall₂ (Sent.SealedUnder S data) (o.emitted ++ [sent]) keys := by
  rw [counted.associated] at isSealed
  rw [same]
  exact List.rel_append counted.seals (.cons isSealed .nil)

theorem Counted.sends_again {ratchet : SecretKey} {chain : Chain} {chainKey : Octets 32}
    (counted : Counted S data o (before ++ [⟨S.publicKey ratchet, chainKey, chain.counter⟩]))
    (sends : o.session.sending = .current ratchet chain)
    (reached : chain = (Chain.start chainKey).after S chain.counter.toNat)
    (previous : o.session.previousLength = Block.lastLength 0 before)
    (short : HasNext chain.counter) :
    let (next, message) := o.session.sealNext S ratchet chain plaintext
    Counted S data (o.sends S source next ⟨message, plaintext⟩)
      (before ++ [⟨S.publicKey ratchet, chainKey, chain.counter + 1⟩]) := by
  have none : o.session.generated source = [] := by
    simp only [generated, sends, SendingChain.ended?]
  have next : chain.next S = (Chain.start chainKey).after S (chain.counter + 1).toNat := by
    rw [short.toNat_add_one, Chain.after_succ, ← reached]
  refine ⟨counted.associated, ?_, ?_, ?_, fun block mem => ?_,
    .within (chain.next S) rfl next previous⟩
  · have headers := counted.headers
    simp only [Outbox.headers] at headers
    simp only [Outbox.headers, Outbox.sends, List.map_append, headers,
      Block.headersAll_append_singleton, Block.headers_succ short, List.append_assoc, previous]
    rfl
  · refine counted.seals_append (chain.messageKey S) rfl ?_
    rw [List.flatMap_append, List.flatMap_append, List.flatMap_singleton, List.flatMap_singleton,
      Block.sealingKeys_succ S short, List.append_assoc, ← reached]
  · simp only [Outbox.sends, counted.ratchets, none, List.map_append, List.map_nil,
      List.append_nil, List.map_singleton]
  · rcases mem_tail_append_singleton mem with older | rfl
    · refine counted.inhabited block ?_
      cases before with
      | nil => cases older
      | cons first rest => exact List.mem_append_left _ older
    · intro zero
      have number := short.toNat_add_one
      rw [show chain.counter + 1 = 0 from zero, UInt64.toNat_zero] at number
      omega

theorem Counted.sends_first {started : Session} {key : Octets 32} {plaintext : Bytes}
    (counted : Counted S data o blocks)
    (ended : o.session.sending.ended? = some (Block.lastLength 0 blocks))
    (previous : started.previousLength = Block.lastLength 0 blocks)
    (same : started.associatedData = o.session.associatedData) :
    let (next, message) := started.sealNext S ⟨(draw 32 source).1⟩ (.start key) plaintext
    Counted S data (o.sends S source next ⟨message, plaintext⟩)
      (blocks ++ [⟨S.publicKey ⟨(draw 32 source).1⟩, key, 1⟩]) := by
  have drawn : o.session.generated source = [⟨(draw 32 source).1⟩] := by
    simp only [generated, ended]
  refine ⟨same.trans counted.associated, ?_, ?_, ?_, fun block mem => ?_,
    .within ((Chain.start key).next S) rfl rfl previous⟩
  · have headers := counted.headers
    simp only [Outbox.headers] at headers
    simp only [Outbox.headers, Outbox.sends, List.map_append, headers,
      Block.headersAll_append_singleton, previous]
    rfl
  · refine counted.seals_append ((Chain.start key).messageKey S) ?_ ?_
    · rw [← same]
      rfl
    · rw [List.flatMap_append, List.flatMap_singleton]
      rfl
  · simp only [Outbox.sends, counted.ratchets, drawn, List.map_append, List.map_singleton]
  · rcases mem_tail_append_singleton mem with older | rfl
    · exact counted.inhabited block older
    · change (1 : UInt64) ≠ 0
      decide

variable {next : Session} {message : RatchetMessage}

theorem Counted.encrypts (counted : Counted S data o blocks)
    (encrypted : (o.session.encrypt S plaintext source).1 = .ok (next, message)) :
    ∃ blocks', Counted S data (o.sends S source next ⟨message, plaintext⟩) blocks' := by
  obtain ⟨started, ratchet, chain, sends, short, isSealed⟩ := (encrypt_eq_ok_iff S).1 encrypted
  cases isSealed
  have stands := counted.stands
  -- A current chain extends the last block, an ended one starts the next.
  cases sends with
  | current sends =>
    cases stands with
    | within chain' sends' reached previous =>
      rw [sends'] at sends
      cases sends
      exact ⟨_, counted.sends_again sends' reached previous short⟩
    | between ended =>
      rw [sends] at ended
      cases ended
  | fresh ended receives agreed =>
    cases stands with
    | within chain sends =>
      rw [sends] at ended
      cases ended
    | between ended' =>
      rw [ended'] at ended
      cases ended
      exact ⟨_, counted.sends_first ended' rfl rfl⟩

theorem Counted.decrypted {config : RatchetConfig} (counted : Counted S data o blocks)
    (decrypted : o.session.decrypt S message config = .ok (next, plaintext)) :
    Counted S data { o with session := next } blocks := by
  obtain ⟨taken, key, takes, -, rfl⟩ := (decrypt_eq_ok_iff S).1 decrypted
  -- What is decrypted can end a block, but neither starts nor extends one.
  have same : taken.associatedData = o.session.associatedData := by cases takes <;> rfl
  refine ⟨same.trans counted.associated, counted.headers, counted.seals, counted.ratchets,
    counted.inhabited, ?_⟩
  have stands := counted.stands
  cases takes with
  | cached | current =>
    cases stands with
    | within chain sends reached previous => exact .within chain sends reached previous
    | between ended => exact .between ended
  | turn unknown other sends =>
    cases stands with
    | within chain sends' =>
      rw [sends'] at sends
      cases sends
      refine .between ?_
      rw [Block.lastLength_append_singleton]
      rfl
    | between ended =>
      rw [sends] at ended
      cases ended

theorem Counted.step (operation : Operation G × RatchetConfig) (counted : Counted S data o blocks) :
    ∃ blocks', Counted S data (o.step S operation) blocks' := by
  obtain ⟨operation, config⟩ := operation
  cases operation with
  | encrypt plaintext source =>
    cases outcome : (o.session.encrypt S plaintext source).1 with
    | error error =>
      simp only [Outbox.step, outcome]
      exact ⟨blocks, counted⟩
    | ok encrypted =>
      obtain ⟨next, message⟩ := encrypted
      simp only [Outbox.step, outcome]
      exact counted.encrypts outcome
  | decrypt message =>
    cases outcome : o.session.decrypt S message config with
    | error error =>
      simp only [Outbox.step, outcome]
      exact ⟨blocks, counted⟩
    | ok decrypted =>
      simp only [Outbox.step, outcome]
      exact ⟨blocks, counted.decrypted outcome⟩

theorem Counted.run (operations : List (Operation G × RatchetConfig))
    (counted : Counted S data o blocks) :
    ∃ blocks', Counted S data (o.run S operations) blocks' := by
  induction operations generalizing o blocks with
  | nil => exact ⟨blocks, counted⟩
  | cons operation rest ih =>
    obtain ⟨blocks', counted'⟩ := counted.step operation
    exact ih counted'

end Outbox

/-- What is sent consists of blocks: one for each own ratchet key, numbered from zero, under headers
which tell the length of the block before and sealed with the keys of one chain in turn. So no
position is used twice, as long as the ratchet keys are different. -/
theorem run_emitted_blocks {G : Type} [Entropy G] {S : Suite} {s : Session} (starts : s.Starts)
    (operations : List (Operation G × RatchetConfig)) :
    let o := (Outbox.begin S s).run S operations
    (∃ blocks : List Block, o.ratchets = blocks.map (·.ratchetKey) ∧
      o.headers = Block.headersAll 0 blocks ∧ (∀ block ∈ blocks.tail, block.length ≠ 0) ∧
      List.Forall₂ (Sent.SealedUnder S s.associatedData) o.emitted
        (blocks.flatMap (·.sealingKeys S))) ∧
      (o.ratchets.Nodup → (o.headers.map (·.position)).Nodup) := by
  obtain ⟨_, begun⟩ := Outbox.Counted.begin (S := S) starts
  obtain ⟨blocks, counted⟩ := begun.run operations
  refine ⟨⟨blocks, counted.ratchets, counted.headers, counted.inhabited, counted.seals⟩,
    fun distinct => ?_⟩
  rw [counted.ratchets] at distinct
  rw [counted.headers]
  exact Block.nodup_positions_headersAll distinct

theorem Outbox.exists_run_two_blocks {G : Type} [Entropy G] {S : Suite}
    (sealing : ∀ key associated plaintext,
      S.decrypt? key associated (S.encrypt key associated plaintext) = some plaintext)
    (first second : G) (old new : PublicKey) {shared shared' shared'' : Octets 32}
    (apart : old ≠ new) (agreed : S.agree ⟨(draw 32 first).1⟩ old = .ok shared)
    (agreed' : S.agree ⟨(draw 32 first).1⟩ new = .ok shared')
    (agreed'' : S.agree ⟨(draw 32 second).1⟩ new = .ok shared'') :
    ∃ (s : Session) (message : RatchetMessage), s.Starts ∧
      ((Outbox.begin S s).run S
        [(.encrypt [1] first, {}), (.decrypt message, {}), (.encrypt [2] second, {})]).headers =
          [⟨S.publicKey ⟨(draw 32 first).1⟩, 0, 0⟩, ⟨S.publicKey ⟨(draw 32 second).1⟩, 1, 0⟩] := by
  let s : Session := .responder ⟨⟨.replicate 32 1, .replicate 32 2⟩, []⟩
    ⟨⟨⟨.replicate 32 0⟩, old⟩, old, 0, none⟩
  let root := (mixRoot S s.root shared).1
  let sent := ({ s with root, previousLength := 0 } : Session).sealNext S ⟨(draw 32 first).1⟩
    (.start (mixRoot S s.root shared).2) [1]
  let header : MessageHeader := ⟨new, 0, 0⟩
  let key := (Chain.start (mixRoot S root shared').2).messageKey S
  let message : RatchetMessage := ⟨header, none, S.encrypt key (header.authenticated []) []⟩
  let heard : Session := { sent.1.turned S header {} 1 shared' with pending := none }
  let answer := ({ heard with root := (mixRoot S heard.root shared'').1, previousLength := 1 } :
    Session).sealNext S ⟨(draw 32 second).1⟩ (.start (mixRoot S heard.root shared'').2) [2]
  have zero : HasNext 0 := by decide
  have encrypts : (s.encrypt S [1] first).1 = .ok sent :=
    (encrypt_eq_ok_iff S).2 ⟨_, _, _, .fresh rfl rfl agreed, zero, rfl⟩
  have decrypts : sent.1.decrypt S message {} = .ok (heard, []) := by
    have other : sent.1.theirRatchetKey ≠ some header.ratchetKey := fun same =>
      apart (Option.some.inj same)
    have takes : sent.1.Takes S header {} (sent.1.turned S header {} 1 shared') key :=
      .turn rfl other rfl (Nat.zero_le 1000) (Nat.zero_le 1000) agreed' zero
    exact (decrypt_eq_ok_iff S).2 ⟨_, _, takes, sealing key _ [], rfl⟩
  have answers : (heard.encrypt S [2] second).1 = .ok answer :=
    (encrypt_eq_ok_iff S).2 ⟨_, _, _, .fresh rfl rfl agreed'', zero, rfl⟩
  refine ⟨s, message, .responder _ _, ?_⟩
  simp only [Outbox.run, List.foldl_cons, List.foldl_nil, Outbox.step, Outbox.begin, Outbox.sends,
    encrypts, decrypts, answers]
  rfl

theorem run_emitted_two_blocks :
    ∃ (s : Session) (first second : KeyStream) (message : RatchetMessage),
      let operations : List (Operation KeyStream × RatchetConfig) :=
        [(.encrypt [1] first, {}), (.decrypt message, {}), (.encrypt [2] second, {})]
      s.Starts ∧
        ((Outbox.begin .standard s).run .standard operations).headers.length = 2 ∧
        ∃ blocks : List Block,
          ((Outbox.begin .standard s).run .standard operations).headers =
            Block.headersAll 0 blocks ∧
          List.Forall₂ (Sent.SealedUnder .standard s.associatedData)
            ((Outbox.begin .standard s).run .standard operations).emitted
            (blocks.flatMap (·.sealingKeys .standard)) := by
  let first : KeyStream := ⟨.replicate 32 0, 0⟩
  let second : KeyStream := ⟨.replicate 32 1, 0⟩
  obtain ⟨s, message, starts, emitted⟩ := Outbox.exists_run_two_blocks
    Suite.standard_decrypt?_encrypt first second ⟨.replicate 32 9⟩ ⟨.replicate 32 7⟩ (by decide)
    (Suite.agree_eq_ok_iff.2 ⟨rfl, by decide +kernel⟩)
    (Suite.agree_eq_ok_iff.2 ⟨rfl, by decide +kernel⟩)
    (Suite.agree_eq_ok_iff.2 ⟨rfl, by decide +kernel⟩)
  refine ⟨s, first, second, message, starts, by rw [emitted]; rfl, ?_⟩
  obtain ⟨⟨blocks, -, same, -, seals⟩, -⟩ := run_emitted_blocks starts
    [(.encrypt [1] first, {}), (.decrypt message, {}), (.encrypt [2] second, {})]
  exact ⟨blocks, same, seals⟩

end Session

end Confide
