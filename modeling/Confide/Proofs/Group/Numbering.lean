import Confide.Proofs.Group.Delivery
import Confide.Proofs.Group.Epochs
import Mathlib.Data.List.Nodup
import Mathlib.Data.List.ProdSigma

/-! The numbers of the messages which a member sends. Its time in the group falls into stints, one
for each epoch: in a stint the counters start from zero and leave nothing out, and what the member
hands out of its chain is never behind what it has sent. -/

set_option autoImplicit false

namespace Confide.Group

section
variable (S : Suite) (G : Type) [Entropy G]

/-- The key which the chain of an epoch, as it was when the group came there, has for a message. -/
def sealingKey (origin : Group) (message : GroupMessage) : SealingKey :=
  (origin.ownChain.chain.after S message.counter.toNat).messageKey S

/-- What is asked of the key derivation: that the first keys of these chains are all different. -/
def KeysDiffer (n : Nat) (origins : List Group) : Prop :=
  ((origins.product (List.range n)).map fun (origin, i) =>
    (origin.ownChain.chain.after S i).messageKey S).Nodup

def entered (g next : Group) : List Group :=
  if next.epoch = g.epoch then [] else [next]

/-- What becomes of a group, with the states in which it came to its epochs and all the messages
sent by it. -/
inductive Sends : Group → List Group → List Spoken → Prop where
  | found (id : GroupId) (self : IdentityKey) (listed : List IdentityKey) (source : G) :
      Sends (found S id self listed source).1.1 [(found S id self listed source).1.1] []
  | join {self sender : IdentityKey} {d : Distribution} {now : UInt64} {source : G} {next : Group}
      {ours : Distribution} (joined : (join S self sender d now source).1 = .ok (next, ours)) :
      Sends next [next] []
  | step {g : Group} {origins : List Group} {sent : List Spoken} (source : G) (event : Event)
      (sends : Sends g origins sent) :
      Sends (g.step S source event).1 (origins ++ g.entered (g.step S source event).1)
        (sent ++ g.emitted S event)

/-- The distributions of our own chain which a group has to give away: on demand, and when the chain
is new. -/
inductive HandsOut : Group → Distribution → Prop where
  | ask (g : Group) : HandsOut g (g.distribution S)
  | found {id : GroupId} {self : IdentityKey} {listed : List IdentityKey} {source : G} {g : Group}
      {d : Distribution} (founded : (found S id self listed source).1 = (g, d)) : HandsOut g d
  | join {self sender : IdentityKey} {theirs : Distribution} {now : UInt64} {source : G} {g : Group}
      {d : Distribution} (joined : (join S self sender theirs now source).1 = .ok (g, d)) :
      HandsOut g d
  | process {before g : Group} {sender : IdentityKey} {theirs : Distribution} {now : UInt64}
      {source : G} {d : Distribution}
      (accepted : (before.process S sender theirs now source).1 = .ok (g, some d)) : HandsOut g d
  | update {before g : Group} {members : List IdentityKey} {now : UInt64} {source : G}
      {d : Distribution} (updated : (before.updateMembers S members now source).1 = .ok (g, d)) :
      HandsOut g d

end

/-- The state in which a group came to an epoch, and what it has sent there. -/
structure Stint where
  origin : Group
  sent : List Spoken

structure Stint.Counted (S : Suite) (stint : Stint) : Prop where
  fresh : stint.origin.ownChain.chain.counter = 0
  bound : stint.sent.length < 2 ^ 64
  sent : ∀ i spoken, stint.sent[i]? = some spoken →
    spoken.message = stint.origin.utterance S i spoken.plaintext

structure Spent (S : Suite) (g : Group) (stints : List Stint) (last : Stint) : Prop where
  ascending : ((stints ++ [last]).map (·.origin.epoch)).Pairwise (· < ·)
  counted : ∀ stint ∈ stints ++ [last], stint.Counted S
  current : Sending S last.origin last.sent g

variable {G : Type} [Entropy G] {S : Suite} {g origin speaker : Group} {origins : List Group}
  {sent : List Spoken} {stint last : Stint} {stints : List Stint} {event : Event} {source : G}
  {d : Distribution} {epoch : UInt64}

/-! ### One stint -/

theorem Sending.counted (sending : Sending S origin sent speaker)
    (fresh : origin.ownChain.chain.counter = 0) : Stint.Counted S ⟨origin, sent⟩ := by
  have bound := sending.bound
  rw [fresh, UInt64.toNat_zero, Nat.zero_add] at bound
  exact ⟨fresh, bound, sending.sent⟩

namespace Stint.Counted

theorem toNat_counter (counted : stint.Counted S) {i : Nat} {spoken : Spoken}
    (found : stint.sent[i]? = some spoken) : spoken.message.counter.toNat = i := by
  obtain ⟨low, -⟩ := List.getElem?_eq_some_iff.1 found
  have bound : stint.origin.ownChain.chain.counter.toNat + i < 2 ^ 64 := by
    rw [counted.fresh, UInt64.toNat_zero, Nat.zero_add]
    exact Nat.lt_trans low counted.bound
  have number := Chain.toNat_counter_after S bound
  rw [counted.fresh, UInt64.toNat_zero, Nat.zero_add] at number
  rw [counted.sent i spoken found]
  exact number

theorem counters (counted : stint.Counted S) :
    stint.sent.map (·.message.counter.toNat) = List.range stint.sent.length := by
  refine List.ext_getElem? fun i => ?_
  rw [List.getElem?_map]
  cases found : stint.sent[i]? with
  | none =>
    rw [List.getElem?_eq_none_iff] at found
    rw [List.getElem?_eq_none (by rwa [List.length_range])]
    rfl
  | some spoken =>
    obtain ⟨low, -⟩ := List.getElem?_eq_some_iff.1 found
    rw [List.getElem?_range low, Option.map_some, counted.toNat_counter found]

theorem eq_utterance (counted : stint.Counted S) {spoken : Spoken} (mem : spoken ∈ stint.sent) :
    spoken.message =
      stint.origin.utterance S spoken.message.counter.toNat spoken.plaintext := by
  obtain ⟨i, found⟩ := List.mem_iff_getElem?.1 mem
  rw [counted.toNat_counter found]
  exact counted.sent i spoken found

theorem epoch_eq (counted : stint.Counted S) {spoken : Spoken} (mem : spoken ∈ stint.sent) :
    spoken.message.epoch = stint.origin.epoch := by
  rw [counted.eq_utterance mem]
  rfl

theorem filter_self (counted : stint.Counted S) :
    stint.sent.filter (·.message.epoch = stint.origin.epoch) = stint.sent :=
  List.filter_eq_self.2 fun _ mem => decide_eq_true (counted.epoch_eq mem)

theorem filter_eq_nil (counted : stint.Counted S) (apart : stint.origin.epoch ≠ epoch) :
    stint.sent.filter (·.message.epoch = epoch) = [] :=
  List.filter_eq_nil_iff.2 fun _ mem same =>
    apart ((counted.epoch_eq mem).symm.trans (of_decide_eq_true same))

end Stint.Counted

/-! ### All stints -/

section
variable (counted : ∀ stint ∈ stints, stint.Counted S)
include counted

theorem filter_stints_eq_nil (apart : ∀ stint ∈ stints, stint.origin.epoch ≠ epoch) :
    (stints.flatMap (·.sent)).filter (·.message.epoch = epoch) = [] := by
  rw [List.filter_flatMap, List.flatMap_eq_nil_iff]
  exact fun stint mem => (counted stint mem).filter_eq_nil (apart stint mem)

variable (distinct : (stints.map (·.origin.epoch)).Nodup)
include distinct

theorem filter_stints (mem : stint ∈ stints) :
    (stints.flatMap (·.sent)).filter (·.message.epoch = stint.origin.epoch) = stint.sent := by
  induction stints with
  | nil => cases mem
  | cons first rest ih =>
    rw [List.map_cons, List.nodup_cons] at distinct
    obtain ⟨here, later⟩ := List.forall_mem_cons.1 counted
    rw [List.flatMap_cons, List.filter_append]
    rcases List.mem_cons.1 mem with rfl | inside
    · have others : ∀ other ∈ rest, other.origin.epoch ≠ stint.origin.epoch :=
        fun other inside same => distinct.1 (List.mem_map.2 ⟨other, inside, same⟩)
      rw [here.filter_self, filter_stints_eq_nil later others, List.append_nil]
    · have apart : first.origin.epoch ≠ stint.origin.epoch :=
        fun same => distinct.1 (List.mem_map.2 ⟨stint, inside, same.symm⟩)
      rw [here.filter_eq_nil apart, List.nil_append, ih later distinct.2 inside]

theorem counters_filter_stints (epoch : UInt64) :
    ((stints.flatMap (·.sent)).filter (·.message.epoch = epoch)).map
        (·.message.counter.toNat) =
      List.range ((stints.flatMap (·.sent)).filter (·.message.epoch = epoch)).length := by
  by_cases spent : ∃ stint ∈ stints, stint.origin.epoch = epoch
  · obtain ⟨stint, mem, rfl⟩ := spent
    rw [filter_stints counted distinct mem, (counted stint mem).counters]
  · have apart : ∀ stint ∈ stints, stint.origin.epoch ≠ epoch :=
      fun stint mem same => spent ⟨stint, mem, same⟩
    rw [filter_stints_eq_nil counted apart]
    rfl

end

theorem nodup_numbers
    (counters : ∀ epoch,
      ((sent.filter (·.message.epoch = epoch)).map (·.message.counter.toNat)).Nodup) :
    (sent.map fun spoken => (spoken.message.epoch, spoken.message.counter)).Nodup := by
  induction sent with
  | nil => exact .nil
  | cons first rest ih =>
    have later : ∀ epoch,
        ((rest.filter (·.message.epoch = epoch)).map (·.message.counter.toNat)).Nodup :=
      fun epoch => (counters epoch).sublist (((List.sublist_cons_self _ _).filter _).map _)
    -- A number which comes again is a counter which comes again in its epoch.
    refine List.nodup_cons.2 ⟨fun again => ?_, ih later⟩
    obtain ⟨other, mem, same⟩ := List.mem_map.1 again
    rw [Prod.mk.injEq] at same
    have here := counters first.message.epoch
    simp only [List.filter_cons, decide_true, if_true, List.map_cons, List.nodup_cons] at here
    refine here.1 (List.mem_map.2 ⟨other, ?_, congrArg UInt64.toNat same.2⟩)
    exact List.mem_filter.2 ⟨mem, decide_eq_true same.1⟩

/-! ### Step by step -/

theorem Sends.encrypt (sends : Sends S G g origins sent) (plaintext : Bytes) (source : G)
    (short : HasNext g.ownChain.chain.counter) :
    Sends S G (g.sealNext S plaintext).1 origins
      (sent ++ [⟨(g.sealNext S plaintext).2, plaintext⟩]) := by
  have stays : g.entered (g.sealNext S plaintext).1 = [] := if_pos rfl
  have next := sends.step source (.encrypt plaintext)
  rwa [step_encrypt_of_short S short, emitted_encrypt_of_short short, stays, List.append_nil]
    at next

theorem spent_of_fresh (fresh : g.ownChain.chain.counter = 0) : Spent S g [] ⟨g, []⟩ where
  ascending := List.pairwise_singleton ..
  counted stint mem := by
    rw [List.mem_singleton.1 mem]
    exact Sending.start.counted fresh
  current := .start

theorem Spent.stay (spent : Spent S g stints last)
    (stays : (g.step S source event).1.epoch = g.epoch) :
    Spent S (g.step S source event).1 stints
      ⟨last.origin, last.sent ++ g.emitted S event⟩ := by
  have sending : Sending S last.origin (last.sent ++ g.emitted S event)
      (g.step S source event).1 := spent.current.step stays
  refine ⟨?_, fun stint mem => ?_, sending⟩
  · have ascending := spent.ascending
    rw [List.map_append] at ascending ⊢
    exact ascending
  · rcases List.mem_append.1 mem with before | now
    · exact spent.counted stint (List.mem_append_left _ before)
    · have fresh := (spent.counted last (List.mem_append_right _ (List.mem_singleton_self _))).fresh
      rw [List.mem_singleton.1 now]
      exact sending.counted fresh

theorem step_of_moved (moved : (g.step S source event).1.epoch ≠ g.epoch) :
    g.emitted S event = [] ∧ g.epoch < (g.step S source event).1.epoch ∧
      (g.step S source event).1.ownChain.chain.counter = 0 := by
  have steps := step_cases S g source event
  generalize (g.step S source event).1 = next at steps moved
  cases steps with
  | refused | encrypted | purged => exact absurd rfl moved
  | decrypted opens =>
    rw [setChain_eq] at moved
    exact absurd rfl moved
  | followed follows => exact absurd (epoch_learned ..) moved
  | moved moves =>
    rw [learned_eq]
    exact ⟨rfl, moves.newer, rfl⟩
  | updated members now short => exact ⟨rfl, HasNext.lt_add_one short, rfl⟩

theorem Spent.move (spent : Spent S g stints last) {next : Group} (newer : g.epoch < next.epoch)
    (fresh : next.ownChain.chain.counter = 0) :
    Spent S next (stints ++ [last]) ⟨next, []⟩ := by
  have start : Stint.Counted S ⟨next, []⟩ := Sending.start.counted fresh
  rw [spent.current.epoch] at newer
  refine ⟨?_, fun stint mem => ?_, .start⟩
  · rw [List.map_append]
    refine List.pairwise_append.2 ⟨spent.ascending, List.pairwise_singleton .., ?_⟩
    intro earlier mem later here
    rw [List.mem_singleton.1 here]
    rw [List.map_append, List.mem_append] at mem
    rcases mem with before | now
    · have ascending := spent.ascending
      rw [List.map_append, List.pairwise_append] at ascending
      exact UInt64.lt_trans (ascending.2.2 earlier before _ (List.mem_singleton_self _)) newer
    · rw [List.mem_singleton.1 now]
      exact newer
  · rcases List.mem_append.1 mem with before | now
    · exact spent.counted stint before
    · rw [List.mem_singleton.1 now]
      exact start

theorem Sends.exists_stints (sends : Sends S G g origins sent) :
    ∃ stints last, origins = (stints ++ [last]).map (·.origin) ∧
      sent = (stints ++ [last]).flatMap (·.sent) ∧ Spent S g stints last := by
  induction sends with
  | found id self listed source => exact ⟨[], ⟨_, []⟩, rfl, rfl, spent_of_fresh rfl⟩
  | join joined =>
    obtain ⟨-, -, rfl, -⟩ := (join_eq_ok_iff S).1 joined
    exact ⟨[], ⟨_, []⟩, rfl, rfl, spent_of_fresh (by rw [learned_eq]; rfl)⟩
  | step source event _ ih =>
    obtain ⟨stints, last, rfl, rfl, spent⟩ := ih
    -- As long as the epoch stays the last stint goes on, and then the next one begins.
    unfold entered
    split
    · rename_i stays
      exact ⟨stints, _, by simp, by simp, spent.stay stays⟩
    · rename_i moved
      obtain ⟨silent, newer, fresh⟩ := step_of_moved moved
      exact ⟨stints ++ [last], _, by simp, by simp [silent], spent.move newer fresh⟩

/-! ### What is handed out -/

theorem HandsOut.eq_distribution (handed : HandsOut S G g d) : d = g.distribution S := by
  cases handed with
  | ask => rfl
  | found founded => cases founded; rfl
  | join joined =>
    obtain ⟨-, -, rfl, rfl⟩ := (join_eq_ok_iff S).1 joined
    rw [learned_eq]
    rfl
  | process accepted =>
    rcases accepted_of_process S accepted with follows | moves
    · rw [process_of_follows S follows] at accepted
      cases accepted
    · rw [process_of_moves S moves] at accepted
      cases accepted
      rw [learned_eq]
      rfl
  | update updated => exact ((updateMembers_eq_ok_iff S).1 updated).2.2

theorem Spent.chain_eq (spent : Spent S g stints last) :
    g.ownChain.chain = last.origin.ownChain.chain.after S last.sent.length ∧
      g.ownChain.chain.counter.toNat = last.sent.length := by
  have counted := spent.counted last (List.mem_append_right _ (List.mem_singleton_self _))
  have number := Chain.toNat_counter_after S spent.current.bound
  rw [counted.fresh] at number
  rw [spent.current.ownChain]
  exact ⟨rfl, number.trans (Nat.zero_add _)⟩

/-! ### The keys of the messages -/

theorem KeysDiffer.pairwise_sealingKey (differ : KeysDiffer S sent.length origins)
    (once : (sent.map fun spoken => (spoken.message.epoch, spoken.message.counter)).Nodup)
    (counters : ∀ epoch, (sent.filter (·.message.epoch = epoch)).map (·.message.counter.toNat) =
      List.range (sent.filter (·.message.epoch = epoch)).length) :
    sent.Pairwise fun first second => ∀ origin ∈ origins, ∀ other ∈ origins,
      origin.epoch = first.message.epoch → other.epoch = second.message.epoch →
        origin.sealingKey S first.message ≠ other.sealingKey S second.message := by
  have low {spoken : Spoken} (mem : spoken ∈ sent) :
      spoken.message.counter.toNat < sent.length := by
    have here : spoken ∈ sent.filter (·.message.epoch = spoken.message.epoch) :=
      List.mem_filter.2 ⟨mem, decide_eq_true rfl⟩
    have number := List.mem_map_of_mem (f := (·.message.counter.toNat)) here
    rw [counters, List.mem_range] at number
    exact Nat.lt_of_lt_of_le number (List.length_filter_le ..)
  refine (List.pairwise_map.1 once).imp_of_mem fun {first second} mem mem' apart => ?_
  intro origin inside other inside' epoch epoch' same
  have equal := List.inj_on_of_nodup_map differ
    (List.pair_mem_product.2 ⟨inside, List.mem_range.2 (low mem)⟩)
    (List.pair_mem_product.2 ⟨inside', List.mem_range.2 (low mem')⟩) same
  rw [Prod.mk.injEq] at equal
  obtain ⟨rfl, number⟩ := equal
  refine apart ?_
  rw [← epoch, ← epoch', UInt64.toNat_inj.1 number]

/-- No two messages of a member have the same epoch and counter. In every epoch the counters go up
from zero by one, and every message is the one which the chain of its epoch gives, so that no key is
used twice if the chains give different ones. What the member hands out of its chain is the chain
behind the messages which were sent. -/
theorem Sends.numbers_once (sends : Sends S G g origins sent) :
    (sent.map fun spoken => (spoken.message.epoch, spoken.message.counter)).Nodup ∧
    (∀ epoch, (sent.filter (·.message.epoch = epoch)).map (·.message.counter.toNat) =
      List.range (sent.filter (·.message.epoch = epoch)).length) ∧
    ((origins.map (·.epoch)).Pairwise (· < ·) ∧
      (∀ origin ∈ origins, origin.ownChain.chain.counter = 0) ∧
      ∀ spoken ∈ sent, ∃ origin ∈ origins, origin.epoch = spoken.message.epoch ∧
        spoken.message =
          origin.utterance S spoken.message.counter.toNat spoken.plaintext) ∧
    (KeysDiffer S sent.length origins → sent.Pairwise fun first second =>
      ∀ origin ∈ origins, ∀ other ∈ origins, origin.epoch = first.message.epoch →
        other.epoch = second.message.epoch →
          origin.sealingKey S first.message ≠ other.sealingKey S second.message) ∧
    ∀ d, HandsOut S G g d → d.epoch = g.epoch ∧
      (HasNext d.counter → ∀ plaintext, ∃ next message,
        g.encrypt S plaintext = .ok (next, message) ∧ message.counter = d.counter) ∧
      (∀ spoken ∈ sent, spoken.message.epoch = g.epoch → spoken.message.counter < d.counter) ∧
      d.counter.toNat = (sent.filter (·.message.epoch = g.epoch)).length ∧
      ∃ origin, origins.getLast? = some origin ∧ origin.epoch = g.epoch ∧
        d.chainKey = (origin.ownChain.chain.after S d.counter.toNat).key := by
  obtain ⟨stints, last, rfl, rfl, spent⟩ := sends.exists_stints
  have ascending := spent.ascending
  have distinct := ascending.imp UInt64.ne_of_lt
  have counters := counters_filter_stints spent.counted distinct
  have here : last ∈ stints ++ [last] := List.mem_append_right _ (List.mem_singleton_self _)
  have once := nodup_numbers fun epoch => (counters epoch).symm ▸ List.nodup_range
  refine ⟨once, counters, ⟨?_, ?_, ?_⟩, fun differ => differ.pairwise_sealingKey once counters, ?_⟩
  · rwa [List.map_map]
  · intro origin mem
    obtain ⟨stint, inside, rfl⟩ := List.mem_map.1 mem
    exact (spent.counted stint inside).fresh
  · intro spoken mem
    obtain ⟨stint, inside, mem⟩ := List.mem_flatMap.1 mem
    have counted := spent.counted stint inside
    exact ⟨_, List.mem_map_of_mem inside, (counted.epoch_eq mem).symm, counted.eq_utterance mem⟩
  · intro d handed
    obtain ⟨chain, number⟩ := spent.chain_eq
    have own := filter_stints spent.counted distinct here
    rw [← spent.current.epoch] at own
    rw [handed.eq_distribution]
    refine ⟨rfl, fun short plaintext => ⟨_, _, if_pos short, rfl⟩, ?_, ?_, last.origin, ?_,
      spent.current.epoch.symm, ?_⟩
    · intro spoken mem same
      have listed : spoken ∈ last.sent := by
        rw [← own]
        exact List.mem_filter.2 ⟨mem, decide_eq_true same⟩
      have inside := List.mem_map_of_mem (f := (·.message.counter.toNat)) listed
      rw [(spent.counted last here).counters, List.mem_range, ← number] at inside
      exact UInt64.lt_iff_toNat_lt.2 inside
    · rw [own]
      exact number
    · rw [List.map_append, List.map_singleton, List.getLast?_concat]
    · change g.ownChain.chain.key =
        (last.origin.ownChain.chain.after S g.ownChain.chain.counter.toNat).key
      rw [number, ← chain]

/-- A founder sends two messages, moves on and sends a third one. -/
theorem founder_counts_in_two_epochs :
    ∃ (g : Group) (origins : List Group) (sent : List Spoken),
      Sends keyed KeyStream g origins sent ∧ origins.map (·.epoch) = [0, 1] ∧
        (sent.map fun spoken => (spoken.message.epoch, spoken.message.counter)) =
          [(0, 0), (0, 1), (1, 0)] ∧
        (sent.map fun spoken => (spoken.message.epoch, spoken.message.counter)).Nodup ∧
        ∀ d, HandsOut keyed KeyStream g d → d.epoch = 1 ∧ d.counter.toNat = 1 := by
  let source : KeyStream := ⟨.replicate 32 0, 0⟩
  let self : IdentityKey := ⟨⟨.replicate 32 0⟩, ⟨.replicate 32 0⟩⟩
  let founded := (found keyed ⟨.replicate 16 0⟩ self [] source).1.1
  let once := (founded.sealNext keyed [1]).1
  let twice := (once.sealNext keyed [2]).1
  have start : Sends keyed KeyStream founded _ _ := .found ..
  have first := start.encrypt [1] source (by decide +kernel)
  have second := first.encrypt [2] source (by decide +kernel)
  have next := second.step source (.update [] 0)
  have third := next.encrypt [3] source (by decide +kernel)
  obtain ⟨nodup, -, -, -, handed⟩ := third.numbers_once
  refine ⟨_, _, _, third, by decide +kernel, by decide +kernel, nodup, fun d hands => ?_⟩
  obtain ⟨epoch, -, -, counter, -⟩ := handed d hands
  exact ⟨epoch.trans (by decide +kernel), counter.trans (by decide +kernel)⟩

end Confide.Group
