import Confide.Entropy.KeyStream
import Confide.Proofs.Group.Delivery
import Confide.Proofs.Group.Epochs

/-! No message of a group is opened twice. Its place is an epoch, a sender and a counter: once a
message was opened, the chain of that epoch and sender lies behind the counter and keeps no key for
it. That stays so when the epoch is left or forgotten, and when the chain is handed out again. -/

set_option autoImplicit false

namespace Confide

namespace MemberChain

theorem get?_dropLowest {n : Nat} {skipped : SortedMap UInt64 SealingKey} {counter : UInt64}
    {key : SealingKey} (found : (keep.dropLowest n skipped).get? counter = some key) :
    skipped.get? counter = some key := by
  induction n generalizing skipped with
  | zero => exact found
  | succ n ih =>
    have rest := SortedMap.get?_eq_some_iff.1 (ih found)
    exact SortedMap.get?_eq_some_iff.2 (List.mem_of_mem_tail rest)

/-- Whatever is dropped for lack of room: there are no keys but the old and the new ones. -/
theorem mem_of_get?_keepAll {skipped : SortedMap UInt64 SealingKey}
    {keys : List (UInt64 × SealingKey)} {capacity : Nat} {counter : UInt64} {key : SealingKey}
    (found : (keepAll skipped keys capacity).get? counter = some key) :
    (counter, key) ∈ keys ∨ skipped.get? counter = some key := by
  induction keys generalizing skipped with
  | nil => exact .inr found
  | cons entry rest ih =>
    rcases ih found with later | old
    · exact .inl (List.mem_cons_of_mem _ later)
    · have old := get?_dropLowest old
      by_cases same : counter = entry.1
      · subst same
        cases SortedMap.get?_insert_self.symm.trans old
        exact .inl List.mem_cons_self
      · exact .inr ((SortedMap.get?_insert_of_ne same).symm.trans old)

/-- The keys which a chain keeps belong to messages behind it. -/
def Tidy (c : MemberChain) : Prop :=
  ∀ counter key, c.skipped.get? counter = some key → counter < c.chain.counter

/-- The chain has given the key with this number, and does not have it any more. -/
structure Spent (c : MemberChain) (counter : UInt64) : Prop where
  behind : counter < c.chain.counter
  gone : c.skipped.get? counter = none

variable {S : Suite} {c taken : MemberChain} {counter other : UInt64} {config : GroupConfig}
  {key : SealingKey}

theorem Takes.not_spent (takes : c.Takes (S := S) counter config key taken) :
    ¬c.Spent counter := by
  intro spent
  cases takes with
  | kept behind found => simp [spent.gone] at found
  | ahead reached near short => exact UInt64.not_lt.2 reached spent.behind

theorem toNat_counter_advanced (reached : c.chain.counter ≤ counter)
    (short : HasNext counter) :
    (c.advanced S counter config).chain.counter.toNat = counter.toNat + 1 := by
  rw [UInt64.le_iff_toNat_le] at reached
  have number := Chain.toNat_counter_after S
    (by unfold gap; omega : c.chain.counter.toNat + (c.gap counter + 1) < 2 ^ 64)
  rw [advanced, number, gap]
  omega

theorem get?_skipped_advanced (tidy : c.Tidy) (reached : c.chain.counter ≤ counter)
    (found : (c.advanced S counter config).skipped.get? other = some key) :
    other < counter ∧ (c.chain.counter ≤ other ∨ c.skipped.get? other = some key) := by
  rcases mem_of_get?_keepAll found with new | old
  · have bound : c.chain.counter.toNat + c.gap counter < 2 ^ 64 := by
      have := c.chain.counter.toNat_lt
      have := counter.toNat_lt
      unfold gap
      omega
    obtain ⟨low, high⟩ := Chain.toNat_mem_keys bound new
    rw [UInt64.le_iff_toNat_le] at reached
    refine ⟨UInt64.lt_iff_toNat_lt.2 ?_, .inl (UInt64.le_iff_toNat_le.2 low)⟩
    unfold gap at high
    omega
  · exact ⟨UInt64.lt_of_lt_of_le (tidy other key old) reached, .inr old⟩

section
variable (tidy : c.Tidy) (takes : c.Takes (S := S) counter config key taken)
include tidy takes

theorem Takes.tidy_taken : taken.Tidy := by
  intro other stored found
  cases takes with
  | kept behind here =>
    by_cases same : other = counter
    · exact same ▸ behind
    · exact tidy other stored ((SortedMap.get?_erase_of_ne same).symm.trans found)
  | ahead reached near short =>
    have behind := UInt64.lt_iff_toNat_lt.1 (get?_skipped_advanced tidy reached found).1
    rw [UInt64.lt_iff_toNat_lt, toNat_counter_advanced reached short]
    omega

theorem Takes.spent : taken.Spent counter := by
  cases takes with
  | kept behind here => exact ⟨behind, SortedMap.get?_erase_self⟩
  | ahead reached near short =>
    refine ⟨?_, Option.eq_none_iff_forall_ne_some.2 fun stored found => ?_⟩
    · rw [UInt64.lt_iff_toNat_lt, toNat_counter_advanced reached short]
      omega
    · exact UInt64.lt_irrefl _ (get?_skipped_advanced tidy reached found).1

theorem Takes.spent_of_spent (spent : c.Spent other) : taken.Spent other := by
  cases takes with
  | kept behind here =>
    refine ⟨spent.behind, ?_⟩
    rw [SortedMap.get?_erase, spent.gone, ite_self]
  | ahead reached near short =>
    have behind := UInt64.lt_of_lt_of_le spent.behind reached
    refine ⟨?_, Option.eq_none_iff_forall_ne_some.2 fun stored found => ?_⟩
    · rw [UInt64.lt_iff_toNat_lt] at behind ⊢
      rw [toNat_counter_advanced reached short]
      omega
    · rcases (get?_skipped_advanced tidy reached found).2 with ahead | old
      · exact UInt64.not_lt.2 ahead spent.behind
      · simp [spent.gone] at old

end

end MemberChain

/-- Where a message stands among all messages of its group. -/
structure GroupMessage.Place where
  epoch : UInt64
  sender : IdentityKey
  counter : UInt64
  deriving DecidableEq

def GroupMessage.place (message : GroupMessage) : Place :=
  ⟨message.epoch, message.sender, message.counter⟩

namespace Group

open GroupMessage (Place)

section
variable (S : Suite)

def opened (g : Group) : Event → List Place
  | .decrypt message config =>
    match g.decrypt S message config with
    | .error _ => []
    | .ok _ => [message.place]
  | _ => []

/-- No chain which we have in this epoch is replaced by another one. -/
def Event.Keeps (g : Group) : Event → Prop
  | .process sender d _ => g.Follows sender d →
      ∀ c, g.chains.get? sender = some c → c.verifyingKey = d.verifyingKey
  | _ => True

/-- A group goes on from `origin`, and opens messages on the way. -/
inductive Reads (G : Type) [Entropy G] (origin : Group) : Group → List Place → Prop where
  | start : Reads G origin origin []
  | step {g : Group} {opened : List Place} {event : Event} (source : G)
      (reads : Reads G origin g opened) (keeps : event.Keeps g) :
      Reads G origin (g.step S source event).1 (opened ++ g.opened S event)

end

def Tidy (g : Group) : Prop :=
  ∀ epoch sender c, g.findChain epoch sender = .ok c → c.Tidy

/-- What was opened is gone from its chain. A chain of the current epoch is still there, so that no
new one takes its place. -/
structure Accounts (opened : List Place) (g : Group) : Prop where
  distinct : opened.Nodup
  reached : ∀ place ∈ opened, place.epoch ≤ g.epoch
  held : ∀ place ∈ opened, place.epoch = g.epoch → ∃ c, g.chains.get? place.sender = some c
  spent : ∀ place ∈ opened, ∀ c, g.findChain place.epoch place.sender = .ok c →
    c.Spent place.counter

section
variable {G : Type} [Entropy G] {S : Suite} {g next origin : Group} {message : GroupMessage}
  {config : GroupConfig} {c taken : MemberChain} {plaintext : Bytes} {sender : IdentityKey}
  {d : Distribution} {opened : List Place} {epoch now : UInt64} {members : List IdentityKey}
  {source : G}

theorem opened_of_opens (opens : g.Opens S message config c taken plaintext) :
    g.opened S (.decrypt message config) = [message.place] := by
  simp only [Group.opened, (decrypt_eq_ok_iff S).2 ⟨c, taken, opens, rfl⟩]

/-! ### The keys of the chains -/

theorem Tidy.of_found (tidy : g.Tidy)
    (found : ∀ epoch peer c, next.findChain epoch peer = .ok c →
      g.findChain epoch peer = .ok c) : next.Tidy :=
  fun epoch peer c here => tidy epoch peer c (found epoch peer c here)

theorem Tidy.enter (tidy : g.Tidy) (ordered : g.Ordered) (newer : g.epoch < epoch) :
    (g.enter epoch members now source).1.Tidy :=
  tidy.of_found fun _ _ _ => (ordered.findChain_enter_iff newer).1

theorem Tidy.learned (tidy : g.Tidy) : (g.learned sender d).Tidy := by
  intro epoch peer c found
  rcases findChain_learned found with old | ⟨-, -, -, rfl⟩
  · exact tidy epoch peer c old
  · exact nofun

theorem Tidy.opens (tidy : g.Tidy) (opens : g.Opens S message config c taken plaintext) :
    (g.setChain message.epoch message.sender taken).Tidy := by
  intro epoch peer other found
  obtain ⟨key, takes, -⟩ := opens.opened
  by_cases same : (epoch, peer) = (message.epoch, message.sender)
  · cases same
    cases (findChain_setChain_self opens.found).symm.trans found
    exact takes.tidy_taken (tidy _ _ c opens.found)
  · exact tidy epoch peer other ((findChain_setChain_of_ne same).symm.trans found)

theorem Tidy.step (tidy : g.Tidy) (ordered : g.Ordered) (source : G) (event : Event) :
    (g.step S source event).1.Tidy := by
  have steps := step_cases S g source event
  generalize (g.step S source event).1 = next at steps
  cases steps with
  | refused => exact tidy
  | encrypted plaintext short => exact tidy.of_found fun _ _ _ found => found
  | decrypted opens => exact tidy.opens opens
  | followed follows => exact tidy.learned
  | moved moves => exact (tidy.enter ordered moves.newer).learned
  | updated members now short => exact tidy.enter ordered (HasNext.lt_add_one short)
  | purged now config => exact tidy.of_found fun _ _ _ => ordered.findChain_of_purge

theorem tidy_start (id : GroupId) (self : IdentityKey) (listed : List IdentityKey) :
    (start id self epoch listed source).1.Tidy := by
  intro other peer c found
  have ordered := ordered_start id self epoch listed source
  obtain ⟨chains, mem, here⟩ := ordered.findChain_eq_ok_iff.1 found
  cases List.mem_singleton.1 mem
  cases here

theorem Reachable.tidy (reachable : Reachable S G g) : g.Tidy := by
  induction reachable with
  | found id self listed source => exact tidy_start id self listed
  | join joined =>
    obtain ⟨-, -, rfl, -⟩ := (join_eq_ok_iff S).1 joined
    exact (tidy_start _ _ _).learned
  | step source event reachable tidy => exact tidy.step (reachable.ordered S) source event

/-! ### The messages which were opened -/

theorem Accounts.of_found (accounts : Accounts opened g) (epoch : next.epoch = g.epoch)
    (chains : next.chains = g.chains)
    (found : ∀ epoch peer c, next.findChain epoch peer = .ok c →
      g.findChain epoch peer = .ok c) : Accounts opened next where
  distinct := accounts.distinct
  reached := by rw [epoch]; exact accounts.reached
  held := by rw [epoch, chains]; exact accounts.held
  spent place mem c here := accounts.spent place mem c (found _ _ c here)

theorem Accounts.enter (accounts : Accounts opened g) (ordered : g.Ordered)
    (newer : g.epoch < epoch) : Accounts opened (g.enter epoch members now source).1 where
  distinct := accounts.distinct
  reached place mem :=
    UInt64.le_of_lt (UInt64.lt_of_le_of_lt (accounts.reached place mem) newer)
  held place mem here := by
    have reached := accounts.reached place mem
    rw [here] at reached
    exact absurd newer (UInt64.not_lt.2 reached)
  spent place mem c here :=
    accounts.spent place mem c ((ordered.findChain_enter_iff newer).1 here)

/-- A chain is taken where there was none, so that nothing of it was opened. -/
theorem Accounts.learned (accounts : Accounts opened g)
    (keeps : ∀ c, g.chains.get? sender = some c → c.verifyingKey = d.verifyingKey) :
    Accounts opened (g.learned sender d) where
  distinct := accounts.distinct
  reached := by rw [epoch_learned]; exact accounts.reached
  held place mem here := by
    rw [epoch_learned] at here
    obtain ⟨c, found⟩ := accounts.held place mem here
    by_cases known : g.Knows sender d
    · rw [learned_of_knows known]
      exact ⟨c, found⟩
    · have apart : place.sender ≠ sender := by
        rintro same
        rw [same] at found
        exact known ⟨c, found, keeps c found⟩
      exact ⟨c, (get?_learned_of_ne apart).trans found⟩
  spent place mem c here := by
    rcases findChain_learned here with old | ⟨current, same, unknown, -⟩
    · exact accounts.spent place mem c old
    · obtain ⟨old, found⟩ := accounts.held place mem current
      rw [same] at found
      exact absurd ⟨old, found, keeps old found⟩ unknown

theorem Accounts.not_opens (accounts : Accounts opened g) (mem : message.place ∈ opened) :
    ¬g.Opens S message config c taken plaintext := by
  intro opens
  obtain ⟨key, takes, -⟩ := opens.opened
  exact takes.not_spent (accounts.spent _ mem c opens.found)

theorem Accounts.opens (accounts : Accounts opened g) (ordered : g.Ordered) (tidy : g.Tidy)
    (opens : g.Opens S message config c taken plaintext) :
    Accounts (opened ++ [message.place]) (g.setChain message.epoch message.sender taken) := by
  obtain ⟨key, takes, -⟩ := opens.opened
  have kept := tidy _ _ c opens.found
  have epoch : (g.setChain message.epoch message.sender taken).epoch = g.epoch := by
    rw [setChain_eq]
  have inside : message.epoch ≤ g.epoch := by
    obtain ⟨chains, mem, -⟩ := ordered.findChain_eq_ok_iff.1 opens.found
    exact ordered.le_epoch (mem_epochs_of_mem_shelves mem)
  refine ⟨?_, fun place mem => ?_, fun place mem current => ?_, fun place mem other found => ?_⟩
  · refine List.nodup_append.2 ⟨accounts.distinct, List.nodup_singleton _, ?_⟩
    rintro place mem _ last rfl
    rw [List.mem_singleton.1 last] at mem
    exact accounts.not_opens mem opens
  · rw [epoch]
    rcases List.mem_append.1 mem with old | last
    · exact accounts.reached place old
    · rw [List.mem_singleton.1 last]
      exact inside
  · rw [epoch] at current
    rcases List.mem_append.1 mem with old | last
    · obtain ⟨held, found⟩ := accounts.held place old current
      obtain ⟨next, found, -⟩ := opens.exists_chain found
      exact ⟨next, found⟩
    · rw [List.mem_singleton.1 last] at current ⊢
      exact ⟨taken, get?_setChain_self current⟩
  · by_cases same : (place.epoch, place.sender) = (message.epoch, message.sender)
    · rw [Prod.mk.injEq] at same
      rw [same.1, same.2, findChain_setChain_self opens.found] at found
      cases found
      rcases List.mem_append.1 mem with old | last
      · refine takes.spent_of_spent kept (accounts.spent place old c ?_)
        rw [same.1, same.2]
        exact opens.found
      · rw [List.mem_singleton.1 last]
        exact takes.spent kept
    · rw [findChain_setChain_of_ne same] at found
      rcases List.mem_append.1 mem with old | last
      · exact accounts.spent place old other found
      · rw [List.mem_singleton.1 last] at same
        exact absurd rfl same

theorem Accounts.step_of_silent (accounts : Accounts opened g) (ordered : g.Ordered)
    {event : Event} (silent : g.opened S event = []) (keeps : event.Keeps g) (source : G) :
    Accounts opened (g.step S source event).1 := by
  have steps := step_cases S g source event
  generalize (g.step S source event).1 = next at steps
  cases steps with
  | refused => exact accounts
  | encrypted plaintext short => exact accounts.of_found rfl rfl fun _ _ _ found => found
  | decrypted opens =>
    rw [opened_of_opens opens] at silent
    cases silent
  | followed follows => exact accounts.learned (keeps follows)
  | moved moves => exact (accounts.enter ordered moves.newer).learned nofun
  | updated members now short => exact accounts.enter ordered (HasNext.lt_add_one short)
  | purged now config =>
    exact accounts.of_found rfl rfl fun _ _ _ => ordered.findChain_of_purge

theorem exists_opens_of_opened {event : Event} (some : g.opened S event ≠ []) :
    ∃ message config c taken plaintext, event = .decrypt message config ∧
      g.Opens S message config c taken plaintext := by
  cases event with
  | decrypt message config =>
    cases outcome : g.decrypt S message config with
    | error error => simp [Group.opened, outcome] at some
    | ok accepted =>
      obtain ⟨next, plaintext⟩ := accepted
      obtain ⟨c, taken, opens, -⟩ := (decrypt_eq_ok_iff S).1 outcome
      exact ⟨message, config, c, taken, plaintext, rfl, opens⟩
  | _ => exact absurd rfl some

theorem Accounts.step (accounts : Accounts opened g) (ordered : g.Ordered) (tidy : g.Tidy)
    {event : Event} (keeps : event.Keeps g) (source : G) :
    Accounts (opened ++ g.opened S event) (g.step S source event).1 := by
  by_cases silent : g.opened S event = []
  · rw [silent, List.append_nil]
    exact accounts.step_of_silent ordered silent keeps source
  · obtain ⟨message, config, c, taken, plaintext, rfl, opens⟩ := exists_opens_of_opened silent
    rw [opened_of_opens opens, step_decrypt_of_ok ((decrypt_eq_ok_iff S).2 ⟨c, taken, opens, rfl⟩)]
    exact accounts.opens ordered tidy opens

theorem Reads.accounts (ordered : origin.Ordered) (tidy : origin.Tidy)
    (reads : Reads S G origin g opened) : g.Ordered ∧ g.Tidy ∧ Accounts opened g := by
  induction reads with
  | start => exact ⟨ordered, tidy, .nil, nofun, nofun, nofun⟩
  | step source _ keeps ih =>
    obtain ⟨ordered, tidy, accounts⟩ := ih
    exact ⟨ordered.step S source _, tidy.step ordered source _,
      accounts.step ordered tidy keeps source⟩

theorem Reads.open (reads : Reads S G origin g opened)
    (decrypted : g.decrypt S message config = .ok (next, plaintext)) (source : G) :
    Reads S G origin next (opened ++ [message.place]) := by
  obtain ⟨c, taken, opens, -⟩ := (decrypt_eq_ok_iff S).1 decrypted
  rw [← step_decrypt_of_ok decrypted source, ← opened_of_opens opens]
  exact reads.step source trivial

/-- Nothing is opened twice, and nothing that was opened before will be. -/
theorem Reads.opened_nodup (reachable : Reachable S G origin)
    (reads : Reads S G origin g opened) :
    opened.Nodup ∧ ∀ (message : GroupMessage) (config : GroupConfig), message.place ∈ opened →
      ∃ error, g.decrypt S message config = .error error := by
  obtain ⟨-, -, accounts⟩ := reads.accounts (reachable.ordered S) reachable.tidy
  refine ⟨accounts.distinct, fun message config mem => ?_⟩
  cases outcome : g.decrypt S message config with
  | error error => exact ⟨error, rfl⟩
  | ok accepted =>
    obtain ⟨c, taken, opens, -⟩ := (decrypt_eq_ok_iff S).1 outcome
    exact absurd opens (accounts.not_opens mem)

end

/-- A member opens the second message of a founder, updates the group, and then opens the first one
from the epoch which it left. -/
theorem first_message_opens_after_update :
    ∃ (joiner last : Group) (first second : GroupMessage),
      Reachable keyed KeyStream joiner ∧
      Reads keyed KeyStream joiner last [second.place, first.place] ∧
      first.counter < second.counter ∧ first.epoch < last.epoch ∧
      [second.place, first.place].Nodup ∧
      ∀ config : GroupConfig, ∃ error, last.decrypt keyed first config = .error error := by
  let self : IdentityKey := ⟨⟨.replicate 32 0⟩, ⟨.replicate 32 0⟩⟩
  let peer : IdentityKey := ⟨⟨.replicate 32 1⟩, ⟨.replicate 32 1⟩⟩
  let source : KeyStream := ⟨.replicate 32 0, 0⟩
  let origin := (found keyed ⟨.replicate 16 0⟩ self [peer] source).1.1
  let first : Spoken := ⟨(origin.sealNext keyed [1]).2, [1]⟩
  let second : Spoken := ⟨((origin.sealNext keyed [1]).1.sealNext keyed [2]).2, [2]⟩
  let d := origin.distribution keyed
  let joiner := (start d.groupId peer d.epoch d.members source).1.learned self d
  have silent : Speaks keyed KeyStream origin origin [] := .start
  have sending := ((silent.encrypt source [1] (by decide +kernel)).encrypt source [2]
    (by decide +kernel)).sending
  have joined : (join keyed peer self d 0 source).1 = .ok (joiner, _) :=
    (join_eq_ok_iff keyed).2 ⟨by decide +kernel, ⟨by decide +kernel, rfl, rfl, rfl⟩, rfl, rfl⟩
  have installs : Installs keyed KeyStream d joiner := .join joined
  have reachable : Reachable keyed KeyStream joiner := .join joined
  have fits : joiner.Fits second.message {} :=
    installs.fits rfl rfl (by decide +kernel) (by decide +kernel)
  have signs : ∀ spoken ∈ [first, second], keyed.Signs origin.ownChain.signingKey
      (spoken.message.position.signedBytes spoken.message.ciphertext) := fun _ _ => keyed_signs _ _
  obtain ⟨middle, decrypted, hearing⟩ := installs.hearing.opens keyed_decrypt?_encrypt signs sending
    (List.nil_subset _) (List.mem_cons_of_mem _ (List.mem_singleton_self _)) List.not_mem_nil fits
  have apart : first ∉ [second] := by
    intro mem
    have same := congrArg (·.message.counter) (List.mem_singleton.1 mem)
    exact absurd same (by decide +kernel)
  -- The key of the first message was passed over: nothing more is passed over now.
  have fits' : middle.Fits first.message {} := by
    intro c _
    have gap : c.gap first.message.counter = 0 := Nat.zero_sub _
    exact ⟨gap ▸ Nat.zero_le _, .inl gap⟩
  obtain ⟨_, decrypted', -⟩ := hearing.opens keyed_decrypt?_encrypt signs sending
    (List.cons_subset.2 ⟨List.mem_cons_of_mem _ (List.mem_singleton_self _), List.nil_subset _⟩)
    List.mem_cons_self apart fits'
  have epoch : middle.epoch = 0 := hearing.epoch.symm
  have short : HasNext middle.epoch := by
    rw [epoch]
    decide
  have opened : Reads keyed KeyStream joiner middle [second.message.place] :=
    Reads.start.open decrypted source
  have left : Reads keyed KeyStream joiner (middle.step keyed source (.update [] 0)).1 _ :=
    opened.step source trivial
  rw [step_update_of_short keyed short] at left
  obtain ⟨ordered, -, -⟩ := opened.accounts (reachable.ordered keyed) reachable.tidy
  obtain ⟨c, taken, opens, -⟩ := (decrypt_eq_ok_iff keyed).1 decrypted'
  have late := (decrypt_eq_ok_iff keyed).2
    ⟨c, taken, opens.enter ordered (HasNext.lt_add_one short) ([] ++ [middle.self]) 0 source, rfl⟩
  have reads := left.open late source
  obtain ⟨distinct, refused⟩ := Reads.opened_nodup reachable reads
  refine ⟨joiner, _, first.message, second.message, reachable, reads, by decide +kernel, ?_,
    distinct, fun config => refused first.message config ?_⟩
  · rw [setChain_eq]
    change 0 < middle.epoch + 1
    rw [epoch]
    decide
  · exact List.mem_append_right _ (List.mem_singleton_self _)

end Group

end Confide
