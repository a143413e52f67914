import Confide.Prekey.Lifetime
import Confide.Proofs.Group.Integrity
import Confide.Proofs.Group.Opening

/-! Messages which are under way when their epoch is left. They can be opened until the epoch is
forgotten at the end of its grace, unless their key is dropped or the chain is replaced before; and
they are refused ever after. -/

set_option autoImplicit false

namespace Confide

namespace SortedMap

variable {κ α : Type} [Ord κ]

theorem get?_highest [Std.LawfulEqOrd κ] {m : SortedMap κ α} {key : κ} {n : Nat}
    (high : key ∉ (m.entries.take (m.size - n)).map (·.1)) :
    (m.highest n).get? key = m.get? key := by
  ext value
  rw [get?_eq_some_iff, get?_eq_some_iff]
  constructor
  · exact (List.drop_sublist _ _).mem
  · intro mem
    rw [← List.take_append_drop (m.size - n) m.entries] at mem
    exact (List.mem_append.1 mem).resolve_left fun low => high (List.mem_map_of_mem low)

variable [Std.TransOrd κ]

theorem size_insertAll_le (m : SortedMap κ α) (entries : List (κ × α)) :
    (m.insertAll entries).size ≤ m.size + entries.length := by
  induction entries generalizing m with
  | nil => exact Nat.le_refl _
  | cons entry rest ih =>
    have first := m.size_insert_le entry.1 entry.2
    have later := ih (m.insert entry.1 entry.2)
    rw [insertAll_cons, List.length_cons]
    omega

variable [Std.LawfulEqOrd κ] {key : κ} {value : α} {entries : List (κ × α)}

theorem get?_insertAll_of_not_mem (m : SortedMap κ α) (new : key ∉ entries.map (·.1)) :
    (m.insertAll entries).get? key = m.get? key := by
  induction entries generalizing m with
  | nil => rfl
  | cons entry rest ih =>
    rw [List.map_cons, List.mem_cons, not_or] at new
    rw [insertAll_cons, ih _ new.2, get?_insert_of_ne new.1]

theorem get?_insertAll_of_mem (m : SortedMap κ α) (distinct : (entries.map (·.1)).Nodup)
    (mem : (key, value) ∈ entries) : (m.insertAll entries).get? key = some value := by
  induction entries generalizing m with
  | nil => cases mem
  | cons entry rest ih =>
    rw [List.map_cons, List.nodup_cons] at distinct
    rw [insertAll_cons]
    rcases List.mem_cons.1 mem with rfl | later
    · rw [get?_insertAll_of_not_mem _ distinct.1, get?_insert_self]
    · exact ih _ distinct.2 later

end SortedMap

namespace MemberChain

variable (S : Suite)

/-- The numbers of the keys which are dropped for lack of room when a message takes its key. -/
def evicted (c : MemberChain) (counter : UInt64) (config : GroupConfig) : List UInt64 :=
  if c.gap counter = 0 then []
  else ((c.offered S counter).entries.take
    ((c.offered S counter).size - config.maxSkippedKeys.toNat)).map (·.1)

variable {S} {c taken : MemberChain} {counter number : UInt64} {config : GroupConfig}
  {key : SealingKey}

theorem Fits.evicted_eq_nil (fits : c.Fits counter config) : c.evicted S counter config = [] := by
  rw [evicted]
  split
  · rfl
  · rename_i some
    have size := c.skipped.size_insertAll_le (c.chain.keys S (c.gap counter))
    rw [Chain.length_keys] at size
    have none : (c.offered S counter).size - config.maxSkippedKeys.toNat = 0 :=
      Nat.sub_eq_zero_of_le (size.trans (fits.room.resolve_left some))
    rw [none, List.take_zero, List.map_nil]

theorem get?_skipped_advanced_of_not_evicted (kept : number ∉ c.evicted S counter config) :
    (c.advanced S counter config).skipped.get? number = (c.offered S counter).get? number := by
  rw [skipped_advanced]
  unfold evicted at kept
  split at kept
  · rename_i none
    rw [if_pos none, offered, none]
    rfl
  · rename_i some
    rw [if_neg some, SortedMap.get?_highest kept]

theorem get?_offered (reached : c.chain.counter ≤ counter) (below : number < counter) :
    (c.offered S counter).get? number = c.keyAt? S number := by
  rw [UInt64.lt_iff_toNat_lt] at below
  rw [UInt64.le_iff_toNat_le] at reached
  have top := counter.toNat_lt
  have bound : c.chain.counter.toNat + c.gap counter < 2 ^ 64 := by
    unfold gap
    omega
  unfold offered keyAt?
  split
  · rename_i early
    rw [UInt64.lt_iff_toNat_lt] at early
    refine SortedMap.get?_insertAll_of_not_mem _ fun mem => ?_
    obtain ⟨⟨_, key⟩, inside, rfl⟩ := List.mem_map.1 mem
    exact Nat.not_lt.2 (Chain.toNat_mem_keys bound inside).1 early
  · rename_i late
    rw [UInt64.lt_iff_toNat_lt] at late
    refine SortedMap.get?_insertAll_of_mem _ (Chain.nodup_counters_keys bound)
      (Chain.mem_keys_iff.2 ⟨c.gap number, by unfold gap; omega, ?_, rfl⟩)
    rw [← UInt64.toNat_inj, Chain.toNat_counter_after S (by unfold gap; omega)]
    unfold gap
    omega

theorem gap_past_le (short : HasNext counter) :
    (c.past S counter config).gap number ≤ c.gap number := by
  have stands := toNat_counter_past (S := S) (c := c) config short
  unfold gap
  omega

section
variable (short : HasNext counter)
include short

theorem keyAt?_past_of_lt (reached : c.chain.counter ≤ counter) (below : number < counter)
    (kept : number ∉ c.evicted S counter config) :
    (c.past S counter config).keyAt? S number = c.keyAt? S number := by
  have stands := toNat_counter_past (S := S) (c := c) config short
  have behind : number < (c.past S counter config).chain.counter := by
    rw [UInt64.lt_iff_toNat_lt] at below ⊢
    omega
  rw [keyAt?, if_pos behind, past_of_reached reached, get?_skipped_advanced_of_not_evicted kept,
    get?_offered reached below]

theorem keyAt?_past_of_gt (reached : c.chain.counter ≤ counter) (above : counter < number) :
    (c.past S counter config).keyAt? S number = c.keyAt? S number := by
  have stands := toNat_counter_past (S := S) (c := c) config short
  rw [UInt64.lt_iff_toNat_lt] at above
  rw [UInt64.le_iff_toNat_le] at reached
  have steps : counter.toNat + 1 - c.chain.counter.toNat + (c.past S counter config).gap number =
      c.gap number := by
    unfold gap
    omega
  rw [keyAt?, if_neg (by rw [UInt64.lt_iff_toNat_lt]; omega), keyAt?,
    if_neg (by rw [UInt64.lt_iff_toNat_lt]; omega), ← steps, Chain.after_add]
  rfl

theorem keyAt?_past (other : number ≠ counter) (kept : number ∉ c.evicted S counter config) :
    (c.past S counter config).keyAt? S number = c.keyAt? S number := by
  rcases UInt64.lt_or_le counter c.chain.counter with behind | reached
  · rw [past_of_behind behind]
    simp only [keyAt?, SortedMap.get?_erase_of_ne other, gap]
  · rcases UInt64.lt_or_lt_of_ne other with below | above
    · exact keyAt?_past_of_lt short reached below kept
    · exact keyAt?_past_of_gt short reached above

end

end MemberChain

/-- The time from which an epoch which was left may be forgotten. -/
def RetiredEpoch.expiry (r : RetiredEpoch) (config : GroupConfig) : UInt64 :=
  saturatingAdd r.retiredAt config.retiredGrace.seconds

namespace Group

open GroupMessage (Place)

/-- The event puts a new chain in the place of an epoch and a sender. -/
def Event.Installs (g : Group) : Event → UInt64 × IdentityKey → Prop
  | .process sender d _, place =>
    place = (d.epoch, sender) ∧ (g.Moves sender d ∨ g.Follows sender d ∧ ¬g.Knows sender d)
  | _, _ => False

section
variable {G : Type} [Entropy G] (S : Suite)

/-- The places of the messages whose keys an event drops for lack of room. -/
def evicted (g : Group) : Event → List Place
  | .decrypt message config =>
    match g.decrypt S message config, g.findChain message.epoch message.sender with
    | .ok _, .ok c =>
      (c.evicted S message.counter config).map fun counter =>
        ⟨message.epoch, message.sender, counter⟩
    | _, _ => []
  | _ => []

/-- The event opens no message of the place, does not drop its key or replace its chain, and does
not forget its epoch before the grace has passed. -/
structure Event.Leaves (g : Group) (place : Place) (event : Event) : Prop where
  unopened : place ∉ g.opened S event
  unevicted : place ∉ g.evicted S event
  unreplaced : ¬event.Installs g (place.epoch, place.sender)
  early : ∀ now config, event = .purge now config → ∀ r ∈ g.retired, r.epoch = place.epoch →
    now < r.expiry config

/-- The groups which a group can become while a message is under way. -/
def Carries (G : Type) [Entropy G] (place : Place) : Group → Group → Prop :=
  Relation.ReflTransGen fun g next => ∃ (source : G) (event : Event),
    event.Leaves S g place ∧ next = (g.step S source event).1

end

section
variable {G : Type} [Entropy G] {S : Suite} {g next origin later : Group} {message : GroupMessage}
  {config : GroupConfig} {c taken : MemberChain} {plaintext : Bytes} {epoch now : UInt64}
  {sender : IdentityKey}

theorem evicted_of_opens (opens : g.Opens S message config c taken plaintext) :
    g.evicted S (.decrypt message config) =
      (c.evicted S message.counter config).map fun counter =>
        ⟨message.epoch, message.sender, counter⟩ := by
  simp only [evicted, (decrypt_eq_ok_iff S).2 ⟨c, taken, opens, rfl⟩, opens.found]

theorem leaves_update {members : List IdentityKey} {place : Place} :
    (Event.update members now).Leaves S g place where
  unopened := List.not_mem_nil
  unevicted := List.not_mem_nil
  unreplaced installs := installs.elim
  early _ _ same := by cases same

/-- Exactly the epochs whose grace has not passed are kept. -/
theorem mem_retired_purge_iff {r : RetiredEpoch} :
    r ∈ (g.purge now config).retired ↔ r ∈ g.retired ∧ now < r.expiry config := by
  refine List.mem_filter.trans (and_congr_right fun _ => ?_)
  exact decide_eq_true_iff

/-! ### Until the grace has passed -/

/-- The message can be opened in the epoch in which it is found. -/
structure Awaits (S : Suite) (g : Group) (message : GroupMessage) (config : GroupConfig)
    (plaintext : Bytes) : Prop where
  ordered : g.Ordered
  reached : message.epoch ≤ g.epoch
  ready : ∃ c, g.Authentic S message config c plaintext

theorem Authentic.of_found (authentic : g.Authentic S message config c plaintext)
    (id : next.id = g.id) (found : next.findChain message.epoch message.sender = .ok c) :
    next.Authentic S message config c plaintext :=
  { authentic with
    group := authentic.group.trans id.symm
    found := found }

theorem Ordered.findChain_purge (ordered : g.Ordered)
    (early : ∀ r ∈ g.retired, r.epoch = epoch → now < r.expiry config)
    (found : g.findChain epoch sender = .ok c) :
    (g.purge now config).findChain epoch sender = .ok c := by
  obtain ⟨chains, mem, here⟩ := ordered.findChain_eq_ok_iff.1 found
  refine (ordered.purge config).findChain_eq_ok_iff.2 ⟨chains, mem_shelves_iff.2 ?_, here⟩
  refine (mem_shelves_iff.1 mem).imp_left ?_
  rintro ⟨r, inside, same, rfl⟩
  exact ⟨r, mem_retired_purge_iff.2 ⟨inside, early r inside same⟩, same, rfl⟩

theorem Authentic.learned {d : Distribution} (authentic : g.Authentic S message config c plaintext)
    (kept : (message.epoch, message.sender) = (g.epoch, sender) → g.Knows sender d) :
    (g.learned sender d).Authentic S message config c plaintext := by
  by_cases known : g.Knows sender d
  · rwa [learned_of_knows known]
  · refine authentic.of_found (id_learned ..) ?_
    rw [findChain_learned_of_ne (mt kept known)]
    exact authentic.found

theorem Awaits.enter (awaits : g.Awaits S message config plaintext) (newer : g.epoch < epoch)
    (members : List IdentityKey) (now : UInt64) (source : G) :
    (g.enter epoch members now source).1.Awaits S message config plaintext := by
  obtain ⟨ordered, reached, c, authentic⟩ := awaits
  exact ⟨ordered.enter newer, UInt64.le_of_lt (UInt64.lt_of_le_of_lt reached newer), c,
    authentic.of_found rfl ((ordered.findChain_enter_iff newer).2 authentic.found)⟩

theorem Authentic.past (authentic : g.Authentic S message config c plaintext) {counter : UInt64}
    {limits : GroupConfig} (short : HasNext counter) (apart : message.counter ≠ counter)
    (kept : message.counter ∉ c.evicted S counter limits) (id : next.id = g.id)
    (found : next.findChain message.epoch message.sender = .ok (c.past S counter limits)) :
    next.Authentic S message config (c.past S counter limits) plaintext := by
  obtain ⟨group, -, verified, near, short', key, number, opened⟩ := authentic
  refine ⟨group.trans id.symm, found, verified, (MemberChain.gap_past_le short).trans near, short',
    key, ?_, opened⟩
  rw [MemberChain.keyAt?_past short apart kept, number]

theorem Awaits.opens (awaits : g.Awaits S message config plaintext) {other : GroupMessage}
    {limits : GroupConfig} {text : Bytes} (opens : g.Opens S other limits c taken text)
    (apart : message.place ≠ other.place)
    (kept : message.place ∉ g.evicted S (.decrypt other limits)) :
    (g.setChain other.epoch other.sender taken).Awaits S message config plaintext := by
  obtain ⟨ordered, reached, held, authentic⟩ := awaits
  refine ⟨ordered.of_same epochs_setChain, by rw [setChain_eq]; exact reached, ?_⟩
  have id : (g.setChain other.epoch other.sender taken).id = g.id := by rw [setChain_eq]
  -- In the same chain the key stays what it was, and no other chain changes at all.
  by_cases same : (other.epoch, other.sender) = (message.epoch, message.sender)
  · obtain ⟨⟨-, found, -, -, short, -⟩, rfl⟩ := opens_iff.1 opens
    rw [evicted_of_opens opens] at kept
    rw [Prod.mk.injEq] at same
    have number : message.counter ≠ other.counter := by
      intro equal
      refine apart ?_
      rw [GroupMessage.place, GroupMessage.place, same.1, same.2, equal]
    have unevicted : message.counter ∉ c.evicted S other.counter limits := by
      intro mem
      refine kept (List.mem_map.2 ⟨_, mem, ?_⟩)
      rw [same.1, same.2]
      rfl
    have here := findChain_setChain_self (c := c.past S other.counter limits) found
    rw [same.1, same.2] at found here ⊢
    cases found.symm.trans authentic.found
    rw [same.1, same.2] at id
    exact ⟨_, authentic.past short number unevicted id here⟩
  · refine ⟨held, authentic.of_found id ?_⟩
    rw [findChain_setChain_of_ne (Ne.symm same)]
    exact authentic.found

theorem Awaits.step (awaits : g.Awaits S message config plaintext) {event : Event}
    (leaves : event.Leaves S g message.place) (source : G) :
    (g.step S source event).1.Awaits S message config plaintext := by
  have steps := step_cases S g source event
  generalize (g.step S source event).1 = next at steps
  obtain ⟨c, authentic⟩ := awaits.ready
  cases steps with
  | refused => exact awaits
  | encrypted text short =>
    exact ⟨awaits.ordered, awaits.reached, c, authentic.of_found rfl authentic.found⟩
  | @decrypted other limits held taken text opens =>
    have unopened := leaves.unopened
    rw [opened_of_opens opens, List.mem_singleton] at unopened
    exact awaits.opens opens unopened leaves.unevicted
  | @followed sender d now follows =>
    refine ⟨awaits.ordered.of_same epochs_learned, by rw [epoch_learned]; exact awaits.reached, c,
      authentic.learned fun here => ?_⟩
    by_contra unknown
    refine leaves.unreplaced ⟨?_, .inr ⟨follows, unknown⟩⟩
    rw [follows.current]
    exact here
  | @moved sender d now moves =>
    obtain ⟨ordered, reached, c, authentic⟩ := awaits.enter moves.newer _ _ source
    refine ⟨ordered.of_same epochs_learned, by rw [epoch_learned]; exact reached, c,
      authentic.learned fun here => ?_⟩
    -- The chain is one of an epoch after that of the message.
    have same : message.epoch = d.epoch := congrArg Prod.fst here
    exact absurd (same ▸ awaits.reached) (UInt64.not_le.2 moves.newer)
  | updated members now short => exact awaits.enter (HasNext.lt_add_one short) _ now source
  | purged now config =>
    exact ⟨awaits.ordered.purge config, awaits.reached, c, authentic.of_found rfl
      (awaits.ordered.findChain_purge (leaves.early now config rfl) authentic.found)⟩

theorem Carries.awaits (carries : Carries S G message.place origin g)
    (awaits : origin.Awaits S message config plaintext) :
    g.Awaits S message config plaintext := by
  induction carries with
  | refl => exact awaits
  | tail _ next ih =>
    obtain ⟨source, event, leaves, rfl⟩ := next
    exact ih.step leaves source

/-! ### After the grace has passed -/

structure Forgot (epoch : UInt64) (g : Group) : Prop where
  ordered : g.Ordered
  passed : epoch < g.epoch
  gone : epoch ∉ g.epochs

theorem Forgot.of_same (forgot : Forgot epoch g) (epochs : next.epochs = g.epochs)
    (same : next.epoch = g.epoch) : Forgot epoch next :=
  ⟨forgot.ordered.of_same epochs, by rw [same]; exact forgot.passed,
    by rw [epochs]; exact forgot.gone⟩

theorem Forgot.enter (forgot : Forgot epoch g) {newer : UInt64} (later : g.epoch < newer)
    {members : List IdentityKey} {source : G} :
    Forgot epoch (g.enter newer members now source).1 := by
  have passed : epoch < newer := UInt64.lt_trans forgot.passed later
  refine ⟨forgot.ordered.enter later, passed, fun mem => ?_⟩
  rw [epochs_enter] at mem
  rcases List.mem_append.1 mem with old | last
  · exact forgot.gone old
  · exact UInt64.ne_of_lt passed (List.mem_singleton.1 last)

/-- Epochs only grow, so that one which is forgotten does not come back. -/
theorem Forgot.step (forgot : Forgot epoch g) (source : G) (event : Event) :
    Forgot epoch (g.step S source event).1 := by
  have steps := step_cases S g source event
  generalize (g.step S source event).1 = next at steps
  cases steps with
  | refused => exact forgot
  | encrypted text short => exact forgot.of_same rfl rfl
  | decrypted opens => exact forgot.of_same epochs_setChain (by rw [setChain_eq])
  | followed follows => exact forgot.of_same epochs_learned (epoch_learned ..)
  | moved moves => exact (forgot.enter moves.newer).of_same epochs_learned (epoch_learned ..)
  | updated members now short => exact forgot.enter (HasNext.lt_add_one short)
  | purged now config =>
    exact ⟨forgot.ordered.purge config, forgot.passed,
      fun mem => forgot.gone (((List.filter_sublist.map _).append_right _).mem mem)⟩

theorem Forgot.decrypt (forgot : Forgot message.epoch g) (group : message.groupId = g.id)
    (config : GroupConfig) :
    g.decrypt S message config = .error (.unknownEpoch message.epoch) := by
  have nowhere : g.chainsOf? message.epoch = none := by
    rw [Option.eq_none_iff_forall_ne_some]
    intro chains found
    exact forgot.gone (mem_epochs_of_mem_shelves (mem_shelves_of_chainsOf? found))
  simp only [Group.decrypt, findChain, group, nowhere, ne_eq, not_true_eq_false, if_false]

theorem Ordered.forgot_purge (ordered : g.Ordered) {r : RetiredEpoch} (mem : r ∈ g.retired)
    (late : r.expiry config ≤ now) : Forgot r.epoch (g.purge now config) := by
  obtain ⟨ascending, -, past⟩ := List.pairwise_append.1 ordered
  have passed : r.epoch < g.epoch :=
    past _ (List.mem_map_of_mem mem) _ (List.mem_singleton_self _)
  refine ⟨ordered.purge config, passed, fun still => ?_⟩
  rcases List.mem_append.1 still with left | here
  · obtain ⟨other, kept, same⟩ := List.mem_map.1 left
    obtain ⟨inside, early⟩ := mem_retired_purge_iff.1 kept
    have distinct : (g.retired.map (·.epoch)).Nodup := ascending.imp UInt64.ne_of_lt
    rw [List.inj_on_of_nodup_map distinct inside mem same] at early
    exact UInt64.not_lt.2 late early
  · exact UInt64.ne_of_lt passed (List.mem_singleton.1 here)

/-- A message of our epoch which can be opened can be opened later on as well, wherever the group
goes, unless its key is dropped or its chain replaced. Once the grace of its epoch has passed and
the epoch is forgotten, it is refused for good. -/
theorem Reachable.opens_until_forgotten (reachable : Reachable S G origin)
    (current : message.epoch = origin.epoch)
    (decrypted : origin.decrypt S message config = .ok (next, plaintext)) :
    (∀ g, Carries S G message.place origin g →
      ∃ opened, g.decrypt S message config = .ok (opened, plaintext)) ∧
    ∀ g r now limits, Becomes S G origin g → r ∈ g.retired → r.epoch = message.epoch →
      r.expiry limits ≤ now → ∀ later, Becomes S G (g.purge now limits) later →
        ∀ config, later.decrypt S message config = .error (.unknownEpoch message.epoch) := by
  have ordered := reachable.ordered S
  obtain ⟨c, taken, opens, -⟩ := (decrypt_eq_ok_iff S).1 decrypted
  have authentic := (opens_iff.1 opens).1
  constructor
  · intro g carries
    obtain ⟨-, -, c, ready⟩ := carries.awaits ⟨ordered, UInt64.le_of_eq current, c, authentic⟩
    exact ⟨_, (decrypt_eq_ok_iff S).2 ⟨c, _, opens_iff.2 ⟨ready, rfl⟩, rfl⟩⟩
  · intro g r now limits becomes mem same late later after config
    have ordered' := becomes.preserves (fun _ source event here => here.step S source event) ordered
    have forgot := ordered'.forgot_purge mem late
    rw [same] at forgot
    have forgot' := after.preserves (fun _ source event here => here.step source event) forgot
    refine forgot'.decrypt ?_ config
    have id : later.id = g.id := after.keeps.2.1
    rw [id, becomes.keeps.2.1]
    exact authentic.group

end

/-- A member's second message overtakes its first one, whose key is passed over. -/
theorem exists_overtaken :
    ∃ (origin : Group) (message other : GroupMessage) (c : MemberChain),
      Reachable keyed KeyStream origin ∧ origin.epoch = 0 ∧ message.epoch = 0 ∧
        origin.Authentic keyed message {} c [0] ∧ origin.Authentic keyed other {} c [1] ∧
        (Event.decrypt other {}).Leaves keyed origin message.place := by
  obtain ⟨origin, speaker, reachable, installed, zero, start⟩ := exists_installed keyed 0
  let c := (speaker.distribution keyed).memberChain
  let message := speaker.utterance keyed 0 [0]
  let other := speaker.utterance keyed 1 [1]
  have room : speaker.ownChain.chain.counter.toNat + 1 < 2 ^ 64 := by
    rw [start]
    decide
  have first : origin.Authentic keyed message {} c [0] :=
    installed.authentic keyed_decrypt?_encrypt (keyed_signs _ _) (by rw [start]; decide) (by decide)
  have second : origin.Authentic keyed other {} c [1] :=
    installed.authentic keyed_decrypt?_encrypt (keyed_signs _ _) (by rw [start]; decide) (by decide)
  have opens := opens_iff.2 ⟨second, rfl⟩
  have number : other.counter.toNat = message.counter.toNat + 1 :=
    Chain.toNat_counter_after keyed room
  have fits : c.Fits other.counter {} := by
    have gap : c.gap other.counter = 1 := by
      change other.counter.toNat - message.counter.toNat = 1
      omega
    refine ⟨second.near, .inr ?_⟩
    rw [gap]
    change 0 + 1 ≤ (GroupConfig.maxSkippedKeys {}).toNat
    decide
  refine ⟨origin, message, other, c, reachable, zero, installed.epoch.trans zero, first, second,
    ?_, ?_, nofun, nofun⟩
  · rw [opened_of_opens opens, List.mem_singleton]
    intro same
    have same := congrArg (·.counter.toNat) same
    change message.counter.toNat = other.counter.toNat at same
    omega
  · rw [evicted_of_opens opens, fits.evicted_eq_nil]
    exact List.not_mem_nil

/-- The founder moves on before it opens the first message, and then opens it from the epoch it has
left. When the five minutes have passed, it does not any more. -/
theorem overtaken_message_opens_after_update :
    ∃ (origin later : Group) (message : GroupMessage),
      Reachable keyed KeyStream origin ∧ message.epoch = origin.epoch ∧
        (∃ next, origin.decrypt keyed message {} = .ok (next, [0])) ∧
        Carries keyed KeyStream message.place origin later ∧ later.epoch = message.epoch + 1 ∧
        (∃ opened, later.decrypt keyed message {} = .ok (opened, [0])) ∧
        (later.purge 305 {}).decrypt keyed message {} = .error (.unknownEpoch message.epoch) := by
  obtain ⟨origin, message, other, c, reachable, zero, here, authentic, second, leaves⟩ :=
    exists_overtaken
  let source : KeyStream := ⟨.replicate 32 0, 0⟩
  let middle := (origin.step keyed source (.decrypt other {})).1
  let later := (middle.step keyed source (.update [] 5)).1
  have opens := opens_iff.2 ⟨second, rfl⟩
  have decrypted : origin.decrypt keyed message {} = .ok (_, [0]) :=
    (decrypt_eq_ok_iff keyed).2 ⟨c, _, opens_iff.2 ⟨authentic, rfl⟩, rfl⟩
  have current : middle.epoch = 0 := by
    refine Eq.trans ?_ zero
    change (origin.step keyed source (.decrypt other {})).1.epoch = origin.epoch
    rw [step_decrypt_of_ok ((decrypt_eq_ok_iff keyed).2 ⟨c, _, opens, rfl⟩), setChain_eq]
  have moved : later = (middle.enter (middle.epoch + 1) ([] ++ [middle.self]) 5 source).1 :=
    step_update_of_short keyed (by rw [current]; decide) source [] 5
  have carries : Carries keyed KeyStream message.place origin later :=
    .tail (.tail .refl ⟨source, _, leaves, rfl⟩) ⟨source, _, leaves_update, rfl⟩
  have becomes : Becomes keyed KeyStream origin later :=
    .tail (.tail .refl ⟨source, _, rfl⟩) ⟨source, _, rfl⟩
  have left : ⟨middle.epoch, 5, middle.chains⟩ ∈ later.retired := by
    rw [moved]
    exact List.mem_append_right _ (List.mem_singleton_self _)
  have late : saturatingAdd 5 (GroupConfig.retiredGrace {}).seconds ≤ 305 := by decide
  obtain ⟨opened, forgotten⟩ := reachable.opens_until_forgotten (here.trans zero.symm) decrypted
  have next : later.epoch = message.epoch + 1 := by
    rw [moved, here, ← current]
    rfl
  exact ⟨origin, later, message, reachable, here.trans zero.symm, ⟨_, decrypted⟩, carries, next,
    opened later carries,
    forgotten later _ 305 {} becomes left (current.trans here.symm) late _ .refl {}⟩

end Group

end Confide
