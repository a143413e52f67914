import Confide.Proofs.Group.Steps

/-! The epochs which a group knows, the current one and those which were left. They are in order, so
that each of them has one place where its chains are found; and the chains stay there until the
epoch is forgotten, wherever the group goes. -/

set_option autoImplicit false

namespace Confide.Group

/-- The chains of all epochs we know, the oldest epoch first. -/
def shelves (g : Group) : List (UInt64 × SortedMap IdentityKey MemberChain) :=
  g.retired.map (fun r => (r.epoch, r.chains)) ++ [(g.epoch, g.chains)]

def epochs (g : Group) : List UInt64 := g.retired.map (·.epoch) ++ [g.epoch]

def Ordered (g : Group) : Prop := g.epochs.Pairwise (· < ·)

variable {g : Group} {epoch other : UInt64} {sender peer : IdentityKey} {c : MemberChain}
  {chains : SortedMap IdentityKey MemberChain}

theorem mem_shelves_iff :
    (epoch, chains) ∈ g.shelves ↔
      (∃ r ∈ g.retired, r.epoch = epoch ∧ r.chains = chains) ∨
        epoch = g.epoch ∧ chains = g.chains := by
  simp [shelves]

theorem map_shelves : g.shelves.map (·.1) = g.epochs := by
  simp [shelves, epochs]

theorem mem_epochs_of_mem_shelves (mem : (epoch, chains) ∈ g.shelves) : epoch ∈ g.epochs :=
  map_shelves ▸ List.mem_map_of_mem mem

theorem mem_shelves_of_chainsOf? (found : g.chainsOf? epoch = some chains) :
    (epoch, chains) ∈ g.shelves := by
  rw [mem_shelves_iff]
  unfold chainsOf? at found
  split at found
  · rename_i current
    exact .inr ⟨current, (Option.some.inj found).symm⟩
  · obtain ⟨r, first, rfl⟩ := Option.map_eq_some_iff.1 found
    exact .inl ⟨r, List.mem_of_find?_eq_some first, by simpa using List.find?_some first, rfl⟩

theorem Ordered.shelf_unique (ordered : g.Ordered) {second : SortedMap IdentityKey MemberChain}
    (mem : (epoch, chains) ∈ g.shelves) (mem' : (epoch, second) ∈ g.shelves) :
    chains = second := by
  have distinct : (g.shelves.map (·.1)).Nodup := map_shelves ▸ ordered.imp UInt64.ne_of_lt
  exact congrArg Prod.snd (List.inj_on_of_nodup_map distinct mem mem' rfl)

theorem Ordered.chainsOf?_eq_some_iff (ordered : g.Ordered) :
    g.chainsOf? epoch = some chains ↔ (epoch, chains) ∈ g.shelves := by
  refine ⟨mem_shelves_of_chainsOf?, fun mem => ?_⟩
  -- Something is found there, and it can be nothing else.
  obtain ⟨first, found⟩ : ∃ first, g.chainsOf? epoch = some first := by
    unfold chainsOf?
    by_cases current : epoch = g.epoch
    · exact ⟨_, if_pos current⟩
    · rcases mem_shelves_iff.1 mem with ⟨r, inside, same, -⟩ | ⟨same, -⟩
      · rw [if_neg current, ← Option.isSome_iff_exists, Option.isSome_map, List.find?_isSome]
        exact ⟨r, inside, decide_eq_true same⟩
      · exact absurd same current
  rw [found, ordered.shelf_unique (mem_shelves_of_chainsOf? found) mem]

theorem Ordered.findChain_eq_ok_iff (ordered : g.Ordered) :
    g.findChain epoch sender = .ok c ↔
      ∃ chains, (epoch, chains) ∈ g.shelves ∧ chains.get? sender = some c := by
  simp only [Group.findChain_eq_ok_iff, ordered.chainsOf?_eq_some_iff]

theorem Ordered.le_epoch (ordered : g.Ordered) (mem : epoch ∈ g.epochs) : epoch ≤ g.epoch := by
  rcases List.mem_append.1 mem with left | here
  · exact UInt64.le_of_lt
      ((List.pairwise_append.1 ordered).2.2 _ left _ (List.mem_singleton_self _))
  · exact UInt64.le_of_eq (List.mem_singleton.1 here)

/-! ### Where chains are found afterwards -/

theorem find?_setRetired (retired : List RetiredEpoch) :
    ((setRetired epoch sender c retired).find? (·.epoch = other)).map (·.chains) =
      if other = epoch then
        (retired.find? (·.epoch = epoch)).map (·.chains.insert sender c)
      else (retired.find? (·.epoch = other)).map (·.chains) := by
  induction retired with
  | nil => simp [setRetired]
  | cons r rest ih =>
    unfold setRetired
    by_cases here : r.epoch = epoch
    · by_cases same : other = epoch
      · simp [here, same]
      · simp [here, same, Ne.symm same]
    · by_cases same : r.epoch = other
      · subst same
        simp [here]
      · simpa [here, same, List.find?_cons] using ih

theorem chainsOf?_setChain :
    (g.setChain epoch sender c).chainsOf? other =
      if other = epoch then (g.chainsOf? epoch).map (·.insert sender c) else g.chainsOf? other := by
  unfold setChain
  by_cases current : epoch = g.epoch
  · rw [if_pos current]
    by_cases same : other = epoch
    · simp [chainsOf?, same, current]
    · have apart : other ≠ g.epoch := current ▸ same
      simp [chainsOf?, same, apart]
  · rw [if_neg current]
    unfold chainsOf?
    by_cases same : other = g.epoch
    · have apart : other ≠ epoch := fun equal => current (equal ▸ same)
      simp [same, Ne.symm current]
    · simp only [same, current, if_false, find?_setRetired, Option.map_map]
      rfl

theorem findChain_setChain_self {old : MemberChain} (found : g.findChain epoch sender = .ok old) :
    (g.setChain epoch sender c).findChain epoch sender = .ok c := by
  obtain ⟨chains, place, -⟩ := Group.findChain_eq_ok_iff.1 found
  rw [Group.findChain_eq_ok_iff, chainsOf?_setChain, if_pos rfl, place]
  exact ⟨_, rfl, SortedMap.get?_insert_self⟩

theorem findChain_setChain_of_ne (apart : (other, peer) ≠ (epoch, sender)) :
    (g.setChain epoch sender c).findChain other peer = g.findChain other peer := by
  unfold findChain
  rw [chainsOf?_setChain]
  by_cases same : other = epoch
  · subst same
    have apart : peer ≠ sender := fun equal => apart (by rw [equal])
    rw [if_pos rfl]
    cases g.chainsOf? other with
    | none => rfl
    | some chains => simp [SortedMap.get?_insert_of_ne apart]
  · rw [if_neg same]

theorem findChain_learned_of_ne {d : Distribution} (apart : (epoch, peer) ≠ (g.epoch, sender)) :
    (g.learned sender d).findChain epoch peer = g.findChain epoch peer := by
  unfold findChain chainsOf?
  by_cases current : epoch = g.epoch
  · have apart : peer ≠ sender := fun equal => apart (by rw [equal, current])
    simp [current, get?_learned_of_ne apart]
  · have retired : (g.learned sender d).retired = g.retired := by rw [learned_eq]
    simp only [epoch_learned, current, if_false, retired]

theorem findChain_learned {d : Distribution}
    (found : (g.learned sender d).findChain epoch peer = .ok c) :
    g.findChain epoch peer = .ok c ∨
      epoch = g.epoch ∧ peer = sender ∧ ¬g.Knows sender d ∧ c = d.memberChain := by
  by_cases known : g.Knows sender d
  · rw [learned_of_knows known] at found
    exact .inl found
  by_cases same : (epoch, peer) = (g.epoch, sender)
  · cases same
    have here := (findChain_current_iff (g := g.learned sender d)).2 (get?_learned_self known)
    rw [epoch_learned] at here
    cases here.symm.trans found
    exact .inr ⟨rfl, rfl, known, rfl⟩
  · exact .inl ((findChain_learned_of_ne same).symm.trans found)

section
variable {G : Type} [Entropy G] {members : List IdentityKey} {now : UInt64} {source : G}

theorem shelves_enter :
    (g.enter epoch members now source).1.shelves = g.shelves ++ [(epoch, .empty)] := by
  simp [shelves, enter, retire]

theorem epochs_enter : (g.enter epoch members now source).1.epochs = g.epochs ++ [epoch] := by
  simp [epochs, enter, retire]

theorem Ordered.enter (ordered : g.Ordered) (newer : g.epoch < epoch) :
    (g.enter epoch members now source).1.Ordered := by
  unfold Ordered
  rw [epochs_enter]
  refine List.pairwise_append.2 ⟨ordered, List.pairwise_singleton .., ?_⟩
  intro old mem _ last
  rw [List.mem_singleton.1 last]
  exact UInt64.lt_of_le_of_lt (ordered.le_epoch mem) newer

theorem Ordered.findChain_enter_iff (ordered : g.Ordered) (newer : g.epoch < epoch) :
    (g.enter epoch members now source).1.findChain other peer = .ok c ↔
      g.findChain other peer = .ok c := by
  rw [(ordered.enter newer).findChain_eq_ok_iff, ordered.findChain_eq_ok_iff, shelves_enter]
  refine exists_congr fun chains => and_congr_left fun found => ?_
  rw [List.mem_append, or_iff_left]
  intro last
  cases List.mem_singleton.1 last
  cases found

/-- A message which is under way when its epoch is left can still be opened. -/
theorem Opens.enter {S : Suite} {message : GroupMessage} {config : GroupConfig}
    {taken : MemberChain} {plaintext : Bytes} (opens : g.Opens S message config c taken plaintext)
    (ordered : g.Ordered) (newer : g.epoch < epoch) (members : List IdentityKey) (now : UInt64)
    (source : G) : (g.enter epoch members now source).1.Opens S message config c taken plaintext :=
  ⟨opens.group, (ordered.findChain_enter_iff newer).2 opens.found, opens.verified, opens.opened⟩

theorem shelves_purge_sublist (config : GroupConfig) :
    (g.purge now config).shelves.Sublist g.shelves :=
  (List.filter_sublist.map _).append_right _

theorem Ordered.purge (ordered : g.Ordered) (config : GroupConfig) :
    (g.purge now config).Ordered :=
  ordered.sublist ((List.filter_sublist.map _).append_right _)

theorem Ordered.findChain_of_purge (ordered : g.Ordered) {config : GroupConfig}
    (found : (g.purge now config).findChain epoch peer = .ok c) :
    g.findChain epoch peer = .ok c := by
  obtain ⟨chains, mem, found⟩ := (ordered.purge config).findChain_eq_ok_iff.1 found
  exact ordered.findChain_eq_ok_iff.2 ⟨chains, (shelves_purge_sublist config).mem mem, found⟩

theorem Ordered.of_same (ordered : g.Ordered) {next : Group}
    (same : next.epochs = g.epochs) : next.Ordered := by
  unfold Ordered
  rw [same]
  exact ordered

theorem map_epoch_setRetired (retired : List RetiredEpoch) :
    (setRetired epoch sender c retired).map (·.epoch) = retired.map (·.epoch) := by
  induction retired with
  | nil => rfl
  | cons r rest ih =>
    unfold setRetired
    split
    · rfl
    · rw [List.map_cons, List.map_cons, ih]

theorem epochs_setChain : (g.setChain epoch sender c).epochs = g.epochs := by
  unfold setChain epochs
  split
  · rfl
  · rw [map_epoch_setRetired]

theorem epochs_learned {d : Distribution} : (g.learned sender d).epochs = g.epochs := by
  rw [learned_eq]
  rfl

/-! ### Over all events -/

variable (S : Suite)

theorem Ordered.step (ordered : g.Ordered) (source : G) (event : Event) :
    (g.step S source event).1.Ordered := by
  have steps := step_cases S g source event
  generalize (g.step S source event).1 = next at steps
  cases steps with
  | refused => exact ordered
  | encrypted plaintext short => exact ordered
  | decrypted opens => exact ordered.of_same epochs_setChain
  | followed follows => exact ordered.of_same epochs_learned
  | moved moves => exact (ordered.enter moves.newer).of_same epochs_learned
  | updated members now short => exact ordered.enter (HasNext.lt_add_one short)
  | purged now config => exact ordered.purge config

/-- What becomes of a group which a member founds or joins. -/
inductive Reachable (G : Type) [Entropy G] : Group → Prop where
  | found (id : GroupId) (self : IdentityKey) (listed : List IdentityKey) (source : G) :
      Reachable G (found S id self listed source).1.1
  | join {self sender : IdentityKey} {d : Distribution} {now : UInt64} {source : G} {next : Group}
      {ours : Distribution} (joined : (join S self sender d now source).1 = .ok (next, ours)) :
      Reachable G next
  | step {g : Group} (source : G) (event : Event) (reachable : Reachable G g) :
      Reachable G (g.step S source event).1

theorem ordered_start (id : GroupId) (self : IdentityKey) (epoch : UInt64)
    (listed : List IdentityKey) (source : G) : (start id self epoch listed source).1.Ordered :=
  List.pairwise_singleton ..

theorem Reachable.ordered (reachable : Reachable S G g) : g.Ordered := by
  induction reachable with
  | found id self listed source => exact ordered_start ..
  | join joined =>
    obtain ⟨-, -, rfl, -⟩ := (join_eq_ok_iff S).1 joined
    exact (ordered_start ..).of_same epochs_learned
  | step source event _ ordered => exact ordered.step S source event

end

end Confide.Group
