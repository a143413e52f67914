import Confide.Proofs.Group.Delivery
import Mathlib.Data.List.DropRight

/-! Which passed keys a chain of a member keeps. Keys come in by ascending counters and the lowest
ones go first, so that what is kept is the end of all that was passed over and not asked for. -/

set_option autoImplicit false

theorem List.rtake_cons_of_le {α : Type} {head : α} {rest : List α} {n : Nat}
    (low : n ≤ rest.length) : (head :: rest).rtake n = rest.rtake n := by
  rw [List.rtake, List.rtake, List.length_cons, Nat.succ_sub low, List.drop_succ_cons]

theorem List.rtake_of_length_le {α : Type} {list : List α} {n : Nat} (short : list.length ≤ n) :
    list.rtake n = list := by
  rw [List.rtake, Nat.sub_eq_zero_of_le short, List.drop_zero]

namespace Confide

namespace SortedMap

section
variable {κ α : Type} [Ord κ]

def highest (m : SortedMap κ α) (n : Nat) : SortedMap κ α :=
  ⟨m.entries.rtake n, m.ascending.sublist (List.drop_sublist _ _)⟩

theorem size_highest_le (m : SortedMap κ α) (n : Nat) : (m.highest n).size ≤ n := by
  simp only [size, highest, List.rtake, List.length_drop]
  omega

theorem highest_of_size_le {m : SortedMap κ α} {n : Nat} (short : m.size ≤ n) : m.highest n = m :=
  ext (List.rtake_of_length_le short)

theorem length_le_length_insertEntry (key : κ) (value : α) (entries : List (κ × α)) :
    entries.length ≤ (insertEntry key value entries).length := by
  induction entries with
  | nil => exact Nat.zero_le _
  | cons head rest ih =>
    simp only [insertEntry]
    split <;> simp only [List.length_cons] <;> omega

theorem insertEntry_of_below {key : κ} {value : α} {entries : List (κ × α)}
    (below : ∀ entry ∈ entries, compare key entry.1 = .lt) :
    insertEntry key value entries = (key, value) :: entries := by
  cases entries with
  | nil => rfl
  | cons head rest => rw [insertEntry, below head List.mem_cons_self]

theorem entries_erase [Std.LawfulEqOrd κ] [DecidableEq κ] (m : SortedMap κ α) (key : κ) :
    (m.erase key).entries = m.entries.filter fun entry => entry.1 ≠ key := by
  refine List.filter_congr fun entry _ => ?_
  rw [Bool.eq_iff_iff, bne_iff_ne, decide_eq_true_iff]
  exact not_congr Std.LawfulEqOrd.compare_eq_iff_eq

end

variable {κ α : Type} [Ord κ] [Std.TransOrd κ] {key : κ} {value : α} {n : Nat}

def insertAll (m : SortedMap κ α) (entries : List (κ × α)) : SortedMap κ α :=
  entries.foldl (fun m entry => m.insert entry.1 entry.2) m

theorem insertAll_cons (m : SortedMap κ α) (entry : κ × α) (rest : List (κ × α)) :
    m.insertAll (entry :: rest) = (m.insert entry.1 entry.2).insertAll rest := rfl

theorem rtake_insertEntry_cons {head : κ × α} {rest : List (κ × α)}
    (ascending : (head :: rest).Pairwise fun first second => compare first.1 second.1 = .lt)
    (low : n ≤ rest.length) :
    (insertEntry key value (head :: rest)).rtake n = (insertEntry key value rest).rtake n := by
  have below := (List.pairwise_cons.1 ascending).1
  rw [insertEntry]
  split
  · rename_i lt
    rw [insertEntry_of_below fun entry mem => Std.TransCmp.lt_trans lt (below entry mem),
      List.rtake_cons_of_le (Nat.le_succ_of_le low), List.rtake_cons_of_le low,
      List.rtake_cons_of_le low]
  · rename_i eq
    rw [insertEntry_of_below fun entry mem => (Std.TransCmp.congr_left eq).trans (below entry mem)]
  · exact List.rtake_cons_of_le (low.trans (length_le_length_insertEntry key value rest))

theorem rtake_insertEntry_rtake {entries : List (κ × α)}
    (ascending : entries.Pairwise fun first second => compare first.1 second.1 = .lt) :
    (insertEntry key value (entries.rtake n)).rtake n =
      (insertEntry key value entries).rtake n := by
  induction entries with
  | nil => rw [List.rtake_nil]
  | cons head rest ih =>
    by_cases low : n ≤ rest.length
    · rw [List.rtake_cons_of_le low, ih ascending.of_cons, rtake_insertEntry_cons ascending low]
    · have short : (head :: rest).length ≤ n := Nat.lt_of_not_le low
      rw [List.rtake_of_length_le short]

theorem highest_insert_highest (m : SortedMap κ α) :
    ((m.highest n).insert key value).highest n = (m.insert key value).highest n :=
  ext (rtake_insertEntry_rtake m.ascending)

end SortedMap

theorem Chain.pairwise_counters_keys {S : Suite} {chain : Chain} {n : Nat}
    (bound : chain.counter.toNat + n < 2 ^ 64) :
    (chain.keys S n).Pairwise fun first second => first.1 < second.1 := by
  rw [keys_eq_map, List.pairwise_map]
  refine List.pairwise_lt_range.imp_of_mem fun {i j} _ high less => ?_
  have last := List.mem_range.1 high
  rw [UInt64.lt_iff_toNat_lt, toNat_counter_after S (by omega : chain.counter.toNat + i < 2 ^ 64),
    toNat_counter_after S (by omega : chain.counter.toNat + j < 2 ^ 64)]
  omega

namespace MemberChain

theorem entries_dropLowest (n : Nat) (skipped : SortedMap UInt64 SealingKey) :
    (keep.dropLowest n skipped).entries = skipped.entries.drop n := by
  induction n generalizing skipped with
  | zero => rfl
  | succ n ih => rw [keep.dropLowest, ih, SortedMap.dropFirst, List.drop_tail]

theorem keep_eq_highest (skipped : SortedMap UInt64 SealingKey) (counter : UInt64)
    (key : SealingKey) (capacity : Nat) :
    keep skipped counter key capacity = (skipped.insert counter key).highest capacity :=
  SortedMap.ext (entries_dropLowest _ _)

theorem keepAll_cons (skipped : SortedMap UInt64 SealingKey) (entry : UInt64 × SealingKey)
    (rest : List (UInt64 × SealingKey)) (capacity : Nat) :
    keepAll skipped (entry :: rest) capacity =
      keepAll ((skipped.insert entry.1 entry.2).highest capacity) rest capacity := by
  rw [← keep_eq_highest]
  rfl

theorem keepAll_highest (skipped : SortedMap UInt64 SealingKey)
    (keys : List (UInt64 × SealingKey)) (capacity : Nat) :
    keepAll (skipped.highest capacity) keys capacity =
      (skipped.insertAll keys).highest capacity := by
  induction keys generalizing skipped with
  | nil => rfl
  | cons entry rest ih =>
    rw [keepAll_cons, SortedMap.highest_insert_highest, ih, SortedMap.insertAll_cons]

/-- To make room for one key after the other is to make room for all of them at once. -/
theorem keepAll_eq_highest (skipped : SortedMap UInt64 SealingKey)
    {keys : List (UInt64 × SealingKey)} (new : keys ≠ []) (capacity : Nat) :
    keepAll skipped keys capacity = (skipped.insertAll keys).highest capacity := by
  obtain ⟨entry, rest, rfl⟩ := List.exists_cons_of_ne_nil new
  rw [keepAll_cons, keepAll_highest, SortedMap.insertAll_cons]

variable (S : Suite)

/-- The kept keys with all those which a message passes over, before any of them is dropped. -/
def offered (c : MemberChain) (counter : UInt64) : SortedMap UInt64 SealingKey :=
  c.skipped.insertAll (c.chain.keys S (c.gap counter))

theorem skipped_advanced (c : MemberChain) (counter : UInt64) (config : GroupConfig) :
    (c.advanced S counter config).skipped =
      if c.gap counter = 0 then c.skipped
      else (c.offered S counter).highest config.maxSkippedKeys.toNat := by
  split
  · rename_i none
    rw [advanced, none]
    rfl
  · rename_i some
    refine keepAll_eq_highest c.skipped ?_ _
    rw [← List.length_pos_iff_ne_nil, Chain.length_keys]
    exact Nat.pos_of_ne_zero some

/-! ### Over all messages -/

/-- A message asks for its key: the chain afterwards, and the key if it is given. -/
def ask (c : MemberChain) (counter : UInt64) (config : GroupConfig) :
    MemberChain × List (UInt64 × SealingKey) :=
  match c.take S counter config with
  | .error _ => (c, [])
  | .ok (key, taken) => (taken, [(counter, key)])

/-- What becomes of a chain as messages ask for their keys, and the keys which it gives. -/
inductive Serves (config : GroupConfig) (first : MemberChain) :
    MemberChain → List (UInt64 × SealingKey) → Prop where
  | start : Serves config first first []
  | step {c : MemberChain} {given : List (UInt64 × SealingKey)} (counter : UInt64)
      (serves : Serves config first c given) :
      Serves config first (c.ask S counter config).1 (given ++ (c.ask S counter config).2)

def unused (start : Chain) (n : Nat) (used : List UInt64) : List (UInt64 × SealingKey) :=
  (start.keys S n).filter fun entry => entry.1 ∉ used

/-- The chain stands `n` messages after `start`, and keeps the last of the keys which were not
used on the way. -/
structure Newest (config : GroupConfig) (start : Chain) (used : List UInt64) (n : Nat)
    (c : MemberChain) : Prop where
  chain : c.chain = start.after S n
  bound : start.counter.toNat + n < 2 ^ 64
  past : ∀ counter ∈ used, counter < c.chain.counter
  room : c.skipped.size ≤ config.maxSkippedKeys.toNat
  kept : c.skipped.entries <:+ unused S start n used

variable {S} {config : GroupConfig} {start : Chain} {used : List UInt64} {n : Nat}
  {c taken : MemberChain} {counter other : UInt64} {key : SealingKey}
  {given : List (UInt64 × SealingKey)}

theorem mem_unused_iff :
    (counter, key) ∈ unused S start n used ↔ (counter, key) ∈ start.keys S n ∧ counter ∉ used := by
  simp [unused]

theorem Newest.toNat_counter (newest : c.Newest S config start used n) :
    c.chain.counter.toNat = start.counter.toNat + n := by
  rw [newest.chain, Chain.toNat_counter_after S newest.bound]

theorem Newest.mem_unused (newest : c.Newest S config start used n)
    (found : c.skipped.get? counter = some key) : (counter, key) ∈ unused S start n used :=
  newest.kept.subset (SortedMap.get?_eq_some_iff.1 found)

theorem Newest.kept_of_le (newest : c.Newest S config start used n)
    (found : c.skipped.get? counter = some key) {later : SealingKey}
    (mem : (other, later) ∈ unused S start n used) (above : counter ≤ other) :
    c.skipped.get? other = some later := by
  obtain ⟨before, split⟩ := newest.kept
  rw [SortedMap.get?_eq_some_iff] at found ⊢
  rw [← split] at mem
  refine (List.mem_append.1 mem).resolve_left fun evicted => ?_
  have ascending := (Chain.pairwise_counters_keys (S := S) newest.bound).filter
    fun entry => entry.1 ∉ used
  rw [← unused, ← split] at ascending
  exact UInt64.not_lt.2 above ((List.pairwise_append.1 ascending).2.2 _ evicted _ found)

theorem newest_memberChain (d : Distribution) :
    d.memberChain.Newest S config d.memberChain.chain [] 0 where
  chain := rfl
  bound := d.counter.toNat_lt
  past := List.forall_mem_nil _
  room := Nat.zero_le _
  kept := List.suffix_rfl

theorem Newest.use (newest : c.Newest S config start used n)
    (behind : counter < c.chain.counter) :
    Newest S config start (used ++ [counter]) n { c with skipped := c.skipped.erase counter } where
  chain := newest.chain
  bound := newest.bound
  past := by
    intro other mem
    rcases List.mem_append.1 mem with old | last
    · exact newest.past other old
    · rw [List.mem_singleton.1 last]
      exact behind
  room := (List.length_filter_le _ _).trans newest.room
  kept := by
    have fewer : unused S start n (used ++ [counter]) =
        (unused S start n used).filter fun entry => entry.1 ≠ counter := by
      rw [unused, unused, List.filter_filter]
      exact List.filter_congr fun entry _ => by simp [and_comm]
    rw [fewer, SortedMap.entries_erase]
    exact newest.kept.filter _

theorem Newest.unused_ahead (newest : c.Newest S config start used n) {gap : Nat}
    (reached : counter.toNat = start.counter.toNat + (n + gap))
    (short : HasNext counter) :
    unused S start (n + gap + 1) (used ++ [counter]) =
      unused S start n used ++ c.chain.keys S gap := by
  have stands := newest.toNat_counter
  have bound : c.chain.counter.toNat + gap < 2 ^ 64 := by omega
  have here : (c.chain.after S gap).counter = counter := by
    rw [← UInt64.toNat_inj, Chain.toNat_counter_after S bound]
    omega
  have split : start.keys S (n + gap + 1) = start.keys S n ++ c.chain.keys S gap ++
      [(counter, (c.chain.after S gap).messageKey S)] := by
    rw [Nat.add_assoc, Chain.keys_add, Chain.keys_add, newest.chain, List.append_assoc, ← here,
      newest.chain]
    rfl
  have passed : (start.keys S n).filter (fun entry => entry.1 ∉ used ++ [counter]) =
      unused S start n used := by
    refine List.filter_congr fun entry mem => ?_
    have low := (Chain.toNat_mem_keys newest.bound mem).2
    have apart : entry.1 ≠ counter := by
      rintro same
      rw [same] at low
      omega
    simp [apart]
  have new : (c.chain.keys S gap).filter (fun entry => entry.1 ∉ used ++ [counter]) =
      c.chain.keys S gap := by
    refine List.filter_eq_self.2 fun entry mem => ?_
    obtain ⟨low, high⟩ := Chain.toNat_mem_keys bound mem
    have fresh : entry.1 ∉ used := fun old => by
      have past := UInt64.lt_iff_toNat_lt.1 (newest.past _ old)
      omega
    have apart : entry.1 ≠ counter := by
      rintro same
      rw [same] at high
      omega
    simp [fresh, apart]
  rw [unused, split, List.filter_append, List.filter_append, passed, new]
  simp

theorem Newest.entries_advanced (newest : c.Newest S config start used n)
    (reached : c.chain.counter ≤ counter) :
    (c.advanced S counter config).skipped.entries =
      if c.gap counter = 0 then c.skipped.entries
      else (c.skipped.entries ++ c.chain.keys S (c.gap counter)).rtake
        config.maxSkippedKeys.toNat := by
  have bound : c.chain.counter.toNat + c.gap counter < 2 ^ 64 := by
    have number := counter.toNat_lt
    rw [UInt64.le_iff_toNat_le] at reached
    unfold gap
    omega
  have ascending : (c.skipped.entries ++ c.chain.keys S (c.gap counter)).Pairwise
      fun first second => compare first.1 second.1 = .lt := by
    refine List.pairwise_append.2 ⟨c.skipped.ascending,
      (Chain.pairwise_counters_keys bound).imp Std.compare_eq_lt.2, fun old mem new mem' => ?_⟩
    have mem := (mem_unused_iff.1 (newest.kept.subset mem)).1
    have low := (Chain.toNat_mem_keys newest.bound mem).2
    have high := (Chain.toNat_mem_keys bound mem').1
    rw [newest.toNat_counter] at high
    exact Std.compare_eq_lt.2 (UInt64.lt_iff_toNat_lt.2 (low.trans_le high))
  rw [skipped_advanced]
  split
  · rfl
  · rw [← SortedMap.entries_foldl_insert _ _ ascending]
    rfl

theorem Newest.advance (newest : c.Newest S config start used n)
    (reached : c.chain.counter ≤ counter) (short : HasNext counter) :
    Newest S config start (used ++ [counter]) (n + c.gap counter + 1)
      (c.advanced S counter config) := by
  have stands := newest.toNat_counter
  have low := UInt64.le_iff_toNat_le.1 reached
  have number : counter.toNat = start.counter.toNat + (n + c.gap counter) := by
    unfold gap
    omega
  have chain : (c.advanced S counter config).chain =
      start.after S (n + c.gap counter + 1) := by
    rw [Nat.add_assoc, Chain.after_add, ← newest.chain]
    rfl
  have bound : start.counter.toNat + (n + c.gap counter + 1) < 2 ^ 64 := by omega
  have after := Chain.toNat_counter_after S bound
  rw [← chain] at after
  refine ⟨chain, bound, fun other mem => ?_, ?_, ?_⟩
  · rw [UInt64.lt_iff_toNat_lt, after]
    rcases List.mem_append.1 mem with old | last
    · have past := UInt64.lt_iff_toNat_lt.1 (newest.past other old)
      omega
    · rw [List.mem_singleton.1 last]
      omega
  · rw [skipped_advanced]
    split
    · exact newest.room
    · exact SortedMap.size_highest_le _ _
  · obtain ⟨before, split⟩ := newest.kept
    -- What was kept and what is passed over is the end of all that is unused now.
    have all : c.skipped.entries ++ c.chain.keys S (c.gap counter) <:+
        unused S start (n + c.gap counter + 1) (used ++ [counter]) :=
      ⟨before, by rw [newest.unused_ahead number short, ← List.append_assoc, split]⟩
    rw [newest.entries_advanced reached]
    split
    · rename_i none
      rw [none, Chain.keys, List.append_nil] at all
      rwa [none]
    · exact (List.drop_suffix _ _).trans all

theorem Takes.newest (takes : c.Takes S counter config key taken)
    (newest : c.Newest S config start used n) :
    ∃ n', taken.Newest S config start (used ++ [counter]) n' := by
  cases takes with
  | kept behind found => exact ⟨n, newest.use behind⟩
  | ahead reached near short => exact ⟨_, newest.advance reached short⟩

theorem ask_of_takes (takes : c.Takes S counter config key taken) :
    c.ask S counter config = (taken, [(counter, key)]) := by
  rw [ask, (take_eq_ok_iff S).2 takes]

theorem Serves.newest {d : Distribution} (serves : Serves S config d.memberChain c given) :
    ∃ n, c.Newest S config d.memberChain.chain (given.map (·.1)) n := by
  induction serves with
  | start => exact ⟨0, newest_memberChain d⟩
  | @step c given counter _ ih =>
    obtain ⟨n, newest⟩ := ih
    cases outcome : c.take S counter config with
    | error error =>
      rw [ask, outcome, List.append_nil]
      exact ⟨n, newest⟩
    | ok result =>
      obtain ⟨key, taken⟩ := result
      have takes := (take_eq_ok_iff S).1 outcome
      rw [ask_of_takes takes, List.map_append]
      exact takes.newest newest

theorem Newest.exists_unused (newest : c.Newest S config start used n)
    (above : start.counter ≤ other) (behind : other < c.chain.counter) (fresh : other ∉ used) :
    ∃ key, (other, key) ∈ unused S start n used := by
  rw [UInt64.le_iff_toNat_le] at above
  rw [UInt64.lt_iff_toNat_lt, newest.toNat_counter] at behind
  refine ⟨(start.after S (other.toNat - start.counter.toNat)).messageKey S,
    mem_unused_iff.2 ⟨Chain.mem_keys_iff.2 ⟨_, by omega, ?_, rfl⟩, fresh⟩⟩
  have bound := newest.bound
  rw [← UInt64.toNat_inj, Chain.toNat_counter_after S (by omega)]
  omega

theorem Newest.contains_of_le (newest : c.Newest S config start used n) {kept : UInt64}
    (has : c.skipped.contains kept = true) (above : start.counter ≤ other)
    (behind : other < c.chain.counter) (fresh : other ∉ used) (higher : kept ≤ other) :
    c.skipped.contains other = true := by
  obtain ⟨key, found⟩ := Option.isSome_iff_exists.1 has
  obtain ⟨later, mem⟩ := newest.exists_unused above behind fresh
  rw [SortedMap.contains, newest.kept_of_le found mem higher]
  rfl

/-- The keys which a chain keeps are the last of those which were not given, at most as many as
there is room for, and each is the key of its message. They go for a message or for lack of room. -/
theorem Serves.keeps_newest {d : Distribution} (serves : Serves S config d.memberChain c given) :
    c.skipped.size ≤ config.maxSkippedKeys.toNat ∧
    (∀ counter key, c.skipped.get? counter = some key →
      d.counter ≤ counter ∧ counter < c.chain.counter ∧ counter ∉ given.map (·.1) ∧
        key = (d.memberChain.chain.after S (counter.toNat - d.counter.toNat)).messageKey S) ∧
    (∀ kept other, c.skipped.contains kept = true → d.counter ≤ other → other < c.chain.counter →
      other ∉ given.map (·.1) →
        (kept ≤ other → c.skipped.contains other = true) ∧
          (c.skipped.contains other = false → other < kept)) ∧
    ∀ counter key taken, c.take S counter config = .ok (key, taken) → taken.skipped.entries =
      if counter < c.chain.counter then c.skipped.entries.filter fun entry => entry.1 ≠ counter
      else if c.gap counter = 0 then c.skipped.entries
      else (c.skipped.entries ++ c.chain.keys S (c.gap counter)).rtake
        config.maxSkippedKeys.toNat := by
  obtain ⟨n, newest⟩ := serves.newest
  refine ⟨newest.room, fun counter key found => ?_, fun kept other has above behind fresh => ?_,
    fun counter key taken outcome => ?_⟩
  · obtain ⟨mem, fresh⟩ := mem_unused_iff.1 (newest.mem_unused found)
    have stands := newest.toNat_counter
    obtain ⟨low, high⟩ := Chain.toNat_mem_keys newest.bound mem
    refine ⟨UInt64.le_iff_toNat_le.2 low, UInt64.lt_iff_toNat_lt.2 (by omega), fresh, ?_⟩
    obtain ⟨i, inside, rfl, rfl⟩ := Chain.mem_keys_iff.1 mem
    have bound := newest.bound
    rw [Chain.toNat_counter_after S (by omega), Distribution.memberChain, Nat.add_sub_cancel_left]
  · have closed := newest.contains_of_le has above behind fresh
    refine ⟨closed, fun gone => UInt64.not_le.1 fun higher => ?_⟩
    rw [closed higher] at gone
    cases gone
  · cases (take_eq_ok_iff S).1 outcome with
    | kept behind found => rw [if_pos behind, SortedMap.entries_erase]
    | ahead reached near short =>
      rw [if_neg (UInt64.not_lt.2 reached), newest.entries_advanced reached]

/-- With room for two keys, message 9 comes first on a chain which starts at message 5, and then
message 7: the keys of messages 5 and 6 are gone, and that of message 8 is kept. -/
theorem lowest_keys_are_evicted :
    ∃ (d : Distribution) (config : GroupConfig) (c : MemberChain)
        (given : List (UInt64 × SealingKey)),
      Serves Group.keyed config d.memberChain c given ∧ given.map (·.1) = [9, 7] ∧ d.counter = 5 ∧
        c.skipped.contains 6 = false ∧ c.skipped.contains 8 = true ∧ (6 : UInt64) < 8 := by
  let peer : IdentityKey := ⟨⟨.replicate 32 1⟩, ⟨.replicate 32 1⟩⟩
  let d : Distribution := ⟨⟨.replicate 16 0⟩, 0, peer, [peer], .replicate 32 3, 5,
    ⟨.replicate 32 2⟩⟩
  let config : GroupConfig := { maxSkippedKeys := 2 }
  let early := (d.memberChain.ask Group.keyed 9 config).1
  have first : Serves Group.keyed config d.memberChain early _ := Serves.start.step 9
  have second := first.step 7
  obtain ⟨-, -, closed, -⟩ := second.keeps_newest
  refine ⟨d, config, _, _, second, by decide +kernel, rfl, by decide +kernel, by decide +kernel,
    (closed 8 6 ?_ ?_ ?_ ?_).2 ?_⟩
  all_goals decide +kernel

end MemberChain

end Confide
