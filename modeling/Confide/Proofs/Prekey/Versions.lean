import Confide.Entropy.KeyStream
import Confide.Proofs.Prekey.Origin

/-! What the id of a bundle says. Every change of the prekeys is counted in the id, and without one
the passing of time can only end publication: it never puts another prekey in the place of the one
which was published. So bundles under one id are the same. -/

set_option autoImplicit false

namespace Confide.KeyStore

variable {G : Type}

def Operation.returns (S : Suite) (store : KeyStore G) (now : UInt64) : Operation G → List Bundle
  | .publish => (store.publish S now).toOption.toList
  | _ => []

variable {S : Suite} {store : KeyStore G} {now : UInt64} {operation : Operation G}
  {bundle later : Bundle} {signed oneTime : Nat}

theorem mem_returns_iff : bundle ∈ operation.returns S store now ↔
    operation = .publish ∧ store.publish S now = .ok bundle := by
  cases operation with
  | publish =>
    cases outcome : store.publish S now with
    | error error => simp [Operation.returns, outcome, Except.toOption]
    | ok published => simp [Operation.returns, outcome, Except.toOption, eq_comm]
  | _ => exact iff_of_false List.not_mem_nil nofun

theorem id_of_publish (published : store.publish S now = .ok bundle) :
    bundle.id = store.prekeys.bundleId := by
  obtain ⟨s, -, rfl⟩ := publish_eq_ok_iff.1 published
  rfl

theorem publish_congr {other : KeyStore G} (prekeys : other.prekeys = store.prekeys)
    (owner : other.identity = store.identity) : other.publish S now = store.publish S now := by
  unfold publish
  rw [prekeys, owner]

/-- Time alone does not change what is published. -/
theorem publish_of_later (sound : Sound S store.prekeys signed oneTime) {time : UInt64}
    (begun : ∀ s ∈ store.prekeys.signed.values, s.prekey.lifetime.notBefore ≤ time)
    (clock : time ≤ now) (published : store.publish S time = .ok bundle)
    (publishes : store.publish S now = .ok later) : bundle = later := by
  obtain ⟨s, found, rfl⟩ := publish_eq_ok_iff.1 published
  obtain ⟨last, found', rfl⟩ := publish_eq_ok_iff.1 publishes
  have first := sound.latest?_eq_some_iff.1 found
  have second := sound.latest?_eq_some_iff.1 found'
  obtain ⟨-, late⟩ := Lifetime.isValid_zero_iff.1 second.valid
  -- What is valid later, was valid before, since it had begun.
  have before : last.prekey.lifetime.isValid time .zero = true :=
    Lifetime.isValid_zero_iff.2 ⟨begun last second.stored, UInt64.le_trans clock late⟩
  rcases first.last last second.stored before with same | earlier
  · rw [same]
  -- And what ends later than that, is still valid.
  · have ends := SignedPrekey.notAfter_le_of_not_precedes earlier.asymm
    have still : s.prekey.lifetime.isValid now .zero = true :=
      Lifetime.isValid_zero_iff.2
        ⟨UInt64.le_trans (begun s first.stored) clock, UInt64.le_trans late ends⟩
    rcases second.last s first.stored still with same | greater
    · rw [same]
    · exact absurd greater earlier.asymm

theorem bundleId_addOneTime {prekeys : Prekeys} (secrets : List SecretKey) :
    (addOneTime S prekeys secrets).2.bundleId = prekeys.bundleId := by
  induction secrets generalizing prekeys with
  | nil => rfl
  | cons secret rest ih => exact ih

variable [Entropy G]

section
variable (S : Suite)

def publications (store : KeyStore G) : List (UInt64 × Operation G) → List Bundle
  | [] => []
  | (now, operation) :: rest =>
    operation.returns S store now ++ publications (store.step S now operation) rest

def changes (store : KeyStore G) : List (UInt64 × Operation G) → Nat
  | [] => 0
  | (now, operation) :: rest =>
    (if (store.step S now operation).prekeys = store.prekeys then 0 else 1) +
      changes (store.step S now operation) rest

end

variable {operations : List (UInt64 × Operation G)}

theorem changes_le_length : changes S store operations ≤ operations.length := by
  induction operations generalizing store with
  | nil => exact Nat.le_refl 0
  | cons entry rest ih =>
    have rest := @ih (store.step S entry.1 entry.2)
    simp only [changes, List.length_cons]
    split <;> omega

theorem prekeys_step (now : UInt64) (operation : Operation G) :
    (store.step S now operation).prekeys = store.prekeys ∨
      (store.step S now operation).prekeys.bundleId = store.prekeys.bundleId + 1 := by
  cases operation with
  | rotate => exact .inr rfl
  | generate n =>
    cases n with
    | zero => exact .inl rfl
    | succ n => exact .inr (congrArg (· + 1) (bundleId_addOneTime _))
  | consume id =>
    simp only [step, consume]
    cases store.prekeys.oneTime.get? id with
    | none => exact .inl rfl
    | some secret => exact .inr rfl
  | removeExpired =>
    simp only [step, removeExpired_eq]
    by_cases none : store.prekeys.signed.size - (store.kept now).size = 0
    -- As many as before are all that were there before.
    · have all : store.kept now = store.prekeys.signed :=
        SortedMap.ext (List.filter_sublist.eq_of_length_le (Nat.le_of_sub_eq_zero none))
      rw [all, Nat.sub_self]
      exact .inl rfl
    · simp only [none, if_false]
      exact .inr trivial
  | restore config source => exact .inl rfl
  | oneTimeSecret id => exact .inl rfl
  | signedSecret id => exact .inl rfl
  | publish => exact .inl rfl

/-- As long as the id does not run over, it grows by the number of changes. -/
theorem toNat_bundleId_step {rest : List (UInt64 × Operation G)}
    (room : store.prekeys.bundleId.toNat + changes S store ((now, operation) :: rest) < 2 ^ 64) :
    (store.step S now operation).prekeys.bundleId.toNat =
      store.prekeys.bundleId.toNat +
        if (store.step S now operation).prekeys = store.prekeys then 0 else 1 := by
  by_cases same : (store.step S now operation).prekeys = store.prekeys
  · rw [same, if_pos rfl, Nat.add_zero]
  · simp only [changes, same, if_false] at room
    rw [(prekeys_step now operation).resolve_left same, if_neg same, UInt64.toNat_add]
    exact Nat.mod_eq_of_lt (by change _ + 1 < _; omega)

theorem room_step {rest : List (UInt64 × Operation G)}
    (room : store.prekeys.bundleId.toNat + changes S store ((now, operation) :: rest) < 2 ^ 64) :
    (store.step S now operation).prekeys.bundleId.toNat +
      changes S (store.step S now operation) rest < 2 ^ 64 := by
  rw [toNat_bundleId_step room, Nat.add_assoc]
  exact room

theorem bundleId_le_of_mem_publications
    (room : store.prekeys.bundleId.toNat + changes S store operations < 2 ^ 64)
    (mem : bundle ∈ publications S store operations) :
    store.prekeys.bundleId.toNat ≤ bundle.id.toNat := by
  induction operations generalizing store with
  | nil => cases mem
  | cons entry rest ih =>
    rcases List.mem_append.1 mem with now | after
    · have same := id_of_publish (mem_returns_iff.1 now).2
      exact Nat.le_of_eq (congrArg UInt64.toNat same.symm)
    · have next := ih (room_step room) after
      rw [toNat_bundleId_step room] at next
      exact Nat.le_trans (Nat.le_add_right _ _) next

theorem eq_or_lt_of_mem_publications (sound : Sound S store.prekeys signed oneTime)
    {time : UInt64}
    (begun : ∀ s ∈ store.prekeys.signed.values, s.prekey.lifetime.notBefore ≤ time)
    (clock : ∀ entry ∈ operations, time ≤ entry.1)
    (room : store.prekeys.bundleId.toNat + changes S store operations < 2 ^ 64)
    (published : store.publish S time = .ok bundle)
    (mem : later ∈ publications S store operations) : bundle = later ∨ bundle.id < later.id := by
  induction operations generalizing store with
  | nil => cases mem
  | cons entry rest ih =>
    obtain ⟨now, operation⟩ := entry
    rcases List.mem_append.1 mem with first | after
    · exact .inl (publish_of_later sound begun (clock _ List.mem_cons_self) published
        (mem_returns_iff.1 first).2)
    by_cases same : (store.step S now operation).prekeys = store.prekeys
    · refine ih ?_ ?_ (fun entry mem => clock entry (List.mem_cons_of_mem _ mem))
        (room_step room) ?_ after
      · rw [same]
        exact sound
      · rw [same]
        exact begun
      · rw [publish_congr same (identity_step now operation)]
        exact published
    · have higher := bundleId_le_of_mem_publications (room_step room) after
      rw [toNat_bundleId_step room, if_neg same] at higher
      refine .inr (UInt64.lt_iff_toNat_lt.2 ?_)
      rw [id_of_publish published]
      exact higher

theorem pairwise_publications (sound : Sound S store.prekeys signed oneTime)
    (clock : (operations.map (·.1)).Pairwise (· ≤ ·))
    (begun : ∀ s ∈ store.prekeys.signed.values, ∀ entry ∈ operations,
      s.prekey.lifetime.notBefore ≤ entry.1)
    (room : store.prekeys.bundleId.toNat + changes S store operations < 2 ^ 64) :
    (publications S store operations).Pairwise fun earlier later =>
      earlier = later ∨ earlier.id < later.id := by
  induction operations generalizing store signed oneTime with
  | nil => exact .nil
  | cons entry rest ih =>
    obtain ⟨now, operation⟩ := entry
    obtain ⟨first, clock⟩ := List.pairwise_cons.1 clock
    have passes : ∀ entry ∈ rest, now ≤ entry.1 := fun entry mem =>
      first entry.1 (List.mem_map_of_mem mem)
    refine List.pairwise_append.2 ⟨?_, ih (sound.step now operation) clock ?_ (room_step room), ?_⟩
    · cases operation with
      | publish => cases store.publish S now <;> simp [Operation.returns, Except.toOption, *]
      | _ => exact .nil
    · intro s mem entry inside
      rcases mem_values_step mem with old | ⟨-, rfl⟩
      · exact begun s old entry (List.mem_cons_of_mem _ inside)
      · exact passes entry inside
    · intro bundle returned later mem
      obtain ⟨rfl, published⟩ := mem_returns_iff.1 returned
      exact eq_or_lt_of_mem_publications sound
        (fun s stored => begun s stored _ List.mem_cons_self) passes (room_step room) published mem

/-- With a clock which never goes backwards, two bundles published in a run differ exactly if the
later one has a higher id. -/
theorem published_differ_iff (identity : Identity) (config : KeyStoreConfig) (source : G)
    (created : UInt64) (operations : List (UInt64 × Operation G))
    (clock : (created :: operations.map (·.1)).Pairwise (· ≤ ·))
    (few : changes S (blank identity config source) (founding config created ++ operations) <
      2 ^ 64) :
    (publications S (create S identity config source created) operations).Pairwise
      fun earlier later => earlier ≠ later ↔ earlier.id < later.id := by
  have sound : Sound S (blank identity config source).prekeys 0 0 := ⟨rfl, rfl, nofun, nofun⟩
  obtain ⟨first, later⟩ := List.pairwise_cons.1 clock
  have whole : ((founding (G := G) config created ++ operations).map (·.1)).Pairwise (· ≤ ·) := by
    refine List.pairwise_cons.2 ⟨fun time mem => ?_, clock⟩
    rcases List.mem_cons.1 mem with rfl | mem
    · exact UInt64.le_refl _
    · exact first time mem
  have pairs := pairwise_publications sound whole nofun (by
    change 0 + _ < _
    rw [Nat.zero_add]
    exact few)
  refine List.Pairwise.imp (fun {earlier later} either => ⟨either.resolve_left, ?_⟩) pairs
  rintro less rfl
  exact UInt64.lt_irrefl _ less

/-- The only prekey for one use is consumed between two publications. -/
theorem consumption_raises_id :
    let store := create Suite.standard ⟨⟨.replicate 32 1⟩, ⟨.replicate 32 2⟩⟩
      { oneTimePrekeys := 1 } (⟨.replicate 32 3, 0⟩ : KeyStream) 0
    ∃ first second, publications Suite.standard store
        [(0, .publish), (1, .consume 0), (1, .publish)] = [first, second] ∧
      first.oneTimePrekeys.length = 1 ∧ second.oneTimePrekeys = [] ∧ first.id < second.id := by
  intro store
  have pairs := published_differ_iff (S := .standard) ⟨⟨.replicate 32 1⟩, ⟨.replicate 32 2⟩⟩
    { oneTimePrekeys := 1 } (⟨.replicate 32 3, 0⟩ : KeyStream) 0
    [(0, .publish), (1, .consume 0), (1, .publish)] (by decide)
    (Nat.lt_of_le_of_lt changes_le_length (by decide : 5 < 2 ^ 64))
  refine ⟨_, _, rfl, rfl, rfl, ?_⟩
  refine ((List.pairwise_cons.1 pairs).1 _ List.mem_cons_self).1 fun same => ?_
  have lengths : 1 = 0 := congrArg (·.oneTimePrekeys.length) same
  exact absurd lengths (by decide)

end Confide.KeyStore
