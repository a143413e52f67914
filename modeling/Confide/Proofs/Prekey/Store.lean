import Confide.Prekey.Store
import Confide.Proofs.Sorted
import Mathlib.Algebra.BigOperators.Group.List.Basic
import Mathlib.Algebra.Ring.Nat

/-! Key stores over time. Whatever a store does, its prekeys belong to their secrets and to their
ids; a prekey which was published stays until it is consumed or runs out. -/

set_option autoImplicit false

namespace Confide

theorem le_saturatingAdd (first second : UInt64) : first ≤ saturatingAdd first second := by
  have fits : min (first.toNat + second.toNat) 0xffffffffffffffff < 2 ^ 64 := by omega
  have low := first.toNat_lt
  rw [UInt64.le_iff_toNat_le, saturatingAdd, UInt64.toNat_ofNat', Nat.mod_eq_of_lt fits]
  omega

theorem Lifetime.isValid_iff {lifetime : Lifetime} {now : UInt64} {grace : Duration} :
    lifetime.isValid now grace = true ↔ lifetime.notBefore ≤ lifetime.notAfter ∧
      lifetime.notBefore ≤ now ∧ now ≤ saturatingAdd lifetime.notAfter grace.seconds := by
  unfold isValid check
  -- The cases in the order of the checks.
  by_cases range : lifetime.notBefore > lifetime.notAfter
  · refine iff_of_false ?_ fun within => UInt64.not_lt.2 within.1 range
    rw [if_pos range]
    exact Bool.false_ne_true
  by_cases early : now < lifetime.notBefore
  · refine iff_of_false ?_ fun within => UInt64.not_lt.2 within.2.1 early
    rw [if_neg range, if_pos early]
    exact Bool.false_ne_true
  by_cases late : now > saturatingAdd lifetime.notAfter grace.seconds
  · refine iff_of_false ?_ fun within => UInt64.not_lt.2 within.2.2 late
    rw [if_neg range, if_neg early, if_pos late]
    exact Bool.false_ne_true
  · rw [if_neg range, if_neg early, if_neg late]
    exact iff_of_true rfl ⟨UInt64.not_lt.1 range, UInt64.not_lt.1 early, UInt64.not_lt.1 late⟩

namespace KeyStore

inductive Operation (G : Type) where
  | rotate
  | generate (n : Nat)
  | consume (id : UInt64)
  | oneTimeSecret (id : UInt64)
  | signedSecret (id : UInt32)
  | publish
  | removeExpired
  /-- Starts again from the store's own snapshot. -/
  | restore (config : KeyStoreConfig) (source : G)

namespace Operation

variable {G : Type}

def rotations : Operation G → Nat
  | .rotate => 1
  | _ => 0

def generated : Operation G → Nat
  | .generate n => n
  | _ => 0

/-- The operation neither consumes the named prekey nor changes the configuration. -/
def Spares (config : KeyStoreConfig) (named : Option UInt64) : Operation G → Prop
  | .consume id => named ≠ some id
  | .restore other _ => other = config
  | _ => True

end Operation

variable {G : Type} [Entropy G] (S : Suite)

/-- The store after an operation. What fails changes nothing. -/
def step (store : KeyStore G) (now : UInt64) : Operation G → KeyStore G
  | .rotate => (store.rotate S now).2
  | .generate n => (store.generate S n).2
  | .consume id =>
    match store.consume id with
    | .error _ => store
    | .ok (_, next) => next
  | .removeExpired => (store.removeExpired now).2
  | .restore config source => restore store.snapshot config source
  | .oneTimeSecret _ | .signedSecret _ | .publish => store

def run (store : KeyStore G) (operations : List (UInt64 × Operation G)) : KeyStore G :=
  operations.foldl (fun store (now, operation) => store.step S now operation) store

def rotations (operations : List (UInt64 × Operation G)) : Nat :=
  (operations.map (·.2.rotations)).sum

def generated (operations : List (UInt64 × Operation G)) : Nat :=
  (operations.map (·.2.generated)).sum

/-- Prekeys belong to their secrets, and their ids were given out, of which there were so many. -/
structure Sound (prekeys : Prekeys) (signed oneTime : Nat) : Prop where
  nextSigned : prekeys.nextSigned = .ofNat signed
  nextOneTime : prekeys.nextOneTime = .ofNat oneTime
  ownSigned : ∀ id s, prekeys.signed.get? id = some s →
    s.prekey.id = id ∧ s.prekey.key = S.publicKey s.secret ∧ id.toNat < signed
  ownOneTime : ∀ id secret, prekeys.oneTime.get? id = some secret → id.toNat < oneTime

variable {S} {prekeys : Prekeys} {signed oneTime : Nat}

theorem Sound.changed (sound : Sound S prekeys signed oneTime) :
    Sound S prekeys.changed signed oneTime :=
  ⟨sound.nextSigned, sound.nextOneTime, sound.ownSigned, sound.ownOneTime⟩

theorem Sound.addSecret (sound : Sound S prekeys signed oneTime) (secret : SecretKey) :
    Sound S { prekeys with
      oneTime := prekeys.oneTime.insert prekeys.nextOneTime secret
      nextOneTime := prekeys.nextOneTime + 1 } signed (oneTime + 1) := by
  refine ⟨sound.nextSigned, ?_, sound.ownSigned, fun id other found => ?_⟩
  · rw [UInt64.ofNat_add, ← sound.nextOneTime]
    rfl
  · by_cases same : id = prekeys.nextOneTime
    · rw [same, sound.nextOneTime, UInt64.toNat_ofNat']
      exact Nat.lt_succ_of_le (Nat.mod_le _ _)
    · rw [SortedMap.get?_insert_of_ne same] at found
      exact Nat.lt_succ_of_lt (sound.ownOneTime id other found)

theorem Sound.addOneTime (sound : Sound S prekeys signed oneTime) (secrets : List SecretKey) :
    Sound S (addOneTime S prekeys secrets).2 signed (oneTime + secrets.length) := by
  induction secrets generalizing prekeys oneTime with
  | nil => exact sound
  | cons secret rest ih =>
    rw [List.length_cons, Nat.add_comm rest.length, ← Nat.add_assoc]
    exact ih (sound.addSecret secret)

theorem length_drawSecrets (n : Nat) (source : G) : (drawSecrets n source).1.length = n := by
  induction n generalizing source with
  | zero => rfl
  | succ n ih => exact congrArg Nat.succ (ih _)

variable {store : KeyStore G}

theorem Sound.rotate (sound : Sound S store.prekeys signed oneTime) (now : UInt64) :
    Sound S (store.rotate S now).2.prekeys (signed + 1) oneTime := by
  refine ⟨?_, sound.nextOneTime, fun id s found => ?_, sound.ownOneTime⟩
  · rw [UInt32.ofNat_add, ← sound.nextSigned]
    rfl
  · by_cases same : id = store.prekeys.nextSigned
    · subst same
      have last := SortedMap.get?_insert_self.symm.trans found
      cases last
      refine ⟨rfl, rfl, ?_⟩
      rw [sound.nextSigned, UInt32.toNat_ofNat']
      exact Nat.lt_succ_of_le (Nat.mod_le _ _)
    · have old := (SortedMap.get?_insert_of_ne same).symm.trans found
      obtain ⟨isId, isKey, low⟩ := sound.ownSigned id s old
      exact ⟨isId, isKey, Nat.lt_succ_of_lt low⟩

theorem Sound.generate (sound : Sound S store.prekeys signed oneTime) (n : Nat) :
    Sound S (store.generate S n).2.prekeys signed (oneTime + n) := by
  have added := sound.addOneTime (drawSecrets n store.source).1
  rw [length_drawSecrets] at added
  unfold KeyStore.generate
  simp only
  split
  · exact added.changed
  · exact added

omit [Entropy G] in
theorem Sound.consume {next : KeyStore G} {id : UInt64} {secret : SecretKey}
    (sound : Sound S store.prekeys signed oneTime)
    (consumed : store.consume id = .ok (secret, next)) : Sound S next.prekeys signed oneTime := by
  unfold KeyStore.consume at consumed
  split at consumed <;> cases consumed
  refine Sound.changed ⟨sound.nextSigned, sound.nextOneTime, sound.ownSigned,
    fun other secret found => ?_⟩
  by_cases same : other = id
  · rw [same, SortedMap.get?_erase_self] at found
    cases found
  · rw [SortedMap.get?_erase_of_ne same] at found
    exact sound.ownOneTime other secret found

omit [Entropy G] in
theorem Sound.removeExpired (sound : Sound S store.prekeys signed oneTime) (now : UInt64) :
    Sound S (store.removeExpired now).2.prekeys signed oneTime := by
  have kept : Sound S { store.prekeys with
      signed := store.prekeys.signed.filter fun _ s =>
        s.prekey.lifetime.isValid now store.config.grace } signed oneTime :=
    ⟨sound.nextSigned, sound.nextOneTime,
      fun id s found => sound.ownSigned id s (SortedMap.get?_filter.1 found).1, sound.ownOneTime⟩
  unfold KeyStore.removeExpired
  simp only
  split
  · exact kept.changed
  · exact kept

theorem Sound.step (sound : Sound S store.prekeys signed oneTime) (now : UInt64)
    (operation : Operation G) :
    Sound S (store.step S now operation).prekeys (signed + operation.rotations)
      (oneTime + operation.generated) := by
  cases operation with
  | rotate => exact sound.rotate now
  | generate n => exact sound.generate n
  | consume id =>
    cases outcome : store.consume id with
    | error error =>
      simp only [KeyStore.step, outcome]
      exact sound
    | ok consumed =>
      simp only [KeyStore.step, outcome]
      exact sound.consume outcome
  | removeExpired => exact sound.removeExpired now
  | restore config source => exact sound
  | oneTimeSecret id => exact sound
  | signedSecret id => exact sound
  | publish => exact sound

theorem Sound.run (sound : Sound S store.prekeys signed oneTime)
    (operations : List (UInt64 × Operation G)) :
    Sound S (store.run S operations).prekeys (signed + rotations operations)
      (oneTime + generated operations) := by
  induction operations generalizing store signed oneTime with
  | nil => exact sound
  | cons entry rest ih =>
    obtain ⟨now, operation⟩ := entry
    have next := ih (sound.step now operation)
    rw [Nat.add_assoc, Nat.add_assoc] at next
    exact next

theorem Sound.create (identity : Identity) (config : KeyStoreConfig) (source : G) (now : UInt64) :
    Sound S (create S identity config source now).prekeys 1 config.oneTimePrekeys.toNat := by
  have empty : Sound S (KeyStore.mk config identity {} source).prekeys 0 0 :=
    ⟨rfl, rfl, nofun, nofun⟩
  have created := (empty.rotate now).generate config.oneTimePrekeys.toNat
  rw [Nat.zero_add, Nat.zero_add] at created
  exact created

/-- A store holds on to a signed prekey and to a prekey for one use, if there is one. -/
structure Keeps (store : KeyStore G) (config : KeyStoreConfig) (identity : Identity)
    (signed : SignedSecret) (oneTime : Option (UInt64 × SecretKey)) : Prop where
  settings : store.config = config
  owner : store.identity = identity
  signed : store.prekeys.signed.get? signed.prekey.id = some signed
  oneTime : ∀ entry ∈ oneTime, store.prekeys.oneTime.get? entry.1 = some entry.2

variable {config : KeyStoreConfig} {identity : Identity} {kept : SignedSecret}
  {named : Option (UInt64 × SecretKey)}

theorem Keeps.rotate (keeps : store.Keeps config identity kept named)
    (sound : Sound S store.prekeys signed oneTime) (room : signed < 2 ^ 32) (now : UInt64) :
    (store.rotate S now).2.Keeps config identity kept named where
  settings := keeps.settings
  owner := keeps.owner
  signed := by
    -- The kept id was given out before, and the ids have not run over since.
    have apart : kept.prekey.id ≠ store.prekeys.nextSigned := by
      intro same
      have low := (sound.ownSigned _ _ keeps.signed).2.2
      rw [same, sound.nextSigned, UInt32.toNat_ofNat', Nat.mod_eq_of_lt room] at low
      exact Nat.lt_irrefl _ low
    exact (SortedMap.get?_insert_of_ne apart).trans keeps.signed
  oneTime := keeps.oneTime

theorem get?_addOneTime {secrets : List SecretKey} {id : UInt64} {secret : SecretKey}
    (sound : Sound S prekeys signed oneTime) (room : oneTime + secrets.length ≤ 2 ^ 64)
    (found : prekeys.oneTime.get? id = some secret) :
    (addOneTime S prekeys secrets).2.oneTime.get? id = some secret := by
  induction secrets generalizing prekeys oneTime with
  | nil => exact found
  | cons other rest ih =>
    rw [List.length_cons] at room
    refine ih (sound.addSecret other) (by omega) ?_
    have apart : id ≠ prekeys.nextOneTime := by
      intro same
      have low := sound.ownOneTime id secret found
      rw [same, sound.nextOneTime, UInt64.toNat_ofNat', Nat.mod_eq_of_lt (by omega)] at low
      exact Nat.lt_irrefl _ low
    exact (SortedMap.get?_insert_of_ne apart).trans found

theorem signed_addOneTime (secrets : List SecretKey) :
    (addOneTime S prekeys secrets).2.signed = prekeys.signed := by
  induction secrets generalizing prekeys with
  | nil => rfl
  | cons secret rest ih => exact ih

theorem Keeps.generate (keeps : store.Keeps config identity kept named)
    (sound : Sound S store.prekeys signed oneTime) (n : Nat) (room : oneTime + n ≤ 2 ^ 64) :
    (store.generate S n).2.Keeps config identity kept named := by
  have length := length_drawSecrets n store.source
  -- Whether or not the change is counted, the prekeys are the same.
  have whole : ∀ prekeys : Prekeys,
      prekeys.signed = (addOneTime S store.prekeys (drawSecrets n store.source).1).2.signed →
      prekeys.oneTime = (addOneTime S store.prekeys (drawSecrets n store.source).1).2.oneTime →
      (KeyStore.mk store.config store.identity prekeys (drawSecrets n store.source).2).Keeps config
        identity kept named := by
    intro prekeys sameSigned sameOneTime
    refine ⟨keeps.settings, keeps.owner, ?_, fun entry mem => ?_⟩
    · simp only [sameSigned, signed_addOneTime]
      exact keeps.signed
    · simp only [sameOneTime]
      exact get?_addOneTime sound (by rw [length]; exact room) (keeps.oneTime entry mem)
  unfold KeyStore.generate
  simp only
  split <;> exact whole _ rfl rfl

omit [Entropy G] in
theorem Keeps.consume {next : KeyStore G} {id : UInt64} {secret : SecretKey}
    (keeps : store.Keeps config identity kept named)
    (consumed : store.consume id = .ok (secret, next)) (other : named.map (·.1) ≠ some id) :
    next.Keeps config identity kept named := by
  unfold KeyStore.consume at consumed
  split at consumed <;> cases consumed
  refine ⟨keeps.settings, keeps.owner, keeps.signed, fun entry mem => ?_⟩
  have apart : entry.1 ≠ id := by
    rintro rfl
    rw [Option.mem_def.1 mem] at other
    exact other rfl
  exact (SortedMap.get?_erase_of_ne apart).trans (keeps.oneTime entry mem)

omit [Entropy G] in
theorem Keeps.removeExpired (keeps : store.Keeps config identity kept named) {now : UInt64}
    (valid : kept.prekey.lifetime.isValid now config.grace = true) :
    (store.removeExpired now).2.Keeps config identity kept named := by
  have stays : (store.prekeys.signed.filter fun _ s =>
      s.prekey.lifetime.isValid now store.config.grace).get? kept.prekey.id = some kept :=
    SortedMap.get?_filter.2 ⟨keeps.signed, by rw [keeps.settings]; exact valid⟩
  unfold KeyStore.removeExpired
  simp only
  split <;> exact ⟨keeps.settings, keeps.owner, stays, keeps.oneTime⟩

theorem Keeps.step (keeps : store.Keeps config identity kept named)
    (sound : Sound S store.prekeys signed oneTime) {now : UInt64} {operation : Operation G}
    (valid : kept.prekey.lifetime.isValid now config.grace = true)
    (spares : operation.Spares config (named.map (·.1)))
    (roomSigned : signed + operation.rotations ≤ 2 ^ 32)
    (roomOneTime : oneTime + operation.generated ≤ 2 ^ 64) :
    (store.step S now operation).Keeps config identity kept named := by
  cases operation with
  | rotate => exact keeps.rotate sound roomSigned now
  | generate n => exact keeps.generate sound n roomOneTime
  | consume id =>
    cases outcome : store.consume id with
    | error error =>
      simp only [KeyStore.step, outcome]
      exact keeps
    | ok consumed =>
      simp only [KeyStore.step, outcome]
      exact keeps.consume outcome spares
  | removeExpired => exact keeps.removeExpired valid
  | restore other source =>
    obtain rfl : other = config := spares
    exact ⟨rfl, keeps.owner, keeps.signed, keeps.oneTime⟩
  | oneTimeSecret id => exact keeps
  | signedSecret id => exact keeps
  | publish => exact keeps

theorem Keeps.run (keeps : store.Keeps config identity kept named)
    (sound : Sound S store.prekeys signed oneTime) {operations : List (UInt64 × Operation G)}
    (valid : ∀ entry ∈ operations, kept.prekey.lifetime.isValid entry.1 config.grace = true)
    (spares : ∀ entry ∈ operations, entry.2.Spares config (named.map (·.1)))
    (roomSigned : signed + rotations operations ≤ 2 ^ 32)
    (roomOneTime : oneTime + generated operations ≤ 2 ^ 64) :
    (store.run S operations).Keeps config identity kept named := by
  induction operations generalizing store signed oneTime with
  | nil => exact keeps
  | cons entry rest ih =>
    obtain ⟨now, operation⟩ := entry
    simp only [rotations, generated, List.map_cons, List.sum_cons] at roomSigned roomOneTime
    have headSigned : signed + operation.rotations ≤ 2 ^ 32 := by omega
    have headOneTime : oneTime + operation.generated ≤ 2 ^ 64 := by omega
    have next := keeps.step sound (valid _ List.mem_cons_self) (spares _ List.mem_cons_self)
      headSigned headOneTime
    refine ih next (sound.step now operation) (fun entry mem => valid entry (.tail _ mem))
      (fun entry mem => spares entry (.tail _ mem)) ?_ ?_
    · unfold rotations
      omega
    · unfold generated
      omega

/-- A store publishes a signed prekey of its own, valid at the time, and the keys of its prekeys for
one use. -/
structure Publishes (S : Suite) (store : KeyStore G) (now : UInt64) (bundle : Bundle)
    (latest : SignedSecret) : Prop where
  stored : store.prekeys.signed.get? latest.prekey.id = some latest
  valid : latest.prekey.lifetime.isValid now .zero = true
  prekey : bundle.signedPrekey = latest.prekey
  key : latest.prekey.key = S.publicKey latest.secret
  identity : bundle.identity = store.identity.key S
  oneTime : ∀ prekey ∈ bundle.oneTimePrekeys, ∃ secret,
    store.prekeys.oneTime.get? prekey.id = some secret ∧ prekey.key = S.publicKey secret

omit [Entropy G] in
theorem mem_of_latest? {now : UInt64} {latest : SignedSecret}
    (found : prekeys.latest? now = some latest) :
    latest ∈ prekeys.signed.values ∧ latest.prekey.lifetime.isValid now .zero = true := by
  -- By induction on the candidates, with any best one so far. All that matters of a step is that it
  -- keeps the best one or takes the next.
  have chosen {step : Option SignedSecret → SignedSecret → Option SignedSecret}
      (either : ∀ best s, step best s = best ∨ step best s = some s)
      (candidates : List SignedSecret) (best : Option SignedSecret)
      (picked : candidates.foldl step best = some latest) :
      best = some latest ∨ latest ∈ candidates := by
    induction candidates generalizing best with
    | nil => exact .inl picked
    | cons s rest ih =>
      rcases ih _ picked with same | mem
      · rcases either best s with kept | taken
        · exact .inl (kept.symm.trans same)
        · cases taken.symm.trans same
          exact .inr List.mem_cons_self
      · exact .inr (List.mem_cons_of_mem s mem)
  refine (chosen (fun best s => ?_) _ none found).elim nofun fun mem => List.mem_filter.1 mem
  cases best with
  | none => exact .inr rfl
  | some best =>
    simp only
    split
    · exact .inl rfl
    · exact .inr rfl

omit [Entropy G] in
theorem publishes_of_publish (sound : Sound S store.prekeys signed oneTime) {now : UInt64}
    {bundle : Bundle} (published : store.publish S now = .ok bundle) :
    ∃ latest, Publishes S store now bundle latest := by
  unfold KeyStore.publish at published
  split at published <;> cases published
  rename_i latest found
  obtain ⟨mem, valid⟩ := mem_of_latest? found
  obtain ⟨⟨id, s⟩, inside, rfl⟩ := List.mem_map.1 mem
  have stored := SortedMap.get?_eq_some_iff.2 inside
  obtain ⟨rfl, key, -⟩ := sound.ownSigned id s stored
  refine ⟨s, stored, valid, rfl, key, rfl, fun prekey offered => ?_⟩
  obtain ⟨entry, listed, rfl⟩ := List.mem_map.1 offered
  exact ⟨entry.2, SortedMap.get?_eq_some_iff.2 listed, rfl⟩

end KeyStore

end Confide
