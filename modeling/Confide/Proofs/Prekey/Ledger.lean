import Confide.Entropy.KeyStream
import Confide.Proofs.Prekey.Store
import Mathlib.Data.List.Nodup

/-! The books of a key store. Beside the store stand the prekeys for one use which it has issued and
the ids of those which were consumed. What is on the one list and not on the other is what the store
still has. -/

set_option autoImplicit false

namespace Confide.KeyStore

/-- A store, all prekeys for one use it has issued, the oldest first, and the ids of those which
were taken out again. -/
structure Ledger (G : Type) where
  store : KeyStore G
  issued : List OneTimePrekey
  consumed : List UInt64

variable {G : Type}

section
variable [Entropy G] (S : Suite)

def Operation.issues (store : KeyStore G) : Operation G → List OneTimePrekey
  | .generate n => (store.generate S n).1
  | _ => []

/-- The ids which an operation takes out of a store: at most one, and none if it fails. -/
def Operation.consumes (store : KeyStore G) : Operation G → List UInt64
  | .consume id =>
    match store.consume id with
    | .error _ => []
    | .ok _ => [id]
  | _ => []

namespace Ledger

def create (identity : Identity) (config : KeyStoreConfig) (source : G) (now : UInt64) :
    Ledger G :=
  let empty : KeyStore G := ⟨config, identity, {}, source⟩
  let issued := ((empty.rotate S now).2.generate S config.oneTimePrekeys.toNat).1
  ⟨KeyStore.create S identity config source now, issued, []⟩

def step (l : Ledger G) (now : UInt64) (operation : Operation G) : Ledger G where
  store := l.store.step S now operation
  issued := l.issued ++ operation.issues S l.store
  consumed := l.consumed ++ operation.consumes l.store

def run (l : Ledger G) (operations : List (UInt64 × Operation G)) : Ledger G :=
  operations.foldl (fun l (now, operation) => l.step S now operation) l

/-- The books do not get in the way of the store. -/
theorem store_run (l : Ledger G) (operations : List (UInt64 × Operation G)) :
    (l.run S operations).store = l.store.run S operations := by
  induction operations generalizing l with
  | nil => rfl
  | cons entry rest ih => exact ih (l.step S entry.1 entry.2)

end Ledger

end

/-- The ids were given out in turn, and the store has a secret for each of them which was not
consumed, namely the one which belongs to the issued key. -/
structure Accounts (S : Suite) (prekeys : Prekeys) (issued : List OneTimePrekey)
    (consumed : List UInt64) : Prop where
  next : prekeys.nextOneTime = .ofNat issued.length
  numbered : issued.map (·.id.toNat) = List.range issued.length
  held : ∀ id secret, prekeys.oneTime.get? id = some secret →
    ⟨id, S.publicKey secret⟩ ∈ issued ∧ id ∉ consumed
  kept : ∀ prekey ∈ issued, prekey.id ∉ consumed →
    ∃ secret, prekeys.oneTime.get? prekey.id = some secret
  spent : ∀ id ∈ consumed, ∃ prekey ∈ issued, prekey.id = id
  once : consumed.Nodup

variable {S : Suite} {prekeys other : Prekeys} {issued : List OneTimePrekey}
  {consumed : List UInt64}

theorem Accounts.empty : Accounts S {} [] [] :=
  ⟨rfl, rfl, nofun, nofun, nofun, List.nodup_nil⟩

theorem Accounts.of_same (accounts : Accounts S prekeys issued consumed)
    (oneTime : other.oneTime = prekeys.oneTime) (next : other.nextOneTime = prekeys.nextOneTime) :
    Accounts S other issued consumed where
  next := next.trans accounts.next
  numbered := accounts.numbered
  held := by
    rw [oneTime]
    exact accounts.held
  kept := by
    rw [oneTime]
    exact accounts.kept
  spent := accounts.spent
  once := accounts.once

theorem Accounts.lt_length (accounts : Accounts S prekeys issued consumed) {prekey : OneTimePrekey}
    (mem : prekey ∈ issued) : prekey.id.toNat < issued.length := by
  have inside := List.mem_map_of_mem (f := (·.id.toNat)) mem
  rw [accounts.numbered] at inside
  exact List.mem_range.1 inside

theorem Accounts.ascending (accounts : Accounts S prekeys issued consumed) :
    issued.Pairwise fun first second => first.id < second.id := by
  have numbers : (issued.map (·.id.toNat)).Pairwise (· < ·) := by
    rw [accounts.numbered]
    exact List.pairwise_lt_range
  exact (List.pairwise_map.1 numbers).imp UInt64.lt_iff_toNat_lt.2

/-- As long as the ids do not run over, the next one is new. -/
theorem Accounts.addSecret (accounts : Accounts S prekeys issued consumed)
    (room : issued.length < 2 ^ 64) (secret : SecretKey) :
    Accounts S
      { prekeys with
        oneTime := prekeys.oneTime.insert prekeys.nextOneTime secret
        nextOneTime := prekeys.nextOneTime + 1 }
      (issued ++ [⟨prekeys.nextOneTime, S.publicKey secret⟩]) consumed := by
  have number : prekeys.nextOneTime.toNat = issued.length := by
    rw [accounts.next, UInt64.toNat_ofNat', Nat.mod_eq_of_lt room]
  have unissued : ∀ prekey ∈ issued, prekey.id ≠ prekeys.nextOneTime := by
    intro prekey mem same
    have low := accounts.lt_length mem
    rw [same, number] at low
    exact Nat.lt_irrefl _ low
  refine ⟨?_, ?_, fun id found stored => ?_, fun prekey mem fresh => ?_, fun id mem => ?_,
    accounts.once⟩
  · rw [List.length_append, List.length_singleton, UInt64.ofNat_add, ← accounts.next]
    rfl
  · rw [List.map_append, List.map_singleton, accounts.numbered, List.length_append,
      List.length_singleton, List.range_succ, number]
  · by_cases same : id = prekeys.nextOneTime
    · subst same
      cases SortedMap.get?_insert_self.symm.trans stored
      refine ⟨List.mem_append_right _ (List.mem_singleton_self _), fun gone => ?_⟩
      obtain ⟨prekey, mem, same⟩ := accounts.spent _ gone
      exact unissued prekey mem same
    · obtain ⟨mem, fresh⟩ := accounts.held id found
        ((SortedMap.get?_insert_of_ne same).symm.trans stored)
      exact ⟨List.mem_append_left _ mem, fresh⟩
  · rcases List.mem_append.1 mem with old | last
    · obtain ⟨found, stored⟩ := accounts.kept prekey old fresh
      exact ⟨found, (SortedMap.get?_insert_of_ne (unissued prekey old)).trans stored⟩
    · rw [List.mem_singleton.1 last]
      exact ⟨secret, SortedMap.get?_insert_self⟩
  · obtain ⟨prekey, old, same⟩ := accounts.spent id mem
    exact ⟨prekey, List.mem_append_left _ old, same⟩

theorem Accounts.addOneTime (accounts : Accounts S prekeys issued consumed)
    (secrets : List SecretKey) (room : issued.length + secrets.length ≤ 2 ^ 64) :
    Accounts S (addOneTime S prekeys secrets).2 (issued ++ (addOneTime S prekeys secrets).1)
      consumed := by
  induction secrets generalizing prekeys issued with
  | nil =>
    rw [KeyStore.addOneTime, List.append_nil]
    exact accounts
  | cons secret rest ih =>
    rw [List.length_cons] at room
    have first := accounts.addSecret (by omega) secret
    have all := ih first (by rw [List.length_append, List.length_singleton]; omega)
    rw [List.append_assoc] at all
    exact all

theorem Accounts.consume (accounts : Accounts S prekeys issued consumed) {id : UInt64}
    {secret : SecretKey} (stored : prekeys.oneTime.get? id = some secret) :
    Accounts S { prekeys with oneTime := prekeys.oneTime.erase id } issued (consumed ++ [id]) := by
  obtain ⟨mem, fresh⟩ := accounts.held id secret stored
  have once : (consumed ++ [id]).Nodup := by
    refine List.nodup_append.2 ⟨accounts.once, List.nodup_singleton _, ?_⟩
    rintro other gone _ last rfl
    exact fresh (List.mem_singleton.1 last ▸ gone)
  refine ⟨accounts.next, accounts.numbered, fun other found rest => ?_, fun prekey mem left => ?_,
    fun other gone => ?_, once⟩
  · by_cases same : other = id
    · rw [same, SortedMap.get?_erase_self] at rest
      cases rest
    · rw [SortedMap.get?_erase_of_ne same] at rest
      obtain ⟨mem, unspent⟩ := accounts.held other found rest
      exact ⟨mem, by simp [unspent, same]⟩
  · rw [List.mem_append, List.mem_singleton, not_or] at left
    obtain ⟨found, rest⟩ := accounts.kept prekey mem left.1
    exact ⟨found, (SortedMap.get?_erase_of_ne left.2).trans rest⟩
  · rcases List.mem_append.1 gone with old | last
    · exact accounts.spent other old
    · rw [List.mem_singleton.1 last]
      exact ⟨_, mem, rfl⟩

variable {store : KeyStore G}

theorem consume_eq_ok_iff {id : UInt64} {secret : SecretKey} {next : KeyStore G} :
    store.consume id = .ok (secret, next) ↔ store.prekeys.oneTime.get? id = some secret ∧
      next = { store with
        prekeys := { store.prekeys with oneTime := store.prekeys.oneTime.erase id }.changed } := by
  unfold consume
  cases store.prekeys.oneTime.get? id with
  | none => simp
  | some stored => simp [eq_comm]

theorem Accounts.consume_ok_iff (accounts : Accounts S store.prekeys issued consumed)
    {id : UInt64} :
    (∃ taken, store.consume id = .ok taken) ↔
      (∃ prekey ∈ issued, prekey.id = id) ∧ id ∉ consumed := by
  constructor
  · rintro ⟨⟨secret, next⟩, taken⟩
    obtain ⟨mem, fresh⟩ := accounts.held id secret (consume_eq_ok_iff.1 taken).1
    exact ⟨⟨_, mem, rfl⟩, fresh⟩
  · rintro ⟨⟨prekey, mem, rfl⟩, fresh⟩
    obtain ⟨secret, stored⟩ := accounts.kept prekey mem fresh
    exact ⟨_, consume_eq_ok_iff.2 ⟨stored, rfl⟩⟩

theorem consume_eq_error {id : UInt64} (absent : ¬∃ taken, store.consume id = .ok taken) :
    store.consume id = .error (.exhausted id) := by
  unfold consume at absent ⊢
  split at absent
  · exact absurd ⟨_, rfl⟩ absent
  · simp only [*]

variable [Entropy G]

theorem Accounts.generate (accounts : Accounts S store.prekeys issued consumed) {n : Nat}
    (room : issued.length + n ≤ 2 ^ 64) :
    Accounts S (store.generate S n).2.prekeys (issued ++ (store.generate S n).1) consumed := by
  have added := accounts.addOneTime (drawSecrets n store.source).1
    (by rw [length_drawSecrets]; exact room)
  unfold KeyStore.generate
  simp only
  split
  · exact added.of_same rfl rfl
  · exact added

theorem Accounts.step (accounts : Accounts S store.prekeys issued consumed) (now : UInt64)
    {operation : Operation G} (room : issued.length + operation.generated ≤ 2 ^ 64) :
    Accounts S (store.step S now operation).prekeys (issued ++ operation.issues S store)
      (consumed ++ operation.consumes store) := by
  -- Only two of the operations touch the prekeys for one use.
  have other : ∀ next : Prekeys, next.oneTime = store.prekeys.oneTime →
      next.nextOneTime = store.prekeys.nextOneTime →
      Accounts S next (issued ++ []) (consumed ++ []) := by
    intro next oneTime number
    rw [List.append_nil, List.append_nil]
    exact accounts.of_same oneTime number
  cases operation with
  | rotate => exact other _ rfl rfl
  | generate n =>
    change Accounts S _ _ (consumed ++ [])
    rw [List.append_nil]
    exact accounts.generate room
  | consume id =>
    cases outcome : store.consume id with
    | error error =>
      simp only [KeyStore.step, Operation.consumes, outcome]
      exact other _ rfl rfl
    | ok taken =>
      obtain ⟨stored, next⟩ := consume_eq_ok_iff.1 outcome
      simp only [KeyStore.step, Operation.consumes, Operation.issues, outcome, next,
        List.append_nil]
      exact (accounts.consume stored).of_same rfl rfl
  | removeExpired =>
    refine other _ ?_ ?_ <;> simp only [KeyStore.step, removeExpired] <;> split <;> rfl
  | restore config source => exact other _ rfl rfl
  | oneTimeSecret id => exact other _ rfl rfl
  | signedSecret id => exact other _ rfl rfl
  | publish => exact other _ rfl rfl

theorem length_addOneTime (prekeys : Prekeys) (secrets : List SecretKey) :
    (addOneTime S prekeys secrets).1.length = secrets.length := by
  induction secrets generalizing prekeys with
  | nil => rfl
  | cons secret rest ih => exact congrArg Nat.succ (ih _)

theorem length_generate (store : KeyStore G) (n : Nat) : (store.generate S n).1.length = n :=
  (length_addOneTime _ _).trans (length_drawSecrets _ _)

theorem length_issues (store : KeyStore G) (operation : Operation G) :
    (operation.issues S store).length = operation.generated := by
  cases operation with
  | generate n => exact length_generate store n
  | _ => rfl

namespace Ledger

def Sound (S : Suite) (l : Ledger G) : Prop := Accounts S l.store.prekeys l.issued l.consumed

variable {l : Ledger G}

theorem Sound.run (sound : l.Sound S) (operations : List (UInt64 × Operation G))
    (room : l.issued.length + generated operations ≤ 2 ^ 64) : (l.run S operations).Sound S := by
  induction operations generalizing l with
  | nil => exact sound
  | cons entry rest ih =>
    obtain ⟨now, operation⟩ := entry
    simp only [generated, List.map_cons, List.sum_cons] at room
    have next : (l.step S now operation).Sound S :=
      Accounts.step sound now (by omega)
    refine ih next ?_
    simp only [step, List.length_append, length_issues, generated]
    omega

theorem length_create (identity : Identity) (config : KeyStoreConfig) (source : G) (now : UInt64) :
    (create S identity config source now).issued.length = config.oneTimePrekeys.toNat :=
  length_generate _ _

theorem Sound.create (identity : Identity) (config : KeyStoreConfig) (source : G) (now : UInt64) :
    (create S identity config source now).Sound S := by
  have rotated :
      Accounts S ((KeyStore.mk config identity {} source).rotate S now).2.prekeys [] [] :=
    Accounts.empty.of_same rfl rfl
  have room := Nat.le_of_lt config.oneTimePrekeys.toNat_lt
  exact rotated.generate (by rw [List.length_nil, Nat.zero_add]; exact room)

end Ledger

/-- Prekeys for one use are issued under growing ids, and each is consumed at most once: it can be
as long as it was not before, and gives the secret of the issued key. -/
theorem consumed_at_most_once (identity : Identity) (config : KeyStoreConfig) (source : G)
    (created : UInt64) (operations : List (UInt64 × Operation G))
    (few : config.oneTimePrekeys.toNat + generated operations < 2 ^ 64) :
    let l := (Ledger.create S identity config source created).run S operations
    l.store = (create S identity config source created).run S operations ∧
      l.issued.Pairwise (fun first second => first.id < second.id) ∧ l.consumed.Nodup ∧
      (∀ id, (∃ taken, l.store.consume id = .ok taken) ↔
        (∃ prekey ∈ l.issued, prekey.id = id) ∧ id ∉ l.consumed) ∧
      (∀ id secret next, l.store.consume id = .ok (secret, next) →
        ⟨id, S.publicKey secret⟩ ∈ l.issued) ∧
      ∀ id, ¬((∃ prekey ∈ l.issued, prekey.id = id) ∧ id ∉ l.consumed) →
        l.store.consume id = .error (.exhausted id) ∧
          ∀ now, l.step S now (.consume id) = l := by
  have sound := (Ledger.Sound.create (S := S) identity config source created).run operations
    (by rw [Ledger.length_create]; omega)
  refine ⟨Ledger.store_run .., sound.ascending, sound.once, fun id => sound.consume_ok_iff,
    fun id secret next taken => (sound.held id secret (consume_eq_ok_iff.1 taken).1).1,
    fun id absent => ?_⟩
  have refused := consume_eq_error (mt sound.consume_ok_iff.1 absent)
  refine ⟨refused, fun now => ?_⟩
  simp only [Ledger.step, KeyStore.step, Operation.issues, Operation.consumes, refused,
    List.append_nil]

/-- After a prekey was consumed, a refill and a restored store do not bring it back. -/
theorem consumed_before_refill :
    let identity : Identity := ⟨⟨.replicate 32 1⟩, ⟨.replicate 32 2⟩⟩
    let source : KeyStream := ⟨.replicate 32 3, 0⟩
    let l := (Ledger.create Suite.standard identity { oneTimePrekeys := 1 } source 0).run
      Suite.standard [(0, .consume 0), (0, .generate 1), (0, .restore {} source)]
    l.issued.map (·.id) = [0, 1] ∧ l.consumed = [0] ∧
      l.store.consume 0 = .error (.exhausted 0) ∧ ∃ taken, l.store.consume 1 = .ok taken := by
  intro identity source l
  have issued : l.issued.map (·.id) = [0, 1] := rfl
  have consumed : l.consumed = [0] := rfl
  obtain ⟨-, -, -, taken, -, refused⟩ := consumed_at_most_once (S := .standard)
    identity { oneTimePrekeys := 1 } source 0
    [(0, .consume 0), (0, .generate 1), (0, .restore {} source)] (by decide : 1 + 1 < 2 ^ 64)
  refine ⟨issued, consumed, (refused 0 fun left => left.2 ?_).1, (taken 1).2 ⟨?_, ?_⟩⟩
  · exact List.mem_singleton_self _
  · have mem : 1 ∈ l.issued.map (·.id) := by
      rw [issued]
      exact List.mem_cons_of_mem _ (List.mem_singleton_self _)
    exact List.mem_map.1 mem
  · exact (by decide : (1 : UInt64) ∉ [(0 : UInt64)])

end Confide.KeyStore
