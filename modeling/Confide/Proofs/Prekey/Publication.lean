import Confide.Proofs.Group.Delivery
import Confide.Proofs.Prekey.Ledger
import Confide.Proofs.Prekey.Origin

/-! What a published bundle is worth. It is valid and shows what the store has, and the store still
has the secrets of all keys in it. A store publishes as long as one of its signed prekeys is valid. -/

set_option autoImplicit false

namespace Confide.KeyStore

variable {G : Type} {S : Suite} {prekeys : Prekeys} {issued : List OneTimePrekey}
  {consumed : List UInt64}

theorem pairwise_offered (prekeys : Prekeys) :
    (offered S prekeys).Pairwise fun first second => first.id < second.id :=
  List.pairwise_map.2 (prekeys.oneTime.ascending.imp Std.compare_eq_lt.1)

theorem mem_offered_iff {prekey : OneTimePrekey} : prekey ∈ offered S prekeys ↔
    ∃ secret, prekeys.oneTime.get? prekey.id = some secret ∧ prekey.key = S.publicKey secret := by
  constructor
  · intro mem
    obtain ⟨entry, listed, rfl⟩ := List.mem_map.1 mem
    exact ⟨entry.2, SortedMap.get?_eq_some_iff.2 listed, rfl⟩
  · obtain ⟨id, key⟩ := prekey
    rintro ⟨secret, stored, rfl⟩
    exact List.mem_map.2 ⟨(id, secret), SortedMap.get?_eq_some_iff.1 stored, rfl⟩

theorem Accounts.eq_of_id (accounts : Accounts S prekeys issued consumed)
    {first second : OneTimePrekey} (isFirst : first ∈ issued) (isSecond : second ∈ issued)
    (same : first.id = second.id) : first = second := by
  have numbers : (issued.map (·.id.toNat)).Nodup := by
    rw [accounts.numbered]
    exact List.nodup_range
  exact List.inj_on_of_nodup_map numbers isFirst isSecond (congrArg UInt64.toNat same)

theorem Accounts.mem_offered_iff (accounts : Accounts S prekeys issued consumed)
    {prekey : OneTimePrekey} :
    prekey ∈ offered S prekeys ↔ prekey ∈ issued ∧ prekey.id ∉ consumed := by
  rw [KeyStore.mem_offered_iff]
  constructor
  · rintro ⟨secret, stored, key⟩
    rw [show prekey = ⟨prekey.id, S.publicKey secret⟩ from key ▸ rfl]
    exact accounts.held prekey.id secret stored
  · rintro ⟨mem, fresh⟩
    obtain ⟨secret, stored⟩ := accounts.kept prekey mem fresh
    have same := accounts.eq_of_id mem (accounts.held prekey.id secret stored).1 rfl
    exact ⟨secret, stored, congrArg OneTimePrekey.key same⟩

theorem Accounts.offered_eq (accounts : Accounts S prekeys issued consumed) :
    offered S prekeys = issued.filter fun prekey => prekey.id ∉ consumed := by
  have left := pairwise_offered (S := S) prekeys
  have right := accounts.ascending.filter fun prekey => decide (prekey.id ∉ consumed)
  have distinct {first second : OneTimePrekey} (less : first.id < second.id) : first ≠ second :=
    fun same => UInt64.lt_irrefl _ (same ▸ less)
  have perm : (offered S prekeys).Perm (issued.filter fun prekey => prekey.id ∉ consumed) := by
    refine (List.perm_ext_iff_of_nodup (left.imp distinct) (right.imp distinct)).2 fun prekey => ?_
    rw [accounts.mem_offered_iff, List.mem_filter, decide_eq_true_iff]
  exact perm.eq_of_pairwise
    (fun _ _ _ _ less greater => absurd less (UInt64.lt_asymm greater)) left right

/-- A bundle which is valid, shows what its owner has, and whose keys the owner answers for. -/
structure Ledger.Honours (S : Suite) (l : Ledger G) (identity : Identity) (now : UInt64)
    (bundle : Bundle) : Prop where
  verified : bundle.verify S now = .ok ()
  owner : bundle.identity = identity.key S
  latest : ∃ s, l.store.prekeys.IsLatest now s ∧ bundle.signedPrekey = s.prekey
  unspent : bundle.oneTimePrekeys = l.issued.filter fun prekey => prekey.id ∉ l.consumed
  ascending : bundle.oneTimePrekeys.Pairwise fun first second => first.id < second.id
  signedSecret : ∃ secret, l.store.signedSecret bundle.signedPrekey.id now = .ok secret ∧
    S.publicKey secret = bundle.signedPrekey.key
  oneTimeSecret : ∀ prekey ∈ bundle.oneTimePrekeys, ∃ secret,
    l.store.oneTimeSecret prekey.id = .ok secret ∧ S.publicKey secret = prekey.key

theorem verify_eq_ok_iff {bundle : Bundle} {now : UInt64} : bundle.verify S now = .ok () ↔
    bundle.signedPrekey.lifetime.isValid now .zero = true ∧
      S.verify bundle.identity.verifyingKey bundle.signedPrekey.signedBytes bundle.signature =
        .ok () := by
  unfold Bundle.verify Lifetime.isValid
  cases bundle.signedPrekey.lifetime.check now .zero with
  | error cause => simp [Except.isOk, Except.toBool]
  | ok _ =>
    cases S.verify bundle.identity.verifyingKey bundle.signedPrekey.signedBytes
      bundle.signature <;> simp [Except.isOk, Except.toBool]

variable [Entropy G]

/-- A store publishes exactly as long as it has a valid signed prekey. The bundle verifies, has the
latest valid signed prekey and all prekeys for one use which were issued and not consumed, and the
store gives out the secret of every key in it. -/
theorem published_is_answerable (identity : Identity) (config : KeyStoreConfig) (source : G)
    (created : UInt64) (operations : List (UInt64 × Operation G)) (now : UInt64)
    (signs : ∀ s ∈ ((create S identity config source created).run S operations).prekeys.signed.values,
      S.Signs identity.signingKey s.prekey.signedBytes)
    (few : config.oneTimePrekeys.toNat + generated operations < 2 ^ 64) :
    let l := (Ledger.create S identity config source created).run S operations
    l.store = (create S identity config source created).run S operations ∧
      (l.store.publish S now = .error .noValidSigned ↔
        ∀ s ∈ l.store.prekeys.signed.values, s.prekey.lifetime.isValid now .zero = false) ∧
      ((∃ s ∈ l.store.prekeys.signed.values, s.prekey.lifetime.isValid now .zero = true) →
        ∃ bundle, l.store.publish S now = .ok bundle ∧ l.Honours S identity now bundle) := by
  intro l
  have isStore : l.store = (create S identity config source created).run S operations :=
    Ledger.store_run ..
  have accounts : Accounts S l.store.prekeys l.issued l.consumed :=
    (Ledger.Sound.create (S := S) identity config source created).run operations
      (by rw [Ledger.length_create]; omega)
  have sound : Sound S l.store.prekeys (1 + rotations operations)
      (config.oneTimePrekeys.toNat + generated operations) :=
    isStore ▸ (Sound.create identity config source created).run operations
  have owner : l.store.identity = identity := isStore ▸ identity_of_run operations
  have none : l.store.publish S now = .error .noValidSigned ↔ l.store.prekeys.latest? now = none :=
    publish_eq_error_iff.trans (and_iff_left rfl)
  refine ⟨isStore, none.trans Prekeys.latest?_eq_none_iff, fun ⟨s, mem, valid⟩ => ?_⟩
  cases found : l.store.prekeys.latest? now with
  | none =>
    have invalid := Prekeys.latest?_eq_none_iff.1 found s mem
    exact absurd (invalid.symm.trans valid) Bool.false_ne_true
  | some latest =>
    have isLatest := sound.latest?_eq_some_iff.1 found
    have stored := sound.mem_values_iff.1 isLatest.stored
    have signed : latest.signature = S.sign identity.signingKey latest.prekey.signedBytes :=
      signature_of_run (isStore ▸ isLatest.stored)
    refine ⟨_, publish_eq_ok_iff.2 ⟨latest, found, rfl⟩, ?_, congrArg (Identity.key S) owner,
      ⟨latest, isLatest, rfl⟩, accounts.offered_eq, pairwise_offered _, ?_, fun prekey offer => ?_⟩
    · refine verify_eq_ok_iff.2 ⟨isLatest.valid, ?_⟩
      rw [owner, signed]
      exact signs latest (isStore ▸ isLatest.stored)
    · exact ⟨latest.secret, signedSecret_eq_ok_iff.2
        ⟨latest, stored, Lifetime.isValid_of_zero isLatest.valid _, rfl⟩,
        (sound.ownSigned _ latest stored).2.1.symm⟩
    · obtain ⟨secret, held, key⟩ := mem_offered_iff.1 offer
      exact ⟨secret, oneTimeSecret_eq_ok_iff.2 held, key.symm⟩

/-- After the only prekey for one use was consumed and a new one was issued, that one is
published. -/
theorem refilled_store_publishes :
    let identity : Identity := ⟨⟨.replicate 32 1⟩, ⟨.replicate 32 2⟩⟩
    let l := (Ledger.create Suite.standard identity { oneTimePrekeys := 1 }
      (⟨.replicate 32 3, 0⟩ : KeyStream) 0).run Suite.standard [(1, .consume 0), (2, .generate 1)]
    ∃ bundle, l.store.publish Suite.standard 3 = .ok bundle ∧
      bundle.verify Suite.standard 3 = .ok () ∧ bundle.oneTimePrekeys.map (·.id) = [1] ∧
      ∃ secret, l.store.oneTimeSecret 1 = .ok secret := by
  intro identity l
  have signs : ∀ s ∈ ((create Suite.standard identity { oneTimePrekeys := 1 }
      (⟨.replicate 32 3, 0⟩ : KeyStream) 0).run Suite.standard
        [(1, .consume 0), (2, .generate 1)]).prekeys.signed.values,
      Suite.standard.Signs identity.signingKey s.prekey.signedBytes := by
    unfold Suite.Signs
    decide +kernel
  obtain ⟨-, -, publishes⟩ := published_is_answerable (S := .standard) identity
    { oneTimePrekeys := 1 } (⟨.replicate 32 3, 0⟩ : KeyStream) 0
    [(1, .consume 0), (2, .generate 1)] 3 signs (by decide : 1 + 1 < 2 ^ 64)
  obtain ⟨bundle, published, honours⟩ := publishes ⟨_, List.mem_cons_self, by decide⟩
  have ids : bundle.oneTimePrekeys.map (·.id) = [1] := by
    rw [honours.unspent]
    rfl
  obtain ⟨prekey, mem, number⟩ := List.mem_map.1 (ids ▸ List.mem_singleton_self 1)
  obtain ⟨secret, answered, -⟩ := honours.oneTimeSecret prekey mem
  exact ⟨bundle, published, honours.verified, ids, secret, number ▸ answered⟩

end Confide.KeyStore
