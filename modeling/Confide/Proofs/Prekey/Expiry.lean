import Confide.Entropy.KeyStream
import Confide.Proofs.Prekey.Origin

/-! What is lost when a store removes its expired prekeys. All that goes was out of use at that time,
so neither what is published then nor which handshakes are answered then depends on the removal. But
a prekey which has not begun yet, because the clock was set back, goes as well. -/

set_option autoImplicit false

namespace Confide

namespace SortedMap

variable {κ α : Type} [Ord κ] {m : SortedMap κ α}

theorem filter_filter_self (keep : κ → α → Bool) : (m.filter keep).filter keep = m.filter keep := by
  refine ext (List.filter_filter.trans ?_)
  simp only [Bool.and_self]
  rfl

theorem size_filter_le (keep : κ → α → Bool) : (m.filter keep).size ≤ m.size :=
  List.length_filter_le _ _

theorem values_filter {keep : α → Bool} :
    (m.filter fun _ value => keep value).values = m.values.filter keep := by
  simp only [values, filter, List.filter_map]
  rfl

end SortedMap

namespace KeyStore

variable {G : Type} {S : Suite} {store : KeyStore G} {now : UInt64}

theorem get?_kept {id : UInt32} {s : SignedSecret} :
    (store.kept now).get? id = some s ↔ store.prekeys.signed.get? id = some s ∧
      s.prekey.lifetime.isValid now store.config.grace = true :=
  SortedMap.get?_filter

/-- What is published needs no grace, so that nothing of it goes. -/
theorem latest?_removeExpired :
    (store.removeExpired now).2.prekeys.latest? now = store.prekeys.latest? now := by
  have same : (store.kept now).values.filter (fun s => s.prekey.lifetime.isValid now .zero) =
      store.prekeys.signed.values.filter fun s => s.prekey.lifetime.isValid now .zero := by
    rw [kept, SortedMap.values_filter, List.filter_filter]
    refine List.filter_congr fun s _ => ?_
    cases valid : s.prekey.lifetime.isValid now .zero with
    | false => rfl
    | true => rw [Lifetime.isValid_of_zero valid, Bool.true_and]
  rw [removeExpired_eq, Prekeys.latest?_eq, same, Prekeys.latest?_eq]

theorem publish_removeExpired : (store.removeExpired now).2.publish S now =
    (store.publish S now).map fun bundle =>
      { bundle with id := (store.removeExpired now).2.prekeys.bundleId } := by
  unfold publish
  rw [latest?_removeExpired]
  cases store.prekeys.latest? now with
  | none => rfl
  | some latest =>
    rw [removeExpired_eq]
    rfl

theorem removeExpired_again :
    (store.removeExpired now).2.removeExpired now = (0, (store.removeExpired now).2) := by
  have again : (store.removeExpired now).2.kept now = store.kept now := by
    rw [removeExpired_eq]
    exact SortedMap.filter_filter_self fun _ (s : SignedSecret) =>
      s.prekey.lifetime.isValid now store.config.grace
  have signed : (store.removeExpired now).2.prekeys.signed = store.kept now := by
    rw [removeExpired_eq]
  rw [removeExpired_eq (store.removeExpired now).2, again, signed, Nat.sub_self,
    if_pos rfl, ← signed]

theorem signedSecret_removeExpired {id : UInt32} {secret : SecretKey}
    (answered : store.signedSecret id now = .ok secret) :
    (store.removeExpired now).2.signedSecret id now = .ok secret := by
  obtain ⟨s, stored, valid, same⟩ := signedSecret_eq_ok_iff.1 answered
  rw [removeExpired_eq]
  exact signedSecret_eq_ok_iff.2 ⟨s, get?_kept.2 ⟨stored, valid⟩, valid, same⟩

/-- The prekeys which go are those whose lifetime and grace are over, and those which have not begun
yet; there are none of the latter unless the clock was set back. What was answered and published at
that time still is. -/
theorem early_or_expired_are_removed [Entropy G] (identity : Identity) (config : KeyStoreConfig)
    (source : G) (created : UInt64) (operations : List (UInt64 × Operation G)) (now : UInt64) :
    let store := (create S identity config source created).run S operations
    let removed := (store.removeExpired now).1
    let next := (store.removeExpired now).2
    (∀ id s, next.prekeys.signed.get? id = some s ↔ store.prekeys.signed.get? id = some s ∧
        s.prekey.lifetime.notBefore ≤ now ∧
          now ≤ saturatingAdd s.prekey.lifetime.notAfter store.config.grace.seconds) ∧
      (created ≤ now → (∀ entry ∈ operations, entry.1 ≤ now) →
        ∀ id s, next.prekeys.signed.get? id = some s ↔ store.prekeys.signed.get? id = some s ∧
          ¬now > saturatingAdd s.prekey.lifetime.notAfter store.config.grace.seconds) ∧
      removed + next.prekeys.signed.size = store.prekeys.signed.size ∧
      next.removeExpired now = (0, next) ∧
      (∀ id secret, store.signedSecret id now = .ok secret →
        next.signedSecret id now = .ok secret) ∧
      next.publish S now =
        (store.publish S now).map (fun bundle => { bundle with id := next.prekeys.bundleId }) ∧
      next.prekeys.bundleId =
        (if removed = 0 then store.prekeys.bundleId else store.prekeys.bundleId + 1) ∧
      next = { store with prekeys := { store.prekeys with
        bundleId := next.prekeys.bundleId
        signed := next.prekeys.signed } } := by
  intro store removed next
  have whole := removeExpired_eq store now
  have kept : next.prekeys.signed = store.kept now := congrArg (·.2.prekeys.signed) whole
  have number := congrArg (·.2.prekeys.bundleId) whole
  have lasts : ∀ id s, next.prekeys.signed.get? id = some s ↔
      store.prekeys.signed.get? id = some s ∧ s.prekey.lifetime.notBefore ≤ now ∧
        now ≤ saturatingAdd s.prekey.lifetime.notAfter store.config.grace.seconds := by
    intro id s
    rw [kept, get?_kept, Lifetime.isValid_iff]
    refine and_congr_right fun stored => and_iff_right ?_
    exact lifetime_of_run (SortedMap.mem_values_of_get? stored)
  refine ⟨lasts, fun start clock id s => ?_, ?_, removeExpired_again,
    fun id secret => signedSecret_removeExpired, publish_removeExpired, number, ?_⟩
  · rw [lasts, gt_iff_lt, UInt64.not_lt]
    refine and_congr_right fun stored => and_iff_right ?_
    exact notBefore_of_run (SortedMap.mem_values_of_get? stored) start clock
  · have count : removed = store.prekeys.signed.size - (store.kept now).size :=
      congrArg (·.1) whole
    rw [kept, count]
    exact Nat.sub_add_cancel (SortedMap.size_filter_le _)
  · simp only at number
    rw [kept, number]
    exact congrArg (·.2) whole

/-- Some time after a rotation the first prekey goes and the second one stays. -/
theorem first_prekey_expires :
    let config : KeyStoreConfig :=
      { lifetime := .ofSeconds 10, grace := .ofSeconds 5, oneTimePrekeys := 0 }
    let source : KeyStream := ⟨.replicate 32 3, 0⟩
    let store := (create Suite.standard ⟨⟨.replicate 32 1⟩, ⟨.replicate 32 2⟩⟩ config source 0).run
      Suite.standard [(12, .rotate)]
    let next := (store.removeExpired 16).2
    (∀ s, next.prekeys.signed.get? 0 ≠ some s) ∧ (∃ s, next.prekeys.signed.get? 1 = some s) ∧
      next.prekeys.bundleId = store.prekeys.bundleId + 1 ∧
      next.removeExpired 16 = (0, next) := by
  intro config source store next
  obtain ⟨-, stays, -, again, -, -, number, -⟩ := early_or_expired_are_removed (S := .standard)
    ⟨⟨.replicate 32 1⟩, ⟨.replicate 32 2⟩⟩ config source 0 [(12, .rotate)] 16
  have exactly := stays (by decide) (by simp)
  refine ⟨fun s left => ?_, ⟨_, (exactly 1 _).2 ⟨rfl, by decide⟩⟩,
    number.trans (if_neg (by decide)), again⟩
  obtain ⟨stored, usable⟩ := (exactly 0 s).1 left
  cases (show store.prekeys.signed.get? 0 = some _ from rfl).symm.trans stored
  exact usable (by decide)

/-- The clock is set back by one second, and the only prekey of a new store is removed. -/
theorem early_prekey_is_removed :
    ∃ (store : KeyStore KeyStream) (s : SignedSecret),
      store = create .standard ⟨⟨.replicate 32 1⟩, ⟨.replicate 32 2⟩⟩ { oneTimePrekeys := 0 }
        ⟨.replicate 32 3, 0⟩ 2 ∧
      store.prekeys.signed.get? 0 = some s ∧
      ¬1 > saturatingAdd s.prekey.lifetime.notAfter store.config.grace.seconds ∧
      store.signedSecret 0 2 = .ok s.secret ∧ (store.removeExpired 1).1 = 1 ∧
      (store.removeExpired 1).2.signedSecret 0 2 = .error (.unknownSigned 0) :=
  ⟨_, _, rfl, rfl, by decide, rfl, rfl, rfl⟩

end KeyStore

end Confide
