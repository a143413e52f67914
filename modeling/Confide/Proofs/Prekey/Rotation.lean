import Confide.Entropy.KeyStream
import Confide.Proofs.Prekey.Origin

/-! When a rotation shows. What a store publishes right after a rotation is the new prekey, unless an
older one which is still valid ends later, or ends at the same time under a higher id. No older one
does so as long as lifetimes do not get shorter and ids do not run over, however the clock moves. -/

set_option autoImplicit false

namespace Confide.KeyStore

variable {G : Type}

/-- Whoever restores the store by this operation configures no longer lifetime than this one. -/
def Operation.LastsAtMost (bound : Duration) : Operation G → Prop
  | .restore config _ => config.lifetime.seconds ≤ bound.seconds
  | _ => True

variable [Entropy G] {S : Suite} {store : KeyStore G} {now : UInt64} {signed oneTime : Nat}

theorem minted_mem_rotate :
    store.minted S now ∈ (store.rotate S now).2.prekeys.signed.values := by
  have stored : (store.prekeys.signed.insert store.prekeys.nextSigned (store.minted S now)).get?
      store.prekeys.nextSigned = some (store.minted S now) := SortedMap.get?_insert_self
  rw [rotate_eq]
  exact SortedMap.mem_values_of_get? stored

theorem minted_isValid : (store.minted S now).prekey.lifetime.isValid now .zero = true :=
  Lifetime.lasting_isValid now _

theorem exists_latest_of_rotate (sound : Sound S store.prekeys signed oneTime) :
    ∃ s, (store.rotate S now).2.prekeys.IsLatest now s ∧
      (store.rotate S now).2.prekeys.latest? now = some s := by
  cases found : (store.rotate S now).2.prekeys.latest? now with
  | none =>
    have invalid := Prekeys.latest?_eq_none_iff.1 found _ minted_mem_rotate
    exact absurd (invalid.symm.trans minted_isValid) Bool.false_ne_true
  | some s => exact ⟨s, (sound.rotate now).latest?_eq_some_iff.1 found, rfl⟩

theorem latest_eq_minted_iff {s : SignedSecret}
    (isLatest : (store.rotate S now).2.prekeys.IsLatest now s) :
    s.prekey = (store.rotate S now).1 ↔ ∀ other ∈ (store.rotate S now).2.prekeys.signed.values,
      other.prekey.lifetime.isValid now .zero = true →
      other.prekey = (store.rotate S now).1 ∨ other.prekey.Precedes (store.rotate S now).1 := by
  constructor
  · intro same other mem valid
    rw [← same]
    exact (isLatest.last other mem valid).imp_left (congrArg SignedSecret.prekey)
  · intro others
    refine (others s isLatest.stored isLatest.valid).resolve_right fun earlier => ?_
    rcases isLatest.last _ minted_mem_rotate minted_isValid with same | later
    · have itself : s.prekey.Precedes s.prekey := same ▸ earlier
      exact itself.asymm itself
    · exact later.asymm earlier

theorem config_step {bound : Duration} {operation : Operation G}
    (lasts : store.config.lifetime.seconds ≤ bound.seconds) (short : operation.LastsAtMost bound) :
    (store.step S now operation).config.lifetime.seconds ≤ bound.seconds := by
  cases operation with
  | restore config source => exact short
  | consume id =>
    simp only [step, consume]
    cases store.prekeys.oneTime.get? id <;> exact lasts
  | _ => exact lasts

theorem config_run {bound : Duration} {operations : List (UInt64 × Operation G)}
    (lasts : store.config.lifetime.seconds ≤ bound.seconds)
    (short : ∀ entry ∈ operations, entry.2.LastsAtMost bound) :
    (store.run S operations).config.lifetime.seconds ≤ bound.seconds := by
  induction operations generalizing store with
  | nil => exact lasts
  | cons entry rest ih =>
    exact ih (config_step lasts (short entry List.mem_cons_self))
      fun other mem => short other (List.mem_cons_of_mem entry mem)

variable {identity : Identity} {config : KeyStoreConfig} {source : G} {created : UInt64}
  {operations : List (UInt64 × Operation G)} {bound : Duration}

theorem notAfter_le_of_run {s : SignedSecret}
    (mem : s ∈ ((create S identity config source created).run S operations).prekeys.signed.values)
    (lasts : config.lifetime.seconds ≤ bound.seconds)
    (short : ∀ entry ∈ operations, entry.2.LastsAtMost bound) :
    s.prekey.lifetime.notAfter ≤ saturatingAdd s.prekey.lifetime.notBefore bound.seconds := by
  obtain ⟨before, time, after, whole, rfl⟩ := exists_minted mem
  have configured : ((blank identity config source).run S before).config.lifetime.seconds ≤
      bound.seconds := by
    refine config_run lasts fun entry inside => ?_
    have listed : entry ∈ founding config created ++ operations :=
      whole ▸ List.mem_append_left _ inside
    rcases List.mem_append.1 listed with first | later
    · simp only [founding, List.mem_cons, List.not_mem_nil, or_false] at first
      rcases first with rfl | rfl <;> trivial
    · exact short entry later
  exact saturatingAdd_mono (UInt64.le_refl time) configured

/-- Right after a rotation a prekey is published. It is the new one if and only if all other valid
ones end earlier, or at the same time under a lower id. That is so if no lifetime before was longer
and there were fewer than 2^32 rotations. -/
theorem rotated_is_published_iff (identity : Identity) (config : KeyStoreConfig) (source : G)
    (created : UInt64) (operations : List (UInt64 × Operation G)) (now : UInt64) :
    let store := (create S identity config source created).run S operations
    let prekey := (store.rotate S now).1
    let next := (store.rotate S now).2
    ∃ bundle, next.publish S now = .ok bundle ∧
      (bundle.signedPrekey = prekey ↔ ∀ s ∈ next.prekeys.signed.values,
        s.prekey.lifetime.isValid now .zero = true →
          s.prekey = prekey ∨ s.prekey.Precedes prekey) ∧
      (config.lifetime.seconds ≤ store.config.lifetime.seconds →
        (∀ entry ∈ operations, entry.2.LastsAtMost store.config.lifetime) →
        1 + rotations operations < 2 ^ 32 → bundle.signedPrekey = prekey) := by
  intro store prekey next
  have sound : Sound S store.prekeys (1 + rotations operations)
      (config.oneTimePrekeys.toNat + generated operations) :=
    (Sound.create identity config source created).run operations
  obtain ⟨s, isLatest, found⟩ : ∃ s, next.prekeys.IsLatest now s ∧
    next.prekeys.latest? now = some s := exists_latest_of_rotate sound
  refine ⟨_, publish_eq_ok_iff.2 ⟨s, found, rfl⟩, latest_eq_minted_iff isLatest,
    fun lasts short few => (latest_eq_minted_iff isLatest).2 fun other mem valid => ?_⟩
  have stepped : other ∈ (store.step S now .rotate).prekeys.signed.values := mem
  rcases mem_values_step stepped with old | ⟨-, new⟩
  · have ends : other.prekey.lifetime.notAfter ≤ prekey.lifetime.notAfter :=
      UInt64.le_trans (notAfter_le_of_run old lasts short)
        (saturatingAdd_mono (Lifetime.isValid_zero_iff.1 valid).1 (UInt64.le_refl _))
    have number : other.prekey.id < prekey.id := by
      have low := (sound.ownSigned _ other (sound.mem_values_iff.1 old)).2.2
      have last : prekey.id = .ofNat (1 + rotations operations) := sound.nextSigned
      rw [UInt32.lt_iff_toNat_lt, last, UInt32.toNat_ofNat', Nat.mod_eq_of_lt few]
      exact low
    rcases UInt64.lt_or_eq_of_le ends with earlier | together
    · exact .inr (.inl earlier)
    · exact .inr (.inr ⟨together, number⟩)
  · exact .inl (congrArg SignedSecret.prekey new)

/-- A rotation after the clock was set back: the prekey before it has not begun, and the first one
ends earlier. -/
theorem rotated_after_clock_set_back :
    let store := (create Suite.standard ⟨⟨.replicate 32 1⟩, ⟨.replicate 32 2⟩⟩ {}
      (⟨.replicate 32 3, 0⟩ : KeyStream) 5).run Suite.standard [(7, .rotate)]
    (store.rotate Suite.standard 6).1.id = 2 ∧
      ∃ bundle, (store.rotate Suite.standard 6).2.publish Suite.standard 6 = .ok bundle ∧
        bundle.signedPrekey = (store.rotate Suite.standard 6).1 := by
  intro store
  obtain ⟨bundle, published, -, newest⟩ := rotated_is_published_iff (S := .standard)
    ⟨⟨.replicate 32 1⟩, ⟨.replicate 32 2⟩⟩ {} (⟨.replicate 32 3, 0⟩ : KeyStream) 5
    [(7, .rotate)] 6
  refine ⟨rfl, bundle, published, newest (UInt64.le_refl _) (fun entry mem => ?_) (by decide)⟩
  rw [List.mem_singleton.1 mem]
  trivial

/-- A store is restored with a shorter lifetime: after a rotation it still publishes the first
prekey. -/
theorem longer_prekey_stays_published :
    ∃ (store : KeyStore KeyStream) (bundle : Bundle),
      store = (create .standard ⟨⟨.replicate 32 1⟩, ⟨.replicate 32 2⟩⟩
        { lifetime := .ofSeconds 1000, oneTimePrekeys := 0 } ⟨.replicate 32 3, 0⟩ 0).run .standard
          [(0, .restore { lifetime := .ofSeconds 10 } ⟨.replicate 32 4, 0⟩)] ∧
      (store.rotate .standard 0).2.publish .standard 0 = .ok bundle ∧
      bundle.signedPrekey.id = 0 ∧ (store.rotate .standard 0).1.id = 1 ∧
      bundle.signedPrekey ≠ (store.rotate .standard 0).1 := by
  refine ⟨_, _, rfl, rfl, rfl, rfl, fun same => ?_⟩
  have ids : (0 : UInt32) = 1 := congrArg SignedPrekey.id same
  exact absurd ids (by decide)

end Confide.KeyStore
