import Confide.Proofs.Prekey.Store

/-! Which signed prekey a store publishes: of the valid ones the one which ends last, and of those
which end together the one with the highest id. Beside it, which secrets a store gives out. -/

set_option autoImplicit false

namespace Confide

def SignedPrekey.Precedes (first second : SignedPrekey) : Prop :=
  first.lifetime.notAfter < second.lifetime.notAfter ∨
    first.lifetime.notAfter = second.lifetime.notAfter ∧ first.id < second.id

namespace SignedPrekey

variable {first second third : SignedPrekey}

theorem Precedes.asymm (earlier : first.Precedes second) : ¬second.Precedes first := by
  unfold Precedes at earlier ⊢
  grind

theorem Precedes.of_not (earlier : first.Precedes second) (other : ¬third.Precedes second) :
    first.Precedes third := by
  unfold Precedes at earlier other ⊢
  grind

theorem id_eq_of_not_precedes (left : ¬first.Precedes second) (right : ¬second.Precedes first) :
    first.id = second.id := by
  unfold Precedes at left right
  grind

theorem notAfter_le_of_not_precedes (other : ¬second.Precedes first) :
    first.lifetime.notAfter ≤ second.lifetime.notAfter :=
  UInt64.not_lt.1 fun less => other (.inl less)

end SignedPrekey

namespace Prekeys

theorem isLater_iff {first second : SignedPrekey} :
    isLater first second = true ↔ second.Precedes first := by
  unfold isLater SignedPrekey.Precedes
  rw [Bool.or_eq_true, Bool.and_eq_true, decide_eq_true_iff, decide_eq_true_iff, beq_iff_eq,
    eq_comm (a := first.lifetime.notAfter)]

def later (best : Option SignedSecret) (s : SignedSecret) : Option SignedSecret :=
  match best with
  | none => some s
  | some b => if isLater b.prekey s.prekey then some b else some s

theorem exists_foldl_later (best : SignedSecret) (candidates : List SignedSecret) :
    ∃ last ∈ best :: candidates, candidates.foldl later (some best) = some last ∧
      ∀ s ∈ best :: candidates, ¬last.prekey.Precedes s.prekey := by
  induction candidates generalizing best with
  | nil =>
    refine ⟨best, List.mem_cons_self, rfl, fun s mem => ?_⟩
    rw [List.mem_singleton.1 mem]
    exact fun earlier => earlier.asymm earlier
  | cons s rest ih =>
    -- The one which is dropped here does not precede the one which is kept.
    have chosen : ∃ kept dropped, later (some best) s = some kept ∧
        ¬kept.prekey.Precedes dropped.prekey ∧
        ∀ x, x ∈ best :: s :: rest ↔ x = dropped ∨ x ∈ kept :: rest := by
      by_cases first : isLater best.prekey s.prekey = true
      · refine ⟨best, s, if_pos first, (isLater_iff.1 first).asymm, fun x => ?_⟩
        simp only [List.mem_cons]
        exact or_left_comm
      · exact ⟨s, best, if_neg first, mt isLater_iff.2 first, fun x => List.mem_cons⟩
    obtain ⟨kept, dropped, step, order, members⟩ := chosen
    obtain ⟨last, mem, found, greatest⟩ := ih kept
    refine ⟨last, (members last).2 (.inr mem), ?_, fun x inside => ?_⟩
    · rw [List.foldl_cons, step, found]
    · rcases (members x).1 inside with rfl | inside
      · exact fun earlier => greatest kept List.mem_cons_self (earlier.of_not order)
      · exact greatest x inside

variable {prekeys : Prekeys} {now : UInt64}

theorem latest?_eq : prekeys.latest? now =
    (prekeys.signed.values.filter fun s => s.prekey.lifetime.isValid now .zero).foldl later none :=
  rfl

theorem latest?_eq_none_iff : prekeys.latest? now = none ↔
    ∀ s ∈ prekeys.signed.values, s.prekey.lifetime.isValid now .zero = false := by
  rw [latest?_eq]
  cases candidates : prekeys.signed.values.filter fun s => s.prekey.lifetime.isValid now .zero with
  | nil => simpa using List.filter_eq_nil_iff.1 candidates
  | cons first rest =>
    obtain ⟨last, -, found, -⟩ := exists_foldl_later first rest
    have inside : first ∈ prekeys.signed.values.filter
        fun s => s.prekey.lifetime.isValid now .zero := candidates ▸ List.mem_cons_self
    obtain ⟨mem, valid⟩ := List.mem_filter.1 inside
    refine iff_of_false (fun absent => ?_) fun none => ?_
    · cases found.symm.trans absent
    · exact Bool.false_ne_true ((none first mem).symm.trans valid)

/-- The stored prekey which is valid and which all other valid ones precede. -/
structure IsLatest (prekeys : Prekeys) (now : UInt64) (s : SignedSecret) : Prop where
  stored : s ∈ prekeys.signed.values
  valid : s.prekey.lifetime.isValid now .zero = true
  last : ∀ other ∈ prekeys.signed.values, other.prekey.lifetime.isValid now .zero = true →
    other = s ∨ other.prekey.Precedes s.prekey

theorem IsLatest.unique {first second : SignedSecret} (isFirst : prekeys.IsLatest now first)
    (isSecond : prekeys.IsLatest now second) : first = second := by
  rcases isFirst.last second isSecond.stored isSecond.valid with same | earlier
  · exact same.symm
  · exact (isSecond.last first isFirst.stored isFirst.valid).resolve_right earlier.asymm

end Prekeys

namespace KeyStore

open Prekeys

variable {G : Type} {S : Suite} {prekeys : Prekeys} {signed oneTime : Nat}

theorem Sound.mem_values_iff (sound : Sound S prekeys signed oneTime) {s : SignedSecret} :
    s ∈ prekeys.signed.values ↔ prekeys.signed.get? s.prekey.id = some s := by
  constructor
  · intro mem
    obtain ⟨⟨id, s⟩, inside, rfl⟩ := List.mem_map.1 mem
    have stored := SortedMap.get?_eq_some_iff.2 inside
    obtain ⟨rfl, -⟩ := sound.ownSigned id s stored
    exact stored
  · exact SortedMap.mem_values_of_get?

theorem Sound.eq_of_id (sound : Sound S prekeys signed oneTime) {first second : SignedSecret}
    (isFirst : first ∈ prekeys.signed.values) (isSecond : second ∈ prekeys.signed.values)
    (same : first.prekey.id = second.prekey.id) : first = second := by
  have found := sound.mem_values_iff.1 isFirst
  rw [same, sound.mem_values_iff.1 isSecond] at found
  exact (Option.some.inj found).symm

theorem Sound.isLatest_of_latest? (sound : Sound S prekeys signed oneTime) {now : UInt64}
    {s : SignedSecret} (found : prekeys.latest? now = some s) : prekeys.IsLatest now s := by
  obtain ⟨stored, valid⟩ := mem_of_latest? found
  refine ⟨stored, valid, fun other mem others => ?_⟩
  rw [latest?_eq] at found
  cases candidates : prekeys.signed.values.filter fun s => s.prekey.lifetime.isValid now .zero with
  | nil =>
    rw [candidates] at found
    cases found
  | cons first rest =>
    obtain ⟨last, -, found', order⟩ := exists_foldl_later first rest
    rw [candidates] at found
    cases found.symm.trans found'
    have following := order other (candidates ▸ List.mem_filter.2 ⟨mem, others⟩)
    by_cases earlier : other.prekey.Precedes s.prekey
    · exact .inr earlier
    · exact .inl (sound.eq_of_id mem stored (SignedPrekey.id_eq_of_not_precedes earlier following))

theorem Sound.latest?_eq_some_iff (sound : Sound S prekeys signed oneTime) {now : UInt64}
    {s : SignedSecret} : prekeys.latest? now = some s ↔ prekeys.IsLatest now s := by
  refine ⟨sound.isLatest_of_latest?, fun isLatest => ?_⟩
  cases found : prekeys.latest? now with
  | none =>
    have invalid := latest?_eq_none_iff.1 found s isLatest.stored
    exact absurd (invalid.symm.trans isLatest.valid) Bool.false_ne_true
  | some last => rw [(sound.isLatest_of_latest? found).unique isLatest]

def offered (S : Suite) (prekeys : Prekeys) : List OneTimePrekey :=
  prekeys.oneTime.entries.map fun entry => ⟨entry.1, S.publicKey entry.2⟩

variable {store : KeyStore G} {now : UInt64}

theorem publish_eq_error_iff {error : Error} : store.publish S now = .error error ↔
    store.prekeys.latest? now = none ∧ error = .noValidSigned := by
  unfold publish
  cases store.prekeys.latest? now with
  | none => simp [eq_comm]
  | some latest => simp

theorem publish_eq_ok_iff {bundle : Bundle} : store.publish S now = .ok bundle ↔
    ∃ s, store.prekeys.latest? now = some s ∧
      bundle = ⟨store.prekeys.bundleId, store.identity.key S, s.prekey, s.signature,
        offered S store.prekeys⟩ := by
  unfold publish
  cases store.prekeys.latest? now with
  | none => simp
  | some latest => simp [offered, eq_comm]

theorem signedSecret_eq_ok_iff {id : UInt32} {secret : SecretKey} :
    store.signedSecret id now = .ok secret ↔ ∃ s, store.prekeys.signed.get? id = some s ∧
      s.prekey.lifetime.isValid now store.config.grace = true ∧ s.secret = secret := by
  unfold signedSecret Lifetime.isValid
  cases store.prekeys.signed.get? id with
  | none => simp
  | some s =>
    cases checked : s.prekey.lifetime.check now store.config.grace with
    | error cause => simp [checked, Except.isOk, Except.toBool]
    | ok _ => simp [checked, Except.isOk, Except.toBool]

theorem oneTimeSecret_eq_ok_iff {id : UInt64} {secret : SecretKey} :
    store.oneTimeSecret id = .ok secret ↔ store.prekeys.oneTime.get? id = some secret := by
  unfold oneTimeSecret
  cases store.prekeys.oneTime.get? id with
  | none => simp
  | some stored => simp

end KeyStore

end Confide
