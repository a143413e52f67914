import Confide.Proofs.Prekey.Latest

/-! Where the signed prekeys of a store come from. Each one was added by a rotation: it starts at the
time of the rotation, lasts as long as configured then, and is signed by the owner. -/

set_option autoImplicit false

namespace Confide

theorem toNat_saturatingAdd (first second : UInt64) :
    (saturatingAdd first second).toNat = min (first.toNat + second.toNat) 0xffffffffffffffff := by
  rw [saturatingAdd, UInt64.toNat_ofNat', Nat.mod_eq_of_lt (by omega)]

theorem saturatingAdd_mono {first second third fourth : UInt64} (left : first ≤ second)
    (right : third ≤ fourth) : saturatingAdd first third ≤ saturatingAdd second fourth := by
  rw [UInt64.le_iff_toNat_le] at left right ⊢
  rw [toNat_saturatingAdd, toNat_saturatingAdd]
  omega

theorem Lifetime.isValid_zero_iff {lifetime : Lifetime} {now : UInt64} :
    lifetime.isValid now .zero = true ↔ lifetime.notBefore ≤ now ∧ now ≤ lifetime.notAfter := by
  have whole : saturatingAdd lifetime.notAfter Duration.zero.seconds = lifetime.notAfter := by
    rw [← UInt64.toNat_inj, toNat_saturatingAdd]
    have fits := lifetime.notAfter.toNat_lt
    have none : Duration.zero.seconds.toNat = 0 := rfl
    omega
  rw [isValid_iff, whole]
  exact ⟨And.right, fun within => ⟨UInt64.le_trans within.1 within.2, within⟩⟩

theorem Lifetime.lasting_isValid (now : UInt64) (duration : Duration) :
    (lasting now duration).isValid now .zero = true :=
  isValid_zero_iff.2 ⟨UInt64.le_refl now, le_saturatingAdd _ _⟩

theorem Lifetime.isValid_of_zero {lifetime : Lifetime} {now : UInt64}
    (valid : lifetime.isValid now .zero = true) (grace : Duration) :
    lifetime.isValid now grace = true := by
  obtain ⟨early, late⟩ := isValid_zero_iff.1 valid
  exact isValid_iff.2
    ⟨UInt64.le_trans early late, early, UInt64.le_trans late (le_saturatingAdd _ _)⟩

namespace KeyStore

variable {G : Type}

def kept (store : KeyStore G) (now : UInt64) : SortedMap UInt32 SignedSecret :=
  store.prekeys.signed.filter fun _ s => s.prekey.lifetime.isValid now store.config.grace

theorem removeExpired_eq (store : KeyStore G) (now : UInt64) : store.removeExpired now =
    (store.prekeys.signed.size - (store.kept now).size,
      { store with prekeys := { store.prekeys with
        bundleId :=
          if store.prekeys.signed.size - (store.kept now).size = 0 then store.prekeys.bundleId
          else store.prekeys.bundleId + 1
        signed := store.kept now } }) := by
  unfold removeExpired
  simp only [← kept.eq_def]
  by_cases none : store.prekeys.signed.size - (store.kept now).size = 0
  · simp only [none, gt_iff_lt, Nat.lt_irrefl, if_false, if_true]
  · simp only [gt_iff_lt, Nat.pos_of_ne_zero none, if_true, none, if_false]
    rfl

section
variable [Entropy G] (S : Suite)

def blank (identity : Identity) (config : KeyStoreConfig) (source : G) : KeyStore G :=
  ⟨config, identity, {}, source⟩

/-- How a new store comes to its first prekeys. -/
def founding (config : KeyStoreConfig) (created : UInt64) : List (UInt64 × Operation G) :=
  [(created, .rotate), (created, .generate config.oneTimePrekeys.toNat)]

theorem create_eq_run (identity : Identity) (config : KeyStoreConfig) (source : G)
    (created : UInt64) : create S identity config source created =
      (blank identity config source).run S (founding config created) :=
  rfl

theorem run_append (store : KeyStore G) (first second : List (UInt64 × Operation G)) :
    store.run S (first ++ second) = (store.run S first).run S second :=
  List.foldl_append

def minted (store : KeyStore G) (now : UInt64) : SignedSecret :=
  let secret : SecretKey := ⟨(draw 32 store.source).1⟩
  let prekey : SignedPrekey :=
    ⟨store.prekeys.nextSigned, S.publicKey secret, .lasting now store.config.lifetime⟩
  ⟨prekey, S.sign store.identity.signingKey prekey.signedBytes, secret⟩

theorem rotate_eq (store : KeyStore G) (now : UInt64) :
    store.rotate S now = ((store.minted S now).prekey,
      { store with
        prekeys := { store.prekeys with
          bundleId := store.prekeys.bundleId + 1
          signed := store.prekeys.signed.insert store.prekeys.nextSigned (store.minted S now)
          nextSigned := store.prekeys.nextSigned + 1 }
        source := (draw 32 store.source).2 }) :=
  rfl

end

variable [Entropy G] {S : Suite} {store : KeyStore G}

theorem signed_generate (n : Nat) :
    (store.generate S n).2.prekeys.signed = store.prekeys.signed := by
  unfold generate
  simp only
  split <;> exact signed_addOneTime _

theorem mem_values_step {now : UInt64} {operation : Operation G} {s : SignedSecret}
    (mem : s ∈ (store.step S now operation).prekeys.signed.values) :
    s ∈ store.prekeys.signed.values ∨ operation = .rotate ∧ s = store.minted S now := by
  cases operation with
  | rotate =>
    obtain ⟨entry, inside, rfl⟩ := List.mem_map.1 mem
    rcases SortedMap.mem_insertEntry inside with rfl | old
    · exact .inr ⟨rfl, rfl⟩
    · exact .inl (List.mem_map_of_mem old)
  | generate n =>
    simp only [step, signed_generate] at mem
    exact .inl mem
  | consume id =>
    simp only [step, consume] at mem
    cases found : store.prekeys.oneTime.get? id with
    | none =>
      simp only [found] at mem
      exact .inl mem
    | some secret =>
      simp only [found] at mem
      exact .inl mem
  | removeExpired =>
    simp only [step, removeExpired_eq] at mem
    obtain ⟨entry, inside, rfl⟩ := List.mem_map.1 mem
    exact .inl (List.mem_map_of_mem (List.mem_filter.1 inside).1)
  | restore config source => exact .inl mem
  | oneTimeSecret id => exact .inl mem
  | signedSecret id => exact .inl mem
  | publish => exact .inl mem

theorem mem_values_run {operations : List (UInt64 × Operation G)} {s : SignedSecret}
    (mem : s ∈ (store.run S operations).prekeys.signed.values) :
    s ∈ store.prekeys.signed.values ∨ ∃ before time after,
      operations = before ++ (time, .rotate) :: after ∧
        s = (store.run S before).minted S time := by
  induction operations generalizing store with
  | nil => exact .inl mem
  | cons entry rest ih =>
    obtain ⟨now, operation⟩ := entry
    rcases ih mem with old | ⟨before, time, after, rfl, added⟩
    · rcases mem_values_step old with older | ⟨rfl, added⟩
      · exact .inl older
      · exact .inr ⟨[], now, rest, rfl, added⟩
    · exact .inr ⟨(now, operation) :: before, time, after, rfl, added⟩

theorem identity_step (now : UInt64) (operation : Operation G) :
    (store.step S now operation).identity = store.identity := by
  cases operation with
  | consume id =>
    simp only [step, consume]
    cases store.prekeys.oneTime.get? id <;> rfl
  | _ => rfl

theorem identity_run (operations : List (UInt64 × Operation G)) :
    (store.run S operations).identity = store.identity := by
  induction operations generalizing store with
  | nil => rfl
  | cons entry rest ih => exact ih.trans (identity_step entry.1 entry.2)

variable {identity : Identity} {config : KeyStoreConfig} {source : G} {created : UInt64}
  {operations : List (UInt64 × Operation G)} {s : SignedSecret}

omit [Entropy G] in
theorem fst_of_mem_founding {entry : UInt64 × Operation G}
    (mem : entry ∈ founding config created) : entry.1 = created := by
  rcases List.mem_cons.1 mem with rfl | mem
  · rfl
  · rw [List.mem_singleton.1 mem]

theorem identity_of_run (operations : List (UInt64 × Operation G)) :
    ((create S identity config source created).run S operations).identity = identity := by
  rw [create_eq_run, ← run_append, identity_run]
  rfl

/-- Of a store which was made once, every signed prekey comes from a rotation. -/
theorem exists_minted
    (mem : s ∈ ((create S identity config source created).run S operations).prekeys.signed.values) :
    ∃ before time after, founding config created ++ operations = before ++ (time, .rotate) :: after ∧
      s = ((blank identity config source).run S before).minted S time := by
  rw [create_eq_run, ← run_append] at mem
  exact (mem_values_run mem).resolve_left List.not_mem_nil

theorem lifetime_of_run
    (mem : s ∈ ((create S identity config source created).run S operations).prekeys.signed.values) :
    s.prekey.lifetime.notBefore ≤ s.prekey.lifetime.notAfter := by
  obtain ⟨before, time, after, -, rfl⟩ := exists_minted mem
  exact le_saturatingAdd _ _

theorem signature_of_run
    (mem : s ∈ ((create S identity config source created).run S operations).prekeys.signed.values) :
    s.signature = S.sign identity.signingKey s.prekey.signedBytes := by
  obtain ⟨before, time, after, -, rfl⟩ := exists_minted mem
  have owner : ((blank identity config source).run S before).identity = identity := identity_run _
  rw [minted, owner]

theorem notBefore_of_run
    (mem : s ∈ ((create S identity config source created).run S operations).prekeys.signed.values)
    {now : UInt64} (start : created ≤ now) (clock : ∀ entry ∈ operations, entry.1 ≤ now) :
    s.prekey.lifetime.notBefore ≤ now := by
  obtain ⟨before, time, after, whole, rfl⟩ := exists_minted mem
  have inside : (time, Operation.rotate) ∈ founding config created ++ operations :=
    whole ▸ List.mem_append_right _ List.mem_cons_self
  rcases List.mem_append.1 inside with first | later
  · have same : time = created := fst_of_mem_founding first
    exact same ▸ start
  · exact clock _ later

end KeyStore

end Confide
