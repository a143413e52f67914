import Confide.Entropy.KeyStream
import Confide.Proofs.Handshake
import Confide.Proofs.Prekey.Store

/-! Handshakes across the activity of a key store: whoever starts one on a published bundle is
answered with the same keys, whatever the store has done since. -/

set_option autoImplicit false

namespace Confide.KeyStore

variable {G : Type}

/-- All secrets of a store which take part in agreements. -/
def agreementSecrets (store : KeyStore G) : List SecretKey :=
  store.identity.dhSecret ::
    (store.prekeys.signed.values.map (·.secret) ++ store.prekeys.oneTime.values)

/-- The bundle as published, or with one of its prekeys for one use, or with none. -/
def Offers (bundle offer : Bundle) : Prop :=
  offer = bundle ∨ ∃ prekey : Option OneTimePrekey,
    (∀ p ∈ prekey, p ∈ bundle.oneTimePrekeys) ∧ offer = bundle.withOneTimePrekey prekey

theorem Offers.same {bundle offer : Bundle} (offers : Offers bundle offer) :
    offer.identity = bundle.identity ∧ offer.signedPrekey = bundle.signedPrekey := by
  rcases offers with rfl | ⟨prekey, -, rfl⟩ <;> exact ⟨rfl, rfl⟩

theorem Offers.mem {bundle offer : Bundle} (offers : Offers bundle offer) {prekey : OneTimePrekey}
    (first : offer.oneTimePrekeys.head? = some prekey) : prekey ∈ bundle.oneTimePrekeys := by
  rcases offers with rfl | ⟨chosen, listed, rfl⟩
  · exact List.mem_of_head? first
  · cases chosen with
    | none => cases first
    | some other =>
      cases first
      exact listed _ rfl

variable {S : Suite} {store : KeyStore G}

theorem Publishes.exists_named {published : UInt64} {bundle offer : Bundle} {latest : SignedSecret}
    (publishes : Publishes S store published bundle latest) (offers : Offers bundle offer) :
    ∃ named : Option (UInt64 × SecretKey),
      named.map (·.1) = offer.oneTimePrekeys.head?.map (·.id) ∧
      offer.oneTimePrekeys.head?.map (·.key) = (named.map (·.2)).map S.publicKey ∧
      ∀ entry ∈ named, store.prekeys.oneTime.get? entry.1 = some entry.2 := by
  cases first : offer.oneTimePrekeys.head? with
  | none => exact ⟨none, rfl, rfl, nofun⟩
  | some prekey =>
    obtain ⟨secret, stored, key⟩ := publishes.oneTime prekey (offers.mem first)
    refine ⟨some (prekey.id, secret), rfl, congrArg some key, ?_⟩
    rintro entry ⟨⟩
    exact stored

/-- From when it is published until its grace ends, a prekey is valid. -/
theorem Publishes.isValid {published now time : UInt64} {bundle : Bundle} {latest : SignedSecret}
    {grace : Duration} (publishes : Publishes S store published bundle latest)
    (usable : now ≤ saturatingAdd bundle.signedPrekey.lifetime.notAfter grace.seconds)
    (lower : published ≤ time) (upper : time ≤ now) :
    latest.prekey.lifetime.isValid time grace = true := by
  obtain ⟨range, early, -⟩ := Lifetime.isValid_iff.1 publishes.valid
  rw [publishes.prekey] at usable
  exact Lifetime.isValid_iff.2
    ⟨range, UInt64.le_trans early lower, UInt64.le_trans upper usable⟩

theorem Keeps.mem_agreementSecrets {latest : SignedSecret}
    {named : Option (UInt64 × SecretKey)}
    (keeps : store.Keeps store.config store.identity latest named) {secret : SecretKey}
    (mem : secret ∈ store.identity.dhSecret :: latest.secret :: (named.map (·.2)).toList) :
    secret ∈ store.agreementSecrets := by
  unfold agreementSecrets
  rcases List.mem_cons.1 mem with rfl | mem
  · exact List.mem_cons_self
  refine List.mem_cons_of_mem _ ?_
  rcases List.mem_cons.1 mem with rfl | mem
  · have inside := SortedMap.mem_values_of_get? keeps.signed
    exact List.mem_append_left _ (List.mem_map_of_mem inside)
  · obtain ⟨entry, found, rfl⟩ := Option.map_eq_some_iff.1 (Option.mem_toList.1 mem)
    exact List.mem_append_right _
      (List.mem_map_of_mem (SortedMap.get?_eq_some_iff.1 (keeps.oneTime entry found)))

theorem Keeps.signedSecret_eq {config : KeyStoreConfig} {identity : Identity}
    {latest : SignedSecret} {named : Option (UInt64 × SecretKey)}
    (keeps : store.Keeps config identity latest named) {now : UInt64}
    (valid : latest.prekey.lifetime.isValid now config.grace = true) :
    store.signedSecret latest.prekey.id now = .ok latest.secret := by
  unfold signedSecret
  rw [keeps.signed, keeps.settings]
  unfold Lifetime.isValid at valid
  cases checked : latest.prekey.lifetime.check now config.grace with
  | error cause =>
    rw [checked] at valid
    exact absurd valid Bool.false_ne_true
  | ok _ => simp only [checked]

theorem Keeps.oneTimeSecret_eq {config : KeyStoreConfig} {identity : Identity}
    {latest : SignedSecret} {named : Option (UInt64 × SecretKey)}
    (keeps : store.Keeps config identity latest named) :
    (named.map (·.1)).mapM store.oneTimeSecret = .ok (named.map (·.2)) := by
  cases named with
  | none => rfl
  | some entry =>
    have found := keeps.oneTime entry rfl
    simp only [Option.map_some, Option.mapM_some, oneTimeSecret, found]
    rfl

/-- A handshake on a published bundle is answered with its own keys. Ids are words of 32 bits for
signed prekeys and of 64 bits for prekeys for one use: with more rotations than `fewRotations` or
more new prekeys than `fewOneTime` allows, an id is given out again, and the key under it, which the
handshake may still name, is replaced by a new one. -/
theorem respond_of_published [Entropy G] {G' : Type} [Entropy G'] {identity ours : Identity}
    {config : KeyStoreConfig} {source : G} {source' : G'} {created published theirs now : UInt64}
    {before after : List (UInt64 × Operation G)} {bundle offer : Bundle} {h : Initiation}
    (isStore : store = (create S identity config source created).run S before)
    (isPublished : store.publish S published = .ok bundle) (offers : Offers bundle offer)
    (initiated : (Handshake.initiate S ours offer theirs source').1 = .ok h)
    (commutes : ∀ mine ∈ [ours.dhSecret, h.ephemeral], ∀ other ∈ store.agreementSecrets,
      S.sharedSecret mine (S.publicKey other) = S.sharedSecret other (S.publicKey mine))
    (spares : ∀ entry ∈ after, entry.2.Spares store.config h.header.oneTimePrekeyId)
    (clock : ∀ entry ∈ after, published ≤ entry.1 ∧ entry.1 ≤ now) (later : published ≤ now)
    (usable : now ≤ saturatingAdd bundle.signedPrekey.lifetime.notAfter store.config.grace.seconds)
    (fewRotations : rotations (before ++ after) < 2 ^ 32)
    (fewOneTime : config.oneTimePrekeys.toNat + generated (before ++ after) ≤ 2 ^ 64) :
    ∃ signed oneTime,
      (store.run S after).signedSecret h.header.signedPrekeyId now = .ok signed ∧
      h.header.oneTimePrekeyId.mapM (store.run S after).oneTimeSecret = .ok oneTime ∧
      Handshake.respond S (store.run S after).identity h.header signed oneTime =
        .ok ⟨h.keys, h.associatedData⟩ := by
  have sound : Sound S store.prekeys (1 + rotations before)
      (config.oneTimePrekeys.toNat + generated before) := by
    rw [isStore]
    exact (Sound.create identity config source created).run before
  simp only [rotations, generated, List.map_append, List.sum_append] at fewRotations fewOneTime
  obtain ⟨latest, publishes⟩ := publishes_of_publish sound isPublished
  obtain ⟨named, ids, keys, stored⟩ := publishes.exists_named offers
  have keeps : store.Keeps store.config store.identity latest named :=
    ⟨rfl, rfl, publishes.stored, stored⟩
  have initiates := Handshake.initiates_of_initiate initiated
  have prekey : offer.signedPrekey = latest.prekey := offers.same.2.trans publishes.prekey
  have signedId : h.header.signedPrekeyId = latest.prekey.id := by
    rw [initiates.header, prekey]
  have oneTimeId : h.header.oneTimePrekeyId = named.map (·.1) := by
    rw [initiates.header, ids]
  -- Both secrets are still there in the end, so that the answer needs the handshake alone.
  have final := keeps.run sound
    (fun entry mem => publishes.isValid usable (clock entry mem).1 (clock entry mem).2)
    (fun entry mem => oneTimeId ▸ spares entry mem) (by unfold rotations; omega)
    (by unfold generated; omega)
  refine ⟨latest.secret, named.map (·.2), ?_, ?_, ?_⟩
  · rw [signedId]
    exact final.signedSecret_eq (publishes.isValid usable later (UInt64.le_refl now))
  · rw [oneTimeId]
    exact final.oneTimeSecret_eq
  · rw [final.owner]
    refine initiates.respond_eq (offers.same.1.trans publishes.identity) ?_ keys
      fun pair mem => ?_
    · rw [prekey, publishes.key]
    · obtain ⟨mine, other⟩ := Handshake.mem_keyPairs mem
      exact commutes pair.1 mine pair.2 (keeps.mem_agreementSecrets other)

theorem exists_handshake : ∃ (identity ours : Identity) (source source' : KeyStream)
    (bundle : Bundle) (h : Initiation),
    (create Suite.standard identity { oneTimePrekeys := 1 } source 0).publish Suite.standard 0 =
        .ok bundle ∧
      (Handshake.initiate Suite.standard ours bundle 0 source').1 = .ok h ∧
      h.header.oneTimePrekeyId = some 0 ∧ 20 ≤ bundle.signedPrekey.lifetime.notAfter ∧
      ∀ mine ∈ [ours.dhSecret, h.ephemeral],
        ∀ other ∈
          (create Suite.standard identity { oneTimePrekeys := 1 } source 0).agreementSecrets,
        Suite.standard.sharedSecret mine (Suite.standard.publicKey other) =
          Suite.standard.sharedSecret other (Suite.standard.publicKey mine) := by
  have sample : ∃ (identity ours : Identity) (source source' : KeyStream),
      (match (create Suite.standard identity { oneTimePrekeys := 1 } source 0).publish
          Suite.standard 0 with
        | .error _ => false
        | .ok bundle =>
          match (Handshake.initiate Suite.standard ours bundle 0 source').1 with
          | .error _ => false
          | .ok h => h.header.oneTimePrekeyId == some 0 &&
            decide (20 ≤ bundle.signedPrekey.lifetime.notAfter)) = true ∧
        ∀ mine ∈ [ours.dhSecret, ⟨(draw 32 source').1⟩],
          ∀ other ∈
            (create Suite.standard identity { oneTimePrekeys := 1 } source 0).agreementSecrets,
          Suite.standard.sharedSecret mine (Suite.standard.publicKey other) =
            Suite.standard.sharedSecret other (Suite.standard.publicKey mine) :=
    ⟨⟨⟨.replicate 32 1⟩, ⟨.replicate 32 2⟩⟩, ⟨⟨.replicate 32 3⟩, ⟨.replicate 32 4⟩⟩,
      ⟨.replicate 32 5, 0⟩, ⟨.replicate 32 6, 0⟩, by decide +kernel, by decide +kernel⟩
  -- From here on the samples are unknown, and nothing is computed again.
  obtain ⟨identity, ours, source, source', succeeds, commutes⟩ := sample
  split at succeeds
  · cases succeeds
  rename_i bundle published
  split at succeeds
  · cases succeeds
  rename_i h initiated
  obtain ⟨named, lasts⟩ := Bool.and_eq_true_iff.1 succeeds
  rw [← (Handshake.initiates_of_initiate initiated).drawn] at commutes
  exact ⟨identity, ours, source, source', bundle, h, published, initiated, eq_of_beq named,
    of_decide_eq_true lasts, commutes⟩

/-- A handshake which is answered after the prekey was replaced and the store restored. -/
theorem respond_after_rotation : ∃ (identity ours : Identity) (source source' : KeyStream)
    (bundle : Bundle) (h : Initiation) (signed : SecretKey) (oneTime : Option SecretKey),
    let store := create Suite.standard identity { oneTimePrekeys := 1 } source 0
    let later := store.run Suite.standard
      [(10, .rotate), (10, .generate 1), (20, .removeExpired), (20, .restore store.config source)]
    store.publish Suite.standard 0 = .ok bundle ∧
      (Handshake.initiate Suite.standard ours bundle 0 source').1 = .ok h ∧
      h.header.oneTimePrekeyId = some 0 ∧
      later.signedSecret h.header.signedPrekeyId 20 = .ok signed ∧
      h.header.oneTimePrekeyId.mapM later.oneTimeSecret = .ok oneTime ∧
      Handshake.respond Suite.standard later.identity h.header signed oneTime =
        .ok ⟨h.keys, h.associatedData⟩ := by
  obtain ⟨identity, ours, source, source', bundle, h, published, initiated, named, lasts,
    commutes⟩ := exists_handshake
  have within : ∀ entry ∈ [((10 : UInt64), Operation.rotate), (10, .generate 1),
      (20, .removeExpired), (20, .restore { oneTimePrekeys := 1 } source)],
      entry.2.Spares { oneTimePrekeys := 1 } h.header.oneTimePrekeyId ∧
        0 ≤ entry.1 ∧ entry.1 ≤ 20 := by
    simp only [List.forall_mem_cons, List.not_mem_nil, false_imp_iff, implies_true, and_true]
    exact ⟨⟨trivial, by decide⟩, ⟨trivial, by decide⟩, ⟨trivial, by decide⟩, rfl, by decide⟩
  have isStore : create Suite.standard identity { oneTimePrekeys := 1 } source 0 =
      (create Suite.standard identity { oneTimePrekeys := 1 } source 0).run Suite.standard [] := rfl
  obtain ⟨signed, oneTime, answered⟩ := respond_of_published isStore published (.inl rfl) initiated
    commutes (fun entry mem => (within entry mem).1) (fun entry mem => (within entry mem).2)
    (by decide : (0 : UInt64) ≤ 20) (UInt64.le_trans lasts (le_saturatingAdd _ _))
    (by decide : 1 < 2 ^ 32) (by decide : 1 + 1 ≤ 2 ^ 64)
  exact ⟨identity, ours, source, source', bundle, h, signed, oneTime, published, initiated, named,
    answered⟩

end Confide.KeyStore
