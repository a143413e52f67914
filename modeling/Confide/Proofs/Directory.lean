import Confide.Directory
import Confide.Entropy.KeyStream
import Confide.Proofs.Prekey.Store
import Mathlib.Data.List.Nodup
import Mathlib.Logic.Function.Basic

/-! To whom a directory hands out the prekeys for one use. What a store publishes is handed out
once. But the directory does not remember what it has handed out: whatever is published again, is
handed out again. -/

set_option autoImplicit false

namespace Confide

def Bundle.oneTimeIds (bundle : Bundle) : List UInt64 := bundle.oneTimePrekeys.map (·.id)

namespace Directory

def queue (d : Directory) (peer : IdentityKey) : List OneTimePrekey :=
  ((d.entries.get? peer).map (·.oneTime)).getD []

variable {d : Directory} {peer other : IdentityKey} {bundle : Bundle}

theorem queue_publish_self : (d.publish bundle).queue bundle.identity = bundle.oneTimePrekeys := by
  simp only [queue, publish, SortedMap.get?_insert_self, Option.map_some, Option.getD_some]

theorem queue_publish_of_ne (apart : peer ≠ bundle.identity) :
    (d.publish bundle).queue peer = d.queue peer := by
  simp only [queue, publish, SortedMap.get?_insert_of_ne apart]

theorem queue_fetch_self : (d.fetch peer).2.queue peer = (d.queue peer).tail := by
  unfold fetch
  cases found : d.entries.get? peer with
  | none => simp only [queue, found, Option.map_none, Option.getD_none, List.tail_nil]
  | some entry =>
    simp only [queue, found, SortedMap.get?_insert_self, Option.map_some, Option.getD_some]

theorem queue_fetch_of_ne (apart : other ≠ peer) :
    (d.fetch peer).2.queue other = d.queue other := by
  unfold fetch
  cases d.entries.get? peer with
  | none => rfl
  | some entry => simp only [queue, SortedMap.get?_insert_of_ne apart]

/-- Only the next prekey of the queue leaves with the bundle. -/
theorem oneTimePrekeys_of_fetch (fetched : (d.fetch peer).1 = some bundle) :
    bundle.oneTimePrekeys = (d.queue peer).head?.toList := by
  unfold fetch at fetched
  cases found : d.entries.get? peer with
  | none => simp [found] at fetched
  | some entry =>
    simp only [found, Option.some.injEq] at fetched
    simp only [← fetched, queue, found, Bundle.withOneTimePrekey, Option.map_some,
      Option.getD_some]

theorem fetch_eq_of_none (none : (d.fetch peer).1 = none) : (d.fetch peer).2 = d := by
  unfold fetch at none ⊢
  cases found : d.entries.get? peer with
  | none => rfl
  | some entry => simp [found] at none

theorem queue_fetch_subset : (d.fetch peer).2.queue other ⊆ d.queue other := by
  by_cases same : other = peer
  · subst same
    rw [queue_fetch_self]
    exact (List.tail_sublist _).subset
  · rw [queue_fetch_of_ne same]
    exact List.Subset.refl _

theorem exists_fetched_of_queue {prekey : OneTimePrekey} {rest : List OneTimePrekey}
    (waiting : d.queue peer = prekey :: rest) :
    ∃ bundle, (d.fetch peer).1 = some bundle ∧ bundle.oneTimePrekeys = [prekey] := by
  cases fetched : (d.fetch peer).1 with
  | none =>
    unfold fetch at fetched
    cases found : d.entries.get? peer with
    | none => simp [queue, found] at waiting
    | some entry => simp [found] at fetched
  | some bundle =>
    refine ⟨bundle, rfl, ?_⟩
    rw [oneTimePrekeys_of_fetch fetched, waiting]
    rfl

end Directory

theorem KeyStore.nodup_of_publish {G : Type} {S : Suite} {store : KeyStore G} {now : UInt64}
    {bundle : Bundle} (published : store.publish S now = .ok bundle) :
    bundle.oneTimeIds.Nodup := by
  unfold publish at published
  split at published <;> cases published
  rw [Bundle.oneTimeIds, List.map_map]
  exact store.prekeys.oneTime.nodup_keys

/-- What has happened to a directory: publications, and bundles which it has handed out. -/
inductive Handling where
  | published (bundle : Bundle)
  | fetched (peer : IdentityKey) (bundle : Bundle)

structure Exchange (G : Type) where
  store : IdentityKey → Option (KeyStore G)
  bundles : List Bundle
  directory : Directory
  log : List Handling

namespace Exchange

section
variable {G : Type} [Entropy G] (S : Suite)

def begin (store : IdentityKey → Option (KeyStore G)) : Exchange G := ⟨store, [], {}, []⟩

def operate (x : Exchange G) (peer : IdentityKey) (store : KeyStore G) (now : UInt64)
    (operation : KeyStore.Operation G) : Exchange G :=
  { x with store := Function.update x.store peer (some (store.step S now operation)) }

def publish (x : Exchange G) (bundle : Bundle) : Exchange G :=
  { x with
    directory := x.directory.publish bundle
    log := x.log ++ [.published bundle] }

def fetch (x : Exchange G) (peer : IdentityKey) : Exchange G :=
  { x with
    directory := (x.directory.fetch peer).2
    log := x.log ++ ((x.directory.fetch peer).1.map (.fetched peer)).toList }

/-- Everybody starts with a new store and uses it in any way. What a store has returned may be
published at any later time and as often as its owner likes. -/
inductive Run (G : Type) [Entropy G] : Exchange G → Prop where
  | begin {store : IdentityKey → Option (KeyStore G)}
      (new : ∀ peer s, store peer = some s → ∃ identity config source now,
        identity.key S = peer ∧ s = KeyStore.create S identity config source now) :
      Run G (begin store)
  | operate {x : Exchange G} {peer : IdentityKey} {store : KeyStore G} (run : Run G x)
      (owned : x.store peer = some store) (now : UInt64) (operation : KeyStore.Operation G) :
      Run G (x.operate S peer store now operation)
  | returned {x : Exchange G} {peer : IdentityKey} {store : KeyStore G} {now : UInt64}
      {bundle : Bundle} (run : Run G x) (owned : x.store peer = some store)
      (publishes : store.publish S now = .ok bundle) :
      Run G { x with bundles := x.bundles ++ [bundle] }
  | publish {x : Exchange G} {bundle : Bundle} (run : Run G x) (mem : bundle ∈ x.bundles) :
      Run G (x.publish bundle)
  | fetch {x : Exchange G} (run : Run G x) (peer : IdentityKey) : Run G (x.fetch peer)

end

def Renews (peer : IdentityKey) (id : UInt64) (log : List Handling) : Prop :=
  ∃ bundle, .published bundle ∈ log ∧ bundle.identity = peer ∧ id ∈ bundle.oneTimeIds

theorem Renews.append {peer : IdentityKey} {id : UInt64} {log : List Handling}
    (renews : Renews peer id log) (more : List Handling) : Renews peer id (log ++ more) := by
  obtain ⟨bundle, mem, owner, offered⟩ := renews
  exact ⟨bundle, List.mem_append_left _ mem, owner, offered⟩

/-- Whoever is handed out a prekey is followed by a publication, before it is handed out again or
waits for that. -/
structure Sound {G : Type} (x : Exchange G) : Prop where
  distinct : ∀ bundle ∈ x.bundles, bundle.oneTimeIds.Nodup
  queued : ∀ peer, ((x.directory.queue peer).map (·.id)).Nodup
  offered : ∀ peer, ∀ prekey ∈ x.directory.queue peer,
    ∃ bundle ∈ x.bundles, bundle.identity = peer ∧ prekey ∈ bundle.oneTimePrekeys
  known : ∀ peer bundle, .fetched peer bundle ∈ x.log → ∀ prekey ∈ bundle.oneTimePrekeys,
    ∃ source ∈ x.bundles, source.identity = peer ∧ prekey ∈ source.oneTimePrekeys
  waits : ∀ before peer bundle after, x.log = before ++ .fetched peer bundle :: after →
    ∀ id ∈ bundle.oneTimeIds, id ∈ (x.directory.queue peer).map (·.id) → Renews peer id after
  again : ∀ before peer first middle second after,
    x.log = before ++ .fetched peer first :: (middle ++ .fetched peer second :: after) →
    ∀ id ∈ first.oneTimeIds, id ∈ second.oneTimeIds → Renews peer id middle

variable {G : Type} {x : Exchange G} {peer : IdentityKey} {bundle : Bundle}

theorem Sound.begin (store : IdentityKey → Option (KeyStore G)) : (begin store).Sound where
  distinct := nofun
  queued _ := List.nodup_nil
  offered := nofun
  known := nofun
  waits _ _ _ _ whole := absurd whole.symm (by simp [Exchange.begin])
  again _ _ _ _ _ _ whole := absurd whole.symm (by simp [Exchange.begin])

theorem cut_concat {log before after : List Handling} {last entry : Handling}
    (whole : log ++ [last] = before ++ entry :: after) :
    (log = before ∧ last = entry ∧ after = []) ∨
      ∃ rest, after = rest ++ [last] ∧ log = before ++ entry :: rest := by
  rcases List.eq_nil_or_concat after with rfl | ⟨rest, other, rfl⟩
  · obtain ⟨same, last⟩ := List.append_inj' whole rfl
    exact .inl ⟨same, List.singleton_inj.1 last, rfl⟩
  · rw [List.concat_eq_append, ← List.cons_append, ← List.append_assoc] at whole
    obtain ⟨same, last⟩ := List.append_inj' whole rfl
    exact .inr ⟨rest, by rw [List.concat_eq_append, List.singleton_inj.1 last], same⟩

theorem Sound.again_concat (sound : x.Sound) {last : Handling}
    (waiting : ∀ peer bundle, last = .fetched peer bundle →
      ∀ id ∈ bundle.oneTimeIds, id ∈ (x.directory.queue peer).map (·.id))
    {before middle after : List Handling} {first second : Bundle}
    (whole : x.log ++ [last] =
      before ++ .fetched peer first :: (middle ++ .fetched peer second :: after))
    {id : UInt64} (mem : id ∈ first.oneTimeIds) (mem' : id ∈ second.oneTimeIds) :
    Renews peer id middle := by
  rcases cut_concat whole with ⟨-, -, none⟩ | ⟨rest, whole, old⟩
  · simp at none
  rcases cut_concat whole.symm with ⟨rfl, new, -⟩ | ⟨rest, rfl, rfl⟩
  · exact sound.waits _ _ _ _ old id mem (waiting peer second new id mem')
  · exact sound.again _ _ _ _ _ _ old id mem mem'

theorem Sound.publish (sound : x.Sound) (mem : bundle ∈ x.bundles) : (x.publish bundle).Sound where
  distinct := sound.distinct
  queued peer := by
    by_cases same : peer = bundle.identity
    · subst same
      simp only [Exchange.publish, Directory.queue_publish_self]
      exact sound.distinct bundle mem
    · simp only [Exchange.publish, Directory.queue_publish_of_ne same]
      exact sound.queued peer
  offered peer prekey waiting := by
    by_cases same : peer = bundle.identity
    · subst same
      simp only [Exchange.publish, Directory.queue_publish_self] at waiting
      exact ⟨bundle, mem, rfl, waiting⟩
    · simp only [Exchange.publish, Directory.queue_publish_of_ne same] at waiting
      exact sound.offered peer prekey waiting
  known peer other inside := by
    rcases List.mem_append.1 inside with old | last
    · exact sound.known peer other old
    · cases List.mem_singleton.1 last
  waits before peer other after whole id handed waiting := by
    rcases cut_concat whole with ⟨-, new, -⟩ | ⟨rest, rfl, old⟩
    · cases new
    by_cases same : peer = bundle.identity
    · subst same
      simp only [Exchange.publish, Directory.queue_publish_self] at waiting
      exact ⟨bundle, List.mem_append_right _ (List.mem_singleton_self _), rfl, waiting⟩
    · simp only [Exchange.publish, Directory.queue_publish_of_ne same] at waiting
      exact (sound.waits _ _ _ _ old id handed waiting).append _
  again _ _ _ _ _ _ whole _ handed handed' :=
    sound.again_concat (fun _ _ new => by cases new) whole handed handed'

theorem Sound.fetch (sound : x.Sound) (peer : IdentityKey) : (x.fetch peer).Sound := by
  cases fetched : (x.directory.fetch peer).1 with
  | none =>
    have same : x.fetch peer = x := by
      simp only [Exchange.fetch, fetched, Directory.fetch_eq_of_none fetched, Option.map_none,
        Option.toList_none, List.append_nil]
    rw [same]
    exact sound
  | some bundle =>
    have log : (x.fetch peer).log = x.log ++ [.fetched peer bundle] := by
      simp only [Exchange.fetch, fetched, Option.map_some, Option.toList_some]
    have head := Directory.oneTimePrekeys_of_fetch fetched
    have inside : ∀ prekey ∈ bundle.oneTimePrekeys, prekey ∈ x.directory.queue peer := by
      intro prekey mem
      rw [head] at mem
      exact List.mem_of_head? (Option.mem_toList.1 mem)
    have fewer {other : IdentityKey} {id : UInt64}
        (waiting : id ∈ ((x.fetch peer).directory.queue other).map (·.id)) :
        id ∈ (x.directory.queue other).map (·.id) :=
      List.map_subset _ Directory.queue_fetch_subset waiting
    refine ⟨sound.distinct, fun other => ?_, fun other prekey waiting => ?_,
      fun other found mem => ?_, fun before other found after whole id handed waiting => ?_,
      fun before other first middle second after whole id handed handed' => ?_⟩
    · by_cases same : other = peer
      · subst same
        simp only [Exchange.fetch, Directory.queue_fetch_self]
        exact (sound.queued other).sublist ((List.tail_sublist _).map _)
      · simp only [Exchange.fetch, Directory.queue_fetch_of_ne same]
        exact sound.queued other
    · exact sound.offered other prekey (Directory.queue_fetch_subset waiting)
    · rw [log] at mem
      rcases List.mem_append.1 mem with old | last
      · exact sound.known other found old
      · cases List.mem_singleton.1 last
        exact fun prekey mem => sound.offered peer prekey (inside prekey mem)
    · rw [log] at whole
      rcases cut_concat whole with ⟨-, new, -⟩ | ⟨rest, rfl, old⟩
      -- What has just left the queue is not in it a second time.
      · cases new
        simp only [Exchange.fetch, Directory.queue_fetch_self] at waiting
        have once := sound.queued peer
        rw [Bundle.oneTimeIds, head] at handed
        cases queue : x.directory.queue peer with
        | nil => simp [queue] at handed
        | cons prekey rest =>
          rw [queue] at handed waiting once
          simp only [List.head?_cons, Option.toList_some, List.map_cons, List.map_nil,
            List.mem_singleton, List.tail_cons] at handed waiting
          subst handed
          exact absurd waiting (List.nodup_cons.1 once).1
      · exact (sound.waits _ _ _ _ old id handed (fewer waiting)).append _
    · rw [log] at whole
      refine sound.again_concat ?_ whole handed handed'
      rintro _ _ ⟨⟩ id mem
      exact List.map_subset _ inside mem

section
variable [Entropy G] {S : Suite}

theorem Run.sound (run : Run S G x) : x.Sound := by
  induction run with
  | begin new => exact .begin _
  | operate _ _ now operation sound =>
    exact ⟨sound.distinct, sound.queued, sound.offered, sound.known, sound.waits, sound.again⟩
  | @returned x peer store now bundle _ _ publishes sound =>
    have more {peer : IdentityKey} {prekey : OneTimePrekey} :
        (∃ source ∈ x.bundles, source.identity = peer ∧ prekey ∈ source.oneTimePrekeys) →
        ∃ source ∈ x.bundles ++ [bundle], source.identity = peer ∧
          prekey ∈ source.oneTimePrekeys := by
      rintro ⟨source, mem, rest⟩
      exact ⟨source, List.mem_append_left _ mem, rest⟩
    refine ⟨fun source mem => ?_, sound.queued,
      fun peer prekey waiting => more (sound.offered peer prekey waiting),
      fun peer found mem prekey inside => more (sound.known peer found mem prekey inside),
      sound.waits, sound.again⟩
    rcases List.mem_append.1 mem with old | last
    · exact sound.distinct source old
    · rw [List.mem_singleton.1 last]
      exact KeyStore.nodup_of_publish publishes
  | publish _ mem sound => exact sound.publish mem
  | fetch _ peer sound => exact sound.fetch peer

/-- Whatever waits in a queue is handed out after some fetches. -/
theorem Run.exists_fetched (run : Run S G x) {first rest : List OneTimePrekey}
    {prekey : OneTimePrekey} (waiting : x.directory.queue peer = first ++ prekey :: rest) :
    ∃ y between bundle, Run S G y ∧ y.log = x.log ++ between ++ [.fetched peer bundle] ∧
      bundle.oneTimePrekeys = [prekey] := by
  induction first generalizing x with
  | nil =>
    obtain ⟨bundle, fetched, carries⟩ := Directory.exists_fetched_of_queue waiting
    refine ⟨x.fetch peer, [], bundle, run.fetch peer, ?_, carries⟩
    simp only [Exchange.fetch, fetched, Option.map_some, Option.toList_some, List.append_nil]
  | cons other first ih =>
    have next : (x.fetch peer).directory.queue peer = first ++ prekey :: rest := by
      simp only [Exchange.fetch, Directory.queue_fetch_self, waiting, List.cons_append,
        List.tail_cons]
    obtain ⟨y, between, bundle, run, log, carries⟩ := ih (run.fetch peer) next
    let head : List Handling := ((x.directory.fetch peer).1.map (.fetched peer)).toList
    refine ⟨y, head ++ between, bundle, run, ?_, carries⟩
    rw [log, Exchange.fetch, List.append_assoc x.log]

/-- A prekey for one use is handed out a second time only after its owner has published it again in
between. But that is all it takes: whatever was handed out can be handed out again. -/
theorem Run.handed_out_again (run : Run S G x) :
    (∀ before peer first middle second after,
      x.log = before ++ .fetched peer first :: (middle ++ .fetched peer second :: after) →
      ∀ id ∈ first.oneTimeIds, id ∈ second.oneTimeIds →
        ∃ bundle, .published bundle ∈ middle ∧ bundle.identity = peer ∧ id ∈ bundle.oneTimeIds) ∧
    ∀ peer first, .fetched peer first ∈ x.log → ∀ id ∈ first.oneTimeIds,
      ∃ y between second, Run S G y ∧ y.log = x.log ++ between ++ [.fetched peer second] ∧
        id ∈ second.oneTimeIds := by
  have sound := run.sound
  refine ⟨sound.again, fun peer first mem id handed => ?_⟩
  obtain ⟨prekey, inside, rfl⟩ := List.mem_map.1 handed
  obtain ⟨source, returned, rfl, offered⟩ := sound.known peer first mem prekey inside
  obtain ⟨before, after, whole⟩ := List.append_of_mem offered
  have waiting : (x.publish source).directory.queue source.identity = before ++ prekey :: after :=
    Directory.queue_publish_self.trans whole
  obtain ⟨y, between, second, run, log, carries⟩ := (run.publish returned).exists_fetched waiting
  refine ⟨y, .published source :: between, second, run, ?_, ?_⟩
  · rw [log, Exchange.publish, List.append_assoc x.log, List.singleton_append]
  · rw [Bundle.oneTimeIds, carries]
    exact List.mem_singleton_self _

theorem Run.exists_republished {identity : Identity} {config : KeyStoreConfig} {source : G}
    {bundle : Bundle} {prekey : OneTimePrekey} {rest : List OneTimePrekey}
    (publishes : (KeyStore.create S identity config source 0).publish S 0 = .ok bundle)
    (offers : bundle.oneTimePrekeys = prekey :: rest) :
    ∃ (x : Exchange G) (first second : Bundle), Run S G x ∧
      x.log = [.published bundle, .fetched bundle.identity first, .published bundle,
        .fetched bundle.identity second] ∧
      first.oneTimeIds = [prekey.id] ∧ second.oneTimeIds = [prekey.id] := by
  let owner := identity.key S
  let store : IdentityKey → Option (KeyStore G) :=
    Function.update (fun _ => none) owner (some (KeyStore.create S identity config source 0))
  have new : ∀ peer s, store peer = some s → ∃ identity config source now,
      identity.key S = peer ∧ s = KeyStore.create S identity config source now := by
    intro peer s found
    by_cases same : peer = owner
    · subst same
      cases (Function.update_self ..).symm.trans found
      exact ⟨identity, config, source, 0, rfl, rfl⟩
    · cases (Function.update_of_ne same ..).symm.trans found
  -- Whatever has happened before, a publication is followed by a fetch of its first prekey.
  have again {x : Exchange G} (run : Run S G x) (mem : bundle ∈ x.bundles) :
      ∃ fetched : Bundle, fetched.oneTimeIds = [prekey.id] ∧
        ∃ y, Run S G y ∧ bundle ∈ y.bundles ∧
          y.log = x.log ++ [.published bundle, .fetched bundle.identity fetched] := by
    have waiting : (x.publish bundle).directory.queue bundle.identity = prekey :: rest :=
      Directory.queue_publish_self.trans offers
    obtain ⟨fetched, found, carries⟩ := Directory.exists_fetched_of_queue waiting
    refine ⟨fetched, by rw [Bundle.oneTimeIds, carries]; rfl, _,
      (run.publish mem).fetch bundle.identity, mem, ?_⟩
    have log : ((x.publish bundle).fetch bundle.identity).log =
        (x.publish bundle).log ++ [.fetched bundle.identity fetched] := by
      simp only [Exchange.fetch, found, Option.map_some, Option.toList_some]
    rw [log, Exchange.publish, List.append_assoc]
    rfl
  have owned : store owner = some (KeyStore.create S identity config source 0) :=
    Function.update_self ..
  have start : Run S G { Exchange.begin store with bundles := [] ++ [bundle] } :=
    (Run.begin new).returned owned publishes
  obtain ⟨first, carries, y, run, mem, log⟩ := again start (List.mem_singleton_self _)
  obtain ⟨second, carries', z, run, -, log'⟩ := again run mem
  refine ⟨z, first, second, run, ?_, carries, carries'⟩
  rw [log', log]
  rfl

end

theorem exists_first_bundle : ∃ (identity : Identity) (source : KeyStream) (bundle : Bundle)
    (prekey : OneTimePrekey),
    (KeyStore.create .standard identity { oneTimePrekeys := 1 } source 0).publish .standard 0 =
      .ok bundle ∧ bundle.oneTimePrekeys = [prekey] ∧ prekey.id = 0 :=
  ⟨⟨⟨.replicate 32 1⟩, ⟨.replicate 32 2⟩⟩, ⟨.replicate 32 3, 0⟩, _, _, rfl, rfl, rfl⟩

/-- Between two fetches of the same prekey its owner has published it again. -/
theorem renewed_before_second_fetch :
    ∃ (x : Exchange KeyStream) (peer : IdentityKey) (before middle : List Handling)
      (first second : Bundle),
      Run .standard KeyStream x ∧
        x.log = before ++ .fetched peer first :: (middle ++ .fetched peer second :: []) ∧
        0 ∈ first.oneTimeIds ∧ 0 ∈ second.oneTimeIds ∧
        ∃ bundle, .published bundle ∈ middle ∧ bundle.identity = peer ∧ 0 ∈ bundle.oneTimeIds := by
  obtain ⟨identity, source, bundle, prekey, publishes, offers, number⟩ := exists_first_bundle
  obtain ⟨x, first, second, run, log, ids, ids'⟩ := Run.exists_republished publishes offers
  have handed : 0 ∈ first.oneTimeIds := by
    rw [ids, number]
    exact List.mem_singleton_self _
  have handed' : 0 ∈ second.oneTimeIds := by
    rw [ids', number]
    exact List.mem_singleton_self _
  exact ⟨x, bundle.identity, [.published bundle], [.published bundle], first, second, run, log,
    handed, handed', run.handed_out_again.1 [.published bundle] bundle.identity first
      [.published bundle] second [] log 0 handed handed'⟩

/-- A store publishes its one prekey, which is fetched, and publishes it once more. -/
theorem handed_out_twice :
    ∃ (x : Exchange KeyStream) (peer : IdentityKey) (bundle first second : Bundle),
      Run .standard KeyStream x ∧ x.log = [.published bundle, .fetched peer first,
        .published bundle, .fetched peer second] ∧
      first.oneTimeIds = [0] ∧ second.oneTimeIds = [0] := by
  obtain ⟨identity, source, bundle, prekey, publishes, offers, number⟩ := exists_first_bundle
  obtain ⟨x, first, second, run, log, ids, ids'⟩ := Run.exists_republished publishes offers
  rw [number] at ids ids'
  exact ⟨x, bundle.identity, bundle, first, second, run, log, ids, ids'⟩

end Exchange

end Confide
