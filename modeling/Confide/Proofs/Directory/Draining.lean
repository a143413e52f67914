import Confide.Proofs.Directory

/-! How the entry of a peer is drained. The fetches after a publication return the published prekeys
for one use in their order, one with each bundle, and all else as it was published. The calls about
one peer are of no concern to the others. -/

set_option autoImplicit false

namespace Confide.Directory

inductive Call where
  | publish (bundle : Bundle)
  | fetch (peer : IdentityKey)
  deriving DecidableEq

def Call.peer : Call → IdentityKey
  | .publish bundle => bundle.identity
  | .fetch peer => peer

def step (d : Directory) : Call → Directory
  | .publish bundle => d.publish bundle
  | .fetch peer => (d.fetch peer).2

def run (d : Directory) (calls : List Call) : Directory := calls.foldl step d

/-- What the fetches for a peer return, in the order in which they are made. -/
def fetched (peer : IdentityKey) : Directory → List Call → List (Option Bundle)
  | _, [] => []
  | d, call :: calls =>
    (if call = .fetch peer then [(d.fetch peer).1] else []) ++ fetched peer (d.step call) calls

/-- The first bundles which are fetched after a publication. -/
def handouts (bundle : Bundle) (count : Nat) : List (Option Bundle) :=
  (List.range count).map fun n =>
    some { bundle with oneTimePrekeys := bundle.oneTimePrekeys[n]?.toList }

def Unpublished (peer : IdentityKey) (calls : List Call) : Prop :=
  ∀ bundle, .publish bundle ∈ calls → bundle.identity ≠ peer

variable {d other : Directory} {peer : IdentityKey} {bundle : Bundle} {call : Call}
  {calls : List Call}

theorem run_append (d : Directory) (first second : List Call) :
    d.run (first ++ second) = (d.run first).run second :=
  List.foldl_append

theorem fetched_append (d : Directory) (first second : List Call) :
    fetched peer d (first ++ second) =
      fetched peer d first ++ fetched peer (d.run first) second := by
  induction first generalizing d with
  | nil => rfl
  | cons call first ih =>
    rw [List.cons_append, fetched, fetched, ih, List.append_assoc]
    rfl

/-! ### One call -/

theorem fst_fetch_eq : (d.fetch peer).1 =
    (d.entries.get? peer).map fun entry => entry.bundle.withOneTimePrekey entry.oneTime.head? := by
  unfold fetch
  cases d.entries.get? peer <;> rfl

theorem get?_publish_self (bundle : Bundle) : (d.publish bundle).entries.get? bundle.identity =
    some ⟨bundle.withOneTimePrekey none, bundle.oneTimePrekeys⟩ :=
  SortedMap.get?_insert_self

theorem get?_fetch_self : (d.fetch peer).2.entries.get? peer =
    (d.entries.get? peer).map fun entry => { entry with oneTime := entry.oneTime.tail } := by
  unfold fetch
  cases found : d.entries.get? peer with
  | none => exact found
  | some entry => exact SortedMap.get?_insert_self

theorem get?_step_of_ne (apart : call.peer ≠ peer) :
    (d.step call).entries.get? peer = d.entries.get? peer := by
  cases call with
  | publish bundle => exact SortedMap.get?_insert_of_ne apart.symm
  | fetch owner =>
    simp only [step, fetch]
    cases d.entries.get? owner with
    | none => rfl
    | some entry => exact SortedMap.get?_insert_of_ne apart.symm

theorem get?_step_congr (same : d.entries.get? peer = other.entries.get? peer)
    (own : call.peer = peer) :
    (d.step call).entries.get? peer = (other.step call).entries.get? peer := by
  subst own
  cases call with
  | publish bundle => exact (get?_publish_self bundle).trans (get?_publish_self bundle).symm
  | fetch owner => exact get?_fetch_self.trans ((congrArg _ same).trans get?_fetch_self.symm)

/-! ### Runs -/

theorem fetched_filter (same : d.entries.get? peer = other.entries.get? peer) (calls : List Call) :
    fetched peer d calls = fetched peer other (calls.filter (·.peer = peer)) ∧
      (d.run calls).entries.get? peer =
        (other.run (calls.filter (·.peer = peer))).entries.get? peer := by
  induction calls generalizing d other with
  | nil => exact ⟨rfl, same⟩
  | cons call calls ih =>
    by_cases own : call.peer = peer
    · obtain ⟨answers, left⟩ := ih (get?_step_congr same own)
      have first : (d.fetch peer).1 = (other.fetch peer).1 := by
        rw [fst_fetch_eq, same, fst_fetch_eq]
      rw [List.filter_cons_of_pos (by simpa using own)]
      exact ⟨by rw [fetched, fetched, answers, first], left⟩
    · have foreign : call ≠ .fetch peer := fun fetch => own (congrArg Call.peer fetch)
      obtain ⟨answers, left⟩ := ih ((get?_step_of_ne own).trans same)
      rw [List.filter_cons_of_neg (by simpa using own)]
      exact ⟨by rw [fetched, if_neg foreign, List.nil_append, answers], left⟩

theorem fetched_of_unpublished (unpublished : Unpublished peer calls) :
    fetched peer d calls = (List.range (calls.count (.fetch peer))).map (fun n =>
      (d.entries.get? peer).map fun entry => entry.bundle.withOneTimePrekey entry.oneTime[n]?) ∧
      (d.run calls).entries.get? peer = (d.entries.get? peer).map fun entry =>
        { entry with oneTime := entry.oneTime.drop (calls.count (.fetch peer)) } := by
  induction calls generalizing d with
  | nil => exact ⟨rfl, Option.map_id_apply.symm⟩
  | cons call calls ih =>
    have later : Unpublished peer calls := fun bundle mem =>
      unpublished bundle (List.mem_cons_of_mem call mem)
    obtain ⟨answers, left⟩ := ih (d := d.step call) later
    by_cases own : call = .fetch peer
    · subst own
      rw [step, get?_fetch_self] at answers left
      refine ⟨?_, left.trans ?_⟩
      · rw [fetched, if_pos rfl, fst_fetch_eq, step, answers, List.count_cons_self,
          List.range_succ_eq_map, List.map_cons, List.map_map, List.singleton_append]
        congr 1
        · simp only [List.head?_eq_getElem?]
        · simp only [Option.map_map, Function.comp_def, List.getElem?_tail]
      · simp only [Option.map_map, Function.comp_def, List.count_cons_self, List.drop_tail]
    · have foreign : call.peer ≠ peer := by
        cases call with
        | publish bundle => exact unpublished bundle List.mem_cons_self
        | fetch owner => exact fun same => own (congrArg Call.fetch same)
      rw [get?_step_of_ne foreign] at answers left
      rw [fetched, if_neg own, answers, List.count_cons_of_ne own, List.nil_append]
      exact ⟨rfl, left⟩

theorem fetched_publish (unpublished : Unpublished bundle.identity calls) :
    fetched bundle.identity (d.publish bundle) calls =
        handouts bundle (calls.count (.fetch bundle.identity)) ∧
      ((d.publish bundle).run calls).remaining bundle.identity =
        bundle.oneTimePrekeys.length - calls.count (.fetch bundle.identity) := by
  obtain ⟨answers, left⟩ := fetched_of_unpublished (d := d.publish bundle) unpublished
  rw [get?_publish_self] at answers left
  refine ⟨answers, ?_⟩
  rw [remaining, left]
  exact List.length_drop

theorem verify_of_mem_handouts {found : Bundle} {count : Nat}
    (mem : some found ∈ handouts bundle count) (S : Suite) (now : UInt64) :
    found.verify S now = bundle.verify S now := by
  obtain ⟨n, -, same⟩ := List.mem_map.1 mem
  cases same
  rfl

/-- After a publication of a peer, and up to its next one, each fetch returns the published bundle
with the next of its prekeys for one use, or with none when they are used up; such a bundle is valid
when the published one is. A peer without a publication has none, and what is answered about a peer
does not depend on calls about others. -/
theorem fetches_drain_published (peer : IdentityKey) (calls : List Call) :
    (∀ before bundle after, calls = before ++ .publish bundle :: after → bundle.identity = peer →
      Unpublished peer after →
      let handed := handouts bundle (after.count (.fetch peer))
      fetched peer {} calls = fetched peer {} before ++ handed ∧
        (run {} calls).remaining peer =
          bundle.oneTimePrekeys.length - after.count (.fetch peer) ∧
        ∀ found, some found ∈ handed → ∀ S now, found.verify S now = bundle.verify S now) ∧
      (Unpublished peer calls →
        fetched peer {} calls = List.replicate (calls.count (.fetch peer)) none ∧
          (run {} calls).remaining peer = 0) ∧
      fetched peer {} calls = fetched peer {} (calls.filter (·.peer = peer)) ∧
      (run {} calls).remaining peer = (run {} (calls.filter (·.peer = peer))).remaining peer := by
  refine ⟨?_, fun unpublished => ?_, ?_⟩
  · rintro before bundle after rfl rfl unpublished handed
    obtain ⟨answers, left⟩ := fetched_publish (d := run {} before) unpublished
    refine ⟨?_, ?_, fun found mem S now => verify_of_mem_handouts mem S now⟩
    · rw [fetched_append, fetched, if_neg (by nofun), List.nil_append]
      exact congrArg _ answers
    · rw [run_append]
      exact left
  · obtain ⟨answers, left⟩ := fetched_of_unpublished (d := {}) unpublished
    refine ⟨?_, by rw [remaining, left]; rfl⟩
    exact answers.trans (List.map_const'.trans (congrArg (List.replicate · none) List.length_range))
  · have same : ({} : Directory).entries.get? peer = ({} : Directory).entries.get? peer := rfl
    obtain ⟨answers, left⟩ := fetched_filter same calls
    exact ⟨answers, by rw [remaining, left, remaining]⟩

/-- A bundle with one prekey is fetched before it is published, and twice after another peer has
published a bundle of its own. -/
theorem one_prekey_is_drained :
    ∃ bundle other : Bundle, bundle.oneTimePrekeys.length = 1 ∧
      Unpublished bundle.identity [.publish other, .fetch bundle.identity,
        .fetch other.identity, .fetch bundle.identity] ∧
      fetched bundle.identity {} [.fetch bundle.identity, .publish bundle, .publish other,
          .fetch bundle.identity, .fetch other.identity, .fetch bundle.identity] =
        [none, some bundle, some { bundle with oneTimePrekeys := [] }] := by
  let key (byte : UInt8) : PublicKey := ⟨.replicate 32 byte⟩
  let bundle (byte : UInt8) : Bundle :=
    ⟨0, ⟨⟨.replicate 32 byte⟩, key byte⟩, ⟨0, key 2, ⟨0, 9⟩⟩, ⟨.replicate 64 0⟩, [⟨0, key 3⟩]⟩
  have apart : (bundle 1).identity ≠ (bundle 0).identity := by decide
  have unpublished : Unpublished (bundle 0).identity [.publish (bundle 1),
      .fetch (bundle 0).identity, .fetch (bundle 1).identity, .fetch (bundle 0).identity] := by
    intro found mem
    simp only [List.mem_cons, List.not_mem_nil, Call.publish.injEq, reduceCtorEq, or_false] at mem
    exact mem ▸ apart
  refine ⟨bundle 0, bundle 1, rfl, unpublished, ?_⟩
  obtain ⟨answers, -⟩ := (fetches_drain_published (bundle 0).identity _).1
    [.fetch (bundle 0).identity] (bundle 0) _ rfl rfl unpublished
  have before : Unpublished (bundle 0).identity [.fetch (bundle 0).identity] := by
    intro found mem
    cases List.mem_singleton.1 mem
  obtain ⟨none, -⟩ := (fetches_drain_published (bundle 0).identity _).2.1 before
  rw [none] at answers
  exact answers

end Confide.Directory
