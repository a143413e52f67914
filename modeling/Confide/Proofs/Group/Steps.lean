import Confide.Proofs.Group.Chains
import Confide.Proofs.Group.Membership

/-! What an event can do to a group: one case for each way in which it can go well, and one in which
nothing happens. Epochs change by our own updates and by distributions for a newer epoch only. -/

set_option autoImplicit false

namespace Confide

def Distribution.memberChain (d : Distribution) : MemberChain :=
  ⟨⟨d.chainKey, d.counter⟩, d.verifyingKey, .empty⟩

namespace Group

theorem hasChain_iff {g : Group} {peer : IdentityKey} :
    g.hasChain peer = true ↔ ∃ c, g.chains.get? peer = some c :=
  Option.isSome_iff_exists

/-- We have the chain of a distribution already, perhaps at another message. -/
def Knows (g : Group) (sender : IdentityKey) (d : Distribution) : Prop :=
  ∃ c, g.chains.get? sender = some c ∧ c.verifyingKey = d.verifyingKey

theorem knows_iff {g : Group} {sender : IdentityKey} {d : Distribution} :
    (g.chains.get? sender).any (·.verifyingKey = d.verifyingKey) = true ↔ g.Knows sender d := by
  unfold Knows
  cases g.chains.get? sender <;> simp

theorem not_knows_of_chains_empty {g : Group} {peer : IdentityKey} {d : Distribution}
    (none : g.chains = .empty) : ¬g.Knows peer d := by
  rintro ⟨c, found, -⟩
  rw [none] at found
  cases found

theorem learned_of_knows {g : Group} {sender : IdentityKey} {d : Distribution}
    (known : g.Knows sender d) : g.learned sender d = g :=
  if_pos (knows_iff.2 known)

theorem learned_of_not_knows {g : Group} {sender : IdentityKey} {d : Distribution}
    (unknown : ¬g.Knows sender d) :
    g.learned sender d = { g with chains := g.chains.insert sender d.memberChain } :=
  if_neg (mt knows_iff.1 unknown)

@[simp]
theorem id_learned (g : Group) (sender : IdentityKey) (d : Distribution) :
    (g.learned sender d).id = g.id := by rw [learned_eq]

@[simp]
theorem self_learned (g : Group) (sender : IdentityKey) (d : Distribution) :
    (g.learned sender d).self = g.self := by rw [learned_eq]

@[simp]
theorem epoch_learned (g : Group) (sender : IdentityKey) (d : Distribution) :
    (g.learned sender d).epoch = g.epoch := by rw [learned_eq]

theorem get?_learned_of_ne {g : Group} {sender peer : IdentityKey} {d : Distribution}
    (apart : peer ≠ sender) :
    (g.learned sender d).chains.get? peer = g.chains.get? peer := by
  by_cases known : g.Knows sender d
  · rw [learned_of_knows known]
  · rw [learned_of_not_knows known]
    exact SortedMap.get?_insert_of_ne apart

theorem get?_learned_self {g : Group} {sender : IdentityKey} {d : Distribution}
    (unknown : ¬g.Knows sender d) :
    (g.learned sender d).chains.get? sender = some d.memberChain := by
  rw [learned_of_not_knows unknown]
  exact SortedMap.get?_insert_self

theorem setChain_eq (g : Group) (epoch : UInt64) (sender : IdentityKey) (c : MemberChain) :
    g.setChain epoch sender c =
      { g with
        chains := (g.setChain epoch sender c).chains
        retired := (g.setChain epoch sender c).retired } := by
  unfold setChain
  split <;> rfl

theorem get?_setChain_of_other {g : Group} {epoch : UInt64} {sender peer : IdentityKey}
    {c : MemberChain} (other : peer ≠ sender ∨ epoch ≠ g.epoch) :
    (g.setChain epoch sender c).chains.get? peer = g.chains.get? peer := by
  unfold setChain
  by_cases current : epoch = g.epoch
  · rw [if_pos current]
    exact SortedMap.get?_insert_of_ne (other.resolve_right (not_not.2 current))
  · rw [if_neg current]

theorem get?_setChain_self {g : Group} {epoch : UInt64} {sender : IdentityKey} {c : MemberChain}
    (current : epoch = g.epoch) : (g.setChain epoch sender c).chains.get? sender = some c := by
  rw [setChain, if_pos current]
  exact SortedMap.get?_insert_self

theorem Opens.exists_chain {S : Suite} {g : Group} {message : GroupMessage} {config : GroupConfig}
    {c taken held : MemberChain} {plaintext : Bytes} {peer : IdentityKey}
    (opens : g.Opens S message config c taken plaintext) (found : g.chains.get? peer = some held) :
    ∃ next, (g.setChain message.epoch message.sender taken).chains.get? peer = some next ∧
      next.verifyingKey = held.verifyingKey := by
  by_cases other : peer ≠ message.sender ∨ message.epoch ≠ g.epoch
  · exact ⟨held, (get?_setChain_of_other other).trans found, rfl⟩
  · rw [not_or, not_not, not_not] at other
    obtain ⟨rfl, current⟩ := other
    obtain ⟨key, takes, -⟩ := opens.opened
    have before := opens.found
    rw [current, findChain_current_iff, found] at before
    cases before
    exact ⟨taken, get?_setChain_self current, takes.verifyingKey⟩

section
variable {G : Type} [Entropy G] (S : Suite)

inductive Steps (g : Group) (source : G) : Event → Group → Prop where
  | refused (event : Event) : Steps g source event g
  | encrypted (plaintext : Bytes) (short : HasNext g.ownChain.chain.counter) :
      Steps g source (.encrypt plaintext) (g.sealNext S plaintext).1
  | decrypted {message : GroupMessage} {config : GroupConfig} {c taken : MemberChain}
      {plaintext : Bytes} (opens : g.Opens S message config c taken plaintext) :
      Steps g source (.decrypt message config) (g.setChain message.epoch message.sender taken)
  | followed {sender : IdentityKey} {d : Distribution} {now : UInt64}
      (follows : g.Follows sender d) :
      Steps g source (.process sender d now) (g.learned sender d)
  | moved {sender : IdentityKey} {d : Distribution} {now : UInt64} (moves : g.Moves sender d) :
      Steps g source (.process sender d now)
        ((g.enter d.epoch d.members now source).1.learned sender d)
  | updated (members : List IdentityKey) (now : UInt64) (short : HasNext g.epoch) :
      Steps g source (.update members now)
        (g.enter (g.epoch + 1) (members ++ [g.self]) now source).1
  | purged (now : UInt64) (config : GroupConfig) :
      Steps g source (.purge now config) (g.purge now config)

theorem step_cases (g : Group) (source : G) (event : Event) :
    g.Steps S source event (g.step S source event).1 := by
  cases event with
  | encrypt plaintext =>
    by_cases short : HasNext g.ownChain.chain.counter
    · rw [step_encrypt_of_short S short]
      exact .encrypted plaintext short
    · rw [step_encrypt_of_last S short]
      exact .refused _
  | decrypt message config =>
    cases outcome : g.decrypt S message config with
    | error error =>
      simp only [step, outcome]
      exact .refused _
    | ok accepted =>
      obtain ⟨next, plaintext⟩ := accepted
      obtain ⟨c, taken, opens, rfl⟩ := (decrypt_eq_ok_iff S).1 outcome
      simp only [step, outcome]
      exact .decrypted opens
  | process sender d now =>
    by_cases moves : g.Moves sender d
    · rw [step_process_of_ok S (process_of_moves S moves now source)]
      exact .moved moves
    by_cases follows : g.Follows sender d
    · rw [step_process_of_ok S (process_of_follows S follows now source)]
      exact .followed follows
    · rw [step_process_of_error S follows moves]
      exact .refused _
  | update members now =>
    by_cases short : HasNext g.epoch
    · rw [step_update_of_short S short]
      exact .updated members now short
    · rw [step_update_of_last S short]
      exact .refused _
  | purge now config => exact .purged now config

theorem isMember_start {id : GroupId} {self peer : IdentityKey} {epoch : UInt64}
    {members : List IdentityKey} {source : G} :
    (start id self epoch members source).1.isMember peer = true ↔ peer ∈ members ++ [self] :=
  SortedSet.contains_ofList_iff

theorem join_eq_ok_iff {self sender : IdentityKey} {d : Distribution} {now : UInt64} {source : G}
    {next : Group} {ours : Distribution} :
    (join S self sender d now source).1 = .ok (next, ours) ↔ self ∈ d.members ∧
      (start d.groupId self d.epoch d.members source).1.Follows sender d ∧
      next = (start d.groupId self d.epoch d.members source).1.learned sender d ∧
      ours = (start d.groupId self d.epoch d.members source).1.distribution S := by
  by_cases listed : self ∈ d.members
  · have joined : (join S self sender d now source).1 =
        ((start d.groupId self d.epoch d.members source).1.process S sender d now
          (start d.groupId self d.epoch d.members source).2).1.map fun accepted =>
            (accepted.1, (start d.groupId self d.epoch d.members source).1.distribution S) := by
      simp only [join, listed, not_true_eq_false, if_false]
    rw [joined]
    constructor
    · intro h
      cases outcome : ((start d.groupId self d.epoch d.members source).1.process S sender d now
          (start d.groupId self d.epoch d.members source).2).1 with
      | error error => simp [outcome, Except.map] at h
      | ok accepted =>
        obtain ⟨learned, announced⟩ := accepted
        have follows := (accepted_of_process S outcome).resolve_right fun moves =>
          UInt64.lt_irrefl _ moves.newer
        rw [process_of_follows S follows] at h
        cases h
        exact ⟨listed, follows, rfl, rfl⟩
    · rintro ⟨-, follows, rfl, rfl⟩
      rw [process_of_follows S follows]
      rfl
  · refine iff_of_false ?_ fun h => listed h.1
    simp [join, listed]

end

end Group

end Confide
