import Confide.Proofs.Group.Opening

/-! How epochs and counters count. An epoch is as many of our own updates away from the last one
which was taken over from another member, and a chain stands behind every message which it has given
a key for. With the last number that can be written the counting ends. Members choose the numbers
from which it goes on, so that the end can be one step away. -/

set_option autoImplicit false

namespace Confide

theorem MemberChain.Takes.lt_counter {S : Suite} {c taken : MemberChain} {counter : UInt64}
    {config : GroupConfig} {key : SealingKey} (takes : c.Takes S counter config key taken) :
    counter < taken.chain.counter := by
  obtain ⟨-, -, short, rfl⟩ := takes_iff.1 takes
  rw [UInt64.lt_iff_toNat_lt, toNat_counter_past config short]
  omega

namespace Group

section
variable {G : Type} [Entropy G] (S : Suite)

/-- What becomes of a group, with the epoch which it has taken over last and the number of its own
updates since. -/
inductive Dates (G : Type) [Entropy G] : Group → UInt64 → Nat → Prop where
  | found (id : GroupId) (self : IdentityKey) (listed : List IdentityKey) (source : G) :
      Dates G (found S id self listed source).1.1 0 0
  | join {self sender : IdentityKey} {d : Distribution} {now : UInt64} {source : G} {next : Group}
      {ours : Distribution} (joined : (join S self sender d now source).1 = .ok (next, ours)) :
      Dates G next d.epoch 0
  | update {g next : Group} {base : UInt64} {count : Nat} {members : List IdentityKey}
      {now : UInt64} {source : G} {ours : Distribution} (dates : Dates G g base count)
      (updated : (g.updateMembers S members now source).1 = .ok (next, ours)) :
      Dates G next base (count + 1)
  | move {g next : Group} {base : UInt64} {count : Nat} {sender : IdentityKey} {d : Distribution}
      {now : UInt64} {source : G} {ours : Option Distribution} (dates : Dates G g base count)
      (newer : g.epoch < d.epoch)
      (accepted : (g.process S sender d now source).1 = .ok (next, ours)) : Dates G next d.epoch 0
  | other {g : Group} {base : UInt64} {count : Nat} {event : Event} {source : G}
      (dates : Dates G g base count) (stays : (g.step S source event).1.epoch = g.epoch) :
      Dates G (g.step S source event).1 base count

end

variable {G : Type} [Entropy G] {S : Suite} {g : Group} {base : UInt64} {count : Nat}

theorem Dates.step (dates : Dates S G g base count) (source : G) (event : Event) :
    ∃ base count, Dates S G (g.step S source event).1 base count := by
  by_cases stays : (g.step S source event).1.epoch = g.epoch
  · exact ⟨base, count, dates.other stays⟩
  have steps := step_cases S g source event
  generalize (g.step S source event).1 = next at steps stays
  cases steps with
  | refused | encrypted | purged => exact absurd rfl stays
  | decrypted =>
    rw [setChain_eq] at stays
    exact absurd rfl stays
  | followed => exact absurd (epoch_learned ..) stays
  | moved moves => exact ⟨_, 0, dates.move moves.newer (process_of_moves S moves _ source)⟩
  | updated members now short =>
    exact ⟨base, count + 1, dates.update (updateMembers_of_short S short members now source)⟩

theorem Reachable.exists_dates (reachable : Reachable S G g) :
    ∃ base count, Dates S G g base count := by
  induction reachable with
  | found id self listed source => exact ⟨0, 0, .found id self listed source⟩
  | join joined => exact ⟨_, 0, .join joined⟩
  | step source event _ ih =>
    obtain ⟨base, count, dates⟩ := ih
    exact dates.step source event

theorem Dates.toNat_epoch (dates : Dates S G g base count) :
    g.epoch.toNat = base.toNat + count := by
  induction dates with
  | found => rfl
  | join joined =>
    obtain ⟨-, -, rfl, -⟩ := (join_eq_ok_iff S).1 joined
    rw [epoch_learned]
    rfl
  | @update g next base count members now source ours dates updated ih =>
    obtain ⟨short, rfl, -⟩ := (updateMembers_eq_ok_iff S).1 updated
    have next : (g.epoch + 1).toNat = g.epoch.toNat + 1 := HasNext.toNat_add_one short
    exact next.trans (congrArg (· + 1) ih)
  | move dates newer accepted =>
    rcases accepted_of_process S accepted with follows | moves
    · exact absurd newer (follows.current ▸ UInt64.lt_irrefl _)
    · rw [process_of_moves S moves] at accepted
      cases accepted
      rw [epoch_learned]
      rfl
  | other dates stays ih => rw [stays, ih]

/-- Epochs go up by one with each update, and counters behind each opened message. In the last epoch
no update succeeds any more, and a last message is not opened, even if it is authentic. -/
theorem Reachable.counts_to_last_number (reachable : Reachable S G g) :
    (∃ base count, Dates S G g base count ∧ g.epoch.toNat = base.toNat + count) ∧
    (∀ (members : List IdentityKey) (now : UInt64) (source : G),
      (HasNext g.epoch → ∃ next ours,
        (g.updateMembers S members now source).1 = .ok (next, ours) ∧
          next.epoch.toNat = g.epoch.toNat + 1 ∧ ours.epoch = next.epoch) ∧
      (g.epoch.toNat = 2 ^ 64 - 1 →
        (g.updateMembers S members now source).1 = .error .overflow)) ∧
    ∀ (message : GroupMessage) (config : GroupConfig),
      (∀ next plaintext, g.decrypt S message config = .ok (next, plaintext) →
        ∃ c, next.findChain message.epoch message.sender = .ok c ∧
          message.counter < c.chain.counter) ∧
      (g.decrypt S message config = .error .overflow ↔
        message.counter.toNat = 2 ^ 64 - 1 ∧ message.groupId = g.id ∧
          ∃ c, g.findChain message.epoch message.sender = .ok c ∧
            S.verify c.verifyingKey (message.position.signedBytes message.ciphertext)
              message.signature = .ok () ∧
            c.gap message.counter ≤ config.maxSkip.toNat) := by
  refine ⟨?_, fun members now source => ⟨fun short => ?_, fun last => ?_⟩,
    fun message config => ⟨fun next plaintext decrypted => ?_, ?_⟩⟩
  · obtain ⟨base, count, dates⟩ := reachable.exists_dates
    exact ⟨base, count, dates, dates.toNat_epoch⟩
  · exact ⟨_, _, updateMembers_of_short S short members now source,
      HasNext.toNat_add_one short, rfl⟩
  · exact updateMembers_of_last S (by omega) members now source
  · obtain ⟨c, taken, opens, rfl⟩ := (decrypt_eq_ok_iff S).1 decrypted
    obtain ⟨key, takes, -⟩ := opens.opened
    exact ⟨taken, findChain_setChain_self opens.found, takes.lt_counter⟩
  · have number : Error.OfNumber .overflow := trivial
    simp only [decrypt_eq_error_iff number, MemberChain.take_eq_overflow_iff]
    constructor
    · rintro ⟨group, c, found, verified, last, near⟩
      exact ⟨last, group, c, found, verified, near⟩
    · rintro ⟨last, group, c, found, verified, near⟩
      exact ⟨group, c, found, verified, last, near⟩

/-- A founder opens message 41 of a member, and then updates the group. -/
theorem founder_counts_on :
    ∃ (g next updated : Group) (message : GroupMessage) (c : MemberChain) (source : KeyStream)
        (ours : Distribution),
      Reachable keyed KeyStream g ∧ g.epoch = 0 ∧
        (g.updateMembers keyed [] 0 source).1 = .ok (updated, ours) ∧ updated.epoch.toNat = 1 ∧
        g.decrypt keyed message {} = .ok (next, []) ∧ message.counter = 41 ∧
        next.findChain message.epoch message.sender = .ok c ∧
        message.counter < c.chain.counter := by
  obtain ⟨g, origin, reachable, installed, epoch, zero⟩ := exists_installed keyed 41
  let message := origin.utterance keyed 0 []
  have authentic : g.Authentic keyed message {} (origin.distribution keyed).memberChain [] :=
    installed.authentic keyed_decrypt?_encrypt (keyed_signs _ _) (by rw [zero]; decide) (by decide)
  have decrypted := (decrypt_eq_ok_iff keyed).2 ⟨_, _, opens_iff.2 ⟨authentic, rfl⟩, rfl⟩
  obtain ⟨-, updates, messages⟩ := reachable.counts_to_last_number
  obtain ⟨updated, ours, done, first, -⟩ :=
    (updates [] 0 ⟨.replicate 32 0, 0⟩).1 (by rw [epoch]; decide)
  obtain ⟨c, found, behind⟩ := (messages message {}).1 _ _ decrypted
  exact ⟨g, _, updated, message, c, _, ours, reachable, epoch, done, by rw [first, epoch]; rfl,
    decrypted, zero, found, behind⟩

/-- A founder takes over the last epoch from a member: it cannot update the group any more. -/
theorem last_epoch_is_final :
    ∃ (g : Group) (peer : IdentityKey), Reachable .standard KeyStream g ∧
      g.isMember peer = true ∧ g.epoch.toNat = 2 ^ 64 - 1 ∧
      ∀ (members : List IdentityKey) (now : UInt64) (source : KeyStream),
        (g.updateMembers .standard members now source).1 = .error .overflow := by
  let self : IdentityKey := ⟨⟨.replicate 32 0⟩, ⟨.replicate 32 0⟩⟩
  let peer : IdentityKey := ⟨⟨.replicate 32 1⟩, ⟨.replicate 32 1⟩⟩
  let source : KeyStream := ⟨.replicate 32 0, 0⟩
  let founded := (found .standard ⟨.replicate 16 0⟩ self [peer] source).1.1
  let d : Distribution := ⟨⟨.replicate 16 0⟩, .ofNat (2 ^ 64 - 1), peer, [self, peer],
    .replicate 32 3, 0, ⟨.replicate 32 0⟩⟩
  have moves : founded.Moves peer d :=
    ⟨List.mem_cons_of_mem _ (List.mem_singleton_self _), rfl, rfl, by decide, List.mem_cons_self⟩
  have reachable : Reachable .standard KeyStream
      (founded.step .standard source (.process peer d 0)).1 := .step source _ (.found ..)
  rw [step_process_of_ok .standard (process_of_moves .standard moves 0 source)] at reachable
  have last : ((founded.enter d.epoch d.members 0 source).1.learned peer d).epoch.toNat =
      2 ^ 64 - 1 := by
    rw [epoch_learned]
    rfl
  refine ⟨_, peer, reachable, ?_, last, fun members now source => ?_⟩
  · rw [isMember_learned, isMember_enter]
    exact moves.listed
  · refine updateMembers_of_last .standard (fun another => ?_) members now source
    unfold HasNext at another
    omega

end Group

end Confide
