import Confide.Entropy.KeyStream
import Confide.Signaling.Backoff
import Mathlib.Algebra.Ring.Nat
import Mathlib.Data.List.Induction

/-! How long a client waits. No delay exceeds the bound it was drawn below, the bounds grow from one
reset to the next, and none exceeds the cap. A bound is the base doubled once for each delay since
the last reset, as long as there were at most 31 of them: those beyond double it no more, which
shows where the cap is more than 2^31 times the base. -/

set_option autoImplicit false

namespace Confide

theorem Duration.eq_of_nanos {first second : Duration} (same : first.nanos = second.nanos) :
    first = second := by
  cases first; cases second; cases same; rfl

theorem Duration.nanos_min (first second : Duration) :
    (first.min second).nanos = Min.min first.nanos second.nanos := by
  unfold Duration.min
  split <;> omega

namespace Backoff

/-! ### Bounds -/

section
variable {G : Type}

/-- A multiple which is too long for a duration exceeds the cap, as every duration is shorter. -/
theorem nanos_ceiling (backoff : Backoff G) : backoff.ceiling.nanos =
    min backoff.config.cap.nanos
      (backoff.config.base.nanos * 2 ^ min backoff.attempts.toNat maxDoublings) := by
  have short := backoff.config.cap.nanos_lt
  unfold ceiling
  rw [Nat.one_shiftLeft]
  unfold Duration.scale? Duration.ofNanos?
  split
  · rename_i bound scaled
    split at scaled
    · cases scaled
      rw [Duration.nanos_min, Nat.min_comm]
    · cases scaled
  · rename_i scaled
    split at scaled
    · cases scaled
    · omega

theorem nanos_ceiling_le_cap (backoff : Backoff G) :
    backoff.ceiling.nanos ≤ backoff.config.cap.nanos := by
  rw [nanos_ceiling]
  exact Nat.min_le_left _ _

theorem nanos_ceiling_mono {first second : Backoff G} (same : first.config = second.config)
    (fewer : first.attempts ≤ second.attempts) : first.ceiling.nanos ≤ second.ceiling.nanos := by
  rw [nanos_ceiling, nanos_ceiling, same]
  have exponents :
      min first.attempts.toNat maxDoublings ≤ min second.attempts.toNat maxDoublings := by
    have := UInt32.le_iff_toNat_le.1 fewer
    omega
  have powers := Nat.pow_le_pow_right (by decide : 0 < 2) exponents
  have products := Nat.mul_le_mul_left second.config.base.nanos powers
  omega

theorem ceiling_reset (backoff : Backoff G) :
    backoff.reset.ceiling = backoff.config.base.min backoff.config.cap := by
  refine Duration.eq_of_nanos ?_
  have base : backoff.config.base.nanos * 2 ^ min (0 : UInt32).toNat maxDoublings =
      backoff.config.base.nanos := Nat.mul_one _
  rw [nanos_ceiling, Duration.nanos_min, Nat.min_comm]
  exact congrArg (min · backoff.config.cap.nanos) base

end

/-! ### One delay -/

/-- The high word of a product with a random word, with the carry out of its low word, is below the
range. -/
theorem carried_lt {range word : Nat} (positive : 0 < range) (bound : word < 2 ^ 64) (second : Nat)
    (bound' : second < 2 ^ 64) :
    word * range / 2 ^ 64 + (word * range % 2 ^ 64 + second * range / 2 ^ 64) / 2 ^ 64 < range := by
  have product : word * range ≤ (2 ^ 64 - 1) * range := Nat.mul_le_mul_right range (by omega)
  have high : second * range / 2 ^ 64 < range :=
    Nat.div_lt_of_lt_mul (Nat.mul_lt_mul_of_pos_right bound' positive)
  omega

variable {G : Type} [Entropy G]

theorem drawUpTo_le (bound : UInt64) (source : G) : (drawUpTo bound source).1 ≤ bound := by
  have small := bound.toNat_lt
  have size : (bound + 1).toNat = (bound.toNat + 1) % 2 ^ 64 := UInt64.toNat_add bound 1
  have within : ∀ n, n < bound.toNat + 1 → UInt64.ofNat n ≤ bound := by
    intro n less
    rw [UInt64.le_iff_toNat_le, UInt64.toNat_ofNat']
    omega
  unfold drawUpTo
  dsimp only
  have word := (drawUInt64 source).1.toNat_lt
  by_cases all : bound + 1 = 0
  · -- The range is that of all words, so the word itself is taken.
    rw [if_pos all, UInt64.le_iff_toNat_le]
    change (drawUInt64 source).1.toNat ≤ bound.toNat
    have none : (bound + 1).toNat = 0 := congrArg UInt64.toNat all
    omega
  · have range : (bound + 1).toNat = bound.toNat + 1 := by
      have some : (bound + 1).toNat ≠ 0 := fun none => all (UInt64.toNat_inj.1 none)
      omega
    rw [if_neg all, range]
    have carried := carried_lt (Nat.succ_pos bound.toNat) word
    split
    · exact within _ (carried _ (drawUInt64 (drawUInt64 source).2).1.toNat_lt)
    · have high := carried 0 (by decide)
      exact within _ (Nat.lt_of_le_of_lt (Nat.le_add_right _ _) high)

theorem nanos_next_le (backoff : Backoff G) : backoff.next.1.nanos ≤ backoff.ceiling.nanos := by
  -- The bound in milliseconds may be cut to its lowest 64 bits, which makes it less.
  have drawn := UInt64.le_iff_toNat_le.1 (drawUpTo_le (.ofNat backoff.ceiling.millis) backoff.source)
  have cut : (UInt64.ofNat backoff.ceiling.millis).toNat ≤ backoff.ceiling.millis := by
    rw [UInt64.toNat_ofNat']
    exact Nat.mod_le _ _
  calc backoff.next.1.nanos
      = (drawUpTo (.ofNat backoff.ceiling.millis) backoff.source).1.toNat * 10 ^ 6 := rfl
    _ ≤ backoff.ceiling.millis * 10 ^ 6 := Nat.mul_le_mul_right _ (Nat.le_trans drawn cut)
    _ ≤ backoff.ceiling.nanos := Nat.div_mul_le_self _ _

theorem toNat_saturatingSucc (n : UInt32) :
    (saturatingSucc n).toNat = min (n.toNat + 1) (2 ^ 32 - 1) := by
  rw [saturatingSucc, UInt32.toNat_ofNat']
  omega

/-! ### Runs -/

inductive Call where
  | next
  | reset
  deriving DecidableEq

def step (backoff : Backoff G) : Call → Backoff G
  | .next => backoff.next.2
  | .reset => backoff.reset

def run (backoff : Backoff G) (calls : List Call) : Backoff G := calls.foldl step backoff

/-- The delays of a run, each with the bound just before it. -/
def delays (backoff : Backoff G) : List Call → List (Duration × Duration)
  | [] => []
  | .next :: calls => (backoff.next.1, backoff.ceiling) :: backoff.next.2.delays calls
  | .reset :: calls => backoff.reset.delays calls

def sinceReset (calls : List Call) : Nat := (calls.reverse.takeWhile (· = .next)).length

theorem sinceReset_append_next (calls : List Call) :
    sinceReset (calls ++ [.next]) = sinceReset calls + 1 := by
  simp [sinceReset]

theorem sinceReset_append_reset (calls : List Call) : sinceReset (calls ++ [.reset]) = 0 := by
  simp [sinceReset]

theorem toNat_attempts_next (backoff : Backoff G) :
    (backoff.step .next).attempts.toNat = min (backoff.attempts.toNat + 1) (2 ^ 32 - 1) :=
  toNat_saturatingSucc backoff.attempts

theorem run_append (backoff : Backoff G) (first second : List Call) :
    backoff.run (first ++ second) = (backoff.run first).run second :=
  List.foldl_append

theorem config_step (backoff : Backoff G) (call : Call) :
    (backoff.step call).config = backoff.config := by
  cases call <;> rfl

theorem config_run (backoff : Backoff G) (calls : List Call) :
    (backoff.run calls).config = backoff.config := by
  induction calls generalizing backoff with
  | nil => rfl
  | cons call calls ih => exact (ih (backoff.step call)).trans (config_step backoff call)

theorem attempts_run (config : BackoffConfig) (source : G) (calls : List Call) :
    (run { config, source } calls).attempts.toNat = min (sinceReset calls) (2 ^ 32 - 1) := by
  induction calls using List.reverseRecOn with
  | nil => rfl
  | append_singleton calls call ih =>
    rw [run_append]
    cases call with
    | next =>
      change ((run { config, source } calls).step .next).attempts.toNat = _
      rw [toNat_attempts_next, ih, sinceReset_append_next]
      omega
    | reset =>
      rw [sinceReset_append_reset]
      rfl

theorem attempts_step_of_ne_reset {backoff : Backoff G} {call : Call} (going : call ≠ .reset) :
    backoff.attempts ≤ (backoff.step call).attempts := by
  cases call with
  | next =>
    have bound := backoff.attempts.toNat_lt
    rw [UInt32.le_iff_toNat_le, toNat_attempts_next]
    omega
  | reset => exact absurd rfl going

theorem attempts_le_run {backoff : Backoff G} {calls : List Call} (going : .reset ∉ calls) :
    backoff.attempts ≤ (backoff.run calls).attempts := by
  induction calls generalizing backoff with
  | nil => exact UInt32.le_refl _
  | cons call calls ih =>
    obtain ⟨here, later⟩ := List.ne_and_not_mem_of_not_mem_cons going
    exact UInt32.le_trans (attempts_step_of_ne_reset here.symm) (ih later)

theorem nanos_ceiling_le_run {backoff : Backoff G} {calls : List Call} (going : .reset ∉ calls) :
    backoff.ceiling.nanos ≤ (backoff.run calls).ceiling.nanos :=
  nanos_ceiling_mono (config_run backoff calls).symm (attempts_le_run going)

theorem within_of_mem_delays {config : BackoffConfig} {backoff : Backoff G} {calls : List Call}
    {entry : Duration × Duration} (configured : backoff.config = config)
    (mem : entry ∈ backoff.delays calls) :
    entry.1.nanos ≤ entry.2.nanos ∧ entry.2.nanos ≤ config.cap.nanos := by
  induction calls generalizing backoff with
  | nil => cases mem
  | cons call calls ih =>
    have configured' := (config_step backoff call).trans configured
    cases call with
    | next =>
      rcases List.mem_cons.1 mem with rfl | later
      · exact ⟨nanos_next_le backoff, configured ▸ nanos_ceiling_le_cap backoff⟩
      · exact ih configured' later
    | reset => exact ih configured' mem

theorem nanos_ceiling_run (config : BackoffConfig) (source : G) (calls : List Call) :
    (run { config, source } calls).ceiling.nanos =
      min config.cap.nanos (config.base.nanos * 2 ^ min (sinceReset calls) maxDoublings) := by
  have exponent : min (min (sinceReset calls) (2 ^ 32 - 1)) maxDoublings =
      min (sinceReset calls) maxDoublings := by
    unfold maxDoublings
    omega
  rw [nanos_ceiling, config_run, attempts_run, exponent]

/-- Every delay is within the bound just before it, and every bound within the cap. Bounds do not
decrease until the next reset, after which the bound is the base, or the cap if that is less; and the
delays since the last reset are counted, up to the greatest number. -/
theorem delays_within_bounds (config : BackoffConfig) (source : G) (calls : List Call) :
    let start : Backoff G := { config, source }
    (∀ entry ∈ start.delays calls,
      entry.1.nanos ≤ entry.2.nanos ∧ entry.2.nanos ≤ config.cap.nanos) ∧
    (∀ more, .reset ∉ more →
      (start.run calls).ceiling.nanos ≤ (start.run (calls ++ more)).ceiling.nanos) ∧
    (start.run (calls ++ [.reset])).ceiling = config.base.min config.cap ∧
    (start.run calls).attempts.toNat = min (sinceReset calls) (2 ^ 32 - 1) := by
  intro start
  refine ⟨fun entry mem => within_of_mem_delays rfl mem, fun more going => ?_, ?_,
    attempts_run config source calls⟩
  · rw [run_append]
    exact nanos_ceiling_le_run going
  · rw [run_append]
    have base := ceiling_reset (start.run calls)
    rw [config_run] at base
    exact base

/-- The bound after a run doubles the base once for each delay since the last reset, but at most 31
times. This is the base doubled for all of them, or the cap if it is less, unless there were more
delays and the cap is still out of reach of a base which is not zero. -/
theorem bound_doubles_until_limit (config : BackoffConfig) (source : G) (calls : List Call) :
    let backoff := run { config, source } calls
    let doubled := fun n => min config.cap.nanos (config.base.nanos * 2 ^ n)
    backoff.ceiling.nanos = doubled (min (sinceReset calls) 31) ∧
      (backoff.ceiling.nanos = doubled (sinceReset calls) ↔
        sinceReset calls ≤ 31 ∨ config.base.nanos = 0 ∨
          config.cap.nanos ≤ config.base.nanos * 2 ^ 31) := by
  intro backoff doubled
  have bound : backoff.ceiling.nanos = doubled (min (sinceReset calls) 31) :=
    nanos_ceiling_run config source calls
  refine ⟨bound, ?_⟩
  rw [bound]
  rcases Nat.lt_or_ge 31 (sinceReset calls) with many | few
  · rw [Nat.min_eq_right (Nat.le_of_lt many)]
    have more : 2 * (config.base.nanos * 2 ^ 31) ≤ config.base.nanos * 2 ^ sinceReset calls := by
      have powers := Nat.pow_le_pow_right (by decide : 0 < 2) many
      have products := Nat.mul_le_mul_left config.base.nanos powers
      omega
    have zero : config.base.nanos = 0 → config.base.nanos * 2 ^ sinceReset calls = 0 := by
      intro none
      rw [none, Nat.zero_mul]
    simp only [doubled]
    omega
  · rw [Nat.min_eq_left few]
    exact iff_of_true rfl (.inl few)

/-- With a base of one nanosecond and a cap of a hundred seconds the bound has stopped growing after
32 delays in a row. -/
theorem bound_stops_doubling :
    let config : BackoffConfig := ⟨⟨1, by decide⟩, .ofSeconds 100⟩
    let calls := List.replicate 32 Call.next
    let backoff := run { config, source := (⟨.replicate 32 1, 0⟩ : KeyStream) } calls
    sinceReset calls = 32 ∧ backoff.ceiling.nanos = 2 ^ 31 ∧
      backoff.ceiling.nanos ≠ min config.cap.nanos (config.base.nanos * 2 ^ sinceReset calls) := by
  intro config calls backoff
  have count : sinceReset calls = 32 := by decide
  have bound : backoff.ceiling.nanos = 2 ^ 31 := by
    have limit : min config.cap.nanos (config.base.nanos * 2 ^ min 32 maxDoublings) = 2 ^ 31 := by
      decide
    exact (nanos_ceiling_run config _ calls).trans (count ▸ limit)
  refine ⟨count, bound, ?_⟩
  rw [bound, count]
  decide

end Backoff

end Confide
