import PrdApiWrapper.Attempts

/-!
# The wall-clock budget of a run

Before each sleep a run compares the time since it started, plus the delay, with its budget. What
this is for is a bound on the whole run, of any number of attempts that take any time: the delays
come to no more than the budget together, and no attempt starts later than the budget allows. The
link is that the time a run has slept is part of the time since it started.
-/

namespace PrdApiWrapper

open Interaction

variable {α : Type}

/-! ## Time -/

/-- The time, and what a run has done with it. -/
structure Elapsed where
  now : ℚ
  /-- the first reading of the clock -/
  started : Option ℚ
  /-- the delays passed to `sleep`, together -/
  slept : ℚ
  /-- the time from the checks of the budget to the end of the sleeps, beyond the delays -/
  overslept : ℚ
  /-- when the attempts started and ended -/
  attempts : List (ℚ × ℚ)

namespace Elapsed

/-- Time passes. -/
def pass (t : Elapsed) (now : ℚ) : Elapsed := { t with now := now }

/-- The clock is read. -/
def read (t : Elapsed) (now : ℚ) : Elapsed :=
  { t with now := now, started := t.started <|> some now }

/-- A sleep of so many seconds is over. -/
def sleep (t : Elapsed) (seconds now : ℚ) : Elapsed :=
  { t with
    now := now
    slept := t.slept + seconds
    overslept := t.overslept + (now - (t.now + seconds)) }

/-- An attempt is over. -/
def attempt (t : Elapsed) (now : ℚ) : Elapsed :=
  { t with now := now, attempts := t.attempts ++ [(t.now, now)] }

/-- Later readings only tell the time. -/
theorem read_of_started {t : Elapsed} {begun : ℚ} (h : t.started = some begun) (now : ℚ) :
    t.read now = t.pass now := by
  rw [read, pass, h]
  rfl

end Elapsed

/-- The advice of a failure is finite and not negative, if there is any. -/
def AdvisesTime (outcome : Except Exc α) : Prop :=
  ∀ error, outcome = .error (.app error) → ∀ seconds ∈ error.retryAfter,
    ∃ q, seconds = .fin q ∧ 0 ≤ q

/-- A clock that never goes back, attempts that take any time and end in anything, and a `sleep`
that takes no less than it is told. -/
def elapsing : Protocol (Retrying α) Elapsed where
  allows _ op := ∀ delay, op = .sleep delay → ∃ seconds, delay = .fin seconds ∧ 0 ≤ seconds
  next t
    | .clock, (now : ℚ), t' => t.now ≤ now ∧ t' = t.read now
    | .jitter, (pick : ℚ), t' => 0 ≤ pick ∧ pick ≤ 1 ∧ ∃ now, t.now ≤ now ∧ t' = t.pass now
    | .sleep delay, _, t' =>
      ∃ seconds now, delay = .fin seconds ∧ t.now + seconds ≤ now ∧ t' = t.sleep seconds now
    | .attempt, outcome, t' => AdvisesTime outcome ∧ ∃ now, t.now ≤ now ∧ t' = t.attempt now

/-! ## The invariant -/

/-- A run that keeps to its budget. -/
structure InTime (config : RetryConfig) (begun : ℚ) (t : Elapsed) : Prop where
  started : t.started = some begun
  /-- what was slept is part of what elapsed -/
  elapsed : t.slept ≤ t.now - begun
  slept : t.slept ≤ config.budget
  overslept : 0 ≤ t.overslept
  attempts : ∀ attempt ∈ t.attempts, attempt.1 ≤ begun + config.budget + t.overslept

variable {config : RetryConfig} {begun : ℚ} {t : Elapsed}

/-- Time passes. -/
theorem InTime.pass (h : InTime config begun t) {now : ℚ} (hnow : t.now ≤ now) :
    InTime config begun (t.pass now) where
  started := h.started
  elapsed := by
    have := h.elapsed
    simp only [Elapsed.pass]
    linarith
  slept := h.slept
  overslept := h.overslept
  attempts := h.attempts

/-- An attempt that starts in time. -/
theorem InTime.attempt (h : InTime config begun t)
    (hstart : t.now ≤ begun + config.budget + t.overslept) {now : ℚ} (hnow : t.now ≤ now) :
    InTime config begun (t.attempt now) where
  started := h.started
  elapsed := (h.pass hnow).elapsed
  slept := h.slept
  overslept := h.overslept
  attempts := by
    intro attempt hattempt
    rcases List.mem_append.mp hattempt with hattempt | hattempt
    · exact h.attempts attempt hattempt
    · rw [List.mem_singleton.mp hattempt]
      exact hstart

/-- A sleep within the budget: what was slept before is part of what elapsed. -/
theorem InTime.sleep (h : InTime config begun t) {seconds now : ℚ} (hnow : t.now + seconds ≤ now)
    (hbudget : t.now - begun + seconds ≤ config.budget) :
    InTime config begun (t.sleep seconds now) ∧
      now ≤ begun + config.budget + (t.sleep seconds now).overslept := by
  have helapsed := h.elapsed
  have hover := h.overslept
  refine ⟨⟨h.started, ?_, ?_, ?_, fun attempt hattempt => ?_⟩, ?_⟩
  · simp only [Elapsed.sleep]
    linarith
  · simp only [Elapsed.sleep]
    linarith
  · simp only [Elapsed.sleep]
    linarith
  · have := h.attempts attempt hattempt
    simp only [Elapsed.sleep]
    linarith
  · simp only [Elapsed.sleep]
    linarith

/-! ## The run -/

/-- Before an attempt: it starts in time. -/
def ReadyInTime (config : RetryConfig) (begun : ℚ) (t : Elapsed) : Prop :=
  InTime config begun t ∧ t.now ≤ begun + config.budget + t.overslept

/-- After an attempt. -/
def EndedInTime (config : RetryConfig) (begun : ℚ) (t : Elapsed) : Prop :=
  InTime config begun t ∧ t.attempts ≠ []

theorem EndedInTime.pass (h : EndedInTime config begun t) {now : ℚ} (hnow : t.now ≤ now) :
    EndedInTime config begun (t.pass now) :=
  ⟨h.1.pass hnow, h.2⟩

/-- A delay is finite and not negative. -/
theorem delayFor_elapsing (hinitial : 0 ≤ config.initialBackoff) (hmax : 0 ≤ config.maxBackoff)
    {attempt : ℕ} {retryAfter : Option PyFloat}
    (hadvice : ∀ seconds ∈ retryAfter, ∃ q, seconds = .fin q ∧ 0 ≤ q)
    (h : EndedInTime config begun t) :
    Async.awp elapsing ((config.policy : RetryPolicy (Retrying α)).delayFor attempt retryAfter)
      (fun delay t' => EndedInTime config begun t' ∧ ∃ seconds, delay = .fin seconds ∧ 0 ≤ seconds)
      (fun _ t' => EndedInTime config begun t') t := by
  cases retryAfter with
  | some advised =>
    obtain ⟨seconds, rfl, hseconds⟩ := hadvice advised rfl
    exact ⟨h, _, PyFloat.pyMin_fin _ _, le_min hseconds hmax⟩
  | none =>
    rw [RetryPolicy.delayFor]
    split
    · exact h
    · refine ⟨by rintro _ ⟨⟩, ?_⟩
      rintro pick _ ⟨hpick, hone, now, hnow, rfl⟩
      exact ⟨h.pass hnow, _, rfl, (RetryConfig.backoff_range hinitial hmax hpick hone _).1⟩

/-- A pause leads to another attempt in time, or to the end. -/
theorem pause_elapsing (hinitial : 0 ≤ config.initialBackoff) (hmax : 0 ≤ config.maxBackoff)
    {attempt : ℕ} {error : AppError}
    (hadvice : ∀ seconds ∈ error.retryAfter, ∃ q, seconds = .fin q ∧ 0 ≤ q)
    (h : EndedInTime config begun t) :
    Async.awp elapsing ((config.policy : RetryPolicy (Retrying α)).pause begun attempt error)
      (fun again t' => if again then ReadyInTime config begun t' else EndedInTime config begun t')
      (fun _ t' => EndedInTime config begun t') t := by
  simp only [RetryPolicy.pause, Async.awp_bind, Async.awp_lift]
  refine Async.awp_mono ?_ (fun _ _ herr => herr) (delayFor_elapsing hinitial hmax hadvice h)
  rintro _ t₁ ⟨h₁, seconds, rfl, hseconds⟩
  refine ⟨by rintro _ ⟨⟩, ?_⟩
  rintro now _ ⟨hnow, rfl⟩
  rw [Elapsed.read_of_started h₁.1.started]
  have h₂ := h₁.pass hnow
  rw [Prog.wp_ret]
  split
  · exact h₂
  · next hexceeds =>
    have hbudget : now - begun + seconds ≤ config.budget := by
      simpa [PyFloat.add, PyFloat.lt, RetryConfig.policy] using hexceeds
    simp only [RetryConfig.policy, sleepFor, Async.awp_bind, Async.awp_lift]
    refine ⟨?_, ?_⟩
    · rintro _ ⟨⟩
      exact ⟨seconds, rfl, hseconds⟩
    · rintro ⟨⟩ _ ⟨seconds', later, ⟨⟩, hlater, rfl⟩
      exact h₂.1.sleep hlater hbudget

/-- **The budget of a run.** For every configuration of bounds that are not negative, whatever the
attempts come to and however long they take: a run ends, the delays it passed to `sleep` come to no
more than the budget together, no attempt started later than the budget after the run, not counting
what the sleeps took beyond their delays, and if they took no more than that, a run that ends with
its last attempt has taken no more than the budget and the time of that attempt. -/
theorem run_within_budget (hbudget : 0 ≤ config.budget) (hinitial : 0 ≤ config.initialBackoff)
    (hmax : 0 ≤ config.maxBackoff) (now : ℚ) :
    (retrying (α := α) config).wp elapsing (fun _ t => t.slept ≤ config.budget ∧
      ∃ begun, t.started = some begun ∧
        (∀ attempt ∈ t.attempts, attempt.1 ≤ begun + config.budget + t.overslept) ∧
        ∃ last, t.attempts.getLast? = some last ∧ (t.overslept = 0 → t.now = last.2 →
          t.now ≤ begun + config.budget + (last.2 - last.1))) ⟨now, none, 0, 0, []⟩ := by
  have hpost : ∀ begun t, EndedInTime config begun t → t.slept ≤ config.budget ∧
      ∃ begun, t.started = some begun ∧
        (∀ attempt ∈ t.attempts, attempt.1 ≤ begun + config.budget + t.overslept) ∧
        ∃ last, t.attempts.getLast? = some last ∧ (t.overslept = 0 → t.now = last.2 →
          t.now ≤ begun + config.budget + (last.2 - last.1)) := by
    rintro begun t ⟨h, hsome⟩
    have hlast := h.attempts _ (List.getLast_mem hsome)
    refine ⟨h.slept, begun, h.started, h.attempts, _, List.getLast?_eq_some_getLast hsome, ?_⟩
    intro hover hnow
    rw [hover] at hlast
    linarith
  rw [retrying, RetryPolicy.run, ExceptT.run_mk, Prog.wp_map, RetryPolicy.runWith, Prog.wp_bind]
  refine ⟨by rintro _ ⟨⟩, ?_⟩
  rintro begun _ ⟨hnow, rfl⟩
  refine RetryPolicy.wp_loop (fun _ _ => ReadyInTime config begun)
    (fun _ error _ t => EndedInTime config begun t ∧ AdvisesTime (α := α) (.error (.app error)))
    (fun k _ t hready => ?_) (fun k error _ t hended _ => hpost begun t hended.1)
    (fun k error _ t hended _ _ => ?_) 0 () _ ?_
  · rw [Prog.wp_map]
    refine ⟨by rintro _ ⟨⟩, ?_⟩
    rintro outcome _ ⟨hadvice, later, hlater, rfl⟩
    have hended : EndedInTime config begun (t.attempt later) :=
      ⟨hready.1.attempt hready.2 hlater, by simp [Elapsed.attempt]⟩
    rcases outcome with (error | name) | result
    · exact ⟨hended, hadvice⟩
    · exact hpost begun _ hended
    · exact hpost begun _ hended
  · refine Async.awp_mono (fun again t' h => ?_) (fun _ t' h => hpost begun t' h)
      (pause_elapsing hinitial hmax (hended.2 error rfl) hended.1)
    cases again with
    | true => exact h
    | false => exact hpost begun t' h
  · refine ⟨⟨rfl, by simp [Elapsed.read], hbudget, le_rfl, by simp [Elapsed.read]⟩, ?_⟩
    simp [Elapsed.read, hbudget]

/-- A run as the service configures it sleeps no more than 30 seconds. -/
theorem run_within_budget_defaults :
    (retrying (α := ℕ) .defaults).wp elapsing (fun _ t => t.slept ≤ 30) ⟨0, none, 0, 0, []⟩ :=
  Prog.wp_mono (fun _ _ h => h.1)
    (run_within_budget (by decide +kernel) (by decide +kernel) (by decide +kernel) 0)

end PrdApiWrapper
