import PrdApiWrapper.Async
import PrdApiWrapper.Models
import Mathlib.Data.Rat.Defs

/-!
# Retries

`RetryPolicy` of `services/resilience.py`. Its clock, sleep and jitter are injected, as in the
source, here as programs over any interface.

The operation is a closure of the caller and may keep variables there from one attempt to the next
(the webhook service counts its attempts so); `loop` threads them as a state `σ`. A completion has
none, and `run` is for it.

The configuration is finite numbers, and delays are exact rationals where they are computed, so
that rounding is not modelled. What is modelled is that `2 ** (attempt - 1)`, an `int`, becomes a
float before it is multiplied, which it cannot from `2 ** 1024` on.
-/

namespace PrdApiWrapper

open Interaction

/-- The attributes of a `RetryPolicy`. -/
structure RetryPolicy (S : Effects) where
  maxAttempts : ℤ
  initialBackoff : ℚ
  maxBackoff : ℚ
  budget : ℚ
  sleep : PyFloat → Async S Exc Unit
  jitter : Prog S ℚ
  clock : Prog S ℚ

/-- After this failure of attempt `attempt` there is no waiting: its advice is a NaN, or there is
none and the backoff cannot be computed. -/
def Unwaitable (attempt : ℕ) (error : AppError) : Prop :=
  error.retryAfter = some .nan ∨ (error.retryAfter = none ∧ 1024 ≤ attempt - 1)

namespace RetryPolicy

variable {S : Effects} {α σ : Type}

/-- `delay_for(attempt, retry_after)`. -/
def delayFor (policy : RetryPolicy S) (attempt : ℕ) : Option PyFloat → Async S Exc PyFloat
  | some retryAfter => pure (retryAfter.pyMin (.fin policy.maxBackoff))
  | none =>
    -- the power is too large for a float, though its product would be capped
    if 1024 ≤ attempt - 1 then throw (.foreign "OverflowError")
    else do
      let exponential := policy.initialBackoff * 2 ^ (attempt - 1)
      let jitter ← ExceptT.lift policy.jitter
      pure (.fin (min exponential policy.maxBackoff * jitter))

/-- What `run` does after a failure worth repeating: wait, unless the wait would blow the budget.
Returns whether to go on. -/
def pause (policy : RetryPolicy S) (started : ℚ) (attempt : ℕ) (error : AppError) :
    Async S Exc Bool := do
  let delay ← policy.delayFor attempt error.retryAfter
  let now ← ExceptT.lift policy.clock
  -- a wait of NaN seconds does not exceed the budget
  if (PyFloat.fin policy.budget).lt ((PyFloat.fin (now - started)).add delay) then
    pure false
  else do
    policy.sleep delay
    pure true

/-- The loop of `run` after `attempt` attempts. -/
def loop (policy : RetryPolicy S) (operation : σ → Prog S (Except Exc α × σ)) (started : ℚ)
    (attempt : ℕ) (vars : σ) : Prog S (Except Exc α × σ) := do
  let (outcome, vars) ← operation vars
  match outcome with
  | .ok result => pure (.ok result, vars)
  -- `except AppError` lets everything else through
  | .error (.foreign name) => pure (.error (.foreign name), vars)
  | .error (.app error) =>
    if _hend : error.retryable = false ∨ policy.maxAttempts ≤ attempt + 1 then
      pure (.error (.app error), vars)
    else do
      match ← (policy.pause started (attempt + 1) error).run with
      | .ok true => policy.loop operation started (attempt + 1) vars
      | .ok false => pure (.error (.app error), vars)
      | .error exc => pure (.error exc, vars)
  termination_by (policy.maxAttempts - attempt).toNat
  decreasing_by
    obtain ⟨_, _⟩ := not_or.mp _hend
    omega

/-- `run(operation)`, for an operation with variables of its own. -/
def runWith (policy : RetryPolicy S) (operation : σ → Prog S (Except Exc α × σ)) (vars : σ) :
    Prog S (Except Exc α × σ) := do
  let started ← policy.clock
  policy.loop operation started 0 vars

/-- `run(operation)`. -/
def run (policy : RetryPolicy S) (operation : Async S Exc α) : Async S Exc α :=
  ExceptT.mk (Prod.fst <$> policy.runWith (fun _ => (·, ()) <$> operation.run) ())

/-- An attempt that fails in a way not worth repeating is the last one. -/
theorem steps_loop {policy : RetryPolicy S} {operation : σ → Prog S (Except Exc α × σ)}
    {started : ℚ} {attempt : ℕ} {vars vars' : σ} {trace : List (Event S)} {error : AppError}
    (h : Prog.Steps (operation vars) trace (.ret (.error (.app error), vars')))
    (hretryable : error.retryable = false) :
    Prog.Steps (policy.loop operation started attempt vars) trace
      (.ret (.error (.app error), vars')) := by
  rw [loop]
  refine (congrArg (Prog.Steps _ trace) ?_).mp (h.bind _)
  exact dif_pos (.inl hretryable)

/-! ## The rules of the loop -/

section

variable {Q : Type} {A : Protocol S Q} {policy : RetryPolicy S}
  {operation : σ → Prog S (Except Exc α × σ)} {started : ℚ}

/-- **The loop rule.** `I k` holds before attempt `k + 1`, and `F k error` after it failed with an
`AppError`. An attempt takes `I` to `F` or ends the loop; a failure that is not repeated, a pause
that gives up and a pause that raises end it; any other pause takes `F` back to `I`. -/
theorem wp_loop (I : ℕ → σ → Q → Prop) (F : ℕ → AppError → σ → Q → Prop)
    {Post : Except Exc α × σ → Q → Prop}
    (hattempt : ∀ k vars q, I k vars q → (operation vars).wp A (fun r q' => match r with
      | (.error (.app error), vars') => F k error vars' q'
      | r => Post r q') q)
    (hstop : ∀ k error vars q, F k error vars q →
      error.retryable = false ∨ policy.maxAttempts ≤ k + 1 → Post (.error (.app error), vars) q)
    (hpause : ∀ k error vars q, F k error vars q → error.retryable = true →
      (k : ℤ) + 1 < policy.maxAttempts →
      Async.awp A (policy.pause started (k + 1) error)
        (fun again q' => if again then I (k + 1) vars q' else Post (.error (.app error), vars) q')
        (fun exc q' => Post (.error exc, vars) q') q) :
    ∀ k vars q, I k vars q → (policy.loop operation started k vars).wp A Post q := by
  intro k
  -- the attempts left decrease
  induction hleft : (policy.maxAttempts - k).toNat using Nat.strong_induction_on generalizing k with
  | _ left ih =>
    intro vars q hI
    rw [loop, Prog.wp_bind]
    refine Prog.wp_mono ?_ (hattempt k vars q hI)
    rintro ⟨outcome, vars'⟩ q' hr
    match outcome with
    | .ok result => exact hr
    | .error (.foreign name) => exact hr
    | .error (.app error) =>
      by_cases hend : error.retryable = false ∨ policy.maxAttempts ≤ k + 1
      · simp only [dif_pos hend]
        exact hstop k error vars' q' hr hend
      · simp only [dif_neg hend]
        obtain ⟨hretry, hmore⟩ := not_or.mp hend
        rw [Bool.not_eq_false] at hretry
        rw [Prog.wp_bind]
        refine Prog.wp_mono ?_ (hpause k error vars' q' hr hretry (not_le.mp hmore))
        rintro (exc | again) q'' hp
        · exact hp
        -- only a pause that was slept leads to another attempt
        · cases again with
          | false => exact hp
          | true => exact ih _ (by omega) (k + 1) rfl vars' q'' hp

/-- The rule for an operation without variables: `run` reads the clock and loops. -/
theorem awp_run {operation : Async S Exc α} (I : ℕ → Q → Prop) (F : ℕ → AppError → Q → Prop)
    {ok : α → Q → Prop} {err : Exc → Q → Prop} {q : Q}
    (hstart : policy.clock.wp A (fun _ q' => I 0 q') q)
    (hattempt : ∀ k q, I k q → Async.awp A operation ok (fun exc q' => match exc with
      | .app error => F k error q'
      | .foreign name => err (.foreign name) q') q)
    (hstop : ∀ k error q, F k error q →
      error.retryable = false ∨ policy.maxAttempts ≤ k + 1 → err (.app error) q)
    (hpause : ∀ started k error q, F k error q → error.retryable = true →
      (k : ℤ) + 1 < policy.maxAttempts →
      Async.awp A (policy.pause started (k + 1) error)
        (fun again q' => if again then I (k + 1) q' else err (.app error) q') err q) :
    Async.awp A (policy.run operation) ok err q := by
  rw [run, Async.awp_mk, Prog.wp_map, runWith, Prog.wp_bind]
  refine Prog.wp_mono (fun started q' hI => ?_) hstart
  refine wp_loop (fun k _ q => I k q) (fun k error _ q => F k error q)
    (fun k _ q hI => ?_) (fun k error _ q hF hend => ?_) (fun k error _ q hF hretry hmore => ?_)
    0 () q' hI
  · rw [Prog.wp_map]
    refine Prog.wp_mono ?_ (hattempt k q hI)
    rintro ((error | name) | a) q' h <;> exact h
  · exact hstop k error q hF hend
  · exact hpause started k error q hF hretry hmore

end

section

variable {R : (e : S.Op) → S.Reply e → S.Reply e → Prop} {policy : RetryPolicy S}

/-- A loop is blind to what its operation and its pauses are blind to. -/
theorem blind_loop {operation : σ → Prog S (Except Exc α × σ)} {started : ℚ}
    (hoperation : ∀ vars, (operation vars).Blind R)
    (hpause : ∀ attempt error, (policy.pause started attempt error).run.Blind R) :
    ∀ k vars, (policy.loop operation started k vars).Blind R := by
  intro k
  -- the attempts left decrease
  induction hleft : (policy.maxAttempts - k).toNat using Nat.strong_induction_on generalizing k with
  | _ left ih =>
    intro vars
    rw [loop]
    refine (hoperation vars).bind ?_
    rintro ⟨(error | name) | result, vars'⟩
    · by_cases hend : error.retryable = false ∨ policy.maxAttempts ≤ k + 1
      · simp only [dif_pos hend]
        trivial
      · simp only [dif_neg hend]
        obtain ⟨_, hmore⟩ := not_or.mp hend
        refine (hpause (k + 1) error).bind ?_
        rintro (exc | _ | _)
        · trivial
        · trivial
        · exact ih _ (by omega) (k + 1) rfl vars'
    · trivial
    · trivial

/-- So is a run. -/
theorem blind_run {operation : Async S Exc α} (hclock : policy.clock.Blind R)
    (hoperation : operation.run.Blind R)
    (hpause : ∀ started attempt error, (policy.pause started attempt error).run.Blind R) :
    (policy.run operation).run.Blind R :=
  .map _ (hclock.bind fun started => blind_loop (fun _ => .map _ hoperation) (hpause started) 0 ())

end

end RetryPolicy

end PrdApiWrapper
