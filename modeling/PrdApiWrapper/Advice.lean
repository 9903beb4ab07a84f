import PrdApiWrapper.Attempts
import PrdApiWrapper.Completion

/-!
# Advice on when to come back

The Retry-After of a 429 is text from outside. It is parsed as a float, raised to zero, capped by
the configuration and compared with the budget, so that what is slept should be finite and within
bounds whatever it says. Infinities are caught on the way. A NaN is not: each of the comparisons is
false of it, and lets it through.
-/

namespace PrdApiWrapper

open Interaction

/-- A wait that is finite and within its bounds. -/
def Sane (config : RetryConfig) (started now : ℚ) (delay : PyFloat) : Prop :=
  ∃ seconds, delay = .fin seconds ∧ 0 ≤ seconds ∧ seconds ≤ config.maxBackoff ∧
    now - started + seconds ≤ config.budget

variable {α : Type} {config : RetryConfig}

/-- A delay is finite and capped, unless it is advised as a NaN. -/
theorem Delays.capped (hinitial : 0 ≤ config.initialBackoff) (hmax : 0 ≤ config.maxBackoff)
    {lib : Libraries} {header : Option String} {attempt : ℕ} {drawn : List (Event (Retrying α))}
    {delay : PyFloat}
    (h : Delays config attempt (retryAfterSeconds lib header) drawn (.ok delay))
    (hjitter : ∀ pick : ℚ, ⟨.jitter, pick⟩ ∈ drawn → 0 ≤ pick ∧ pick < 1)
    (hnan : header.bind lib.float ≠ some .nan) :
    ∃ seconds, delay = .fin seconds ∧ 0 ≤ seconds ∧ seconds ≤ config.maxBackoff := by
  generalize hadvice : retryAfterSeconds lib header = advice at h
  cases h with
  | advised seconds =>
    obtain ⟨parsed, hparsed, rfl⟩ := Option.map_eq_some_iff.mp hadvice
    refine PyFloat.clamp_cases ?_ hmax
    rintro rfl
    exact hnan hparsed
  | backoff pick hsmall =>
    obtain ⟨hpick, hlt⟩ := hjitter pick (List.mem_singleton_self _)
    exact ⟨_, rfl, RetryConfig.backoff_range hinitial hmax hpick hlt.le _⟩

/-- **When a wait is sane.** For every configuration of caps that are not negative, every run and
every sleep of it: the run sleeps after a failure, and if that is a 429, the wait is finite, within
its cap and within the budget if and only if the Retry-After does not parse as a NaN. -/
theorem waits_sane_iff (hinitial : 0 ≤ config.initialBackoff) (hmax : 0 ≤ config.maxBackoff)
    {trace : List (Event (Retrying α))} {delay : PyFloat}
    {k : Unit → Prog (Retrying α) (Except Exc α)}
    (hsteps : Prog.Steps (retrying config) trace (.op (.sleep delay) k))
    (hjitter : ∀ pick : ℚ, ⟨.jitter, pick⟩ ∈ trace → 0 ≤ pick ∧ pick < 1) (lib : Libraries) :
    ∃ error started now, Sleeps config trace error started now delay ∧
      ∀ response model, response.statusCode = 429 → asAppError lib response model = .ok error →
        (Sane config started now delay ↔
          (response.header "retry-after").bind lib.float ≠ some .nan) := by
  obtain ⟨error, started, now, hsleeps⟩ := sleeps_of_steps hsteps
  refine ⟨error, started, now, hsleeps, ?_⟩
  intro response model h429 herror
  obtain ⟨message, -, rfl⟩ := asAppError_eq_ok.mp herror
  obtain ⟨attempt, drawn, hdrawn, hdelays⟩ := hsleeps.drawn
  have hadvice : (appErrorOf lib response model message).retryAfter =
      retryAfterSeconds lib (response.header "retry-after") := by
    rw [appErrorOf_retryAfter, if_pos h429]
  refine ⟨?_, ?_⟩
  · rintro ⟨seconds, rfl, -⟩ hnan
    -- the delay would be a NaN
    have hwait : Unwaitable attempt (appErrorOf lib response model message) :=
      .inl (hadvice.trans ((retryAfterSeconds_eq_nan lib _).mpr hnan))
    cases hdelays.eq_nan_iff.mpr hwait
  · intro hnan
    rw [hadvice] at hdelays
    obtain ⟨seconds, rfl, hpos, hcap⟩ := hdelays.capped hinitial hmax
      (fun pick hpick => hjitter pick (hdrawn _ hpick)) hnan
    refine ⟨seconds, rfl, hpos, hcap, ?_⟩
    have haffordable := hsleeps.affordable
    simp only [RetryConfig.Exceeds, PyFloat.add, PyFloat.lt, decide_eq_true_eq,
      not_lt] at haffordable
    exact haffordable

/-- A 429 with this Retry-After. -/
def limitedFor (retryAfter : String) : HttpResponse where
  statusCode := 429
  header := fun name => if name = "retry-after" then some retryAfter else none
  json := .error .valueError

/-- Libraries that can parse two numbers. -/
def twoFloats : Libraries where
  float := fun text =>
    if text = "nan" then some .nan else if text = "inf" then some .inf else none
  intField := fun _ => none
  repr := id
  encodes := fun _ => true
  encodes_ascii := fun _ _ => rfl
  nesting := 0

/-- What it becomes. -/
def limitedError (retryAfter : String) : AppError :=
  appErrorOf twoFloats (limitedFor retryAfter) "llama3.2:3b" none

/-- A run whose first attempt is answered so, up to its first sleep. -/
def limitedOnce (retryAfter : String) : List (Event (Retrying ℕ)) :=
  [⟨.clock, (0 : ℚ)⟩, ⟨.attempt, .error (.app (limitedError retryAfter))⟩, ⟨.clock, (0 : ℚ)⟩]

unseal RetryPolicy.loop Rat.add Rat.sub Rat.mul in
/-- Advice to wait forever is cut down to the cap. -/
theorem waits_sane_forever : ∃ (delay : PyFloat) (k : _) (started now : ℚ),
    Prog.Steps (retrying .defaults) (limitedOnce "inf") (.op (.sleep delay) k) ∧
      Sane .defaults started now delay := by
  have hsteps : Prog.Steps (retrying (α := ℕ) .defaults) (limitedOnce "inf")
      (.op (.sleep (.fin 8)) _) :=
    .cons (.cons (.cons (.refl _)))
  have hjitter : ∀ pick : ℚ, ⟨.jitter, pick⟩ ∈ limitedOnce "inf" → 0 ≤ pick ∧ pick < 1 := by
    intro pick hpick
    simp [limitedOnce] at hpick
  obtain ⟨error, started, now, hsleeps, hsane⟩ :=
    waits_sane_iff (by decide +kernel) (by decide +kernel) hsteps hjitter twoFloats
  have herror : error = limitedError "inf" := by
    have hfailed := hsleeps.failed
    cases hfailed
    rfl
  have hadvice := hsane (limitedFor "inf") "llama3.2:3b" rfl (herror ▸ rfl)
  exact ⟨_, _, started, now, hsteps, hadvice.mpr (by decide)⟩

unseal RetryPolicy.loop in
/-- Advice to wait for NaN seconds is followed. -/
theorem nan_advice_not_sane : ∃ (k : _),
    Prog.Steps (retrying (α := ℕ) .defaults) (limitedOnce "nan") (.op (.sleep .nan) k) ∧
      ∀ started now, ¬ Sane .defaults started now .nan := by
  refine ⟨_, .cons (.cons (.cons (.refl _))), ?_⟩
  rintro started now ⟨seconds, ⟨⟩, -⟩

end PrdApiWrapper
