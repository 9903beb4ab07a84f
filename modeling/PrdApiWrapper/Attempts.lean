import PrdApiWrapper.Retry
import Mathlib.Tactic.Positivity

/-!
# Runs of a retry policy

What `RetryPolicy.run` does with an operation, whatever the operation does: the attempts it makes,
what it sleeps between them, and how it ends. The operation, the clock, the jitter and the sleep
are requests of an interface of their own, so a trace shows exactly these.

A run should end as its last attempt did. It does unless there is no waiting after a failure that
is worth repeating: `retry_law_iff`.
-/

namespace PrdApiWrapper

open Interaction

/-! ## The interface -/

/-- What a retry policy asks of what it is handed. -/
inductive RetryOp where
  | clock
  | jitter
  | sleep (delay : PyFloat)
  /-- the operation is awaited -/
  | attempt

/-- The interface of a policy that retries an operation with results in `α`. -/
abbrev Retrying (α : Type) : Effects where
  Op := RetryOp
  Reply
    | .clock | .jitter => ℚ
    | .sleep _ => Unit
    | .attempt => Except Exc α

variable {α : Type}

/-- `asyncio.sleep`: it refuses a NaN. -/
def sleepFor (delay : PyFloat) : Async (Retrying α) Exc Unit := do
  ExceptT.lift (@Prog.perform (Retrying α) (.sleep delay))
  if delay = .nan then throw (.foreign "ValueError")

/-- The configuration of a `RetryPolicy`. -/
structure RetryConfig where
  maxAttempts : ℤ
  initialBackoff : ℚ
  maxBackoff : ℚ
  budget : ℚ

/-- The policy of a configuration. -/
def RetryConfig.policy (config : RetryConfig) : RetryPolicy (Retrying α) where
  maxAttempts := config.maxAttempts
  initialBackoff := config.initialBackoff
  maxBackoff := config.maxBackoff
  budget := config.budget
  sleep := sleepFor
  jitter := @Prog.perform (Retrying α) .jitter
  clock := @Prog.perform (Retrying α) .clock

/-- A run of the policy. -/
def retrying (config : RetryConfig) : Prog (Retrying α) (Except Exc α) :=
  (config.policy.run (ExceptT.mk (@Prog.perform (Retrying α) .attempt))).run

/-- How the attempts of a trace ended. -/
def outcomes (trace : List (Event (Retrying α))) : List (Except Exc α) :=
  trace.filterMap fun
    | ⟨.attempt, outcome⟩ => some outcome
    | _ => none

@[simp] theorem outcomes_append (trace trace' : List (Event (Retrying α))) :
    outcomes (trace ++ trace') = outcomes trace ++ outcomes trace' :=
  List.filterMap_append

/-! ## The law of a run -/

/-- A failed attempt that is followed by another. -/
structure Round (α : Type) where
  error : AppError
  /-- what `delay_for` asks for -/
  drawn : List (Event (Retrying α))
  /-- the clock at the check of the budget -/
  now : ℚ
  delay : PyFloat

/-- What a trace shows of it. -/
def Round.trace (round : Round α) : List (Event (Retrying α)) :=
  ⟨.attempt, .error (.app round.error)⟩ ::
    (round.drawn ++ [⟨.clock, round.now⟩, ⟨.sleep round.delay, ()⟩])

/-- A wait that would blow the budget. -/
def RetryConfig.Exceeds (config : RetryConfig) (started now : ℚ) (delay : PyFloat) : Prop :=
  (PyFloat.fin config.budget).lt ((PyFloat.fin (now - started)).add delay) = true

/-- The attempt is worth repeating, there are attempts left, and its `delay_for` is slept. -/
structure Round.Repeats (config : RetryConfig) (started : ℚ) (attempt : ℕ) (round : Round α) :
    Prop where
  retryable : round.error.retryable = true
  more : (attempt : ℤ) < config.maxAttempts
  delay : Prog.Steps (config.policy.delayFor attempt round.error.retryAfter).run round.drawn
    (.ret (.ok round.delay))
  affordable : ¬ config.Exceeds started round.now round.delay

/-- The attempt is the last one: how it ended, and what is still asked for. -/
inductive Stops (config : RetryConfig) (started : ℚ) (attempt : ℕ) :
    Except Exc α → List (Event (Retrying α)) → Prop where
  | success (result : α) : Stops config started attempt (.ok result) []
  | foreign (name : String) : Stops config started attempt (.error (.foreign name)) []
  | rejected {error : AppError} :
      error.retryable = false → Stops config started attempt (.error (.app error)) []
  | exhausted {error : AppError} :
      config.maxAttempts ≤ attempt → Stops config started attempt (.error (.app error)) []
  | exceeded {error : AppError} {drawn : List (Event (Retrying α))} {now : ℚ} {delay : PyFloat} :
      Prog.Steps (config.policy.delayFor attempt error.retryAfter).run drawn (.ret (.ok delay)) →
      config.Exceeds started now delay →
      Stops config started attempt (.error (.app error)) (drawn ++ [⟨.clock, now⟩])

/-- The law of a run: rounds, each with its one sleep, then a last attempt, whose outcome is that of
the run. -/
def Lawful (config : RetryConfig) (trace : List (Event (Retrying α))) (outcome : Except Exc α) :
    Prop :=
  ∃ (started : ℚ) (rounds : List (Round α)) (rest : List (Event (Retrying α))),
    trace = ⟨.clock, started⟩ :: rounds.flatMap Round.trace ++ ⟨.attempt, outcome⟩ :: rest ∧
    (rounds.length : ℤ) + 1 ≤ max 1 config.maxAttempts ∧
    (∀ k (round : Round α), rounds[k]? = some round → round.Repeats config started (k + 1)) ∧
    Stops config started (rounds.length + 1) outcome rest

/-- An attempt failed in a way worth repeating, with attempts left, and there is no waiting. -/
def Breaks (config : RetryConfig) (outcomes : List (Except Exc α)) : Prop :=
  ∃ (k : ℕ) (error : AppError), outcomes[k]? = some (.error (.app error)) ∧
    error.retryable = true ∧ (k : ℤ) + 1 < config.maxAttempts ∧ Unwaitable (k + 1) error

/-! ## What a policy asks for -/

/-- How a `delay_for` ends, and what it asks for. -/
inductive Delays (config : RetryConfig) (attempt : ℕ) :
    Option PyFloat → List (Event (Retrying α)) → Except Exc PyFloat → Prop where
  | advised (seconds : PyFloat) :
      Delays config attempt (some seconds) [] (.ok (seconds.pyMin (.fin config.maxBackoff)))
  | backoff (pick : ℚ) : attempt - 1 < 1024 →
      Delays config attempt none [⟨.jitter, pick⟩]
        (.ok (.fin (min (config.initialBackoff * 2 ^ (attempt - 1)) config.maxBackoff * pick)))
  | overflow : 1024 ≤ attempt - 1 →
      Delays config attempt none [] (.error (.foreign "OverflowError"))

/-- A backoff is capped. -/
theorem RetryConfig.backoff_range {config : RetryConfig} (hinitial : 0 ≤ config.initialBackoff)
    (hmax : 0 ≤ config.maxBackoff) {pick : ℚ} (hpick : 0 ≤ pick) (hone : pick ≤ 1) (n : ℕ) :
    0 ≤ min (config.initialBackoff * 2 ^ n) config.maxBackoff * pick ∧
      min (config.initialBackoff * 2 ^ n) config.maxBackoff * pick ≤ config.maxBackoff := by
  have hcap : 0 ≤ min (config.initialBackoff * 2 ^ n) config.maxBackoff :=
    le_min (mul_nonneg hinitial (by positivity)) hmax
  exact ⟨mul_nonneg hcap hpick, (mul_le_of_le_one_right hcap hone).trans (min_le_right _ _)⟩

theorem delays_of_steps {config : RetryConfig} {attempt : ℕ} {retryAfter : Option PyFloat}
    {drawn : List (Event (Retrying α))} {delay : Except Exc PyFloat}
    (h : Prog.Steps (config.policy.delayFor attempt retryAfter).run drawn (.ret delay)) :
    Delays config attempt retryAfter drawn delay := by
  cases retryAfter with
  | some seconds =>
    cases h
    exact .advised seconds
  | none =>
    rw [RetryPolicy.delayFor] at h
    split at h
    · next hlarge =>
      cases h
      exact .overflow hlarge
    · next hsmall =>
      cases h with
      | cons hrest =>
        cases hrest
        exact .backoff _ (not_le.mp hsmall)

/-- It asks for nothing but jitter. -/
theorem delayFor_only (config : RetryConfig) (attempt : ℕ) (retryAfter : Option PyFloat) :
    ((config.policy : RetryPolicy (Retrying α)).delayFor attempt retryAfter).run.Only
      fun op => op = RetryOp.jitter := by
  cases retryAfter with
  | some seconds => trivial
  | none =>
    rw [RetryPolicy.delayFor]
    split
    · trivial
    · exact ⟨rfl, fun _ => trivial⟩

theorem delayFor_drawn (config : RetryConfig) (attempt : ℕ) (retryAfter : Option PyFloat)
    (trace : List (Event (Retrying α))) :
    (config.policy.delayFor attempt retryAfter).run.wp (Protocol.observed fun _ => True)
      (fun delay trace' => ∃ drawn, trace' = trace ++ drawn ∧
        Prog.Steps (config.policy.delayFor attempt retryAfter).run drawn (.ret delay)) trace :=
  Prog.wp_watched (fun _ => True) (fun _ _ _ => trivial)
    (delayFor_only config attempt retryAfter) trace

namespace Delays

variable {config : RetryConfig} {attempt : ℕ} {retryAfter : Option PyFloat}
  {drawn : List (Event (Retrying α))} {delay : PyFloat}

/-- No attempt is made meanwhile. -/
theorem outcomes_eq_nil {result : Except Exc PyFloat}
    (h : Delays config attempt retryAfter drawn result) : outcomes drawn = [] := by
  cases h <;> rfl

/-- A delay is a NaN exactly if it is advised. -/
theorem eq_nan_iff {error : AppError}
    (h : Delays config attempt error.retryAfter drawn (.ok delay)) :
    delay = .nan ↔ Unwaitable attempt error := by
  generalize hadvice : error.retryAfter = advice at h
  cases h with
  | advised seconds =>
    refine (PyFloat.pyMin_eq_nan seconds _).trans ?_
    simp [Unwaitable, hadvice]
  | backoff pick hsmall =>
    refine iff_of_false nofun ?_
    simp [Unwaitable, hadvice, hsmall]

end Delays

/-! ## Every run keeps the law or breaks -/

section

variable {config : RetryConfig} {started : ℚ}

/-- What holds before attempt `k + 1`: `k` rounds so far, each of which could be waited for. -/
def BeforeRound (config : RetryConfig) (started : ℚ) (k : ℕ)
    (trace : List (Event (Retrying α))) : Prop :=
  ∃ rounds : List (Round α), rounds.length = k ∧
    trace = ⟨.clock, started⟩ :: rounds.flatMap Round.trace ∧
    (k : ℤ) + 1 ≤ max 1 config.maxAttempts ∧
    ∀ j (round : Round α), rounds[j]? = some round →
      round.Repeats config started (j + 1) ∧ ¬ Unwaitable (j + 1) round.error

theorem outcomes_rounds {rounds : List (Round α)}
    (h : ∀ j (round : Round α), rounds[j]? = some round → round.Repeats config started (j + 1)) :
    outcomes (rounds.flatMap Round.trace) = rounds.map fun round => .error (.app round.error) := by
  have hdrawn : ∀ round ∈ rounds, outcomes round.drawn = [] := by
    intro round hround
    obtain ⟨j, hj⟩ := List.mem_iff_getElem?.mp hround
    exact (delays_of_steps (h j round hj).delay).outcomes_eq_nil
  clear h
  induction rounds with
  | nil => rfl
  | cons round rounds ih =>
    have hround : outcomes round.trace = [.error (.app round.error)] := by
      have := hdrawn round List.mem_cons_self
      simp only [outcomes] at this
      simp [Round.trace, outcomes, this]
    rw [List.flatMap_cons, outcomes_append, hround,
      ih fun round' hround' => hdrawn round' (List.mem_cons_of_mem _ hround')]
    rfl

/-- The last attempt decides whether a run breaks. -/
theorem BeforeRound.breaks_iff {k : ℕ} {trace : List (Event (Retrying α))}
    (h : BeforeRound config started k trace) (outcome : Except Exc α)
    {rest : List (Event (Retrying α))} (hrest : outcomes rest = []) :
    Breaks config (outcomes (trace ++ ⟨.attempt, outcome⟩ :: rest)) ↔
      ∃ error, outcome = .error (.app error) ∧ error.retryable = true ∧
        (k : ℤ) + 1 < config.maxAttempts ∧ Unwaitable (k + 1) error := by
  obtain ⟨rounds, rfl, rfl, -, hrounds⟩ := h
  have houtcomes : outcomes (⟨.clock, started⟩ :: rounds.flatMap Round.trace ++
      ⟨.attempt, outcome⟩ :: rest) =
      (rounds.map fun round => .error (.app round.error)) ++ [outcome] := by
    rw [← outcomes_rounds fun j round hj => (hrounds j round hj).1]
    simp only [outcomes] at hrest
    simp [outcomes, hrest]
  rw [houtcomes]
  refine ⟨?_, ?_⟩
  · rintro ⟨j, error, hj, hretryable, hmore, hwait⟩
    by_cases hlt : j < (rounds.map fun round => (.error (.app round.error) : Except Exc α)).length
    -- an earlier attempt could be waited for
    · rw [List.getElem?_append_left hlt, List.getElem?_map, Option.map_eq_some_iff] at hj
      obtain ⟨round, hround, herror⟩ := hj
      cases herror
      exact absurd hwait (hrounds j round hround).2
    · obtain ⟨hle, -⟩ := List.getElem?_eq_some_iff.mp hj
      rw [List.length_append, List.length_singleton] at hle
      rw [List.length_map] at hle hlt
      obtain rfl : j = rounds.length := by omega
      rw [List.getElem?_append_right (by simp)] at hj
      simp only [List.length_map, Nat.sub_self, List.getElem?_cons_zero] at hj
      exact ⟨error, Option.some.inj hj, hretryable, hmore, hwait⟩
  · rintro ⟨error, rfl, hretryable, hmore, hwait⟩
    refine ⟨rounds.length, error, ?_, hretryable, hmore, hwait⟩
    simp

/-- What holds after attempt `k + 1` failed with an `AppError`. -/
def AfterRound (config : RetryConfig) (started : ℚ) (k : ℕ) (error : AppError)
    (trace : List (Event (Retrying α))) : Prop :=
  ∃ before, BeforeRound config started k before ∧
    trace = before ++ [⟨.attempt, .error (.app error)⟩]

/-- How a run ends: lawfully, or in an exception that is not what its last attempt raised. -/
def Ended (config : RetryConfig) (outcome : Except Exc α) (trace : List (Event (Retrying α))) :
    Prop :=
  (¬ Breaks config (outcomes trace) ∧ Lawful config trace outcome) ∨
    (Breaks config (outcomes trace) ∧ (outcomes trace).getLast? ≠ some outcome)

/-- A last attempt ends its run lawfully. -/
theorem BeforeRound.ended {k : ℕ} {trace : List (Event (Retrying α))}
    (h : BeforeRound config started k trace) {outcome : Except Exc α}
    {rest : List (Event (Retrying α))} (hrest : outcomes rest = [])
    (hstops : Stops config started (k + 1) outcome rest)
    (hwait : ∀ error, outcome = .error (.app error) → error.retryable = true →
      (k : ℤ) + 1 < config.maxAttempts → ¬ Unwaitable (k + 1) error) :
    Ended config outcome (trace ++ ⟨.attempt, outcome⟩ :: rest) := by
  refine .inl ⟨?_, ?_⟩
  · rw [h.breaks_iff outcome hrest]
    rintro ⟨error, herror, hretryable, hmore, hunwaitable⟩
    exact hwait error herror hretryable hmore hunwaitable
  · obtain ⟨rounds, rfl, rfl, hbound, hrounds⟩ := h
    exact ⟨started, rounds, rest, rfl, hbound, fun j round hj => (hrounds j round hj).1, hstops⟩

/-- A failure without waiting breaks its run, which ends in something else. -/
theorem BeforeRound.broken {k : ℕ} {trace : List (Event (Retrying α))}
    (h : BeforeRound config started k trace) {error : AppError}
    {rest : List (Event (Retrying α))} (hrest : outcomes rest = [])
    (hretryable : error.retryable = true) (hmore : (k : ℤ) + 1 < config.maxAttempts)
    (hwait : Unwaitable (k + 1) error) (name : String) :
    Ended config (.error (.foreign name) : Except Exc α)
      (trace ++ ⟨.attempt, .error (.app error)⟩ :: rest) := by
  refine .inr ⟨(h.breaks_iff _ hrest).mpr ⟨error, rfl, hretryable, hmore, hwait⟩, ?_⟩
  have hlast : outcomes (trace ++ ⟨.attempt, .error (.app error)⟩ :: rest) =
      outcomes trace ++ [.error (.app error)] := by
    simp only [outcomes] at hrest
    simp [outcomes, hrest]
  rw [hlast, List.getLast?_concat]
  nofun

/-- A round that was slept after could be waited for. -/
theorem BeforeRound.next {k : ℕ} {trace : List (Event (Retrying α))}
    (h : BeforeRound config started k trace) {round : Round α}
    (hrepeats : round.Repeats config started (k + 1))
    (hwait : ¬ Unwaitable (k + 1) round.error) :
    BeforeRound config started (k + 1) (trace ++ round.trace) := by
  obtain ⟨rounds, rfl, rfl, -, hrounds⟩ := h
  refine ⟨rounds ++ [round], by simp, by simp, ?_, ?_⟩
  · have := hrepeats.more
    push_cast at this ⊢
    omega
  · intro j round' hj
    by_cases hlt : j < rounds.length
    · rw [List.getElem?_append_left hlt] at hj
      exact hrounds j round' hj
    · rw [List.getElem?_append_right (not_lt.mp hlt), List.getElem?_singleton] at hj
      split at hj
      · next heq =>
        obtain rfl : j = rounds.length := by omega
        cases hj
        exact ⟨hrepeats, hwait⟩
      · cases hj

/-- The pause after a failure: another round, the end of a lawful run, or a break. -/
theorem pause_ended {k : ℕ} {error : AppError} {trace : List (Event (Retrying α))}
    (h : AfterRound config started k error trace) (hretryable : error.retryable = true)
    (hmore : (k : ℤ) + 1 < config.maxAttempts) :
    Async.awp (Protocol.observed fun _ => True) (config.policy.pause started (k + 1) error)
      (fun again trace' => if again then BeforeRound config started (k + 1) trace'
        else Ended config (.error (.app error) : Except Exc α) trace')
      (fun exc trace' => Ended config (.error exc : Except Exc α) trace') trace := by
  obtain ⟨before, hbefore, rfl⟩ := h
  simp only [RetryPolicy.pause, Async.awp_bind, Async.awp_lift]
  refine Prog.wp_mono ?_ (delayFor_drawn config (k + 1) error.retryAfter _)
  rintro (exc | delay) _ ⟨drawn, rfl, hsteps⟩
  · -- `delay_for` raises
    have hdelays := delays_of_steps hsteps
    have hwait : Unwaitable (k + 1) error ∧ ∃ name, exc = .foreign name := by
      generalize hadvice : error.retryAfter = advice at hdelays
      cases hdelays with
      | overflow hlarge => exact ⟨.inr ⟨hadvice, hlarge⟩, _, rfl⟩
    obtain ⟨hwait, name, rfl⟩ := hwait
    rw [List.append_assoc]
    exact hbefore.broken hdelays.outcomes_eq_nil hretryable hmore hwait name
  · have hdelays := delays_of_steps hsteps
    refine ⟨trivial, ?_⟩
    rintro now _ ⟨-, rfl⟩
    rw [Prog.wp_ret]
    have hchecked : outcomes (drawn ++ [⟨.clock, now⟩]) = [] := by
      rw [outcomes_append, hdelays.outcomes_eq_nil]
      rfl
    split
    · next hexceeds =>
      have hnan : delay ≠ .nan := by
        rintro rfl
        simp at hexceeds
      have hended := hbefore.ended hchecked (.exceeded hsteps hexceeds) ?_
      · simpa using hended
      · rintro error' ⟨⟩ - - hwait
        exact hnan (hdelays.eq_nan_iff.mpr hwait)
    · next hexceeds =>
      simp only [RetryConfig.policy, sleepFor, Async.awp_bind, Async.awp_lift]
      refine ⟨trivial, ?_⟩
      rintro ⟨⟩ _ ⟨-, rfl⟩
      rw [Prog.wp_ret]
      by_cases hnan : delay = .nan
      · -- `asyncio.sleep` raises
        rw [if_pos hnan]
        have hslept : outcomes (drawn ++ [⟨.clock, now⟩, ⟨.sleep delay, ()⟩]) = [] := by
          rw [outcomes_append, hdelays.outcomes_eq_nil]
          rfl
        have hbroken := hbefore.broken hslept hretryable hmore (hdelays.eq_nan_iff.mp hnan)
          "ValueError"
        simpa using hbroken
      · rw [if_neg hnan]
        have hrepeats : Round.Repeats config started (k + 1) ⟨error, drawn, now, delay⟩ :=
          ⟨hretryable, by exact_mod_cast hmore, hsteps, hexceeds⟩
        have hnext := hbefore.next hrepeats fun hwait => hnan (hdelays.eq_nan_iff.mpr hwait)
        simpa [Round.trace] using hnext

/-- Every run keeps the law or breaks. -/
theorem retrying_ended (config : RetryConfig) : (retrying config).wp
    (Protocol.observed fun _ => True) (fun outcome trace => Ended (α := α) config outcome trace)
    [] := by
  rw [retrying, RetryPolicy.run, ExceptT.run_mk, Prog.wp_map, RetryPolicy.runWith, Prog.wp_bind]
  refine ⟨trivial, ?_⟩
  rintro started _ ⟨-, rfl⟩
  refine RetryPolicy.wp_loop (fun k _ => BeforeRound config started k)
    (fun k error _ => AfterRound config started k error) (fun k _ trace hbefore => ?_)
    (fun k error _ trace hfailed hend => ?_) (fun k error _ trace hfailed hretryable hmore => ?_)
    0 () _ ⟨[], rfl, rfl, by simp, by simp⟩
  · rw [Prog.wp_map]
    refine ⟨trivial, ?_⟩
    rintro ((error | name) | result) _ ⟨-, rfl⟩
    · exact ⟨trace, hbefore, rfl⟩
    · exact hbefore.ended rfl (.foreign name) (by rintro _ ⟨⟩)
    · exact hbefore.ended rfl (.success result) (by rintro _ ⟨⟩)
  · obtain ⟨before, hbefore, rfl⟩ := hfailed
    refine hbefore.ended rfl ?_ ?_
    · rcases hend with hend | hend
      · exact .rejected hend
      · exact .exhausted (by exact_mod_cast hend)
    · rintro error' ⟨⟩ hretryable hmore -
      rcases hend with hend | hend
      · exact Bool.false_ne_true (hend.symm.trans hretryable)
      · exact absurd hmore (not_lt.mpr hend)
  · exact pause_ended hfailed hretryable hmore

end

/-- A lawful run ends as its last attempt did. -/
theorem Lawful.getLast {config : RetryConfig} {trace : List (Event (Retrying α))}
    {outcome : Except Exc α} (h : Lawful config trace outcome) :
    (outcomes trace).getLast? = some outcome := by
  obtain ⟨started, rounds, rest, rfl, -, -, hstops⟩ := h
  have hrest : outcomes rest = [] := by
    cases hstops with
    | exceeded hsteps =>
      rw [outcomes_append, (delays_of_steps hsteps).outcomes_eq_nil]
      rfl
    | _ => rfl
  simp only [outcomes] at hrest
  simp [outcomes, hrest]

/-- **The law of a run.** For every configuration: a run ends however it is answered; and it keeps
the law, whatever its attempts came to, the clock said and the jitter drew, if and only if no
attempt failed in a way worth repeating, with attempts left, without there being a wait. -/
theorem retry_law_iff (config : RetryConfig) :
    (∀ reply, ∃ trace outcome, Prog.Steps (retrying (α := α) config) trace (.ret outcome) ∧
      Prog.AnsweredBy reply trace) ∧
    ∀ (trace : List (Event (Retrying α))) outcome,
      Prog.Steps (retrying config) trace (.ret outcome) →
      (Lawful config trace outcome ↔ ¬ Breaks config (outcomes trace)) := by
  refine ⟨Prog.ends _, fun trace outcome hsteps => ?_⟩
  rcases Prog.wp_trace (retrying_ended config) hsteps fun _ _ => trivial with
    ⟨hwhole, hlawful⟩ | ⟨hbreaks, hlast⟩
  · exact iff_of_true hlawful hwhole
  · exact iff_of_false (fun hlawful => hlast hlawful.getLast) (not_not_intro hbreaks)

/-! ## What a run sleeps -/

/-- What a run sleeps, and after which failure. -/
structure Sleeps (config : RetryConfig) (trace : List (Event (Retrying α))) (error : AppError)
    (started now : ℚ) (delay : PyFloat) : Prop where
  /-- the clock when the run started -/
  first : trace.head? = some ⟨.clock, started⟩
  /-- the clock at the check of the budget -/
  latest : trace.getLast? = some ⟨.clock, now⟩
  failed : (outcomes trace).getLast? = some (.error (.app error))
  drawn : ∃ attempt drawn, (∀ ev ∈ drawn, ev ∈ trace) ∧
    Delays config attempt error.retryAfter drawn (.ok delay)
  affordable : ¬ config.Exceeds started now delay

/-- A guard: whoever sleeps does so after a failure, as `delay_for` says. -/
def SleepsAfter (config : RetryConfig) (trace : List (Event (Retrying α))) (op : RetryOp) : Prop :=
  ∀ delay, op = .sleep delay → ∃ error started now, Sleeps config trace error started now delay

theorem pause_sleeps {config : RetryConfig} {started : ℚ} {attempt : ℕ} {error : AppError}
    {trace : List (Event (Retrying α))} (hfirst : trace.head? = some ⟨.clock, started⟩)
    (hfailed : (outcomes trace).getLast? = some (.error (.app error))) :
    Async.awp (Protocol.watched (fun _ => True) (SleepsAfter config))
      (config.policy.pause started attempt error)
      (fun again trace' => if again then trace'.head? = some ⟨.clock, started⟩ else True)
      (fun _ _ => True) trace := by
  simp only [RetryPolicy.pause, Async.awp_bind, Async.awp_lift]
  refine Prog.wp_mono ?_ (Prog.wp_watched _ ?_
    (delayFor_only config attempt error.retryAfter) trace)
  · rintro (exc | delay) _ ⟨drawn, rfl, hsteps⟩
    · trivial
    have hdelays := delays_of_steps hsteps
    refine ⟨by rintro _ ⟨⟩, ?_⟩
    rintro now _ ⟨-, rfl⟩
    have hfirst' : ∀ rest, (trace ++ rest).head? = some ⟨.clock, started⟩ := fun rest => by
      rw [List.head?_append, hfirst]
      rfl
    rw [Prog.wp_ret]
    split
    · trivial
    · next hexceeds =>
      simp only [RetryConfig.policy, sleepFor, Async.awp_bind, Async.awp_lift]
      refine ⟨?_, ?_⟩
      · rintro _ ⟨⟩
        refine ⟨error, started, now, ?_, List.getLast?_concat, ?_, ⟨attempt, drawn, ?_, hdelays⟩,
          hexceeds⟩
        · rw [List.append_assoc]
          exact hfirst' _
        · rw [outcomes_append, outcomes_append, hdelays.outcomes_eq_nil, List.append_nil]
          simpa [outcomes] using hfailed
        · exact fun ev hev => List.mem_append_left _ (List.mem_append_right _ hev)
      · rintro ⟨⟩ _ ⟨-, rfl⟩
        rw [Prog.wp_ret]
        split
        · trivial
        · simp only [Async.awp_pure, if_true, List.append_assoc]
          exact hfirst' _
  · rintro trace' _ rfl
    exact by rintro _ ⟨⟩

theorem run_sleeps (config : RetryConfig) : (retrying config).wp
    (Protocol.watched (fun _ => True) (SleepsAfter config)) (fun (_ : Except Exc α) _ => True)
    [] := by
  rw [retrying, RetryPolicy.run, ExceptT.run_mk, Prog.wp_map, RetryPolicy.runWith, Prog.wp_bind]
  refine ⟨by rintro _ ⟨⟩, ?_⟩
  rintro started _ ⟨-, rfl⟩
  refine RetryPolicy.wp_loop (fun _ _ trace => trace.head? = some ⟨.clock, started⟩)
    (fun _ error _ trace => trace.head? = some ⟨.clock, started⟩ ∧
      (outcomes trace).getLast? = some (.error (.app error))) (fun k _ trace hfirst => ?_)
    (fun _ _ _ _ _ _ => trivial) (fun k error _ trace hfailed _ _ => ?_) 0 () _ rfl
  · rw [Prog.wp_map]
    refine ⟨by rintro _ ⟨⟩, ?_⟩
    rintro ((error | name) | result) _ ⟨-, rfl⟩
    · refine ⟨?_, ?_⟩
      · rw [List.head?_append, hfirst]
        rfl
      · rw [outcomes_append]
        exact List.getLast?_concat
    · trivial
    · trivial
  · exact pause_sleeps hfailed.1 hfailed.2

/-- **What a run sleeps.** -/
theorem sleeps_of_steps {config : RetryConfig} {trace : List (Event (Retrying α))}
    {delay : PyFloat} {k : Unit → Prog (Retrying α) (Except Exc α)}
    (h : Prog.Steps (retrying config) trace (.op (.sleep delay) k)) :
    ∃ error started now, Sleeps config trace error started now delay :=
  Prog.wp_watch (run_sleeps config) h (fun _ _ => trivial) delay rfl

/-- The configuration the service comes with. -/
def RetryConfig.defaults : RetryConfig where
  maxAttempts := 3
  initialBackoff := 1 / 2
  maxBackoff := 8
  budget := 30

/-- A provider that does not answer in time. -/
def late : AppError := .new .upstreamTimeout

/-- A provider that asks for ten seconds. -/
def tenSeconds : AppError := { AppError.new .upstreamRateLimited with retryAfter := some (.fin 10) }

unseal RetryPolicy.loop Rat.add Rat.sub Rat.mul Rat.inv in
/-- A run that succeeds at its third attempt, after half a second of backoff and ten seconds of
advice cut down to eight, keeps the law. -/
theorem retry_law_third : ∃ trace : List (Event (Retrying ℕ)),
    Prog.Steps (retrying .defaults) trace (.ret (.ok 7)) ∧
      outcomes trace = [.error (.app late), .error (.app tenSeconds), .ok 7] ∧
      Lawful .defaults trace (.ok 7) := by
  have hsteps : Prog.Steps (retrying (α := ℕ) .defaults)
      [⟨.clock, (0 : ℚ)⟩, ⟨.attempt, .error (.app late)⟩, ⟨.jitter, (1 : ℚ)⟩, ⟨.clock, (0 : ℚ)⟩,
        ⟨.sleep (.fin (1 / 2)), ()⟩, ⟨.attempt, .error (.app tenSeconds)⟩, ⟨.clock, (1 : ℚ)⟩,
        ⟨.sleep (.fin 8), ()⟩, ⟨.attempt, .ok 7⟩] (.ret (.ok 7)) :=
    .cons (.cons (.cons (.cons (.cons (.cons (.cons (.cons (.cons (.refl _)))))))))
  refine ⟨_, hsteps, rfl, ((retry_law_iff .defaults).2 _ _ hsteps).mpr ?_⟩
  rintro ⟨_ | _ | _ | k, error, hk, -, -, hunwaitable⟩
  · cases hk
    rcases hunwaitable with hnan | ⟨-, hlarge⟩
    · cases hnan
    · omega
  · cases hk
    rcases hunwaitable with hnan | ⟨hnone, -⟩
    · cases hnan
    · cases hnone
  · cases hk
  · cases hk

/-- A provider that asks for NaN seconds. -/
def nanSeconds : AppError := { AppError.new .upstreamRateLimited with retryAfter := some .nan }

unseal RetryPolicy.loop in
/-- A first attempt whose advice is a NaN: the run ends in a `ValueError` that no attempt raised. -/
theorem nan_advice_not_lawful : ∃ trace : List (Event (Retrying ℕ)),
    Prog.Steps (retrying .defaults) trace (.ret (.error (.foreign "ValueError"))) ∧
      outcomes trace = [.error (.app nanSeconds)] ∧
      ¬ Lawful .defaults trace (.error (.foreign "ValueError")) := by
  refine ⟨[⟨.clock, (0 : ℚ)⟩, ⟨.attempt, .error (.app nanSeconds)⟩, ⟨.clock, (0 : ℚ)⟩,
    ⟨.sleep .nan, ()⟩], .cons (.cons (.cons (.cons (.refl _)))), rfl, fun hlawful => ?_⟩
  cases hlawful.getLast

end PrdApiWrapper
