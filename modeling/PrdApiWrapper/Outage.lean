import PrdApiWrapper.World
import PrdApiWrapper.Rules
import PrdApiWrapper.Spacing

/-!
# An outage of the provider

While the provider fails, breaker and retries together keep the process from calling it often: the
first failures open the circuit, and from then on every POST is a probe, let through a cool-off
after the failure before it. Here completions are made one at a time, and each makes its attempts
one at a time; where in an attempt a completion is can be read off its last request (`Stage`), and
at each stage the fields of the breaker are determined by the POSTs made so far (`Stage.Holds`).

What a refusal does to a completion holds of completions in any company.
-/

namespace PrdApiWrapper

open Interaction Spacing

/-! ## One completion -/

/-- Where in an attempt a completion is. -/
inductive Stage where
  /-- between two attempts -/
  | resting
  /-- let through by the breaker -/
  | admitted
  /-- waiting for the provider -/
  | posted
  /-- answered -/
  | answered (outcome : UpstreamOutcome)

/-- The stage a request and its reply lead to. -/
def stageAfter (ev : Event Service) : Stage :=
  match ev with
  | ⟨.beforeCall, .ok ()⟩ => .admitted
  | ⟨.post _, _⟩ => .posted
  | ⟨.answer, outcome⟩ => .answered outcome
  | _ => .resting

/-- The stage after a trace. -/
def stage (trace : List (Event Service)) : Stage :=
  (trace.getLast?.map stageAfter).getD .resting

@[simp] theorem stage_snoc (trace : List (Event Service)) (ev : Event Service) :
    stage (trace ++ [ev]) = stageAfter ev := by
  simp [stage]

/-- An answer that has not been gone on from stands in the trace. -/
theorem answer_mem_of_stage {trace : List (Event Service)} {outcome : UpstreamOutcome}
    (h : stage trace = .answered outcome) : ⟨.answer, outcome⟩ ∈ trace := by
  induction trace using List.reverseRecOn with
  | nil => cases h
  | append_singleton trace ev _ =>
    rw [stage_snoc] at h
    obtain ⟨op, r⟩ := ev
    cases op with
    | answer =>
      cases h
      exact List.mem_append_right _ List.mem_cons_self
    | beforeCall => rcases r with exc | ⟨⟩ <;> cases h
    | _ => cases h

/-- An answer that is a failure worth repeating, whatever model was asked for. -/
def FailsRetryably (lib : Libraries) (outcome : UpstreamOutcome) : Prop :=
  ∀ model, ∃ error, received lib model outcome = .error (.app error) ∧ error.retryable = true

theorem not_failsRetryably_of {lib : Libraries} {outcome : UpstreamOutcome} (model : String)
    (h : ∀ error, received lib model outcome = .error (.app error) → error.retryable = false) :
    ¬ FailsRetryably lib outcome := by
  intro hfails
  obtain ⟨error, herror, hretry⟩ := hfails model
  exact Bool.false_ne_true ((h error herror).symm.trans hretry)

/-- What may be asked next: an attempt is a `before_call`, a POST, its answer, and a
`record_failure` if the answer is a failure worth repeating. -/
def Stage.Allows (lib : Libraries) : Stage → Op → Prop
  | .resting, op => match op with
    | .post _ | .answer | .recordSuccess | .recordFailure => False
    | _ => True
  | .admitted, op => ∃ payload, op = .post payload
  | .posted, op => op = .answer
  | .answered outcome, op => FailsRetryably lib outcome → op = .recordFailure

/-- No attempt is under way, and no failure is left to be recorded. -/
def Stage.AtRest (lib : Libraries) : Stage → Prop
  | .resting => True
  | .admitted | .posted => False
  | .answered outcome => ¬ FailsRetryably lib outcome

/-- The breaker refused an attempt. -/
def Refused (trace : List (Event Service)) : Prop :=
  ⟨.beforeCall, .error CircuitBreaker.circuitOpen⟩ ∈ trace

/-- All that is left to ask after a refusal. -/
inductive Silent : Op → Prop where
  | monotonic : Silent .monotonic
  | record (entry : UsageEntry) : Silent (.record entry)

/-- An attempt keeps its order, and after a refusal there is none. -/
def inOrder (lib : Libraries) (trace : List (Event Service)) (op : Op) : Prop :=
  (stage trace).Allows lib op ∧ (Refused trace → Silent op)

theorem refused_snoc {trace : List (Event Service)} {ev : Event Service} :
    Refused (trace ++ [ev]) ↔
      Refused trace ∨ ev = ⟨.beforeCall, .error CircuitBreaker.circuitOpen⟩ := by
  rw [Refused, Refused, List.mem_append, List.mem_singleton, eq_comm]

theorem not_refused_snoc {trace : List (Event Service)} (h : ¬ Refused trace) {ev : Event Service}
    (hev : ev ≠ ⟨.beforeCall, .error CircuitBreaker.circuitOpen⟩) : ¬ Refused (trace ++ [ev]) :=
  fun hrefused => (refused_snoc.mp hrefused).elim h hev

/-- A completion that ended in `outcome`. -/
def EndsIn (lib : Libraries) (outcome : Except Exc CompletionResponse)
    (trace : List (Event Service)) : Prop :=
  (stage trace).AtRest lib ∧ (Refused trace → outcome = .error CircuitBreaker.circuitOpen)

/-- Between two attempts everything that is not part of one may be asked, and an attempt begun. -/
theorem Stage.AtRest.allows {lib : Libraries} {stage : Stage} (h : stage.AtRest lib) {op : Op}
    (hop : Waits op ∨ Silent op ∨ op = .beforeCall) : stage.Allows lib op := by
  cases stage with
  | resting =>
    rcases hop with hop | hop | rfl
    · cases hop <;> trivial
    · cases hop <;> trivial
    · trivial
  | admitted | posted => exact h.elim
  | answered outcome => exact fun hfails => absurd hfails h

/-- Between two attempts: nothing is under way and nothing was refused. -/
def Unrefused (lib : Libraries) (trace : List (Event Service)) : Prop :=
  (stage trace).AtRest lib ∧ ¬ Refused trace

/-- Waiting keeps a completion between two attempts. -/
theorem keeps_unrefused (lib : Libraries) :
    Keeps (Protocol.guarded (inOrder lib)) Waits (Unrefused lib) := by
  rintro op hop trace ⟨hrest, hrefused⟩
  refine ⟨⟨hrest.allows (.inl hop), fun h => absurd h hrefused⟩, ?_⟩
  rintro r _ rfl
  refine ⟨?_, ?_⟩
  · rw [stage_snoc]
    cases hop <;> trivial
  · apply not_refused_snoc hrefused
    intro h
    cases hop <;> cases h

section

variable {env : Environment} {settings : Settings}

/-- **One attempt** keeps its order. -/
theorem guardedCall_inOrder {payload : UpstreamPayload} {model : String}
    {trace : List (Event Service)} (h : Unrefused env.toLibraries trace) :
    Async.awp (Protocol.guarded (inOrder env.toLibraries))
      ((completionService env settings).guardedCall payload model)
      (fun _ => Unrefused env.toLibraries)
      (fun exc => EndsIn env.toLibraries (.error exc)) trace := by
  obtain ⟨hrest, hrefused⟩ := h
  rw [awp_guardedCall]
  refine ⟨⟨hrest.allows (.inr (.inr rfl)), fun h => absurd h hrefused⟩, ?_⟩
  rintro r _ rfl
  rcases r with exc | ⟨⟩
  · refine ⟨by rw [stage_snoc]; trivial, fun h => ?_⟩
    rcases refused_snoc.mp h with h | h
    · exact absurd h hrefused
    · cases h
      rfl
  · have hadmitted := @not_refused_snoc _ hrefused ⟨.beforeCall, .ok ()⟩ nofun
    refine ⟨⟨by rw [stage_snoc]; exact ⟨payload, rfl⟩, fun h => absurd h hadmitted⟩, ?_⟩
    rintro u _ rfl
    have hposted := @not_refused_snoc _ hadmitted ⟨.post payload, u⟩ nofun
    refine ⟨⟨by rw [stage_snoc]; rfl, fun h => absurd h hposted⟩, ?_⟩
    rintro outcome _ rfl
    have hanswered := @not_refused_snoc _ hposted ⟨.answer, outcome⟩ nofun
    cases hreceived : received env.toLibraries model outcome with
    | ok response =>
      have hfine : ¬ FailsRetryably env.toLibraries outcome :=
        not_failsRetryably_of model fun error h => by rw [hreceived] at h; cases h
      refine ⟨⟨by rw [stage_snoc]; exact fun h => absurd h hfine, fun h => absurd h hanswered⟩, ?_⟩
      rintro u' _ rfl
      exact ⟨by rw [stage_snoc]; trivial, not_refused_snoc hanswered nofun⟩
    | error exc =>
      cases exc with
      | app error =>
        simp only
        by_cases hworth : error.retryable = true
        · rw [if_pos hworth]
          refine ⟨⟨by rw [stage_snoc]; exact fun _ => rfl, fun h => absurd h hanswered⟩, ?_⟩
          rintro u' _ rfl
          exact ⟨by rw [stage_snoc]; trivial,
            fun h => absurd h (not_refused_snoc hanswered nofun)⟩
        · rw [if_neg hworth]
          refine ⟨?_, fun h => absurd h hanswered⟩
          rw [stage_snoc]
          apply not_failsRetryably_of model
          intro error' h
          cases hreceived.symm.trans h
          exact Bool.eq_false_of_not_eq_true hworth
      | foreign name =>
        refine ⟨?_, fun h => absurd h hanswered⟩
        rw [stage_snoc]
        apply not_failsRetryably_of model
        intro error h
        cases hreceived.symm.trans h

/-- The attempts at a completion. -/
theorem attempts_inOrder {payload : UpstreamPayload} {model : String}
    {trace : List (Event Service)} (h : Unrefused env.toLibraries trace) :
    Async.awp (Protocol.guarded (inOrder env.toLibraries))
      ((completionService env settings).retry.run
        ((completionService env settings).guardedCall payload model))
      (fun _ => Unrefused env.toLibraries)
      (fun exc => EndsIn env.toLibraries (.error exc)) trace := by
  have hkeeps := keeps_unrefused env.toLibraries
  refine RetryPolicy.awp_run (fun _ => Unrefused env.toLibraries)
    (fun _ error => EndsIn env.toLibraries (.error (.app error))) (hkeeps _ .monotonic trace h)
    (fun k trace' hbefore => ?_) (fun k error trace' hended _ => hended)
    (fun started k error trace' hended hretry _ => ?_)
  · refine Async.awp_mono (fun _ _ hok => hok) ?_ (guardedCall_inOrder hbefore)
    rintro (error | name) trace'' herr <;> exact herr
  · -- a refusal is not worth repeating
    have hunrefused : Unrefused env.toLibraries trace' := by
      refine ⟨hended.1, fun hrefused => ?_⟩
      cases hended.2 hrefused
      cases hretry
    have hends : ∀ outcome trace'', Unrefused env.toLibraries trace'' →
        EndsIn env.toLibraries outcome trace'' := fun _ _ h => ⟨h.1, fun hr => absurd hr h.2⟩
    refine awp_servicePause hkeeps hunrefused (fun _ again trace'' h' => ?_)
      fun _ _ trace'' h' => hends _ _ h'
    cases again with
    | false => exact hends _ _ h'
    | true => exact h'

/-- The record of a completion that ended. -/
theorem recordUsage_inOrder {outcome : Except Exc CompletionResponse} {caller : Caller}
    {model : String} {statusCode : ℤ} {started : ℚ} {usage : Option CompletionUsage}
    {trace : List (Event Service)} (h : EndsIn env.toLibraries outcome trace)
    (err : Exc → List (Event Service) → Prop) :
    Async.awp (Protocol.guarded (inOrder env.toLibraries))
      ((completionService env settings).recordUsage caller model statusCode started usage)
      (fun _ => EndsIn env.toLibraries outcome) err trace := by
  have hsilent : ∀ op, Silent op → ∀ trace', EndsIn env.toLibraries outcome trace' →
      inOrder env.toLibraries trace' op ∧ ∀ r, EndsIn env.toLibraries outcome
        (trace' ++ [⟨op, r⟩]) := by
    rintro op hop trace' ⟨hrest, hrefused⟩
    refine ⟨⟨hrest.allows (.inr (.inl hop)), fun _ => hop⟩, fun r => ⟨?_, fun h => hrefused ?_⟩⟩
    · rw [stage_snoc]
      cases hop <;> trivial
    · rcases refused_snoc.mp h with h | h
      · exact h
      · cases hop <;> cases h
  rw [awp_recordUsage]
  obtain ⟨hallows, hnext⟩ := hsilent _ .monotonic trace h
  refine ⟨hallows, ?_⟩
  rintro now _ rfl
  obtain ⟨hallows', hnext'⟩ := hsilent _ (.record _) _ (hnext now)
  refine ⟨hallows', ?_⟩
  rintro r _ rfl
  exact hnext' r

/-- **A completion** keeps the order of its attempts, and ends with the first refusal. -/
theorem completing_inOrder (env : Environment) (settings : Settings)
    (call : CompletionRequest × Caller) :
    (completing env settings call).wp (Protocol.guarded (inOrder env.toLibraries))
      (EndsIn env.toLibraries) [] := by
  have hstart : Unrefused env.toLibraries [] := ⟨trivial, List.not_mem_nil⟩
  obtain ⟨hallows, hnext⟩ := keeps_unrefused env.toLibraries _ .monotonic [] hstart
  rw [completing, ← Async.awp_outcome, awp_complete]
  refine ⟨hallows, fun started trace₁ h₁ => ?_⟩
  refine Async.awp_mono ?_ ?_ (attempts_inOrder (hnext started trace₁ h₁))
  · rintro response trace₂ ⟨hrest, hrefused⟩
    exact recordUsage_inOrder ⟨hrest, fun h => absurd h hrefused⟩ _
  · rintro (error | name) trace₂ hended
    · exact recordUsage_inOrder hended _
    · exact hended

end

/-! ## The breaker at each stage -/

/-- When the POSTs of a log were made. -/
def postTimes (log : List (Entry Service World)) : List ℚ :=
  (log.filter fun en => isPost en.event).map fun en => en.after.now

theorem postTimes_append (log log' : List (Entry Service World)) :
    postTimes (log ++ log') = postTimes log ++ postTimes log' := by
  simp [postTimes]

theorem postTimes_snoc (log : List (Entry Service World)) (en : Entry Service World) :
    postTimes (log ++ [en]) =
      postTimes log ++ if isPost en.event then [en.after.now] else [] := by
  rw [postTimes, List.filter_append, List.map_append]
  cases h : isPost en.event <;> simp [postTimes, h]

/-- How the breaker and the POSTs made so far agree: before the `n`-th failure the circuit is CLOSED
and counts them, from then on it is OPEN since the last failure, or HALF_OPEN for a probe. -/
def Stage.Holds (lib : Libraries) (n : ℕ) (resetTimeout : ℚ) (stage : Stage)
    (breaker : CircuitBreaker) (times : List ℚ) (now : ℚ) : Prop :=
  match stage with
  | .resting =>
    (times.length < n ∧ breaker.state = .closed ∧ breaker.failures = times.length) ∨
      (n ≤ times.length ∧ breaker.state = .open ∧ ∀ last ∈ times.getLast?, last ≤ breaker.openedAt)
  | .admitted =>
    (times.length < n ∧ breaker.state = .closed ∧ breaker.failures = times.length) ∨
      (n ≤ times.length ∧ breaker.state = .halfOpen ∧
        ∀ last ∈ times.getLast?, last + resetTimeout ≤ now)
  | .posted =>
    (times.length ≤ n ∧ breaker.state = .closed ∧ breaker.failures + 1 = times.length) ∨
      (n < times.length ∧ breaker.state = .halfOpen)
  | .answered outcome => FailsRetryably lib outcome ∧
    ((times.length ≤ n ∧ breaker.state = .closed ∧ breaker.failures + 1 = times.length) ∨
      (n < times.length ∧ breaker.state = .halfOpen))

/-- What an outage keeps: the configuration, the distance of the POSTs, and `Stage.Holds`. -/
structure Sheltered (lib : Libraries) (n : ℕ) (resetTimeout : ℚ) (stage : Stage) (w : World)
    (times : List ℚ) : Prop where
  threshold : w.breaker.failureThreshold = n
  timeout : w.breaker.resetTimeout = resetTimeout
  spaced : SpacedFrom n resetTimeout times
  past : ∀ time ∈ times, time ≤ w.now
  fields : stage.Holds lib n resetTimeout w.breaker times w.now

namespace Sheltered

variable {lib : Libraries} {n : ℕ} {resetTimeout : ℚ} {w w' : World} {t : ℕ} {times : List ℚ}

/-- Between two attempts the breaker is left alone. -/
theorem idle (h : Sheltered lib n resetTimeout .resting w times) (hnow : w.now ≤ w'.now)
    (hbreaker : w'.breaker = w.breaker) : Sheltered lib n resetTimeout .resting w' times where
  threshold := by rw [hbreaker]; exact h.threshold
  timeout := by rw [hbreaker]; exact h.timeout
  spaced := h.spaced
  past time htime := (h.past time htime).trans hnow
  fields := by
    rw [hbreaker]
    exact h.fields

/-- A `before_call`. -/
theorem beforeCall (h : Sheltered lib n resetTimeout .resting w times)
    {r : Service.Reply .beforeCall} (hstep : world.step w t .beforeCall r w') :
    Sheltered lib n resetTimeout (stageAfter ⟨.beforeCall, r⟩) w' times := by
  obtain ⟨now, hnow, rfl, rfl⟩ := hstep
  have hpast : ∀ time ∈ times, time ≤ now := fun time htime => (h.past time htime).trans hnow
  have hfields := h.fields
  simp only
  rcases w.breaker.beforeCall_cases now with
    ⟨hstate, hcall⟩ | ⟨hstate, hearly, hcall⟩ | ⟨hstate, hcool, hcall⟩ <;> rw [hcall]
  · -- CLOSED
    refine ⟨h.threshold, h.timeout, h.spaced, hpast, .inl ?_⟩
    rcases hfields with hclosed | ⟨_, hopen, _⟩
    · exact hclosed
    · exact absurd hopen hstate
  · exact ⟨h.threshold, h.timeout, h.spaced, hpast, hfields⟩
  · -- OPEN and cooled off: a probe
    refine ⟨h.threshold, h.timeout, h.spaced, hpast, .inr ?_⟩
    rcases hfields with ⟨_, hclosed, _⟩ | ⟨hmany, _, hlast⟩
    · rw [hstate] at hclosed
      cases hclosed
    · refine ⟨hmany, rfl, fun last hmem => ?_⟩
      have hbefore := hlast last hmem
      rw [h.timeout] at hcool
      change last + resetTimeout ≤ now
      linarith

/-- The POST of an attempt. -/
theorem post (h : Sheltered lib n resetTimeout .admitted w times) (hn : 1 ≤ n)
    {payload : UpstreamPayload} {r : Service.Reply (.post payload)}
    (hstep : world.step w t (.post payload) r w') :
    Sheltered lib n resetTimeout .posted w' (times ++ [w'.now]) := by
  obtain ⟨now, hnow, rfl⟩ := hstep
  have hpast : ∀ time ∈ times ++ [now], time ≤ now := by
    intro time htime
    rcases List.mem_append.mp htime with htime | htime
    · exact (h.past time htime).trans hnow
    · exact (List.mem_singleton.mp htime).le
  have hlength : ∀ time, (times ++ [time]).length = times.length + 1 := fun _ => by simp
  rcases h.fields with ⟨hfew, hclosed, hfailures⟩ | ⟨hmany, hhalf, hlast⟩
  · refine ⟨h.threshold, h.timeout, h.spaced.snoc hn fun hmany => absurd hmany (not_le.mpr hfew),
      hpast, .inl ?_⟩
    refine ⟨by rw [hlength]; omega, hclosed, ?_⟩
    rw [hlength]
    exact congrArg (· + 1) hfailures
  · refine ⟨h.threshold, h.timeout, h.spaced.snoc hn fun _ last hmem => ?_, hpast, .inr ?_⟩
    · exact (hlast last hmem).trans hnow
    · exact ⟨by rw [hlength]; omega, hhalf⟩

/-- Its answer. -/
theorem answer (h : Sheltered lib n resetTimeout .posted w times) {outcome : UpstreamOutcome}
    (hstep : world.step w t .answer outcome w') (hfails : FailsRetryably lib outcome) :
    Sheltered lib n resetTimeout (.answered outcome) w' times := by
  obtain ⟨now, hnow, rfl⟩ := hstep
  exact ⟨h.threshold, h.timeout, h.spaced, fun time htime => (h.past time htime).trans hnow,
    hfails, h.fields⟩

/-- The failure is recorded: the `n`-th, and the failure of a probe, open the circuit. -/
theorem recordFailure {outcome : UpstreamOutcome}
    (h : Sheltered lib n resetTimeout (.answered outcome) w times)
    {r : Service.Reply .recordFailure} (hstep : world.step w t .recordFailure r w') :
    Sheltered lib n resetTimeout .resting w' times := by
  obtain ⟨now, hnow, rfl⟩ := hstep
  have hpast : ∀ time ∈ times, time ≤ now := fun time htime => (h.past time htime).trans hnow
  have hthreshold := h.threshold
  obtain ⟨_, hfields⟩ := h.fields
  simp only
  rcases w.breaker.recordFailure_cases now with ⟨htrips, hcall⟩ | ⟨hstate, hcount, hcall⟩ <;>
    rw [hcall]
  · refine ⟨hthreshold, h.timeout, h.spaced, hpast, .inr ⟨?_, rfl, fun last hmem =>
      hpast last (List.mem_of_getLast? hmem)⟩⟩
    rcases hfields with ⟨hfew, hclosed, hfailures⟩ | ⟨hmany, _⟩
    · rcases htrips with hhalf | hreached
      · rw [hclosed] at hhalf
        cases hhalf
      · rw [hthreshold] at hreached
        omega
    · exact hmany.le
  · refine ⟨hthreshold, h.timeout, h.spaced, hpast, .inl ?_⟩
    rcases hfields with ⟨hfew, hclosed, hfailures⟩ | ⟨_, hhalf⟩
    · rw [hthreshold] at hcount
      exact ⟨by omega, hclosed, hfailures⟩
    · exact absurd hhalf hstate

/-- **One request of a completion that is in order.** -/
theorem step {stage : Stage} {op : Op} {r : Service.Reply op}
    (h : Sheltered lib n resetTimeout stage w times) (hn : 1 ≤ n) (hop : stage.Allows lib op)
    (hstep : world.step w t op r w')
    (houtage : ∀ outcome, (⟨op, r⟩ : Event Service) = ⟨.answer, outcome⟩ →
      FailsRetryably lib outcome) :
    Sheltered lib n resetTimeout (stageAfter ⟨op, r⟩) w'
      (times ++ if isPost ⟨op, r⟩ then [w'.now] else []) := by
  cases stage with
  | resting =>
    have hbreaker := @world_breaker ⟨t, w, op, r, w'⟩ hstep
    have hnow := @world_now ⟨t, w, op, r, w'⟩ hstep
    -- of what may be asked between two attempts only `before_call` touches the breaker
    cases op with
    | beforeCall =>
      rw [if_neg nofun, List.append_nil]
      exact h.beforeCall hstep
    | post payload | answer | recordSuccess | recordFailure => exact hop.elim
    | _ =>
      rcases hbreaker with ⟨_, hsame⟩ | ⟨_, hcall, _⟩
      · rw [if_neg nofun, List.append_nil]
        exact h.idle hnow hsame
      · cases hcall
  | admitted =>
    obtain ⟨payload, rfl⟩ := hop
    exact h.post hn hstep
  | posted =>
    obtain rfl : op = .answer := hop
    rw [if_neg nofun, List.append_nil]
    exact h.answer hstep (houtage r rfl)
  | answered outcome =>
    obtain rfl : op = .recordFailure := hop h.fields.1
    rw [if_neg nofun, List.append_nil]
    exact h.recordFailure hstep

end Sheltered

/-! ## Completions one at a time -/

/-- The completions do not overlap: when one is served, every other that has been has ended. -/
def OneAtATime (env : Environment) (settings : Settings)
    (tasks : List (Task (CompletionRequest × Caller) Service (Except Exc CompletionResponse)))
    (log : List (Entry Service World)) : Prop :=
  ∀ earlier en later, log = earlier ++ en :: later →
    ∀ t, t ≠ en.task → ownTrace t earlier ≠ [] → ∃ task outcome, tasks[t]? = some task ∧
      Prog.Steps (completing env settings task.label) (ownTrace t earlier) (.ret outcome)

section

variable {env : Environment} {settings : Settings} {w₀ w : World} {log : List (Entry Service World)}
  {tasks : List (Task (CompletionRequest × Caller) Service (Except Exc CompletionResponse))}

/-- A completion that has ended ended in order. -/
theorem steps_endsIn {call : CompletionRequest × Caller} {trace : List (Event Service)}
    {outcome : Except Exc CompletionResponse}
    (h : Prog.Steps (completing env settings call) trace (.ret outcome)) :
    EndsIn env.toLibraries outcome trace := by
  have := Prog.wp_steps h (completing_inOrder env settings call)
    (Protocol.plays_guarded (inOrder env.toLibraries) trace [])
  simpa using this

/-- Completions that take turns: whenever one takes a step, the others have ended, and in an outage
that means they rest. -/
theorem others_rest (hturn : OneAtATime env settings tasks log)
    (houtage : ∀ en ∈ log, ∀ outcome, en.event = ⟨.answer, outcome⟩ →
      FailsRetryably env.toLibraries outcome) {earlier : List (Entry Service World)}
    {en : Entry Service World} {later : List (Entry Service World)}
    (hsplit : log = earlier ++ en :: later) {t : ℕ} (hne : t ≠ en.task) :
    stage (ownTrace t earlier) = .resting := by
  by_cases hstarted : ownTrace t earlier = []
  · rw [hstarted]
    rfl
  · obtain ⟨task, outcome, _, hended⟩ := hturn earlier en later hsplit t hne hstarted
    have hatRest := (steps_endsIn hended).1
    cases hstage : stage (ownTrace t earlier) with
    | resting => rfl
    | admitted | posted =>
      rw [hstage] at hatRest
      exact hatRest.elim
    | answered outcome' =>
      obtain ⟨en', hen', _, hevent⟩ := mem_ownTrace.mp (answer_mem_of_stage hstage)
      rw [hstage] at hatRest
      refine absurd (houtage en' ?_ outcome' hevent) hatRest
      rw [hsplit]
      exact List.mem_append_left _ hen'

/-- **An outage over a whole run**: at every moment all completions but one rest, and that one is
where the breaker says. -/
theorem run_sheltered (hrun : Run world (completing env settings) w₀ log w tasks) {n : ℕ}
    (hn : 1 ≤ n) {resetTimeout : ℚ} (hfresh : w₀.breaker = .create n resetTimeout)
    (hturn : OneAtATime env settings tasks log)
    (houtage : ∀ en ∈ log, ∀ outcome, en.event = ⟨.answer, outcome⟩ →
      FailsRetryably env.toLibraries outcome) :
    ∀ earlier later, log = earlier ++ later → ∃ t,
      (∀ t', t' ≠ t → stage (ownTrace t' earlier) = .resting) ∧
      Sheltered env.toLibraries n resetTimeout (stage (ownTrace t earlier))
        (worldAfter w₀ earlier) (postTimes earlier) := by
  intro earlier
  induction earlier using List.reverseRecOn with
  | nil =>
    intro later _
    refine ⟨0, fun _ _ => rfl, by rw [worldAfter_nil, hfresh]; rfl,
      by rw [worldAfter_nil, hfresh]; rfl, .nil _ _, nofun, .inl ?_⟩
    rw [worldAfter_nil, hfresh]
    exact ⟨hn, rfl, rfl⟩
  | append_singleton earlier en ih =>
    intro later hsplit
    rw [List.append_assoc] at hsplit
    obtain ⟨t, hothers, hsheltered⟩ := ih _ hsplit
    have hrest : ∀ t', t' ≠ en.task → stage (ownTrace t' earlier) = .resting :=
      fun t' hne => others_rest hturn houtage hsplit hne
    have hown : Sheltered env.toLibraries n resetTimeout (stage (ownTrace en.task earlier))
        (worldAfter w₀ earlier) (postTimes earlier) := by
      by_cases heq : t = en.task
      · rw [← heq]
        exact hsheltered
      · rw [hothers en.task (Ne.symm heq), ← hrest t heq]
        exact hsheltered
    obtain ⟨hbefore, hstep⟩ := hrun.chained.split.2 earlier en later hsplit
    obtain ⟨_, _, hallowed, _⟩ := hrun.guard (completing_inOrder env settings) hsplit
    rw [← hbefore] at hown
    refine ⟨en.task, fun t' hne => ?_, ?_⟩
    · rw [ownTrace_snoc_ne _ _ (Ne.symm hne)]
      exact hrest t' hne
    · rw [ownTrace_snoc_self, stage_snoc, worldAfter_snoc, postTimes_snoc]
      exact hown.step hn hallowed hstep (houtage en (by rw [hsplit]; simp))

/-- A refusal leaves the breaker alone. -/
theorem breaker_of_refusal {w w' : World} {t : ℕ}
    (hstep : world.step w t .beforeCall (.error CircuitBreaker.circuitOpen) w') :
    w'.breaker = w.breaker := by
  obtain ⟨now, _, hanswer, rfl⟩ := hstep
  simp only at hanswer ⊢
  rcases w.breaker.beforeCall_cases now with ⟨_, hcall⟩ | ⟨_, _, hcall⟩ | ⟨_, _, hcall⟩
  · rw [hcall] at hanswer
    cases hanswer
  · rw [hcall]
  · rw [hcall] at hanswer
    cases hanswer

/-- A request after a refusal is no POST and leaves the breaker alone, and so does the refusal. -/
theorem after_refusal (hrun : Run world (completing env settings) w₀ log w tasks)
    {earlier : List (Entry Service World)} {en : Entry Service World}
    {later : List (Entry Service World)} (hsplit : log = earlier ++ en :: later)
    (hrefused : Refused (ownTrace en.task (earlier ++ [en]))) :
    isPost en.event = false ∧ en.after.breaker = en.before.breaker := by
  obtain ⟨_, hstep⟩ := hrun.chained.split.2 earlier en later hsplit
  obtain ⟨_, _, _, hsilent⟩ := hrun.guard (completing_inOrder env settings) hsplit
  rw [ownTrace_snoc_self, refused_snoc] at hrefused
  have hbreaker := world_breaker hstep
  obtain ⟨t, w, op, r, w'⟩ := en
  rcases hrefused with hrefused | hrefusal
  · cases hsilent hrefused with
    | monotonic | record =>
      refine ⟨rfl, ?_⟩
      rcases hbreaker with ⟨_, hsame⟩ | ⟨_, hcall, _⟩
      · exact hsame
      · cases hcall
  · cases hrefusal
    exact ⟨rfl, breaker_of_refusal hstep⟩

end

/-- **Protection in an outage.** Completions are made one at a time, from a fresh breaker with
threshold `n` and for any configuration of the retries, and every POST ends in a failure worth
repeating. Then from the `n`-th on, POSTs start at least the cool-off apart; any interval of length
`width` contains at most `n + ⌊width / cool-off⌋` of them; and once an attempt is refused, its
completion makes no POST, leaves the breaker alone, and ends in `UpstreamCircuitOpen`. -/
theorem outage_protection {env : Environment} {settings : Settings} {w₀ w : World}
    {log : List (Entry Service World)}
    {tasks : List (Task (CompletionRequest × Caller) Service (Except Exc CompletionResponse))}
    (hrun : Run world (completing env settings) w₀ log w tasks) {n : ℕ} (hn : 1 ≤ n)
    {resetTimeout : ℚ} (hreset : 0 < resetTimeout) (hfresh : w₀.breaker = .create n resetTimeout)
    (hturn : OneAtATime env settings tasks log)
    (houtage : ∀ en ∈ log, ∀ outcome, en.event = ⟨.answer, outcome⟩ →
      FailsRetryably env.toLibraries outcome) :
    SpacedFrom n resetTimeout (postTimes log) ∧
    (∀ start width, 0 ≤ width →
      ((postTimes log).countP (fun time => start ≤ time ∧ time ≤ start + width) : ℤ) ≤
        n + ⌊width / resetTimeout⌋) ∧
    (∀ earlier en later, log = earlier ++ en :: later →
      Refused (ownTrace en.task (earlier ++ [en])) →
      isPost en.event = false ∧ en.after.breaker = en.before.breaker) ∧
    ∀ t call outcome, tasks[t]? = some ⟨call, .ret outcome⟩ → Refused (ownTrace t log) →
      outcome = .error CircuitBreaker.circuitOpen := by
  obtain ⟨t, _, hsheltered⟩ :=
    run_sheltered hrun hn hfresh hturn houtage log [] (List.append_nil log).symm
  refine ⟨hsheltered.spaced, fun start width hwidth => ?_, ?_, ?_⟩
  · exact hsheltered.spaced.count_le hn hreset start hwidth
  · exact fun earlier en later => after_refusal hrun
  · exact fun t call outcome ht => (steps_endsIn (hrun.trace t _ ht)).2

theorem OneAtATime.nil {env : Environment} {settings : Settings}
    {tasks : List (Task (CompletionRequest × Caller) Service (Except Exc CompletionResponse))} :
    OneAtATime env settings tasks [] := by
  intro earlier en later hsplit
  cases earlier <;> cases hsplit

/-- When all others have ended, one completion takes its turn. -/
theorem OneAtATime.turn {env : Environment} {settings : Settings}
    {tasks : List (Task (CompletionRequest × Caller) Service (Except Exc CompletionResponse))}
    {log more : List (Entry Service World)} (h : OneAtATime env settings tasks log) (t₀ : ℕ)
    (hended : ∀ t, t ≠ t₀ → ownTrace t log ≠ [] → ∃ task outcome, tasks[t]? = some task ∧
      Prog.Steps (completing env settings task.label) (ownTrace t log) (.ret outcome))
    (hmore : ∀ en ∈ more, en.task = t₀) : OneAtATime env settings tasks (log ++ more) := by
  intro earlier en later hsplit t hne hstarted
  rcases List.append_eq_append_iff.mp hsplit with ⟨own, rfl, hmore'⟩ | ⟨rest, hlog, hrest⟩
  · -- in its turn, and so all that it has done meanwhile is its own
    have hen : en.task = t₀ := hmore en (by rw [hmore']; simp)
    have hown : ownTrace t own = [] := by
      rw [ownTrace, List.filter_eq_nil_iff.mpr, List.map_nil]
      intro en' hen' htask
      have hen'' : en'.task = t₀ := hmore en' (by rw [hmore']; exact List.mem_append_left _ hen')
      exact hne ((of_decide_eq_true htask).symm.trans (hen''.trans hen.symm))
    rw [ownTrace_append, hown, List.append_nil] at hstarted ⊢
    exact hended t (hen ▸ hne) hstarted
  · rcases rest with _ | ⟨en', rest⟩
    · -- its first step
      obtain rfl : log = earlier := by simpa using hlog
      have hen : en.task = t₀ := hmore en (by rw [← List.nil_append more, ← hrest]; simp)
      exact hended t (hen ▸ hne) hstarted
    · obtain ⟨rfl, -⟩ := List.cons.inj hrest
      exact h earlier en rest hlog t hne hstarted

/-- A POST that times out is worth repeating. -/
theorem timeout_failsRetryably : FailsRetryably Environment.sample.toLibraries .timeout :=
  fun _ => ⟨.new .upstreamTimeout, rfl, rfl⟩

/-- Settings with which one failure opens the circuit. -/
def brittle : Settings := { Settings.defaults with circuitBreakerFailureThreshold := 1 }

/-- The breaker after one failure at time 0. -/
def tripped : CircuitBreaker := ⟨1, 30, .open, 1, 0⟩

unseal Rat.sub in
theorem tripped_refuses : tripped.beforeCall 0 = (.error CircuitBreaker.circuitOpen, tripped) := rfl

unseal Rat.sub in
theorem tripped_probes :
    tripped.beforeCall 30 = (.ok (), { tripped with state := .halfOpen }) := rfl

/-- An attempt is let through or refused as the breaker says. -/
theorem world_beforeCall {w : World} {t : ℕ} {now : ℚ} (hnow : w.now ≤ now)
    {r : Except Exc Unit} {breaker : CircuitBreaker}
    (h : w.breaker.beforeCall now = (r, breaker)) :
    world.step w t .beforeCall r { w with now := now, breaker := breaker } :=
  ⟨now, hnow, (congrArg Prod.fst h).symm, by rw [h]⟩

/-- The process after a completion that has met an outage. -/
def afterRefusal : World where
  now := 0
  breaker := tripped
  limiter := (World.start brittle 0).limiter
  jobs := fun _ => none
  usage := [CompletionService.entry ⟨"k", "k"⟩ "llama3.2:3b" 503 0 0 none]
  issued := []

unseal RetryPolicy.loop Rat.add Rat.sub Rat.mul Rat.inv in
/-- A completion whose POST times out, and whose second attempt, made at once, is refused. -/
theorem run_refused : ∃ log task,
    Run world (completing .sample brittle) (World.start brittle 0) log afterRefusal [task] ∧
    task.rest = .ret (.error CircuitBreaker.circuitOpen) ∧ postTimes log = [0] ∧
    ∀ en ∈ log, ∀ outcome, en.event = ⟨.answer, outcome⟩ → outcome = .timeout := by
  let fresh : World := World.start brittle 0
  let failed : World := { fresh with breaker := tripped }
  have h₀ : Run world (completing .sample brittle) fresh _ _ _ :=
    .spawn (helloRequest, ⟨"k", "k"⟩) .start
  have h₁ := h₀.reply 0 rfl (0 : ℚ) fresh ⟨0, le_rfl, rfl, rfl⟩
  have h₂ := h₁.reply 0 rfl (0 : ℚ) fresh ⟨0, le_rfl, rfl, rfl⟩
  have h₃ := h₂.reply 0 rfl (.ok ()) fresh ⟨0, le_rfl, rfl, rfl⟩
  have h₄ := h₃.reply 0 rfl () fresh ⟨0, le_rfl, rfl⟩
  have h₅ := h₄.reply 0 rfl .timeout fresh ⟨0, le_rfl, rfl⟩
  have h₆ := h₅.reply 0 rfl () failed ⟨0, le_rfl, rfl⟩
  have h₇ := h₆.reply 0 rfl (0 : ℚ) failed ⟨0, le_rfl, le_rfl, by norm_num, rfl⟩
  have h₈ := h₇.reply 0 rfl (0 : ℚ) failed ⟨0, le_rfl, rfl, rfl⟩
  have h₉ := h₈.reply 0 rfl () failed ⟨0, le_rfl, rfl⟩
  have h₁₀ := h₉.reply 0 rfl (.error CircuitBreaker.circuitOpen) failed
    (world_beforeCall le_rfl tripped_refuses)
  have h₁₁ := h₁₀.reply 0 rfl (0 : ℚ) failed ⟨0, le_rfl, rfl, rfl⟩
  have h₁₂ := h₁₁.reply 0 rfl (.ok ()) afterRefusal ⟨0, le_rfl, .inl rfl⟩
  refine ⟨_, _, h₁₂, rfl, rfl, fun en hen outcome hevent => ?_⟩
  simp only [List.nil_append, List.cons_append, List.mem_cons, List.not_mem_nil,
    or_false] at hen
  rcases hen with rfl | rfl | rfl | rfl | rfl | rfl | rfl | rfl | rfl | rfl | rfl | rfl <;>
    cases hevent
  rfl

unseal RetryPolicy.loop in
/-- After it another one, half a minute later, makes the next POST. -/
theorem outage_protection_two :
    ∃ log w tasks, Run world (completing .sample brittle) (World.start brittle 0) log w tasks ∧
      postTimes log = [0, 30] ∧ SpacedFrom 1 30 (postTimes log) ∧
      ∃ task, tasks[0]? = some task ∧ task.rest = .ret (.error CircuitBreaker.circuitOpen) := by
  obtain ⟨log, ⟨call, rest⟩, hrun, hrest, hposts, htimeouts⟩ := run_refused
  obtain rfl : rest = .ret (.error CircuitBreaker.circuitOpen) := hrest
  let later : World := { afterRefusal with now := 30 }
  let probing : World := { later with breaker := { tripped with state := .halfOpen } }
  have h₀ := hrun.spawn (helloRequest, ⟨"k", "k"⟩)
  have h₁ := h₀.reply 1 rfl (30 : ℚ) later ⟨30, by decide +kernel, rfl, rfl⟩
  have h₂ := h₁.reply 1 rfl (30 : ℚ) later ⟨30, le_rfl, rfl, rfl⟩
  have h₃ := h₂.reply 1 rfl (.ok ()) probing (world_beforeCall le_rfl tripped_probes)
  have h₄ := h₃.reply 1 rfl () probing ⟨30, le_rfl, rfl⟩
  have h₅ := h₄.reply 1 rfl .timeout probing ⟨30, le_rfl, rfl⟩
  rw [List.append_assoc, List.append_assoc, List.append_assoc, List.append_assoc] at h₅
  have hreset : (0 : ℚ) < 30 := by norm_num
  have hfresh : (World.start brittle 0).breaker = .create (1 : ℕ) 30 := rfl
  have hprotected := outage_protection h₅ le_rfl hreset hfresh ?_ ?_
  · exact ⟨_, _, _, h₅, by simp [postTimes_append, hposts]; rfl, hprotected.1, _, rfl, rfl⟩
  · have hown : ∀ en ∈ log, en.task = 0 := fun en hen => Nat.lt_one_iff.mp (hrun.task_lt en hen)
    refine .turn (.turn .nil 0 (fun t _ hstarted => absurd rfl hstarted) hown) 1 ?_ (by simp)
    intro t _ hstarted
    obtain ⟨ev, hev⟩ := List.exists_mem_of_ne_nil _ hstarted
    obtain ⟨en, hen, rfl, -⟩ := mem_ownTrace.mp hev
    rw [hown en hen]
    exact ⟨_, _, rfl, hrun.trace 0 _ rfl⟩
  · intro en hen outcome hevent
    rcases List.mem_append.mp hen with hen | hen
    · exact htimeouts en hen outcome hevent ▸ timeout_failsRetryably
    simp only [List.cons_append, List.nil_append, List.mem_cons, List.not_mem_nil, or_false] at hen
    rcases hen with rfl | rfl | rfl | rfl | rfl <;> cases hevent
    exact timeout_failsRetryably

end PrdApiWrapper
