import PrdApiWrapper.CoolOff
import PrdApiWrapper.Outage
import PrdApiWrapper.Replies

/-!
# Failing fast

The shared breaker in runs of the whole service. What it is told is what the provider answered, each
answer at once and to the point; so that a request is turned away exactly while these answers give
reason to (`turned_away_iff`).
-/

namespace PrdApiWrapper

open Interaction

/-! ## Answers and reports -/

/-- An answer that is a completion, whatever model was asked for. -/
def Succeeds (lib : Libraries) (outcome : UpstreamOutcome) : Prop :=
  ∀ model, ∃ completion, received lib model outcome = .ok completion

/-- The last thing a request has seen is an answer of the provider, and such as `P` says. -/
def LastAnswer (P : UpstreamOutcome → Prop) (trace : List (Event Service)) : Prop :=
  ∃ outcome, trace.getLast? = some ⟨.answer, outcome⟩ ∧ P outcome

/-- The breaker is told of a failure right after an answer that is one worth repeating, of a success
right after a completion, and never else. -/
def TellsBreaker (lib : Libraries) (trace : List (Event Service)) (op : Op) : Prop :=
  (op = .recordFailure ↔ LastAnswer (FailsRetryably lib) trace) ∧
    (op = .recordSuccess ↔ LastAnswer (Succeeds lib) trace)

/-- There is nothing the breaker has yet to be told. -/
structure Untold (lib : Libraries) (trace : List (Event Service)) : Prop where
  failure : ¬LastAnswer (FailsRetryably lib) trace
  success : ¬LastAnswer (Succeeds lib) trace

section

variable {lib : Libraries} {outcome : UpstreamOutcome} {P : UpstreamOutcome → Prop}
  {trace : List (Event Service)}

/-- Whether an answer is a completion, or a failure worth repeating, is no matter of the model. -/
theorem received_other_model (lib : Libraries) (model model' : String) (outcome : UpstreamOutcome) :
    ((∃ completion, received lib model outcome = .ok completion) →
      ∃ completion, received lib model' outcome = .ok completion) ∧
    ((∃ error, received lib model outcome = .error (.app error) ∧ error.retryable = true) →
      ∃ error, received lib model' outcome = .error (.app error) ∧ error.retryable = true) := by
  cases outcome with
  | response response =>
    by_cases hreadable : response.Readable
    · by_cases herror : response.isError = true
      · obtain ⟨message, hmessage⟩ := upstreamMessage_readable hreadable
        rw [received_error lib model herror hmessage, received_error lib model' herror hmessage]
        refine ⟨by rintro ⟨_, ⟨⟩⟩, ?_⟩
        rintro ⟨_, ⟨⟩, hretry⟩
        exact ⟨_, rfl, (appErrorOf_retryable lib response model' message).mpr
          ((appErrorOf_retryable lib response model message).mp hretry)⟩
      · rw [received_response herror hreadable, received_response herror hreadable]
        exact ⟨id, id⟩
    · obtain ⟨name, hname⟩ := received_unreadable lib model hreadable
      rw [hname]
      exact ⟨by rintro ⟨_, ⟨⟩⟩, by rintro ⟨_, ⟨⟩, _⟩⟩
  | _ => exact ⟨id, id⟩

theorem succeeds_of {model : String} {completion : CompletionResponse}
    (h : received lib model outcome = .ok completion) : Succeeds lib outcome :=
  fun model' => (received_other_model lib model model' outcome).1 ⟨completion, h⟩

theorem failsRetryably_of {model : String} {error : AppError}
    (h : received lib model outcome = .error (.app error)) (hretry : error.retryable = true) :
    FailsRetryably lib outcome :=
  fun model' => (received_other_model lib model model' outcome).2 ⟨error, h, hretry⟩

theorem not_succeeds_of {model : String} {exc : Exc} (h : received lib model outcome = .error exc) :
    ¬Succeeds lib outcome := by
  intro hsucceeds
  obtain ⟨completion, hok⟩ := hsucceeds model
  rw [h] at hok
  cases hok

theorem lastAnswer_snoc : LastAnswer P (trace ++ [⟨.answer, outcome⟩]) ↔ P outcome := by
  simp [LastAnswer]

theorem not_lastAnswer_snoc {op : Op} (hop : op ≠ .answer) (r : Service.Reply op) :
    ¬LastAnswer P (trace ++ [⟨op, r⟩]) := by
  rintro ⟨outcome, hlast, -⟩
  rw [List.getLast?_concat] at hlast
  exact hop (congrArg Event.op (Option.some.inj hlast))

theorem untold_snoc {op : Op} (hop : op ≠ .answer) (r : Service.Reply op) :
    Untold lib (trace ++ [⟨op, r⟩]) := ⟨not_lastAnswer_snoc hop r, not_lastAnswer_snoc hop r⟩

/-- What is no report may be asked whenever there is nothing to report. -/
theorem Untold.tells (h : Untold lib trace) {op : Op} (hfailure : op ≠ .recordFailure)
    (hsuccess : op ≠ .recordSuccess) : TellsBreaker lib trace op :=
  ⟨iff_of_false hfailure h.failure, iff_of_false hsuccess h.success⟩

theorem keeps_untold : Keeps (Protocol.guarded (TellsBreaker lib)) (¬Attempts ·) (Untold lib) := by
  intro op hop trace h
  have hne : ∀ op', Attempts op' → op ≠ op' := fun op' hop' heq => hop (heq ▸ hop')
  refine ⟨h.tells (hne _ .recordFailure) (hne _ .recordSuccess), ?_⟩
  rintro r _ rfl
  exact untold_snoc (hne _ .answer) r

end

/-! ## One request -/

section

variable {env : Environment} {settings : Settings}

/-- **An attempt** reports its answer. -/
theorem guardedCall_tells {payload : UpstreamPayload} {model : String}
    {trace : List (Event Service)} (h : Untold env.toLibraries trace) :
    Async.awp (Protocol.guarded (TellsBreaker env.toLibraries))
      ((completionService env settings).guardedCall payload model)
      (fun _ => Untold env.toLibraries) (fun _ => Untold env.toLibraries) trace := by
  rw [awp_guardedCall]
  refine ⟨h.tells (by rintro ⟨⟩) (by rintro ⟨⟩), ?_⟩
  rintro (exc | ⟨⟩) _ rfl
  · exact untold_snoc (by rintro ⟨⟩) _
  · have hadmitted : Untold env.toLibraries (trace ++ [⟨.beforeCall, .ok ()⟩]) :=
      untold_snoc (by rintro ⟨⟩) _
    refine ⟨hadmitted.tells (by rintro ⟨⟩) (by rintro ⟨⟩), ?_⟩
    rintro u _ rfl
    have hposted := @untold_snoc env.toLibraries (trace ++ [⟨.beforeCall, .ok ()⟩]) (.post payload)
      (by rintro ⟨⟩) u
    refine ⟨hposted.tells (by rintro ⟨⟩) (by rintro ⟨⟩), ?_⟩
    rintro outcome _ rfl
    have hanswered : ∀ P trace', LastAnswer P (trace' ++ [⟨.answer, outcome⟩]) ↔ P outcome :=
      fun _ _ => lastAnswer_snoc
    cases hreceived : received env.toLibraries model outcome with
    | ok completion =>
      have hfails : ¬FailsRetryably env.toLibraries outcome :=
        not_failsRetryably_of model fun error h => by rw [hreceived] at h; cases h
      refine ⟨⟨iff_of_false (by rintro ⟨⟩) ((hanswered _ _).not.mpr hfails),
        iff_of_true rfl ((hanswered _ _).mpr (succeeds_of hreceived))⟩, ?_⟩
      rintro u' _ rfl
      exact untold_snoc (by rintro ⟨⟩) u'
    | error exc =>
      have hsucceeds : ¬Succeeds env.toLibraries outcome := not_succeeds_of hreceived
      cases exc with
      | app error =>
        simp only
        by_cases hretry : error.retryable = true
        · rw [if_pos hretry]
          refine ⟨⟨iff_of_true rfl ((hanswered _ _).mpr (failsRetryably_of hreceived hretry)),
            iff_of_false (by rintro ⟨⟩) ((hanswered _ _).not.mpr hsucceeds)⟩, ?_⟩
          rintro u' _ rfl
          exact @untold_snoc _ _ .recordFailure (by rintro ⟨⟩) u'
        · rw [if_neg hretry]
          have hfails : ¬FailsRetryably env.toLibraries outcome := by
            refine not_failsRetryably_of model fun error' h => ?_
            rw [hreceived] at h
            cases h
            exact Bool.eq_false_iff.mpr hretry
          exact ⟨(hanswered _ _).not.mpr hfails, (hanswered _ _).not.mpr hsucceeds⟩
      | foreign name =>
        have hfails : ¬FailsRetryably env.toLibraries outcome := by
          refine not_failsRetryably_of model fun error h => ?_
          rw [hreceived] at h
          cases h
        exact ⟨(hanswered _ _).not.mpr hfails, (hanswered _ _).not.mpr hsucceeds⟩

/-- **Every request** reports the answers of the provider, and nothing else. -/
theorem receive_tells (request : Submission × Option String) :
    (receive env settings request).wp (Protocol.guarded (TellsBreaker env.toLibraries))
      (fun _ => Untold env.toLibraries) [] := by
  have hstart : Untold env.toLibraries [] := ⟨by rintro ⟨_, ⟨⟩, _⟩, by rintro ⟨_, ⟨⟩, _⟩⟩
  exact wp_receive_of_attempt keeps_untold (fun _ _ _ => guardedCall_tells) request hstart

end

/-! ## Runs of the service -/

/-- The breaker is told of a failure. -/
def toldFailure (en : Entry Service World) : Bool :=
  match en.op with
  | .recordFailure => true
  | _ => false

/-- At least `n` failures were reported since the last success, or since the start. -/
def ManyFailures (n : ℤ) (log : List (Entry Service World)) : Prop :=
  ∃ past since, log = past ++ since ∧ (∀ en ∈ since, en.op ≠ .recordSuccess) ∧
    n ≤ since.countP toldFailure

/-- A failure was reported less than `seconds` before `now`. -/
def RecentFailure (seconds now : ℚ) (log : List (Entry Service World)) : Prop :=
  ∃ en ∈ log, en.op = .recordFailure ∧ now - en.after.now < seconds

theorem failuresSince_append (past : List BreakerCall) {calls : List BreakerCall}
    (h : ∀ call ∈ calls, call.method ≠ .recordSuccess) :
    failuresSince (past ++ calls) =
      failuresSince past + calls.countP fun call => call.method = .recordFailure := by
  induction calls using List.reverseRecOn with
  | nil => simp
  | append_singleton calls call ih =>
    have hcalls := ih fun call' hcall' => h call' (List.mem_append_left _ hcall')
    rw [← List.append_assoc, failuresSince_snoc, List.countP_append]
    cases hlast : call.method with
    | beforeCall => simp [hcalls, hlast]
    | recordSuccess => exact absurd hlast (h call (by simp))
    | recordFailure => simp [hcalls, hlast, Nat.add_assoc]

/-- What a history counts is what came since its last success. -/
theorem exists_since (history : List BreakerCall) :
    ∃ past since, history = past ++ since ∧ (∀ call ∈ since, call.method ≠ .recordSuccess) ∧
      failuresSince history = since.countP fun call => call.method = .recordFailure := by
  induction history using List.reverseRecOn with
  | nil => exact ⟨[], [], rfl, nofun, rfl⟩
  | append_singleton history call ih =>
    obtain ⟨past, since, rfl, hsince, hcount⟩ := ih
    rw [failuresSince_snoc]
    by_cases hsuccess : call.method = .recordSuccess
    · exact ⟨past ++ since ++ [call], [], (List.append_nil _).symm, nofun, by simp [hsuccess]⟩
    · refine ⟨past, since ++ [call], List.append_assoc .., ?_, ?_⟩
      · rw [List.forall_mem_append]
        exact ⟨hsince, fun call' hcall' => List.mem_singleton.mp hcall' ▸ hsuccess⟩
      · rw [List.countP_append]
        cases hmethod : call.method with
        | beforeCall => simp [hcount, hmethod]
        | recordSuccess => exact absurd hmethod hsuccess
        | recordFailure => simp [hcount, hmethod]

/-- The breaker's count, read off the log. -/
theorem countP_breakerCalls (log : List (Entry Service World)) :
    (breakerCalls log).countP (fun call => call.method = .recordFailure) =
      log.countP toldFailure := by
  rw [breakerCalls, List.countP_filterMap]
  refine List.countP_congr fun en _ => ?_
  obtain ⟨t, w, op, r, w'⟩ := en
  cases op <;> simp [breakerCall, toldFailure]

/-- Without a success in the log there is none among the calls. -/
theorem forall_breakerCalls {log : List (Entry Service World)} :
    (∀ call ∈ breakerCalls log, call.method ≠ .recordSuccess) ↔
      ∀ en ∈ log, en.op ≠ .recordSuccess := by
  have hsome := exists_breakerCall .recordSuccess (fun _ => True) log
  simp only [and_true, BreakerMethod.op] at hsome
  simpa using not_congr hsome

theorem manyFailures_iff {n : ℤ} {log : List (Entry Service World)} :
    ManyFailures n log ↔ n ≤ failuresSince (breakerCalls log) := by
  refine ⟨?_, fun h => ?_⟩
  · rintro ⟨past, since, rfl, hsince, hn⟩
    have hsplit : breakerCalls (past ++ since) = breakerCalls past ++ breakerCalls since :=
      List.filterMap_append
    rw [hsplit, failuresSince_append _ (forall_breakerCalls.mpr hsince), countP_breakerCalls]
    push_cast
    omega
  · obtain ⟨past, since, hsplit, hsince, hcount⟩ := exists_since (breakerCalls log)
    obtain ⟨past', since', rfl, rfl, rfl⟩ := List.filterMap_eq_append_iff.mp hsplit
    refine ⟨past', since', rfl, forall_breakerCalls.mp hsince, ?_⟩
    rwa [hcount, ← breakerCalls, countP_breakerCalls] at h

section

variable {env : Environment} {settings : Settings} {begin : ℚ} {log : List (Entry Service World)}
  {w : World} {tasks : List (Task (Submission × Option String) Service Unit)}

/-- **Failing fast, and only then**, in every run of any number of requests side by side. The
breaker is told of every answer that is a completion or a failure worth repeating, by the request it
came to and as the next thing, and of nothing else; and an attempt is turned away exactly if at
least CIRCUIT_BREAKER_FAILURE_THRESHOLD failures were reported since the last success, one of them
less than CIRCUIT_BREAKER_RESET_SECONDS ago, and let through otherwise. -/
theorem turned_away_iff (hthreshold : 1 ≤ settings.circuitBreakerFailureThreshold)
    (hrun : Run world (receive env settings) (World.start settings begin) log w tasks)
    {earlier later : List (Entry Service World)} {en : Entry Service World}
    (hlog : log = earlier ++ en :: later) :
    ((en.op = .recordFailure ↔
        LastAnswer (FailsRetryably env.toLibraries) (ownTrace en.task earlier)) ∧
      (en.op = .recordSuccess ↔
        LastAnswer (Succeeds env.toLibraries) (ownTrace en.task earlier))) ∧
    (en.op = .beforeCall →
      (Refuses en ↔ ManyFailures settings.circuitBreakerFailureThreshold earlier ∧
        RecentFailure settings.circuitBreakerResetSeconds en.after.now earlier) ∧
      (Refuses en ∨ Admits en)) := by
  refine ⟨?_, fun hop => ⟨?_, ?_⟩⟩
  · obtain ⟨task, -, htells⟩ := hrun.guard receive_tells hlog
    exact htells
  · obtain ⟨tasks', _, _, hbefore, -, -⟩ := hrun.before earlier en later hlog
    obtain ⟨-, hstep⟩ := hrun.chained.split.2 earlier en later hlog
    have htracks := (chained_tracks hthreshold hbefore.chained).beforeCall (world_now hstep)
    have hanswer : en.event = ⟨.beforeCall, (en.before.breaker.beforeCall en.after.now).1⟩ := by
      rcases world_breaker hstep with ⟨hnone, -⟩ | ⟨-, -, -, hanswer⟩
      · rw [breakerCall, hop] at hnone
        cases hnone
      · exact hanswer hop
    calc Refuses en
        ↔ (en.before.breaker.beforeCall en.after.now).1 = .error CircuitBreaker.circuitOpen := by
          rw [Refuses, hanswer]
          simp
      _ ↔ refuses settings.circuitBreakerFailureThreshold settings.circuitBreakerResetSeconds
          (breakerCalls earlier) en.after.now := htracks.1
      _ ↔ ManyFailures settings.circuitBreakerFailureThreshold earlier ∧
          RecentFailure settings.circuitBreakerResetSeconds en.after.now earlier := by
          rw [refuses, manyFailures_iff, lastFailure_recent
            (breakerCalls_clock (chained_clock hbefore.chained).1)]
          exact and_congr_right fun _ => exists_breakerCall .recordFailure
            (fun time => en.after.now - time < settings.circuitBreakerResetSeconds) earlier
  · have hsays := chained_breakerSays hrun.chained en (by simp [hlog]) hop
    exact hsays.symm

end

/-- Settings with which one failure opens the circuit, without keys and a rate limit. -/
def unguarded : Settings := { brittle with requireApiKey := false, rateLimitEnabled := false }

unseal RetryPolicy.loop in
/-- Of two completions the first times out at time 1, and so the second is turned away at time 2. -/
theorem turned_away_iff_timeout : ∃ log w tasks,
    Run world (receive .sample unguarded) (World.start unguarded 0) log w tasks ∧
    ∃ earlier en, log = earlier ++ [en] ∧ Refuses en ∧ ManyFailures 1 earlier ∧
      RecentFailure 30 en.after.now earlier := by
  let began : World := World.start unguarded 0
  let failed : World := { began with now := 1, breaker := began.breaker.recordFailure 1 }
  have h₀ : Run world (receive .sample unguarded) began _ _ _ :=
    .spawn (.valid (.complete helloRequest), none) (.spawn (.valid (.complete helloRequest), none)
      .start)
  have h₁ := h₀.reply 0 rfl (0 : ℚ) began ⟨0, le_rfl, rfl, rfl⟩
  have h₂ := h₁.reply 0 rfl (0 : ℚ) began ⟨0, le_rfl, rfl, rfl⟩
  have h₃ := h₂.reply 0 rfl (.ok ()) began ⟨0, le_rfl, rfl, rfl⟩
  have h₄ := h₃.reply 0 rfl () began ⟨0, le_rfl, rfl⟩
  have h₅ := h₄.reply 0 rfl .timeout { began with now := 1 } ⟨1, by decide, rfl⟩
  have h₆ := h₅.reply 0 rfl () failed ⟨1, le_rfl, rfl⟩
  have h₇ := h₆.reply 1 rfl (1 : ℚ) failed ⟨1, le_rfl, rfl, rfl⟩
  have h₈ := h₇.reply 1 rfl (1 : ℚ) failed ⟨1, le_rfl, rfl, rfl⟩
  have hrefuse : failed.breaker.beforeCall 2 =
      (.error CircuitBreaker.circuitOpen, failed.breaker) :=
    (if_neg (by decide)).trans (if_pos (by decide +kernel))
  have h₉ := h₈.reply 1 rfl (.error CircuitBreaker.circuitOpen) { failed with now := 2 }
    ⟨2, by decide, congrArg Prod.fst hrefuse.symm,
      congrArg (fun r => { failed with now := 2, breaker := r.2 }) hrefuse.symm⟩
  obtain ⟨-, hask⟩ := turned_away_iff (by decide) h₉ rfl
  exact ⟨_, _, _, h₉, _, _, rfl, rfl, (hask rfl).1.mp rfl⟩

end PrdApiWrapper
