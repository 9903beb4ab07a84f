import PrdApiWrapper.OpenCircuit

/-!
# How long a circuit stays open

A circuit that opens should let a call through once its cool-off is over. It need not: a failure
that is recorded while the circuit is open trips it again and moves `_opened_at`. After the opening
no call is let through, so the failures that do this are of calls that were in flight already, and
`cool_off_iff` says which of them: those that fail within the cool-off before the call.
-/

namespace PrdApiWrapper

open Interaction

/-! ## Stragglers -/

/-- The circuit opens, lets no call through, and is asked again once its cool-off is over. -/
structure CooledOff (settings : Settings) (opening : Entry Service World)
    (between : List (Entry Service World)) (en : Entry Service World) : Prop where
  opens : Opens opening
  shut : ∀ en' ∈ between, ¬ Admits en'
  asked : en.op = .beforeCall
  late : opening.after.now + settings.circuitBreakerResetSeconds ≤ en.after.now

/-- A failure is recorded of a call that was let through `earlier`. -/
def Straggles (earlier : List (Entry Service World)) (en : Entry Service World) : Prop :=
  en.op = .recordFailure ∧ ∃ admission ∈ earlier, admission.task = en.task ∧ Admits admission

/-- A straggler has failed less than the cool-off before `now`, and its failure tells: it still
does after a success, if as many failures came after that as open the circuit. -/
structure Prolonged (settings : Settings) (earlier between : List (Entry Service World))
    (now : ℚ) : Prop where
  straggler : ∃ en ∈ between, Straggles earlier en ∧
    now - en.after.now < settings.circuitBreakerResetSeconds
  tells : (∃ en ∈ between, en.op = .recordSuccess) →
    settings.circuitBreakerFailureThreshold ≤ failuresSince (breakerCalls between)

/-- The guard of an attempt: a failure is only recorded once its `before_call` let it through. -/
def FailsThrough (trace : List (Event Service)) (op : Op) : Prop :=
  op = .recordFailure → ⟨.beforeCall, .ok ()⟩ ∈ trace

theorem attempt_failsThrough (env : Environment) (settings : Settings)
    (call : UpstreamPayload × String) :
    (attempt env settings call).wp (Protocol.guarded FailsThrough) (fun _ _ => True) [] :=
  attempt_reports env settings (fun _ => .inr) call

/-! ## The calls since the opening -/

/-- The circuit is opened by a failure, at which enough of them have come. -/
theorem opening_call {settings : Settings}
    (hthreshold : 1 ≤ settings.circuitBreakerFailureThreshold) {begin : ℚ}
    {earlier : List (Entry Service World)} {opening : Entry Service World}
    (h : Chained world (World.start settings begin) (earlier ++ [opening]) opening.after)
    (hopens : Opens opening) :
    breakerCall opening = some ⟨.recordFailure, opening.after.now⟩ ∧
      settings.circuitBreakerFailureThreshold ≤
        failuresSince (breakerCalls (earlier ++ [opening])) := by
  obtain ⟨_, hstep⟩ := h.split.2 earlier opening [] rfl
  refine ⟨?_, ?_⟩
  · rcases world_breaker hstep with ⟨_, hsame⟩ | ⟨call, hsome, hcall, _⟩
    · exact absurd (hsame ▸ hopens.2) hopens.1
    · obtain ⟨hmethod, _⟩ := CircuitBreaker.call_opens hopens.1 (hcall ▸ hopens.2)
      rw [hsome, ← hmethod, ← (breakerCall_eq_some hsome).1]
  · refine not_lt.mp (mt (chained_tracks hthreshold h).closed.mpr ?_)
    rw [hopens.2]
    rintro ⟨⟩

/-- What makes a breaker refuse a call, once the cool-off is over since it opened. -/
theorem refuses_since {failureThreshold : ℤ} {resetTimeout : ℚ} {past calls : List BreakerCall}
    {opened now : ℚ}
    (hreached : failureThreshold ≤ failuresSince (past ++ [⟨.recordFailure, opened⟩]))
    (hlate : opened + resetTimeout ≤ now)
    (hclock : (calls.map BreakerCall.time).Pairwise (· ≤ ·)) :
    refuses failureThreshold resetTimeout (past ++ [⟨.recordFailure, opened⟩] ++ calls) now ↔
      (∃ call ∈ calls, call.method = .recordFailure ∧ now - call.time < resetTimeout) ∧
      ((∃ call ∈ calls, call.method = .recordSuccess) →
        failureThreshold ≤ failuresSince calls) := by
  have hlast : (∃ failed,
      lastFailure (past ++ [⟨.recordFailure, opened⟩] ++ calls) = some failed ∧
        now - failed < resetTimeout) ↔
      ∃ call ∈ calls, call.method = .recordFailure ∧ now - call.time < resetTimeout := by
    rw [← lastFailure_recent hclock, lastFailure_append, lastFailure_snoc, if_pos rfl]
    cases lastFailure calls with
    | some failed => simp
    | none =>
      refine iff_of_false ?_ (by simp)
      rintro ⟨failed, hfailed, hrecent⟩
      cases hfailed
      linarith
  have hcount : failureThreshold ≤ failuresSince (past ++ [⟨.recordFailure, opened⟩] ++ calls) ↔
      ((∃ call ∈ calls, call.method = .recordSuccess) →
        failureThreshold ≤ failuresSince calls) := by
    by_cases hsuccess : ∃ call ∈ calls, call.method = .recordSuccess
    · rw [failuresSince_append_of_success _ hsuccess]
      exact ⟨fun h _ => h, fun h => h hsuccess⟩
    · have hnone : ∀ call ∈ calls, call.method ≠ .recordSuccess :=
        fun call hcall h => hsuccess ⟨call, hcall, h⟩
      have hmore := failuresSince_append_of_no_success (past ++ [⟨.recordFailure, opened⟩]) hnone
      exact iff_of_true (hreached.trans (by exact_mod_cast hmore)) fun h => absurd h hsuccess
  rw [refuses, hlast, hcount]
  exact and_comm

/-- The request that calls a method. -/
def BreakerMethod.op : BreakerMethod → Op
  | .beforeCall => .beforeCall
  | .recordSuccess => .recordSuccess
  | .recordFailure => .recordFailure

/-- The calls of a method are the entries that request it. -/
theorem exists_breakerCall (method : BreakerMethod) (P : ℚ → Prop)
    (log : List (Entry Service World)) :
    (∃ call ∈ breakerCalls log, call.method = method ∧ P call.time) ↔
      ∃ en ∈ log, en.op = method.op ∧ P en.after.now := by
  refine ⟨?_, ?_⟩
  · rintro ⟨call, hcall, rfl, hP⟩
    obtain ⟨en, hen, hsome⟩ := List.mem_filterMap.mp hcall
    refine ⟨en, hen, ?_, (breakerCall_eq_some hsome).1 ▸ hP⟩
    obtain ⟨t, w, op, r, w'⟩ := en
    cases op <;> cases hsome <;> rfl
  · rintro ⟨⟨t, w, op, r, w'⟩, hen, rfl, hP⟩
    exact ⟨⟨method, w'.now⟩, List.mem_filterMap.mpr ⟨_, hen, by cases method <;> rfl⟩, rfl, hP⟩

theorem breakerCalls_clock {log : List (Entry Service World)}
    (h : (log.map fun en => en.after.now).Pairwise (· ≤ ·)) :
    ((breakerCalls log).map BreakerCall.time).Pairwise (· ≤ ·) := by
  rw [List.pairwise_map, breakerCalls, List.pairwise_filterMap]
  refine (List.pairwise_map.mp h).imp ?_
  intro en en' hle call hcall call' hcall'
  rw [(breakerCall_eq_some hcall).1, (breakerCall_eq_some hcall').1]
  exact hle

/-! ## Runs -/

variable {env : Environment} {settings : Settings} {begin : ℚ} {log : List (Entry Service World)}
  {w : World}
  {tasks : List (Task (UpstreamPayload × String) Service (Except Exc CompletionResponse))}

/-- While no call is let through, only those that were before can fail. -/
theorem straggles_of_shut
    (hrun : Run world (attempt env settings) (World.start settings begin) log w tasks)
    {earlier between later : List (Entry Service World)} {en : Entry Service World}
    (hlog : log = earlier ++ between ++ en :: later) (hshut : ∀ en' ∈ between, ¬ Admits en')
    (hop : en.op = .recordFailure) : Straggles earlier en := by
  obtain ⟨_, _, hadmitted⟩ := hrun.guard (attempt_failsThrough env settings) hlog
  obtain ⟨admission, hmem, htask, hthrough⟩ := mem_ownTrace.mp (hadmitted hop)
  rcases List.mem_append.mp hmem with hmem | hmem
  · exact ⟨hop, admission, hmem, htask, hthrough⟩
  · exact absurd hthrough (hshut admission hmem)

/-- **How long a circuit stays open**, in every run of any number of overlapping attempts: asked
after its cool-off, an opened circuit that has let nothing through lets the call through exactly if
no straggler prolongs it. -/
theorem cool_off_iff (hthreshold : 1 ≤ settings.circuitBreakerFailureThreshold)
    (hrun : Run world (attempt env settings) (World.start settings begin) log w tasks) :
    ∀ earlier opening between en later, log = earlier ++ opening :: between ++ en :: later →
      CooledOff settings opening between en →
      (¬ Refuses en ↔ ¬ Prolonged settings earlier between en.after.now) := by
  rintro earlier opening between en later hlog ⟨hopens, hshut, hasked, hlate⟩
  obtain ⟨_, _, _, hbefore, _⟩ := hrun.before _ en later hlog
  obtain ⟨hworld, hstep⟩ := hrun.chained.split.2 _ en later hlog
  obtain ⟨_, _, _, hfirst, _⟩ := hrun.before earlier opening (between ++ en :: later)
    (by simpa using hlog)
  have hopening : Chained world (World.start settings begin) (earlier ++ [opening]) opening.after :=
    .snoc hfirst.chained rfl
      (hbefore.chained.split.2 earlier opening between (by simp)).2
  obtain ⟨hcall, hreached⟩ := opening_call hthreshold hopening hopens
  have hcalls : breakerCalls (earlier ++ opening :: between) =
      breakerCalls earlier ++ [⟨.recordFailure, opening.after.now⟩] ++ breakerCalls between := by
    simp [breakerCalls, hcall]
  have hreached' : settings.circuitBreakerFailureThreshold ≤
      failuresSince (breakerCalls earlier ++ [⟨.recordFailure, opening.after.now⟩]) := by
    simpa [breakerCalls, hcall] using hreached
  -- the answer is what the calls so far say
  have hrefuses : Refuses en ↔ refuses settings.circuitBreakerFailureThreshold
      settings.circuitBreakerResetSeconds (breakerCalls (earlier ++ opening :: between))
      en.after.now := by
    have htracks := (chained_tracks hthreshold hbefore.chained).beforeCall (world_now hstep)
    rw [← htracks.1, Refuses]
    rcases world_breaker hstep with ⟨hnone, _⟩ | ⟨_, _, _, hanswer⟩
    · simp only [breakerCall, hasked] at hnone
      cases hnone
    · rw [hanswer hasked]
      simp
  have hclock : ((breakerCalls between).map BreakerCall.time).Pairwise (· ≤ ·) := by
    refine breakerCalls_clock ((chained_clock hbefore.chained).1.sublist ?_)
    exact (((List.sublist_cons_self _ _).trans (List.sublist_append_right _ _))).map _
  rw [hrefuses, hcalls, refuses_since hreached' hlate hclock, not_iff_not]
  have hfailure := exists_breakerCall .recordFailure
    (fun time => en.after.now - time < settings.circuitBreakerResetSeconds) between
  have hsuccess := exists_breakerCall .recordSuccess (fun _ => True) between
  simp only [and_true] at hsuccess
  rw [hfailure, hsuccess]
  refine ⟨?_, ?_⟩
  · rintro ⟨⟨failure, hmem, hop, hrecent⟩, htells⟩
    refine ⟨⟨failure, hmem, ?_, hrecent⟩, htells⟩
    obtain ⟨before, after, rfl⟩ := List.append_of_mem hmem
    have hsplit : log = earlier ++ (opening :: before) ++ failure :: (after ++ en :: later) := by
      simpa using hlog
    refine straggles_of_shut hrun hsplit ?_ hop
    rintro en' (_ | ⟨_, hen'⟩)
    · exact (step_opens (hopening.split.2 earlier opening [] rfl).2 hopens).2
    · exact hshut en' (List.mem_append_left _ hen')
  · rintro ⟨⟨failure, hmem, hstraggles, hrecent⟩, htells⟩
    exact ⟨⟨failure, hmem, hstraggles.1, hrecent⟩, htells⟩

/-- The world when the circuit has let a probe through at time 31. -/
def probed : World :=
  { opened with now := 31, breaker := { opened.breaker with state := .halfOpen } }

/-- The first attempt opens the circuit at time 1 and nothing prolongs it: the second is let
through at time 31. -/
theorem cool_off_iff_probe :
    ∃ log w tasks, Run world (attempt .sample touchy) (.start touchy 0) log w tasks ∧
      ∃ earlier opening en, log = earlier ++ [opening] ++ [en] ∧
        CooledOff touchy opening [] en ∧
        (¬ Refuses en ↔ ¬ Prolonged touchy earlier [] en.after.now) := by
  have h₀ : Run world (attempt .sample touchy) (.start touchy 0) _ _ _ :=
    .spawn hello (.spawn hello .start)
  have h₁ := h₀.reply 0 rfl (.ok ()) untouched ⟨0, le_rfl, rfl, rfl⟩
  have h₂ := h₁.reply 0 rfl () untouched ⟨0, le_rfl, rfl⟩
  have h₃ := h₂.reply 0 rfl .timeout { untouched with now := 1 } ⟨1, by decide, rfl⟩
  have h₄ := h₃.reply 0 rfl () opened ⟨1, by decide, rfl⟩
  have hprobe : opened.breaker.beforeCall 31 =
      (.ok (), { opened.breaker with state := .halfOpen }) :=
    (if_neg (by decide)).trans (if_neg (by decide +kernel))
  have h₅ := h₄.reply 1 rfl (.ok ()) probed
    ⟨31, by decide, congrArg Prod.fst hprobe.symm,
      congrArg (fun r => { opened with now := 31, breaker := r.2 }) hprobe.symm⟩
  have hcooled : CooledOff touchy ⟨0, { untouched with now := 1 }, .recordFailure, (), opened⟩ []
      ⟨1, opened, .beforeCall, .ok (), probed⟩ :=
    ⟨⟨by decide, by decide⟩, by simp, rfl, by decide +kernel⟩
  exact ⟨_, _, _, h₅, [_, _, _], _, _, rfl, hcooled,
    cool_off_iff (by decide) h₅ [_, _, _] _ [] _ [] rfl hcooled⟩

/-- The world when the circuit has been tripped again at time 29. -/
def prolonged : World := { opened with now := 29, breaker := opened.breaker.recordFailure 29 }

/-- Two attempts overlap: the first times out at time 1 and opens the circuit, the second at time
29; at time 31, with the cool-off of 30 seconds over, a third is refused. -/
theorem straggler_prolongs :
    ∃ log w tasks, Run world (attempt .sample touchy) (.start touchy 0) log w tasks ∧
      ∃ earlier opening between en, log = earlier ++ opening :: between ++ [en] ∧
        CooledOff touchy opening between en ∧ Refuses en := by
  have h₀ : Run world (attempt .sample touchy) (.start touchy 0) _ _ _ :=
    .spawn hello (.spawn hello (.spawn hello .start))
  have h₁ := h₀.reply 0 rfl (.ok ()) untouched ⟨0, le_rfl, rfl, rfl⟩
  have h₂ := h₁.reply 1 rfl (.ok ()) untouched ⟨0, le_rfl, rfl, rfl⟩
  have h₃ := h₂.reply 0 rfl () untouched ⟨0, le_rfl, rfl⟩
  have h₄ := h₃.reply 0 rfl .timeout { untouched with now := 1 } ⟨1, by decide, rfl⟩
  have h₅ := h₄.reply 0 rfl () opened ⟨1, by decide, rfl⟩
  have h₆ := h₅.reply 1 rfl () opened ⟨1, by decide, rfl⟩
  have h₇ := h₆.reply 1 rfl .timeout { opened with now := 29 } ⟨29, by decide, rfl⟩
  have h₈ := h₇.reply 1 rfl () prolonged ⟨29, by decide, rfl⟩
  have hrefuse : prolonged.breaker.beforeCall 31 =
      (.error CircuitBreaker.circuitOpen, prolonged.breaker) :=
    (if_neg (by decide)).trans (if_pos (by decide +kernel))
  have h₉ := h₈.reply 2 rfl (.error CircuitBreaker.circuitOpen) { prolonged with now := 31 }
    ⟨31, by decide, congrArg Prod.fst hrefuse.symm,
      congrArg (fun r => { prolonged with now := 31, breaker := r.2 }) hrefuse.symm⟩
  refine ⟨_, _, _, h₉, [_, _, _, _], _, [_, _, _], _, rfl,
    ⟨⟨by decide, by decide⟩, ?_, rfl, by decide +kernel⟩, rfl⟩
  intro en hen hadmits
  simp only [List.mem_cons, List.not_mem_nil, or_false] at hen
  have hop := hadmits.op
  rcases hen with rfl | rfl | rfl <;> cases hop

end PrdApiWrapper
