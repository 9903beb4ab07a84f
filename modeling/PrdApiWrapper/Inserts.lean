import PrdApiWrapper.Rules

/-!
# What a request inserts

A request inserts rows in two places: `_record` writes a usage row and `accept` a job row. Both are
made from the caller, the model that the request names or that stands in for it, and for a job the
callback. A request inserts no other rows (`serve_inserts`), and may come to insert each of these
(`serve_creates`, `serve_records`).
-/

namespace PrdApiWrapper

open Interaction

/-- The completion a route leads to. -/
def Route.completionRequest : Route → Option CompletionRequest
  | .complete payload => some payload
  | .submit payload => some payload.completionRequest
  | .show _ => none

/-- The inserts among all requests. -/
def Op.isInsert : Op → Bool
  | .record _ | .createJob _ => true
  | _ => false

/-- The requests of a route for `caller` after a trace, with the rows of the inserts among them. -/
inductive Inserts (settings : Settings) (caller : Caller) (route : Route)
    (trace : List (Event Service)) : Op → Prop where
  /-- no insert -/
  | other {op : Op} : op.isInsert = false → Inserts settings caller route trace op
  /-- the usage row of `_record` -/
  | usage {request : CompletionRequest} (statusCode : ℤ) (started now : ℚ)
    (usage : Option CompletionUsage) : route.completionRequest = some request →
    Inserts settings caller route trace (.record (CompletionService.entry caller
      (orElse request.model settings.upstreamModel) statusCode started now usage))
  /-- the job row of `accept`, with the id just drawn -/
  | job {request : JobRequest} (id : String) : route = .submit request →
    trace.getLast? = some ⟨.tokenHex, id⟩ →
    Inserts settings caller route trace (.createJob (JobService.newJob id request caller
      (orElse request.model settings.upstreamModel)))

variable {env : Environment} {settings : Settings} {caller : Caller} {route : Route}

theorem CompletesFor.inserts {request : CompletionRequest} {op : Op}
    (hroute : route.completionRequest = some request)
    (h : CompletesFor settings request caller op) (trace : List (Event Service)) :
    Inserts settings caller route trace op := by
  cases h with
  | record statusCode started now usage => exact .usage statusCode started now usage hroute
  | calls h =>
    cases h with
    | waits h => cases h <;> exact .other rfl
    | _ => exact .other rfl

theorem Reports.inserts {op : Op} (h : Reports op) (trace : List (Event Service)) :
    Inserts settings caller route trace op := by
  cases h with
  | delivers h =>
    cases h with
    | waits h => cases h <;> exact .other rfl
    | _ => exact .other rfl
  | _ => exact .other rfl

/-- The background half of a job inserts usage rows only. -/
theorem run_inserts (jobId : String) (request : JobRequest) :
    ((jobsOf env settings).run jobId request caller).run.Only
      fun op => ∀ trace, Inserts settings caller (.submit request) trace op := by
  have hroute : (Route.submit request).completionRequest = some request.completionRequest := rfl
  refine JobService.only_run (fun fields => ?_) ?_ fun payload => ?_
  · exact (update_only env settings jobId fields).mono fun _ => Reports.inserts
  · exact (complete_for env settings request.completionRequest caller).mono
      fun _ => CompletesFor.inserts hroute
  · exact (deliverResult_only env settings jobId _ payload).mono fun _ => Reports.inserts

theorem endpoint_inserts (trace : List (Event Service)) :
    Async.awp (Protocol.guarded (Inserts settings caller route))
      (endpoint env settings caller route)
      (fun answer _ => answer.background.run.Only
        fun op => ∀ trace, Inserts settings caller route trace op)
      (fun _ _ => True) trace := by
  cases route with
  | complete payload =>
    simp only [endpoint, Async.awp_bind, Async.awp_pure]
    refine Async.awp_mono (fun _ _ _ => trivial) (fun _ _ _ => trivial)
      (Async.awp_of_only (complete_for env settings payload caller) (I := fun _ => True) ?_ trivial)
    exact fun op hop trace' _ => ⟨hop.inserts rfl trace', fun _ _ _ => trivial⟩
  | submit payload =>
    simp only [endpoint, JobService.accept, jobsOf, stored, Async.awp_bind, Async.awp_lift,
      Async.awp_mk, Async.awp_pure, Prog.wp_map]
    refine ⟨.other rfl, ?_⟩
    rintro id _ rfl
    refine ⟨.job id rfl List.getLast?_concat, ?_⟩
    rintro (name | ⟨⟩) _ _
    · trivial
    · exact run_inserts id payload
  | «show» jobId =>
    simp only [endpoint, JobService.get, jobsOf, stored, Async.awp_bind, Async.awp_mk,
      Async.awp_pure, Prog.wp_map]
    refine ⟨.other rfl, ?_⟩
    rintro (name | (none | view)) _ _ <;> trivial

/-- **All inserts of a request** are of these rows. -/
theorem serve_inserts : (serve env settings route caller).wp
    (Protocol.guarded (Inserts settings caller route)) (fun _ _ => True) [] := by
  have hcloses : Closes (Protocol.guarded (Inserts settings caller route)) fun _ => True := {
    commit := fun _ => ⟨.other rfl, fun _ _ => trivial⟩
    rollback := fun _ => ⟨.other rfl, fun _ _ _ => trivial⟩
    answer := fun _ _ _ _ _ => ⟨.other rfl, fun _ _ _ => trivial⟩ }
  refine wp_serve hcloses ?_ fun trace (_ : True) => ?_
  · refine awp_gate ?_ trivial
    rintro _ rfl trace _
    exact ⟨.other rfl, fun _ _ _ => trivial⟩
  · refine Async.awp_mono ?_ (fun _ _ h => h) (endpoint_inserts trace)
    intro answer _ hbackground collected
    refine ⟨.other rfl, fun _ trace' _ => ?_⟩
    exact Async.awp_mono (fun _ _ _ => trivial) (fun _ _ _ => trivial)
      (Async.awp_of_only hbackground (I := fun _ => True)
        (fun op hop trace'' _ => ⟨hop trace'', fun _ _ _ => trivial⟩) trivial)

/-! ## Every row is inserted -/

/-- The rate limit lets some requests pass. -/
theorem enforceRateLimit_passes (settings : Settings) (caller : Caller) : ∃ trace collected,
    Prog.Steps (enforceRateLimit settings caller).run trace (.ret (.ok collected)) ∧
      ∀ ev ∈ trace, ev.op = .check caller.id := by
  by_cases henabled : settings.rateLimitEnabled = true
  · rw [enforceRateLimit, if_pos henabled]
    exact ⟨[⟨.check caller.id, .ok ⟨true, 1, 0, 0, 0⟩⟩], _, .cons (.refl _), by simp⟩
  · rw [enforceRateLimit, if_neg henabled]
    exact ⟨[], [], .refl _, by simp⟩

/-- A submission that gets so far inserts its job row, whatever id is drawn. -/
theorem serve_creates (env : Environment) (settings : Settings) (request : JobRequest)
    (caller : Caller) (id : String) : ∃ trace k,
    Prog.Steps (serve env settings (.submit request) caller)
      (trace ++ [⟨.tokenHex, id⟩]) (.op (.createJob (JobService.newJob id request caller
        (orElse request.model settings.upstreamModel))) k) ∧
      ∀ ev ∈ trace, ev.op = .check caller.id := by
  obtain ⟨trace, collected, hsteps, hchecks⟩ := enforceRateLimit_passes settings caller
  exact ⟨trace, _, (hsteps.bind _).trans (.cons (.refl _)), hchecks⟩

/-- A completion that is refused by the circuit comes to record it. -/
theorem complete_records (env : Environment) (settings : Settings) (request : CompletionRequest)
    (caller : Caller) : ∃ k,
    Prog.Steps ((completionService env settings).complete request caller).run
      [⟨.monotonic, (0 : ℚ)⟩, ⟨.monotonic, (0 : ℚ)⟩,
        ⟨.beforeCall, .error (.app (.new .upstreamCircuitOpen))⟩, ⟨.monotonic, (0 : ℚ)⟩]
      (.op (.record (CompletionService.entry caller (orElse request.model settings.upstreamModel)
        503 0 0 none)) k) := by
  let error : AppError := .new .upstreamCircuitOpen
  have hattempt : Prog.Steps ((·, ()) <$> ((completionService env settings).guardedCall
        ((completionService env settings).payloadFor request)
        ((completionService env settings).modelFor request)).run)
      [⟨.beforeCall, .error (.app error)⟩] (.ret (.error (.app error), ())) := .cons (.refl _)
  have hloop : Prog.Steps ((completionService env settings).retry.loop
      (fun _ => (·, ()) <$> ((completionService env settings).guardedCall
        ((completionService env settings).payloadFor request)
        ((completionService env settings).modelFor request)).run) 0 0 ())
      [⟨.beforeCall, .error (.app error)⟩] (.ret (.error (.app error), ())) :=
    RetryPolicy.steps_loop hattempt rfl
  exact ⟨_, .cons (.cons (((hloop.bind _).bind _).bind _ |>.trans (.cons (.refl _))))⟩

/-- So a completion may come to record its usage row. -/
theorem serve_records (env : Environment) (settings : Settings) (request : CompletionRequest)
    (caller : Caller) : ∃ trace k,
    Prog.Steps (serve env settings (.complete request) caller) trace
      (.op (.record (CompletionService.entry caller (orElse request.model settings.upstreamModel)
        503 0 0 none)) k) ∧
      ∀ ev ∈ trace, ev.op ≠ .tokenHex := by
  obtain ⟨trace, collected, hsteps, hchecks⟩ := enforceRateLimit_passes settings caller
  obtain ⟨k, hrecords⟩ := complete_records env settings request caller
  refine ⟨_, _, (hsteps.bind _).trans (((hrecords.bind _).bind _).bind _), ?_⟩
  intro ev hev
  rcases List.mem_append.mp hev with hev | hev
  · rw [hchecks ev hev]
    nofun
  · simp only [List.mem_cons, List.not_mem_nil, or_false] at hev
    rcases hev with rfl | rfl | rfl | rfl <;> nofun

end PrdApiWrapper
