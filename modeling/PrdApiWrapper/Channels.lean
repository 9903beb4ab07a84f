import PrdApiWrapper.JobRun

/-!
# Two ways to a result

A caller learns of a job's result from the payload posted to its callback, or by polling its row.
`_execute` builds the two apart: the row was inserted with the model the endpoint resolved, while
the payload of a failed job names the model of the request. They differ for a request that names no
model, where one default was to stand in for both.
-/

namespace PrdApiWrapper

open Interaction

/-! ## The two channels -/

/-- The endpoint `submit` and the task it queues, with this UPSTREAM_MODEL. -/
def submitted (upstreamModel : String) (request : JobRequest) (caller : Caller) :
    Async JobEffects Exc Unit := do
  let accepted ← jobService.accept request caller (orElse request.model upstreamModel)
  jobService.run accepted.id request caller

/-- The job table after the writes of a trace that succeeded; rows are inserted at `now`. -/
def rowsAfter (now : ℚ) (table : JobTable) (trace : List (Event JobEffects)) : JobTable :=
  trace.foldl (fun table => fun
    | ⟨.create job, .ok ()⟩ => table.create job now
    | ⟨.update jobId fields, .ok ()⟩ => table.update jobId fields
    | _ => table) table

/-- The repository works. -/
def RepositoryWorks : Event JobEffects → Prop
  | ⟨.create _, reply⟩ => reply = .ok ()
  | ⟨.update _ _, reply⟩ => reply = .ok ()
  | _ => True

/-- The payload and the view are alike in every field they share. -/
structure SameResult (payload : WebhookPayload) (view : JobView) : Prop where
  id : payload.jobId = view.id
  status : payload.status = view.status
  model : payload.model = view.model
  content : payload.content = view.content
  errorCode : payload.errorCode = view.errorCode
  errorMessage : payload.errorMessage = view.errorMessage

/-- The completion of a trace returned. -/
def Completed (trace : List (Event JobEffects)) : Prop :=
  trace.any (fun
    | ⟨.complete _ _, .ok _⟩ => true
    | _ => false) = true

/-! ## What each branch leaves -/

section

variable {id upstreamModel : String} {request : JobRequest} {caller : Caller} {now : ℚ}

/-- The row of a job that is running. -/
def runningRow (id upstreamModel : String) (request : JobRequest) (caller : Caller) (now : ℚ) :
    Job :=
  ((JobService.newJob id request caller (orElse request.model upstreamModel)).row now).update
    [.status .running]

/-- A response is told the same way twice. -/
theorem sameResult_succeeded (response : CompletionResponse) :
    SameResult (JobService.succeededPayload id response)
      ((runningRow id upstreamModel request caller now).update
        (JobService.succeededFields response)).toView :=
  ⟨rfl, rfl, rfl, rfl, rfl, rfl⟩

/-- Two defaults give one text if the first choice is there, or if they are the same. -/
theorem orElse_empty_eq (a : Option String) (b : String) :
    orElse a "" = orElse a b ↔ orElse a "" ≠ "" ∨ b = "" := by
  match a with
  | none => exact ⟨fun h => .inr h.symm, fun h => (h.resolve_left fun h => h rfl).symm⟩
  | some text =>
    rw [orElse, orElse]
    split
    · exact ⟨fun h => .inr h.symm, fun h => (h.resolve_left fun h => h rfl).symm⟩
    · next htext => exact iff_of_true rfl (.inl htext)

/-- A failure is not, where the request has no model and a default stands in for it. -/
theorem sameResult_failed_iff (error : AppError) :
    SameResult (JobService.failedPayload id request error)
      ((runningRow id upstreamModel request caller now).update
        (JobService.failedFields error)).toView ↔
    orElse request.model "" ≠ "" ∨ upstreamModel = "" := by
  rw [← orElse_empty_eq]
  exact ⟨SameResult.model, fun hmodel => ⟨rfl, rfl, hmodel, rfl, rfl, rfl⟩⟩

/-! ## Up to the delivery -/

/-- What the callback is about to be told is what the owner finds. -/
def Agreed (now : ℚ) (table : JobTable) (owner : String) (trace : List (Event JobEffects))
    (payload : WebhookPayload) : Prop :=
  ∃ view, (rowsAfter now table trace).get payload.jobId owner = some view ∧
    SameResult payload view

theorem agreed_iff {table : JobTable} {trace : List (Event JobEffects)} {payload : WebhookPayload}
    {fields : List JobField} (hid : payload.jobId = id)
    (hrow : rowsAfter now table trace id =
      some ((runningRow id upstreamModel request caller now).update fields))
    (hcaller : ((runningRow id upstreamModel request caller now).update fields).apiKeyId =
      caller.id) :
    Agreed now table caller.id trace payload ↔
      SameResult payload
        ((runningRow id upstreamModel request caller now).update fields).toView := by
  subst hid
  rw [Agreed, JobTable.get, hrow]
  simp only [if_pos hcaller, Option.some.injEq, exists_eq_left']

/-- The guard at the delivery: it is made exactly as agreed. -/
def tellsAlike (upstreamModel : String) (request : JobRequest) (caller : Caller) (now : ℚ)
    (table : JobTable) (trace : List (Event JobEffects)) : JobEffects.Op → Prop
  | .deliver _ payload => Agreed now table caller.id trace payload ↔
      Completed trace ∨ orElse request.model "" ≠ "" ∨ upstreamModel = ""
  | _ => True

/-- The update after a delivery is under no obligation. -/
theorem awp_update_tellsAlike {table : JobTable} {trace : List (Event JobEffects)}
    {fields : List JobField} :
    Async.awp (Protocol.watched RepositoryWorks (tellsAlike upstreamModel request caller now table))
      (jobService.jobs.update id fields) (fun _ _ => True) (fun _ _ => True) trace :=
  Prog.wp_mono (fun r _ _ => by cases r <;> trivial)
    (show (Prog.perform _).wp _ (fun _ _ => True) trace from ⟨trivial, fun _ _ _ => trivial⟩)

theorem deliverResult_tellsAlike {table : JobTable} {trace : List (Event JobEffects)} {url : String}
    {payload : WebhookPayload}
    (h : tellsAlike upstreamModel request caller now table trace (.deliver url payload)) :
    (jobService.deliverResult id url payload).run.wp
      (Protocol.watched RepositoryWorks (tellsAlike upstreamModel request caller now table))
      (fun _ _ => True) trace := by
  have hdeliver : Async.awp
      (Protocol.watched RepositoryWorks (tellsAlike upstreamModel request caller now table))
      (jobService.deliver url payload) (fun _ _ => True) (fun _ _ => True) trace :=
    ⟨h, fun r _ _ => by cases r <;> trivial⟩
  apply (Async.awp_outcome _ (fun _ _ => True) _).mp
  simp only [JobService.deliverResult, Async.awp_tryCatch, Async.awp_bind, Async.awp_lift]
  refine Async.awp_mono (fun attempts trace' _ => ⟨trivial, fun now' trace'' _ =>
    Async.awp_mono (fun _ _ _ => trivial) ?_ awp_update_tellsAlike⟩) ?_ hdeliver
  -- the handler is the same for the delivery and for the update after it
  all_goals
    rintro (error | name) trace₁ -
    · simp only
      split
      · exact awp_update_tellsAlike
      · trivial
    · trivial

theorem submitted_tellsAlike (table : JobTable) :
    (submitted upstreamModel request caller).run.wp
      (Protocol.watched RepositoryWorks (tellsAlike upstreamModel request caller now table))
      (fun _ _ => True) [] := by
  -- the id, the insertion and the update to RUNNING
  refine ⟨trivial, ?_⟩
  rintro (id : String) _ ⟨-, rfl⟩
  refine ⟨trivial, ?_⟩
  rintro (reply : Except Exc Unit) _ ⟨hworks, rfl⟩
  obtain rfl : reply = .ok () := hworks
  refine ⟨trivial, ?_⟩
  rintro (reply : Except Exc Unit) _ ⟨hworks, rfl⟩
  obtain rfl : reply = .ok () := hworks
  let job := JobService.newJob id request caller (orElse request.model upstreamModel)
  have hrow : ∀ fields, ((table.create job now).update id [.status .running]).update id fields id =
      some ((runningRow id upstreamModel request caller now).update fields) :=
    JobTable.update_of_some (JobTable.update_of_some (table.create_self job now) _)
  -- the completion
  refine ⟨trivial, ?_⟩
  rintro ((error | name) | response) _ ⟨-, rfl⟩
  · refine ⟨trivial, ?_⟩
    rintro (reply : Except Exc Unit) _ ⟨hworks, rfl⟩
    obtain rfl : reply = .ok () := hworks
    refine deliverResult_tellsAlike (Iff.trans (agreed_iff rfl (hrow _) rfl) ?_)
    exact Iff.trans (sameResult_failed_iff error) (or_iff_right Bool.false_ne_true).symm
  · trivial
  · refine ⟨trivial, ?_⟩
    rintro (reply : Except Exc Unit) _ ⟨hworks, rfl⟩
    obtain rfl : reply = .ok () := hworks
    refine deliverResult_tellsAlike (Iff.trans (agreed_iff rfl (hrow _) rfl) ?_)
    exact iff_of_true (sameResult_succeeded response) (.inl rfl)

end

/-- **When the two channels agree.** For every request, every UPSTREAM_MODEL and whatever the
completion comes to, with a repository that works: the payload handed to the delivery is what the
owner then reads of the row, in every field they share, if and only if the completion returned, or
the request names a model, or there is no default to stand in for it. -/
theorem channels_agree_iff {upstreamModel : String} {request : JobRequest} {caller : Caller}
    {trace : List (Event JobEffects)} {url : String} {payload : WebhookPayload}
    {k : Except Exc ℤ → Prog JobEffects (Except Exc Unit)}
    (hsteps : Prog.Steps (submitted upstreamModel request caller).run trace
      (.op (S := JobEffects) (.deliver url payload) k))
    (hworks : ∀ ev ∈ trace, RepositoryWorks ev) (now : ℚ) (table : JobTable) :
    (∃ view, (rowsAfter now table trace).get payload.jobId caller.id = some view ∧
      SameResult payload view) ↔
    Completed trace ∨ orElse request.model "" ≠ "" ∨ upstreamModel = "" :=
  Prog.wp_watch (submitted_tellsAlike table) hsteps hworks

/-- The trace of a request, from its submission to the delivery, whose completion raises `error`. -/
def untilFailed (request : JobRequest) (error : AppError) : List (Event JobEffects) :=
  [⟨JobOp.tokenHex, "j"⟩,
    ⟨JobOp.create (JobService.newJob "j" request ⟨"k", "k"⟩ (orElse request.model "llama3.2:3b")),
      (.ok () : Except Exc Unit)⟩,
    ⟨JobOp.update "j" [.status .running], (.ok () : Except Exc Unit)⟩,
    ⟨JobOp.complete request.completionRequest ⟨"k", "k"⟩,
      (.error (.app error) : Except Exc CompletionResponse)⟩,
    ⟨JobOp.update "j" (JobService.failedFields error), (.ok () : Except Exc Unit)⟩]

theorem steps_untilFailed (request : JobRequest) (error : AppError) :
    ∃ k, Prog.Steps (submitted "llama3.2:3b" request ⟨"k", "k"⟩).run (untilFailed request error)
      (.op (S := JobEffects) (.deliver request.callbackUrl.text
        (JobService.failedPayload "j" request error)) k) :=
  ⟨_, .cons (.cons (.cons (.cons (.cons (.refl _)))))⟩

theorem works_untilFailed (request : JobRequest) (error : AppError) :
    ∀ ev ∈ untilFailed request error, RepositoryWorks ev := by
  simp only [untilFailed, List.mem_cons, List.not_mem_nil, or_false, forall_eq_or_imp, forall_eq,
    RepositoryWorks]
  exact ⟨trivial, rfl, rfl, trivial, rfl⟩

/-- A request for a model. -/
def namingRequest : JobRequest := { hookRequest with model := some "mistral" }

/-- The failure of a request that names its model is told alike. -/
theorem channels_agree_named :
    ∃ view, (rowsAfter 0 (fun _ => none) (untilFailed namingRequest (.new .modelNotFound))).get
        "j" "k" = some view ∧
      SameResult (JobService.failedPayload "j" namingRequest (.new .modelNotFound)) view := by
  obtain ⟨k, hsteps⟩ := steps_untilFailed namingRequest (.new .modelNotFound)
  exact (channels_agree_iff hsteps (works_untilFailed _ _) 0 _).mpr (.inr (.inl (by decide)))

/-- A request that leaves the model to the default and runs into a timeout: its callback is told of
no model, its row of the default. -/
theorem channels_differ :
    ∃ trace k view, Prog.Steps (submitted "llama3.2:3b" hookRequest ⟨"k", "k"⟩).run trace
        (.op (S := JobEffects) (.deliver "https://example.com/hook"
          (JobService.failedPayload "j" hookRequest (.new .upstreamTimeout))) k) ∧
      (∀ ev ∈ trace, RepositoryWorks ev) ∧
      (rowsAfter 0 (fun _ => none) trace).get "j" "k" = some view ∧
      (JobService.failedPayload "j" hookRequest (.new .upstreamTimeout)).model = "" ∧
      view.model = "llama3.2:3b" ∧
      ¬ SameResult (JobService.failedPayload "j" hookRequest (.new .upstreamTimeout)) view := by
  obtain ⟨k, hsteps⟩ := steps_untilFailed hookRequest (.new .upstreamTimeout)
  refine ⟨_, k, _, hsteps, works_untilFailed _ _, rfl, rfl, rfl, fun hsame => ?_⟩
  exact absurd hsame.model (by decide)

end PrdApiWrapper
