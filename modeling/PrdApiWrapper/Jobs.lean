import PrdApiWrapper.Completion
import PrdApiWrapper.Webhooks

/-!
# Jobs

`services/jobs.py` and the job table of `repositories/jobs.py`. A job is accepted in one request
and run in the background: five updates of its row, spread over `run`, `_execute` and `_deliver`,
with awaits in between at which anything else may happen.

The two repositories keep the table alike; `JobTable` is what they keep. Each of their methods is
one transaction, or one stretch without an await, and so one request here.
-/

namespace PrdApiWrapper

open Interaction

/-! ## The table -/

/-- The rows of the job table, by id. -/
abbrev JobTable := String → Option Job

namespace JobTable

/-- `create(job)` at time `now`. -/
def create (table : JobTable) (job : NewJob) (now : ℚ) : JobTable :=
  Function.update table job.id (some (job.row now))

/-- `update(job_id, **fields)`: nothing if there is no such row. -/
def update (table : JobTable) (jobId : String) (fields : List JobField) : JobTable :=
  Function.update table jobId ((table jobId).map fun job => job.update fields)

/-- `get(job_id, api_key_id)`: scoped by caller. -/
def get (table : JobTable) (jobId apiKeyId : String) : Option JobView :=
  match table jobId with
  | some job => if job.apiKeyId = apiKeyId then some job.toView else none
  | none => none

theorem create_self (table : JobTable) (job : NewJob) (now : ℚ) :
    table.create job now job.id = some (job.row now) :=
  Function.update_self ..

theorem create_of_ne (table : JobTable) (job : NewJob) (now : ℚ) {id : String}
    (h : id ≠ job.id) : table.create job now id = table id :=
  Function.update_of_ne h ..

theorem update_self (table : JobTable) (id : String) (fields : List JobField) :
    table.update id fields id = (table id).map fun job => job.update fields :=
  Function.update_self ..

theorem update_of_some {table : JobTable} {id : String} {job : Job} (h : table id = some job)
    (fields : List JobField) : table.update id fields id = some (job.update fields) := by
  rw [update_self, h, Option.map_some]

theorem update_of_ne (table : JobTable) {id id' : String} (h : id' ≠ id)
    (fields : List JobField) : table.update id fields id' = table id' :=
  Function.update_of_ne h ..

end JobTable

@[simp] theorem Job.update_nil (job : Job) : job.update [] = job := rfl

@[simp] theorem JobTable.update_nil (table : JobTable) (id : String) :
    table.update id [] = table := by
  funext id'
  by_cases h : id' = id
  · subst h
    rw [update_self]
    simp
  · exact table.update_of_ne h []

@[simp] theorem Job.update_cons (job : Job) (field : JobField) (fields : List JobField) :
    job.update (field :: fields) = (job.setattr field).update fields := rfl

/-! ## The service -/

/-- The methods of a `JobRepository`. -/
structure JobRepository (S : Effects) where
  create : NewJob → Async S Exc Unit
  update : String → List JobField → Async S Exc Unit
  get : String → String → Async S Exc (Option JobView)

/-- What a `JobService` is handed. -/
structure JobService (S : Effects) where
  jobs : JobRepository S
  /-- `self._completions.complete` -/
  complete : CompletionRequest → Caller → Async S Exc CompletionResponse
  /-- `self._webhooks.deliver` -/
  deliver : String → WebhookPayload → Async S Exc ℤ
  /-- `secrets.token_hex(16)` -/
  tokenHex : Prog S String
  /-- `datetime.now(UTC)` -/
  utcNow : Prog S ℚ

/-- `error.details.get("attempts", 0)`. Only `deliver` sets it, and always to an integer. -/
def attemptsIn (details : List (String × Json)) : ℤ :=
  match lookup "attempts" details with
  | some (.int attempts) => attempts
  | _ => 0

namespace JobService

variable {S : Effects}

/-- The row `accept` inserts. -/
def newJob (id : String) (request : JobRequest) (caller : Caller) (model : String) : NewJob where
  id := id
  apiKeyId := caller.id
  status := .pending
  model := model
  prompt := request.prompt
  callbackUrl := request.callbackUrl.text

/-- `accept(request, caller, model)`: the row is there before the id is handed out. -/
def accept (service : JobService S) (request : JobRequest) (caller : Caller) (model : String) :
    Async S Exc JobAccepted := do
  let id ← ExceptT.lift service.tokenHex
  service.jobs.create (newJob id request caller model)
  pure { id := id, status := .pending }

/-- `get(job_id, caller)`. -/
def get (service : JobService S) (jobId : String) (caller : Caller) : Async S Exc JobView := do
  match ← service.jobs.get jobId caller.id with
  | some view => pure view
  | none => throw (.app (.new .jobNotFound))

/-- The columns a completion that raised is recorded in. -/
def failedFields (error : AppError) : List JobField :=
  [.status .failed, .errorCode error.code, .errorMessage error.message]

/-- What the callback is told of it. -/
def failedPayload (jobId : String) (request : JobRequest) (error : AppError) : WebhookPayload where
  jobId := jobId
  status := .failed
  model := orElse request.model ""
  content := none
  errorCode := some error.code
  errorMessage := some error.message

/-- The columns a completion is recorded in. -/
def succeededFields (completion : CompletionResponse) : List JobField :=
  [.status .succeeded, .content completion.content, .model completion.model,
    .promptTokens completion.usage.promptTokens,
    .completionTokens completion.usage.completionTokens]

/-- What the callback is told of it. -/
def succeededPayload (jobId : String) (completion : CompletionResponse) : WebhookPayload where
  jobId := jobId
  status := .succeeded
  model := completion.model
  content := some completion.content
  errorCode := none
  errorMessage := none

/-- `try: ... except AppError`: the error as a value; any other exception passes. -/
def catchAppError {α : Type} (x : Async S Exc α) : Async S Exc (Except AppError α) :=
  tryCatch (Except.ok <$> x) fun
    | .app error => pure (.error error)
    | exc => throw exc

/-- `_execute(job_id, request, caller)`. -/
def execute (service : JobService S) (jobId : String) (request : JobRequest) (caller : Caller) :
    Async S Exc WebhookPayload := do
  match ← catchAppError (service.complete request.completionRequest caller) with
  | .error error => do
    service.jobs.update jobId (failedFields error)
    pure (failedPayload jobId request error)
  | .ok completion => do
    service.jobs.update jobId (succeededFields completion)
    pure (succeededPayload jobId completion)

/-- `_deliver(job_id, url, payload)`. -/
def deliverResult (service : JobService S) (jobId url : String) (payload : WebhookPayload) :
    Async S Exc Unit :=
  tryCatch
    (do
      let attempts ← service.deliver url payload
      let now ← ExceptT.lift service.utcNow
      service.jobs.update jobId [.deliveryAttempts attempts, .deliveredAt now])
    fun
      | .app error =>
        -- the job keeps its status, and `delivered_at` stays null
        if error.cls = .webhookDeliveryFailed then
          service.jobs.update jobId [.deliveryAttempts (attemptsIn error.details)]
        else pure ()
      | .foreign _ => pure ()

/-- `run(job_id, request, caller)`: the background half. -/
def run (service : JobService S) (jobId : String) (request : JobRequest) (caller : Caller) :
    Async S Exc Unit := do
  service.jobs.update jobId [.status .running]
  let payload ← service.execute jobId request caller
  service.deliverResult jobId request.callbackUrl.text payload

/-! ### What the background half asks for -/

variable {service : JobService S} {P : S.Op → Prop} {jobId : String}

theorem only_deliverResult {url : String} {payload : WebhookPayload}
    (hdeliver : (service.deliver url payload).run.Only P) (hutcNow : service.utcNow.Only P)
    (hupdate : ∀ fields, (service.jobs.update jobId fields).run.Only P) :
    (service.deliverResult jobId url payload).run.Only P := by
  apply Async.only_tryCatch
  · refine Async.only_bind hdeliver fun attempts => ?_
    exact Async.only_bind (hutcNow.map _) fun now => hupdate _
  · rintro (error | name)
    · simp only
      split
      · exact hupdate _
      · trivial
    · trivial

/-- It updates the row, asks for the completion, and delivers what came of it. -/
theorem only_run {request : JobRequest} {caller : Caller}
    (hupdate : ∀ fields, (service.jobs.update jobId fields).run.Only P)
    (hcomplete : (service.complete request.completionRequest caller).run.Only P)
    (hdeliver : ∀ payload,
      (service.deliverResult jobId request.callbackUrl.text payload).run.Only P) :
    (service.run jobId request caller).run.Only P := by
  have hexecute : (service.execute jobId request caller).run.Only P := by
    apply Async.only_bind
    · refine Async.only_tryCatch (Async.only_map _ hcomplete) ?_
      rintro (error | name) <;> trivial
    · rintro (error | completion)
      · exact Async.only_bind (hupdate _) fun _ => trivial
      · exact Async.only_bind (hupdate _) fun _ => trivial
  exact Async.only_bind (hupdate _) fun _ => Async.only_bind hexecute hdeliver

end JobService

end PrdApiWrapper
