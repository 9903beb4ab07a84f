import PrdApiWrapper.Jobs

/-!
# The background half of a job

`JobService.run` promises not to raise, since nobody is left to receive an error, and its row is
the only place where the outcome can be seen. Here its collaborators are single requests: the
completion and the delivery may each return or raise whatever they like, and the repository works.

The promise is kept exactly when the completion does not raise an exception that is not an
`AppError`: `_execute` catches only those. Every exception of the delivery is caught.
-/

namespace PrdApiWrapper

open Interaction

/-! ## The collaborators -/

/-- The calls a `JobService` makes. -/
inductive JobOp where
  | create (job : NewJob)
  | update (jobId : String) (fields : List JobField)
  | get (jobId apiKeyId : String)
  | complete (request : CompletionRequest) (caller : Caller)
  | deliver (url : String) (payload : WebhookPayload)
  | tokenHex
  | utcNow

/-- The interface a `JobService` sees. -/
def JobEffects : Effects where
  Op := JobOp
  Reply
    | .create _ => Except Exc Unit
    | .update _ _ => Except Exc Unit
    | .get _ _ => Except Exc (Option JobView)
    | .complete _ _ => Except Exc CompletionResponse
    | .deliver _ _ => Except Exc ℤ
    | .tokenHex => String
    | .utcNow => ℚ

/-- Make one of these calls. -/
def JobOp.request (op : JobOp) : Prog JobEffects (JobEffects.Reply op) :=
  @Prog.perform JobEffects op

/-- The service on this interface. -/
def jobService : JobService JobEffects where
  jobs := {
    create := fun job => ExceptT.mk (JobOp.create job).request
    update := fun jobId fields => ExceptT.mk (JobOp.update jobId fields).request
    get := fun jobId apiKeyId => ExceptT.mk (JobOp.get jobId apiKeyId).request }
  complete := fun request caller => ExceptT.mk (JobOp.complete request caller).request
  deliver := fun url payload => ExceptT.mk (JobOp.deliver url payload).request
  tokenHex := JobOp.tokenHex.request
  utcNow := JobOp.utcNow.request

/-- What a background run can be seen to do: the table, and how often delivery was attempted. -/
structure Backstage where
  table : JobTable
  deliveries : ℕ

/-- The collaborators of one run, with a repository that works: what the completion and the
delivery come to, and the time. -/
def answerJob (completion : Except Exc CompletionResponse) (delivery : Except Exc ℤ) (now : ℚ) :
    (e : JobEffects.Op) → Backstage → JobEffects.Reply e × Backstage
  | .create job, seen => (.ok (), { seen with table := seen.table.create job now })
  | .update jobId fields, seen => (.ok (), { seen with table := seen.table.update jobId fields })
  | .get jobId apiKeyId, seen => (.ok (seen.table.get jobId apiKeyId), seen)
  | .complete _ _, seen => (completion, seen)
  | .deliver _ _, seen => (delivery, { seen with deliveries := seen.deliveries + 1 })
  | .tokenHex, seen => ("", seen)
  | .utcNow, seen => (now, seen)

/-! ## One method at a time -/

variable (completion : Except Exc CompletionResponse) (delivery : Except Exc ℤ) (now : ℚ)
  (jobId : String)

theorem eval_update (fields : List JobField) (seen : Backstage) :
    (jobService.jobs.update jobId fields).run.eval (answerJob completion delivery now) seen =
      (.ok (), { seen with table := seen.table.update jobId fields }) := rfl

/-- The columns the delivery is recorded in, however it ends. -/
def deliveryFields (delivery : Except Exc ℤ) (now : ℚ) : List JobField :=
  match delivery with
  | .ok attempts => [.deliveryAttempts attempts, .deliveredAt now]
  | .error (.app error) =>
    if error.cls = .webhookDeliveryFailed then [.deliveryAttempts (attemptsIn error.details)]
    else []
  | .error (.foreign _) => []

/-- No delivery changes a status. -/
theorem deliveryFields_status (job : Job) :
    (job.update (deliveryFields delivery now)).status = job.status := by
  match delivery with
  | .ok attempts => rfl
  | .error (.app error) =>
    simp only [deliveryFields]
    split <;> rfl
  | .error (.foreign _) => rfl

/-- `_deliver` never raises, and attempts the delivery once. -/
theorem eval_deliverResult (url : String) (payload : WebhookPayload) (seen : Backstage) :
    (jobService.deliverResult jobId url payload).run.eval (answerJob completion delivery now) seen =
      (.ok (), {
        table := seen.table.update jobId (deliveryFields delivery now)
        deliveries := seen.deliveries + 1 }) := by
  have hid : seen.table.update jobId [] = seen.table := JobTable.update_nil _ _
  match delivery with
  | .ok attempts => rfl
  | .error (.app error) =>
    by_cases h : error.cls = .webhookDeliveryFailed
    · simp only [deliveryFields, if_pos h]
      rw [JobService.deliverResult, Async.eval_tryCatch]
      exact (congrArg (fun x => Prog.eval _ (ExceptT.run x) _) (if_pos h)).trans rfl
    · simp only [deliveryFields, if_neg h, hid]
      rw [JobService.deliverResult, Async.eval_tryCatch]
      exact (congrArg (fun x => Prog.eval _ (ExceptT.run x) _) (if_neg h)).trans rfl
  | .error (.foreign name) =>
    simp only [deliveryFields, hid]
    rfl

/-- `_execute` records a completion, or an `AppError` in its place; any other exception passes
through it, with nothing recorded. -/
theorem eval_execute (request : JobRequest) (caller : Caller) (seen : Backstage) :
    (jobService.execute jobId request caller).run.eval (answerJob completion delivery now) seen =
      match completion with
      | .ok response => (.ok (JobService.succeededPayload jobId response),
          { seen with table := seen.table.update jobId (JobService.succeededFields response) })
      | .error (.app error) => (.ok (JobService.failedPayload jobId request error),
          { seen with table := seen.table.update jobId (JobService.failedFields error) })
      | .error (.foreign name) => (.error (.foreign name), seen) := by
  match completion with
  | .ok response => rfl
  | .error (.app error) => rfl
  | .error (.foreign name) => rfl

/-! ## The whole run -/

/-- A run that ended as promised: it returned, the row has a final status, and delivery was
attempted exactly once. -/
def Settled (jobId : String) (outcome : Except Exc Unit × Backstage) : Prop :=
  outcome.1 = .ok () ∧
    (∃ row, outcome.2.table jobId = some row ∧ row.status.isFinal = true) ∧
    outcome.2.deliveries = 1

/-- After `_execute` has recorded a final status, delivery settles the run. -/
theorem settled_deliverResult {table : JobTable} {row : Job} (hrow : table jobId = some row)
    (hfinal : row.status.isFinal = true) (url : String) (payload : WebhookPayload) :
    Settled jobId ((jobService.deliverResult jobId url payload).run.eval
      (answerJob completion delivery now) ⟨table, 0⟩) := by
  rw [eval_deliverResult]
  refine ⟨rfl, ⟨_, JobTable.update_of_some hrow _, ?_⟩, rfl⟩
  rw [deliveryFields_status]
  exact hfinal

/-- **When the promise is kept.** For every job whose row exists, every behaviour of the completion
and every behaviour of the delivery: the run returns, leaves the row in a final status and attempts
the delivery exactly once, if and only if the completion does not raise an exception that is not
an `AppError`. -/
theorem run_settled_iff (request : JobRequest) (caller : Caller) (table : JobTable) (row : Job)
    (hrow : table jobId = some row) :
    Settled jobId ((jobService.run jobId request caller).run.eval
        (answerJob completion delivery now) ⟨table, 0⟩) ↔
      ∀ name, completion ≠ .error (.foreign name) := by
  have hstart := JobTable.update_of_some hrow [.status .running]
  rw [JobService.run, Async.eval_bind, eval_update]
  simp only
  rw [Async.eval_bind, eval_execute]
  match completion with
  | .ok response =>
    have hrow' := JobTable.update_of_some hstart (JobService.succeededFields response)
    exact iff_of_true (settled_deliverResult _ delivery now jobId hrow' rfl _ _)
      nofun
  | .error (.app error) =>
    have hrow' := JobTable.update_of_some hstart (JobService.failedFields error)
    exact iff_of_true (settled_deliverResult _ delivery now jobId hrow' rfl _ _)
      nofun
  | .error (.foreign name) =>
    refine iff_of_false ?_ fun h => h name rfl
    rintro ⟨⟨⟩, _⟩

/-- The table after its job was accepted for caller `k`. -/
def hookTable : JobTable :=
  JobTable.create (fun _ => none) (JobService.newJob "j" hookRequest ⟨"k", "k"⟩ "llama3.2:3b") 0

/-- The promise is kept by a completion that runs into the provider's rate limit and a delivery
that crashes. -/
theorem run_settled_rate_limited :
    Settled "j" ((jobService.run "j" hookRequest ⟨"k", "k"⟩).run.eval
      (answerJob (.error (.app (.new .upstreamRateLimited))) (.error (.foreign "TypeError")) 1)
      ⟨hookTable, 0⟩) :=
  (run_settled_iff _ _ 1 "j" hookRequest _ hookTable _ (JobTable.create_self ..)).mpr
    nofun

/-- A `ValueError` out of the completion is not kept in: the run raises it, the row stays RUNNING
for good, and the callback is never told. -/
theorem run_strands_job :
    let after := (jobService.run "j" hookRequest ⟨"k", "k"⟩).run.eval
      (answerJob (.error (.foreign "ValueError")) (.ok 1) 1) ⟨hookTable, 0⟩
    after.1 = .error (.foreign "ValueError") ∧
      (after.2.table "j").map Job.status = some .running ∧ after.2.deliveries = 0 ∧
      ¬ Settled "j" after := by
  refine ⟨rfl, rfl, rfl, ?_⟩
  rintro ⟨⟨⟩, _⟩

end PrdApiWrapper
