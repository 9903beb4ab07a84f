import PrdApiWrapper.Delivery

/-!
# Accounts of deliveries

What a delivery leaves in the row of its job: the number of POSTs that were sent, whichever way it
reached the row, and a date if the last of them succeeded. `JobTable` has the columns the service
writes. The table has one more, `updated_at`, that the service never names and every UPDATE sets, so
a delivery changes that as well.
-/

namespace PrdApiWrapper

open Interaction

/-! ## Rows -/

/-- A row of the job table, with the column that is kept by `onupdate`. -/
structure JobRow extends Job where
  updatedAt : ℚ

/-- The rows of the job table, by id. -/
abbrev RowTable := String → Option JobRow

/-- `setattr`, then the UPDATE at time `now`: it is left out if no attribute has changed. -/
def JobRow.update (row : JobRow) (fields : List JobField) (now : ℚ) : JobRow :=
  if row.toJob.update fields = row.toJob then row
  else { toJob := row.toJob.update fields, updatedAt := now }

/-- `update(job_id, **fields)` at time `now`. -/
def RowTable.update (table : RowTable) (jobId : String) (fields : List JobField) (now : ℚ) :
    RowTable :=
  Function.update table jobId ((table jobId).map fun row => row.update fields now)

/-- The table without the column. -/
def RowTable.jobs (table : RowTable) : JobTable := fun id => (table id).map JobRow.toJob

/-- The updates of a trace that succeeded, whatever the clock of the database says. -/
inductive Stored : RowTable → List (Event Service) → RowTable → Prop where
  | nil (table : RowTable) : Stored table [] table
  | update {table table' : RowTable} {jobId : String} {fields : List JobField}
      {trace : List (Event Service)} (now : ℚ) :
      Stored (table.update jobId fields now) trace table' →
      Stored table (⟨.updateJob jobId fields, .ok ()⟩ :: trace) table'
  | failed {table table' : RowTable} {jobId : String} {fields : List JobField} {error : String}
      {trace : List (Event Service)} : Stored table trace table' →
      Stored table (⟨.updateJob jobId fields, .error error⟩ :: trace) table'
  | other {table table' : RowTable} {ev : Event Service} {trace : List (Event Service)} :
      (∀ jobId fields, ev.op ≠ .updateJob jobId fields) → Stored table trace table' →
      Stored table (ev :: trace) table'

@[simp] theorem JobRow.update_toJob (row : JobRow) (fields : List JobField) (now : ℚ) :
    (row.update fields now).toJob = row.toJob.update fields := by
  rw [JobRow.update]
  split
  · next h => exact h.symm
  · rfl

theorem RowTable.update_jobs (table : RowTable) (jobId : String) (fields : List JobField)
    (now : ℚ) : (table.update jobId fields now).jobs = table.jobs.update jobId fields := by
  funext id
  by_cases h : id = jobId
  · subst h
    simp [RowTable.jobs, RowTable.update, JobTable.update_self, Function.comp_def]
  · rw [JobTable.update_of_ne _ h]
    simp [RowTable.jobs, RowTable.update, Function.update_of_ne h]

/-- **The rows follow the table of the model**: without the column, they are what it keeps. -/
theorem Stored.jobs {table table' : RowTable} {trace : List (Event Service)}
    (h : Stored table trace table') : table'.jobs = tableAfter table.jobs trace := by
  induction h with
  | nil table => rfl
  | update now _ ih => rw [ih, RowTable.update_jobs]; rfl
  | failed _ ih => exact ih
  | @other table table' ev trace hother _ ih =>
    rw [ih]
    obtain ⟨op, reply⟩ := ev
    cases op with
    | updateJob jobId fields => exact absurd rfl (hother jobId fields)
    | _ => rfl

/-! ## What is sent -/

/-- A receiver outcome that is worth another POST. -/
def CallbackOutcome.Transient : CallbackOutcome → Prop
  | .requestError => True
  | .response status => status = 429 ∨ (500 ≤ status ∧ status ≤ 599)
  | .foreign _ => False

theorem CallbackOutcome.Retried.transient {outcome : CallbackOutcome} (h : outcome.Retried) :
    outcome.Transient := by
  obtain ⟨error, hposted, hretryable⟩ := h
  cases outcome with
  | requestError => trivial
  | foreign name => cases hposted
  | response status =>
    rw [posted] at hposted
    split at hposted
    · next herror =>
      cases hposted
      have hstatus : 500 ≤ status ∨ status = 429 := of_decide_eq_true hretryable
      rcases hstatus with hstatus | hstatus
      · exact .inr ⟨hstatus, herror.2⟩
      · exact .inl hstatus
    · cases hposted

/-- A receiver answers, or the request to it fails. -/
def CallbackOutcome.Documented (outcome : CallbackOutcome) : Prop :=
  ∀ name, outcome ≠ .foreign name

/-- The last answer calls for another POST, and the wait before it cannot be computed. -/
def Unpayable (settings : Settings) (answers : List CallbackOutcome) : Prop :=
  ∃ last ∈ answers.getLast?, Overflows settings answers.length last

/-- The number of POSTs reaches the row, in the result or in the details of the error. -/
theorem deliveryFields_delivered {last : CallbackOutcome} (hlast : last.Documented) (n : ℕ)
    (now : ℚ) : (posted last = .ok () ∧
      deliveryFields (WebhookService.delivered (posted last, n)) now =
        [.deliveryAttempts n, .deliveredAt now]) ∨
    deliveryFields (WebhookService.delivered (posted last, n)) now = [.deliveryAttempts n] := by
  cases hposted : posted last with
  | ok u => exact .inl ⟨rfl, rfl⟩
  | error exc =>
    cases exc with
    | app error =>
      have hcls := (posted_eq_app hposted).1
      refine .inr ?_
      simp [WebhookService.delivered, deliveryFields, hcls, attemptsIn, lookup_setItem]
    | foreign name =>
      cases last with
      | requestError => cases hposted
      | foreign name' => exact absurd rfl (hlast name')
      | response status =>
        rw [posted] at hposted
        split at hposted <;> cases hposted

/-- What a delivery should leave in the row: the number of POSTs, at most as many as configured and
all but the last of them met by something transient; the date if the last one succeeded; and nothing
else, but for the time of the update. -/
structure AccountedFor (settings : Settings) (answers : List CallbackOutcome) (row row' : JobRow) :
    Prop where
  attempts : row'.deliveryAttempts = answers.length
  some_post : 1 ≤ answers.length
  bounded : (answers.length : ℤ) ≤ max 1 settings.webhookMaxAttempts
  transient : ∀ answer ∈ answers.dropLast, answer.Transient
  dated : row'.deliveredAt = row.deliveredAt ∨ ∃ last ∈ answers.getLast?, posted last = .ok ()
  others : row' = { row with
    deliveryAttempts := row'.deliveryAttempts
    deliveredAt := row'.deliveredAt
    updatedAt := row'.updatedAt }

/-- A job that has been accepted at time 0. -/
def hookRow : JobRow where
  toJob := (JobService.newJob "j" hookRequest ⟨"k", "k"⟩ "llama3.2:3b").row 0
  updatedAt := 0

/-- The table with its row. -/
def hookRows : RowTable := Function.update (fun _ => none) "j" (some hookRow)

/-- What a `_deliver` with two POSTs stores. -/
theorem stored_triedTwice : Stored hookRows triedTwice
    (hookRows.update "j" [.deliveryAttempts 2, .deliveredAt 1] 1) := by
  have hother : ∀ {table table' : RowTable} {ev : Event Service} {trace : List (Event Service)},
      (∀ jobId fields, ev.op ≠ .updateJob jobId fields) → Stored table trace table' →
      Stored table (ev :: trace) table' := .other
  refine hother ?_ (hother ?_ (hother ?_ (hother ?_ (hother ?_ (hother ?_ (hother ?_ (hother ?_
    (hother ?_ (.update 1 (.nil _))))))))))
  all_goals
    intro jobId fields hop
    cases hop

/-- The row after one POST that succeeded, updated at time 1. -/
def deliveredRow : JobRow := hookRow.update [.deliveryAttempts 1, .deliveredAt 1] 1

/-- What a `_deliver` with a POST answered so stores. -/
theorem stored_answeredWith (status : ℤ) : Stored hookRows (answeredWith status)
    (hookRows.update "j" [.deliveryAttempts 1, .deliveredAt 1] 1) := by
  have hother : ∀ {table table' : RowTable} {ev : Event Service} {trace : List (Event Service)},
      (∀ jobId fields, ev.op ≠ .updateJob jobId fields) → Stored table trace table' →
      Stored table (ev :: trace) table' := .other
  refine hother ?_ (hother ?_ (hother ?_ (hother ?_ (.update 1 (.nil _)))))
  all_goals
    intro jobId fields hop
    cases hop

theorem update_hookRows : hookRows.update "j" [.deliveryAttempts 1, .deliveredAt 1] 1 "j" =
    some deliveredRow := by
  simp [RowTable.update, hookRows, deliveredRow]

end PrdApiWrapper
