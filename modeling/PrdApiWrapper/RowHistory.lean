import PrdApiWrapper.JobLifecycle

/-!
# The history of a row

What one request of the process can do to one row of the job table (`RowStep`): leave it, insert it,
or make one of the updates of its life cycle. So a row whose status is final keeps everything a
result is made of, and every result was written by one update.
-/

namespace PrdApiWrapper

open Interaction

/-- What a request for `owner` does to the row `id`, if its row is `row`. -/
inductive RowStep (owner : String) (op : Op) (id : String) : Option Job → Option Job → Prop where
  | same (row : Option Job) : RowStep owner op id row row
  | insert (job : NewJob) (now : ℚ) : op = .createJob job → job.id = id →
    job.apiKeyId = owner → job.status = .pending → RowStep owner op id none (some (job.row now))
  | update (row : Job) (fields : List JobField) (status' : JobStatus) :
    op = .updateJob id fields → row.apiKeyId = owner → row.Consistent →
    RowUpdate row.status fields status' → RowStep owner op id (some row) (some (row.update fields))

/-- What a request asked of the table and was told is done, is done. -/
def Done (ev : Event Service) (before after : JobTable) : Prop :=
  (∀ job, ev = ⟨.createJob job, .ok ()⟩ → ∃ now, after job.id = some (job.row now)) ∧
  ∀ id fields, ev = ⟨.updateJob id fields, .ok ()⟩ → ∃ row status', before id = some row ∧
    row.Consistent ∧ RowUpdate row.status fields status' ∧ after id = some (row.update fields)

section

variable {owner : String} {w w' : World} {φ : Phases Phase} {t : ℕ} {before : ℚ}

/-- An insert makes one row. -/
theorem row_createJob (h : Ledger w φ) {job : NewJob} {r : Service.Reply (.createJob job)}
    (hallows : (lifecycle owner).allows (φ t) (.createJob job))
    (hanswers : w.answers before (.createJob job) r w') :
    (∀ id, RowStep owner (.createJob job) id (w.jobs id) (w'.jobs id)) ∧
      Done ⟨.createJob job, r⟩ w.jobs w'.jobs := by
  obtain ⟨hphase, howner, hpending⟩ := hallows
  obtain ⟨createdAt, hwrites⟩ := hanswers
  have hfree : w.jobs job.id = none := by
    have := h.holds t
    rw [hphase] at this
    exact this.2
  obtain rfl | ⟨hfailed, rfl⟩ := hwrites
  · refine ⟨fun id => ?_, ?_, by rintro id fields ⟨⟩⟩
    · by_cases hid : id = job.id
      · subst hid
        simp only [w.jobs.create_self job createdAt, hfree]
        exact .insert job createdAt rfl rfl howner hpending
      · simp only [w.jobs.create_of_ne job createdAt hid]
        exact .same _
    · rintro job' ⟨⟩
      exact ⟨createdAt, w.jobs.create_self job createdAt⟩
  · refine ⟨fun id => .same _, ?_, by rintro id fields ⟨⟩⟩
    rintro job' hevent
    cases hevent
    exact absurd rfl hfailed

/-- An update makes a move of one row. -/
theorem row_updateJob (h : Ledger w φ) {id : String} {fields : List JobField}
    {r : Service.Reply (.updateJob id fields)}
    (hallows : (lifecycle owner).allows (φ t) (.updateJob id fields))
    (hanswers : w.answers before (.updateJob id fields) r w') :
    (∀ id', RowStep owner (.updateJob id fields) id' (w.jobs id') (w'.jobs id')) ∧
      Done ⟨.updateJob id fields, r⟩ w.jobs w'.jobs := by
  obtain ⟨status, status', hphase, hupdate⟩ := hallows
  have hholds := h.holds t
  rw [hphase] at hholds
  obtain ⟨row, hrow, howner, rfl⟩ := hholds
  obtain rfl | ⟨hfailed, rfl⟩ := hanswers
  · have hafter := JobTable.update_of_some hrow fields
    refine ⟨fun id' => ?_, by rintro job ⟨⟩, ?_⟩
    · by_cases hid : id' = id
      · subst hid
        simp only [hafter, hrow]
        exact .update row fields status' rfl howner (h.rows id' row hrow).2.2 hupdate
      · simp only [w.jobs.update_of_ne hid fields]
        exact .same _
    · rintro id' fields' ⟨⟩
      exact ⟨row, status', hrow, (h.rows id row hrow).2.2, hupdate, hafter⟩
  · refine ⟨fun id' => .same _, by rintro job ⟨⟩, ?_⟩
    rintro id' fields' hevent
    cases hevent
    exact absurd rfl hfailed

/-- **What one request of the process does to the rows.** -/
theorem ledger_rows (h : Ledger w φ) {op : Op} {r : Service.Reply op}
    (hallows : (lifecycle owner).allows (φ t) op) (hstep : world.step w t op r w') :
    (∀ id, RowStep owner op id (w.jobs id) (w'.jobs id)) ∧ Done ⟨op, r⟩ w.jobs w'.jobs := by
  obtain ⟨now, _, hanswers⟩ := hstep
  have hlater : Ledger { w with now := now } φ := h.unchanged rfl rfl
  by_cases hcreate : ∃ job, op = .createJob job
  · obtain ⟨job, rfl⟩ := hcreate
    exact row_createJob hlater hallows hanswers
  by_cases hupdate : ∃ id fields, op = .updateJob id fields
  · obtain ⟨id, fields, rfl⟩ := hupdate
    exact row_updateJob hlater hallows hanswers
  have hjobs : w'.jobs = w.jobs := (World.answers_leaves hanswers).jobs
    (fun job hop => hcreate ⟨job, hop⟩) fun id fields hop => hupdate ⟨id, fields, hop⟩
  refine ⟨fun id => ?_, fun job hevent => ?_, fun id fields hevent => ?_⟩
  · rw [hjobs]
    exact .same _
  · exact absurd ⟨job, congrArg Event.op hevent⟩ hcreate
  · exact absurd ⟨id, fields, congrArg Event.op hevent⟩ hupdate

end

/-- What an entry of a request for `owner` does to the rows. -/
structure Historic (owner : String) (en : Entry Service World) : Prop where
  rows : ∀ id, RowStep owner en.op id (en.before.jobs id) (en.after.jobs id)
  done : Done en.event en.before.jobs en.after.jobs

/-- **The history of all rows.** In every run, every step does to each row what a request for its
own caller can, and what was reported as done is done. -/
theorem run_rows {env : Environment} {settings : Settings} {t₀ : ℚ} {w : World}
    {log : List (Entry Service World)} {tasks : List (Task (Route × Caller) Service Unit)}
    (h : Run world (fun request => serve env settings request.1 request.2)
      (World.start settings t₀) log w tasks) :
    EachEntry (fun request en => Historic request.2.id en) log tasks := by
  obtain ⟨_, _, _, _, hentries⟩ := h.ghost
    (fun request : Route × Caller => lifecycle request.2.id) (fun _ _ _ => True) .idle Ledger
    (fun request => Historic request.2.id) (Ledger.start settings t₀)
    (fun request => wp_serve_lifecycle env settings request.1 request.2)
    (fun request w φ t op r w' h hallows hstep =>
      ⟨⟨(ledger_rows h hallows hstep).1, (ledger_rows h hallows hstep).2⟩,
        (ledger_step h hallows hstep).2⟩)
  exact hentries

/-! ## Results -/

/-- The columns a result is made of. -/
structure JobResult where
  status : JobStatus
  model : String
  content : Option String
  errorCode : Option String
  errorMessage : Option String
  promptTokens : ℤ
  completionTokens : ℤ

/-- The result in a row. -/
def Job.result (job : Job) : JobResult where
  status := job.status
  model := job.model
  content := job.content
  errorCode := job.errorCode
  errorMessage := job.errorMessage
  promptTokens := job.promptTokens
  completionTokens := job.completionTokens

/-- The result of a completion. -/
def JobResult.succeeded (completion : CompletionResponse) : JobResult where
  status := .succeeded
  model := completion.model
  content := some completion.content
  errorCode := none
  errorMessage := none
  promptTokens := completion.usage.promptTokens
  completionTokens := completion.usage.completionTokens

/-- The result of a completion that raised, for a row with this model and these tokens. -/
def JobResult.failed (error : AppError) (row : Job) : JobResult where
  status := .failed
  model := row.model
  content := none
  errorCode := some error.code
  errorMessage := some error.message
  promptTokens := row.promptTokens
  completionTokens := row.completionTokens

/-- Two rows of one request: what it was inserted with is the same. -/
structure Job.Akin (job job' : Job) : Prop where
  apiKeyId : job'.apiKeyId = job.apiKeyId
  prompt : job'.prompt = job.prompt
  callbackUrl : job'.callbackUrl = job.callbackUrl

theorem Job.Akin.refl (job : Job) : job.Akin job := ⟨rfl, rfl, rfl⟩

theorem Job.Akin.trans {job job' job'' : Job} (h : job.Akin job') (h' : job'.Akin job'') :
    job.Akin job'' :=
  ⟨h'.apiKeyId.trans h.apiKeyId, h'.prompt.trans h.prompt, h'.callbackUrl.trans h.callbackUrl⟩

section

variable {owner : String} {op : Op} {id : String} {before after : Option Job}

/-- A row stays one of its request. -/
theorem RowStep.akin {row : Job} (h : RowStep owner op id (some row) after) :
    ∃ row', after = some row' ∧ row.Akin row' := by
  cases h with
  | same => exact ⟨row, rfl, .refl row⟩
  | update _ fields status' _ _ hconsistent hupdate =>
    obtain ⟨-, hfollows, -⟩ := hupdate.spec rfl hconsistent
    exact ⟨_, rfl, hfollows.apiKeyId, hfollows.prompt, hfollows.callbackUrl⟩

/-- A row whose status is final keeps its result. -/
theorem RowStep.keeps_result {row : Job} (h : RowStep owner op id (some row) after)
    (hfinal : row.status.isFinal = true) :
    ∃ row', after = some row' ∧ row'.result = row.result ∧ row.Akin row' := by
  obtain ⟨row', rfl, hakin⟩ := h.akin
  refine ⟨row', rfl, ?_, hakin⟩
  cases h with
  | same => rfl
  | update _ fields status' _ _ _ hupdate =>
    generalize hstatus : row.status = status at hupdate
    rw [hstatus] at hfinal
    cases hupdate with
    | start | fail _ | succeed _ => cases hfinal
    | deliver now _ _ => rfl
    | giveUp _ _ => rfl

/-- A result is written by one update of a row of the caller. -/
theorem RowStep.result_cases {row' : Job} (h : RowStep owner op id before (some row'))
    (hfinal : row'.status.isFinal = true) :
    (∃ row, before = some row ∧ row.result = row'.result ∧ row.Akin row') ∨
    row'.apiKeyId = owner ∧
      ((∃ completion, op = .updateJob id (JobService.succeededFields completion) ∧
        row'.result = .succeeded completion) ∨
      ∃ error row, op = .updateJob id (JobService.failedFields error) ∧
        row'.result = .failed error row) := by
  cases h with
  | same => exact .inl ⟨row', rfl, rfl, .refl row'⟩
  | insert job now _ _ _ hpending =>
    change job.status.isFinal = true at hfinal
    rw [hpending] at hfinal
    cases hfinal
  | update row fields status' hop howner hconsistent hupdate =>
    generalize hstatus : row.status = status at hupdate
    cases hupdate with
    | start => cases hfinal
    | fail error =>
      obtain ⟨hcontent, -⟩ := hconsistent.blank (by rw [hstatus]; rfl)
      refine .inr ⟨howner, .inr ⟨error, row, hop, ?_⟩⟩
      simp [Job.result, JobResult.failed, JobService.failedFields, Job.setattr, hcontent]
    | succeed completion =>
      obtain ⟨-, hcode, hmessage, -⟩ := hconsistent.blank (by rw [hstatus]; rfl)
      refine .inr ⟨howner, .inl ⟨completion, hop, ?_⟩⟩
      simp [Job.result, JobResult.succeeded, JobService.succeededFields, Job.setattr, hcode,
        hmessage]
    | deliver now _ _ => exact .inl ⟨row, rfl, rfl, rfl, rfl, rfl⟩
    | giveUp _ _ => exact .inl ⟨row, rfl, rfl, rfl, rfl, rfl⟩

end

end PrdApiWrapper
