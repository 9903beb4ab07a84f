import PrdApiWrapper.World
import PrdApiWrapper.Rules

/-!
# The life cycle of a job

A row is inserted by one request and updated by the background task of the same request.
`RowUpdate` lists the updates there are, with the status each takes the row from and to; everything
about a single row follows from it.

For whole runs each request is given a `Phase`, what it has been told about its row. The repository
may fail after it has written, so a request that was told of a failure no longer knows its row; the
source makes no further update then, and the protocol `lifecycle` says so.
-/

namespace PrdApiWrapper

open Interaction

/-! ## A row -/

/-- The moves of a status. -/
inductive JobStatus.Moves : JobStatus → JobStatus → Prop where
  | start : Moves .pending .running
  | succeed : Moves .running .succeeded
  | fail : Moves .running .failed

/-- Nothing moves on from a final status. -/
theorem JobStatus.Moves.not_final {status status' : JobStatus} (h : status.Moves status') :
    status.isFinal = false := by
  cases h <;> rfl

/-- What holds of every row. -/
structure Job.Consistent (job : Job) : Prop where
  /-- the content is there exactly for a success -/
  content : job.content.isSome ↔ job.status = .succeeded
  /-- the error is there exactly for a failure -/
  errorCode : job.errorCode.isSome ↔ job.status = .failed
  errorMessage : job.errorMessage.isSome ↔ job.status = .failed
  /-- only the result of finished work is delivered, and not without an attempt -/
  delivered : job.deliveredAt.isSome → job.status.isFinal ∧ 1 ≤ job.deliveryAttempts
  attempted : 0 < job.deliveryAttempts → job.status.isFinal

/-- What one update may make of a row. -/
structure Job.Follows (job job' : Job) : Prop where
  status : job'.status = job.status ∨ job.status.Moves job'.status
  id : job'.id = job.id
  apiKeyId : job'.apiKeyId = job.apiKeyId
  prompt : job'.prompt = job.prompt
  callbackUrl : job'.callbackUrl = job.callbackUrl

theorem Job.Follows.refl (job : Job) : job.Follows job := ⟨.inl rfl, rfl, rfl, rfl, rfl⟩

/-- A final status stays. -/
theorem Job.Follows.final {job job' : Job} (h : job.Follows job')
    (hfinal : job.status.isFinal = true) : job'.status = job.status := by
  rcases h.status with hsame | hmoves
  · exact hsame
  · rw [hmoves.not_final] at hfinal
    cases hfinal

/-- The updates of `run`, `_execute` and `_deliver`, with the status before and after. -/
inductive RowUpdate : JobStatus → List JobField → JobStatus → Prop where
  | start : RowUpdate .pending [.status .running] .running
  | fail (error : AppError) : RowUpdate .running (JobService.failedFields error) .failed
  | succeed (completion : CompletionResponse) :
    RowUpdate .running (JobService.succeededFields completion) .succeeded
  | deliver {status : JobStatus} {attempts : ℤ} (now : ℚ) :
    status.isFinal = true → 1 ≤ attempts →
    RowUpdate status [.deliveryAttempts attempts, .deliveredAt now] status
  | giveUp {status : JobStatus} {attempts : ℤ} :
    status.isFinal = true → 1 ≤ attempts → RowUpdate status [.deliveryAttempts attempts] status

/-- The status that fields leave. -/
def statusAfter (status : JobStatus) (fields : List JobField) : JobStatus :=
  fields.foldl (fun status field => match field with
    | .status value => value
    | _ => status) status

theorem RowUpdate.eq_statusAfter {status status' : JobStatus} {fields : List JobField}
    (h : RowUpdate status fields status') : status' = statusAfter status fields := by
  cases h <;> rfl

/-- A row that is not final is blank. -/
theorem Job.Consistent.blank {job : Job} (h : job.Consistent)
    (hfinal : job.status.isFinal = false) :
    job.content = none ∧ job.errorCode = none ∧ job.errorMessage = none ∧
      job.deliveredAt = none ∧ job.deliveryAttempts ≤ 0 := by
  have hsucceeded : job.status ≠ .succeeded := by
    intro hstatus
    rw [hstatus] at hfinal
    cases hfinal
  have hfailed : job.status ≠ .failed := by
    intro hstatus
    rw [hstatus] at hfinal
    cases hfinal
  have hundone : ¬ job.status.isFinal = true := by rw [hfinal]; rintro ⟨⟩
  refine ⟨?_, ?_, ?_, ?_, ?_⟩
  · exact Option.not_isSome_iff_eq_none.mp (mt h.content.mp hsucceeded)
  · exact Option.not_isSome_iff_eq_none.mp (mt h.errorCode.mp hfailed)
  · exact Option.not_isSome_iff_eq_none.mp (mt h.errorMessage.mp hfailed)
  · exact Option.not_isSome_iff_eq_none.mp fun hat => hundone (h.delivered hat).1
  · exact not_lt.mp (mt h.attempted hundone)

/-- **What an update does to its row.** -/
theorem RowUpdate.spec {status status' : JobStatus} {fields : List JobField}
    (h : RowUpdate status fields status') {job : Job} (hstatus : job.status = status)
    (hjob : job.Consistent) :
    (job.update fields).status = status' ∧ job.Follows (job.update fields) ∧
      (job.update fields).Consistent := by
  cases h with
  | start =>
    obtain ⟨hcontent, hcode, hmessage, hat, hattempts⟩ := hjob.blank (by rw [hstatus]; rfl)
    refine ⟨rfl, ⟨.inr (by rw [hstatus]; exact .start), rfl, rfl, rfl, rfl⟩, ?_⟩
    constructor <;> simp [Job.setattr, hcontent, hcode, hmessage, hat, hattempts]
  | fail error =>
    obtain ⟨hcontent, _, _, hat, _⟩ := hjob.blank (by rw [hstatus]; rfl)
    refine ⟨rfl, ⟨.inr (by rw [hstatus]; exact .fail), rfl, rfl, rfl, rfl⟩, ?_⟩
    constructor <;>
      simp [JobService.failedFields, Job.setattr, JobStatus.isFinal, hcontent, hat]
  | succeed completion =>
    obtain ⟨_, hcode, hmessage, hat, _⟩ := hjob.blank (by rw [hstatus]; rfl)
    refine ⟨rfl, ⟨.inr (by rw [hstatus]; exact .succeed), rfl, rfl, rfl, rfl⟩, ?_⟩
    constructor <;>
      simp [JobService.succeededFields, Job.setattr, JobStatus.isFinal, hcode, hmessage, hat]
  | deliver now hfinal hattempts =>
    have hdone : job.status.isFinal = true := (congrArg JobStatus.isFinal hstatus).trans hfinal
    exact ⟨hstatus, ⟨.inl rfl, rfl, rfl, rfl, rfl⟩, hjob.content, hjob.errorCode,
      hjob.errorMessage, fun _ => ⟨hdone, hattempts⟩, fun _ => hdone⟩
  | giveUp hfinal hattempts =>
    have hdone : job.status.isFinal = true := (congrArg JobStatus.isFinal hstatus).trans hfinal
    exact ⟨hstatus, ⟨.inl rfl, rfl, rfl, rfl, rfl⟩, hjob.content, hjob.errorCode,
      hjob.errorMessage, fun _ => ⟨hdone, hattempts⟩, fun _ => hdone⟩

/-- A new job begins pending, with nothing in it. -/
theorem NewJob.row_consistent {job : NewJob} (h : job.status = .pending) (now : ℚ) :
    (job.row now).Consistent := by
  have hstatus : (job.row now).status = .pending := h
  refine ⟨?_, ?_, ?_, nofun, fun h => absurd h (lt_irrefl 0)⟩ <;>
  · rw [hstatus]
    exact iff_of_false nofun nofun

/-! ## The table -/

/-- What one request may make of the table. -/
structure JobTable.Evolves (table table' : JobTable) : Prop where
  /-- no row is lost -/
  stays : ∀ id job, table id = some job → ∃ job', table' id = some job' ∧ job.Follows job'
  /-- a row begins pending -/
  begins : ∀ id job', table id = none → table' id = some job' → job'.status = .pending

namespace JobTable

theorem Evolves.refl (table : JobTable) : table.Evolves table where
  stays _ job h := ⟨job, h, .refl job⟩
  begins id job' hnone hsome := by
    rw [hnone] at hsome
    cases hsome

theorem Evolves.create {table : JobTable} {job : NewJob} (hfree : table job.id = none)
    (hstatus : job.status = .pending) (now : ℚ) : table.Evolves (table.create job now) where
  stays id row hrow := by
    have hne : id ≠ job.id := by
      rintro rfl
      rw [hfree] at hrow
      cases hrow
    exact ⟨row, by rw [table.create_of_ne job now hne, hrow], .refl row⟩
  begins id row hnone hrow := by
    by_cases hid : id = job.id
    · subst hid
      rw [table.create_self] at hrow
      obtain rfl := Option.some.inj hrow
      exact hstatus
    · rw [table.create_of_ne job now hid, hnone] at hrow
      cases hrow

theorem Evolves.update {table : JobTable} {id : String} {job : Job} (hjob : table id = some job)
    {fields : List JobField} (hfollows : job.Follows (job.update fields)) :
    table.Evolves (table.update id fields) where
  stays id' row hrow := by
    by_cases hid : id' = id
    · subst hid
      obtain rfl := Option.some.inj (hjob.symm.trans hrow)
      exact ⟨_, update_of_some hjob fields, hfollows⟩
    · exact ⟨row, by rw [table.update_of_ne hid, hrow], .refl row⟩
  begins id' row hnone hrow := by
    have hid : id' ≠ id := by
      rintro rfl
      rw [hnone] at hjob
      cases hjob
    rw [table.update_of_ne hid, hnone] at hrow
    cases hrow

/-- A row is found by its owner. -/
theorem get_isSome {table : JobTable} {id apiKeyId : String} :
    (table.get id apiKeyId).isSome ↔ ∃ job, table id = some job ∧ job.apiKeyId = apiKeyId := by
  rw [get]
  cases htable : table id with
  | none => simp
  | some job => simp

/-- What is found stays found. -/
theorem Evolves.get_isSome {table table' : JobTable} (h : table.Evolves table')
    {id apiKeyId : String} (hget : (table.get id apiKeyId).isSome) :
    (table'.get id apiKeyId).isSome := by
  obtain ⟨job, hjob, howner⟩ := JobTable.get_isSome.mp hget
  obtain ⟨job', hjob', hfollows⟩ := h.stays id job hjob
  exact JobTable.get_isSome.mpr ⟨job', hjob', hfollows.apiKeyId.trans howner⟩

end JobTable

/-! ## What a request knows of its row -/

/-- What a request has been told about its row. -/
inductive Phase where
  /-- it has none -/
  | idle
  /-- it has an id for one -/
  | named (id : String)
  /-- it has one, of this owner and in this status -/
  | stored (id owner : String) (status : JobStatus)
  /-- a write failed, and may have happened -/
  | lost

/-- The id a phase is about. -/
def Phase.id : Phase → Option String
  | .idle | .lost => none
  | .named id | .stored id _ _ => some id

/-- What a request does with the job table, for a caller with the id `owner`: it takes an id,
inserts a pending row under it, answers the client, and updates that row, each time from the status
it knows; a failure of the repository ends this. -/
def lifecycle (owner : String) : Protocol Service Phase where
  allows phase op := match op with
    | .tokenHex => phase = .idle
    | .createJob job => phase = .named job.id ∧ job.apiKeyId = owner ∧ job.status = .pending
    | .updateJob id fields =>
      ∃ status status', phase = .stored id owner status ∧ RowUpdate status fields status'
    | .respond reply =>
      ∀ accepted, reply.body = .accepted accepted → phase = .stored accepted.id owner .pending
    | _ => True
  next phase op r phase' := match op, r with
    | .tokenHex, id => phase' = .named id
    | .createJob job, .ok () => phase' = .stored job.id owner .pending
    | .updateJob id fields, .ok () => ∃ status status', phase = .stored id owner status ∧
      RowUpdate status fields status' ∧ phase' = .stored id owner status'
    | .createJob _, .error _ | .updateJob _ _, .error _ => phase' = .lost
    | _, _ => phase' = phase

section

variable {env : Environment} {settings : Settings} {owner : String}

/-- The requests that have nothing to do with jobs. -/
inductive Unrelated : Op → Prop where
  | completes {op : Op} : Completes op → Unrelated op
  | delivers {op : Op} : Delivers op → Unrelated op
  | utcNow : Unrelated .utcNow
  | check (key : String) : Unrelated (.check key)
  | getJob (jobId apiKeyId : String) : Unrelated (.getJob jobId apiKeyId)
  | commit : Unrelated .commit
  | rollback : Unrelated .rollback

theorem keeps_phase (phase : Phase) : Keeps (lifecycle owner) Unrelated (· = phase) := by
  rintro op hop _ rfl
  cases hop with
  | completes hop =>
    cases hop with
    | calls hop =>
      cases hop with
      | waits hop => cases hop <;> exact ⟨trivial, fun _ _ h => h⟩
      | _ => exact ⟨trivial, fun _ _ h => h⟩
    | record entry => exact ⟨trivial, fun _ _ h => h⟩
  | delivers hop =>
    cases hop with
    | waits hop => cases hop <;> exact ⟨trivial, fun _ _ h => h⟩
    | _ => exact ⟨trivial, fun _ _ h => h⟩
  | _ => exact ⟨trivial, fun _ _ h => h⟩

/-- An update of the row a request knows. -/
theorem awp_updateJob (env : Environment) (settings : Settings) {id : String}
    {status status' : JobStatus} {fields : List JobField}
    (hupdate : RowUpdate status fields status') {ok : Unit → Phase → Prop}
    {err : Exc → Phase → Prop} (hok : ok () (.stored id owner status'))
    (herr : ∀ name, err (.foreign name) .lost) :
    Async.awp (lifecycle owner) ((jobsOf env settings).jobs.update id fields) ok err
      (.stored id owner status) := by
  simp only [jobsOf, stored, Async.awp_mk, Prog.wp_map]
  refine ⟨⟨status, status', rfl, hupdate⟩, ?_⟩
  rintro (name | ⟨⟩) phase hphase
  · obtain rfl : phase = .lost := hphase
    exact herr name
  · obtain ⟨status₁, status₂, hstored, hupdate', rfl⟩ := hphase
    obtain ⟨_, _, rfl⟩ := Phase.stored.inj hstored
    rw [hupdate'.eq_statusAfter, ← hupdate.eq_statusAfter]
    exact hok

/-- Requests that have nothing to do with jobs leave the phase alone. -/
theorem awp_unrelated {α : Type} {x : Async Service Exc α} (hx : x.run.Only Unrelated)
    {phase : Phase} {ok : α → Phase → Prop} {err : Exc → Phase → Prop}
    (hok : ∀ a, ok a phase) (herr : ∀ exc, err exc phase) :
    Async.awp (lifecycle owner) x ok err phase := by
  refine Async.awp_mono ?_ ?_ (Async.awp_of_only hx (keeps_phase phase) rfl)
  · rintro a _ rfl
    exact hok a
  · rintro exc _ rfl
    exact herr exc

/-- `_deliver` updates the row of finished work, or leaves it. -/
theorem awp_deliverResult {id url : String} {status : JobStatus} {payload : WebhookPayload}
    (hfinal : status.isFinal = true) :
    Async.awp (lifecycle owner) ((jobsOf env settings).deliverResult id url payload)
      (fun _ _ => True) (fun _ _ => True) (.stored id owner status) := by
  simp only [JobService.deliverResult, Async.awp_tryCatch, Async.awp_bind, Async.awp_lift]
  refine Async.awp_mono ?_ ?_ (awp_deliver
    (fun op hop => keeps_phase _ op (.delivers hop.delivers)) rfl)
  · rintro attempts _ ⟨rfl, hattempts⟩
    refine ⟨trivial, fun (now : ℚ) phase hphase => ?_⟩
    obtain rfl : phase = .stored id owner status := hphase
    exact awp_updateJob env settings (.deliver now hfinal hattempts) trivial fun _ => trivial
  · rintro (error | name) _ ⟨rfl, hattempts⟩
    · by_cases hcls : error.cls = .webhookDeliveryFailed
      · simp only [if_pos hcls]
        exact awp_updateJob env settings (.giveUp hfinal (hattempts error rfl hcls)) trivial
          fun _ => trivial
      · simp only [if_neg hcls]
        trivial
    · trivial

/-- `_execute` returns with the row in a final status. -/
theorem awp_execute {id : String} {request : JobRequest} {caller : Caller} :
    Async.awp (lifecycle owner) ((jobsOf env settings).execute id request caller)
      (fun _ phase => ∃ status, status.isFinal = true ∧ phase = .stored id owner status)
      (fun _ _ => True) (.stored id owner .running) := by
  have hcomplete := (complete_only env settings request.completionRequest caller).mono
    fun _ => Unrelated.completes
  simp only [JobService.execute, JobService.catchAppError, Async.awp_bind, Async.awp_tryCatch,
    Async.awp_map]
  refine awp_unrelated hcomplete (fun completion => ?_) ?_
  · simp only [Async.awp_pure]
    exact awp_updateJob env settings (.succeed completion) ⟨.succeeded, rfl, rfl⟩ fun _ => trivial
  · rintro (error | name)
    · simp only [Async.awp_bind, Async.awp_pure]
      exact awp_updateJob env settings (.fail error) ⟨.failed, rfl, rfl⟩ fun _ => trivial
    · trivial

/-- `run` keeps to the life cycle of the job it is given. -/
theorem awp_runJob {id : String} {request : JobRequest} {caller : Caller} :
    Async.awp (lifecycle owner) ((jobsOf env settings).run id request caller)
      (fun _ _ => True) (fun _ _ => True) (.stored id owner .pending) := by
  simp only [JobService.run, Async.awp_bind]
  refine awp_updateJob env settings .start ?_ fun _ => trivial
  refine Async.awp_mono ?_ (fun _ _ _ => trivial) awp_execute
  rintro payload _ ⟨status, hfinal, rfl⟩
  exact awp_deliverResult hfinal

/-- `accept` returns the id of a pending row of its caller. -/
theorem awp_accept {request : JobRequest} {caller : Caller} {model : String} :
    Async.awp (lifecycle caller.id) ((jobsOf env settings).accept request caller model)
      (fun accepted phase => phase = .stored accepted.id caller.id .pending)
      (fun _ _ => True) .idle := by
  simp only [JobService.accept, Async.awp_bind, Async.awp_lift]
  refine ⟨rfl, fun (id : String) phase hphase => ?_⟩
  obtain rfl : phase = .named id := hphase
  simp only [jobsOf, stored, Prog.wp_ret, Async.awp_mk, Prog.wp_map, Async.awp_pure]
  refine ⟨⟨rfl, rfl, rfl⟩, ?_⟩
  rintro (name | ⟨⟩) phase hphase
  · trivial
  · exact hphase

/-! ## A whole request -/

/-- The answer of an endpoint hands out an id only if it is that of a pending row, and its
background task keeps to the life cycle from there. -/
theorem awp_endpoint {caller : Caller} (route : Route) :
    Async.awp (lifecycle caller.id) (endpoint env settings caller route)
      (fun answer phase =>
        (∀ accepted, answer.body = .accepted accepted →
          phase = .stored accepted.id caller.id .pending) ∧
        Async.awp (lifecycle caller.id) answer.background (fun _ _ => True) (fun _ _ => True) phase)
      (fun _ _ => True) .idle := by
  cases route with
  | complete payload =>
    have hcomplete := (complete_only env settings payload caller).mono
      fun _ => Unrelated.completes
    simp only [endpoint, Async.awp_bind]
    refine awp_unrelated hcomplete (fun response => ⟨?_, trivial⟩) fun _ => trivial
    rintro accepted ⟨⟩
  | submit payload =>
    simp only [endpoint, Async.awp_bind]
    refine Async.awp_mono ?_ (fun _ _ _ => trivial) awp_accept
    rintro accepted _ rfl
    refine ⟨?_, awp_runJob⟩
    rintro _ ⟨⟩
    rfl
  | «show» jobId =>
    simp only [endpoint, JobService.get, jobsOf, stored, Async.awp_bind, Async.awp_mk,
      Prog.wp_map]
    refine ⟨trivial, ?_⟩
    rintro (name | (_ | view)) phase hphase
    · trivial
    · trivial
    · refine ⟨?_, trivial⟩
      rintro accepted ⟨⟩

/-- **Every request keeps to the life cycle**, whatever it is for. -/
theorem wp_serve_lifecycle (env : Environment) (settings : Settings) (route : Route)
    (caller : Caller) :
    (serve env settings route caller).wp (lifecycle caller.id) (fun _ _ => True) .idle := by
  have hlimit : Async.awp (lifecycle caller.id)
      (if route.limited then enforceRateLimit settings caller else pure [])
      (fun _ phase => phase = .idle) (fun _ _ => True) .idle := by
    refine Async.awp_mono (fun _ _ h => h) (fun _ _ _ => trivial) (awp_gate ?_ rfl)
    rintro _ rfl phase hidle
    exact ⟨trivial, fun _ _ hphase => hphase.trans hidle⟩
  have hcloses : Closes (lifecycle caller.id) fun _ => True := by
    refine ⟨fun _ => ⟨trivial, fun _ _ => trivial⟩, fun _ => ⟨trivial, fun _ _ _ => trivial⟩, ?_⟩
    -- errors hand out no id
    intro lib collected exc phase _
    obtain ⟨code, message, details, hbody⟩ := errorReply_body lib collected exc
    refine ⟨fun accepted haccepted => ?_, fun _ _ _ => trivial⟩
    rw [hbody] at haccepted
    cases haccepted
  apply wp_serve hcloses hlimit
  rintro _ rfl
  refine Async.awp_mono ?_ (fun _ _ _ => trivial) (awp_endpoint route)
  rintro answer phase ⟨haccepted, hbackground⟩ collected
  refine ⟨haccepted, fun _ phase' hphase => ?_⟩
  obtain rfl : phase' = phase := hphase
  exact hbackground

end

/-! ## All requests together -/

/-- What a phase says of the world. -/
def Phase.Holds (w : World) : Phase → Prop
  | .idle | .lost => True
  | .named id => id ∈ w.issued ∧ w.jobs id = none
  | .stored id owner status =>
    ∃ job, w.jobs id = some job ∧ job.apiKeyId = owner ∧ job.status = status

/-- The table and the phases of all requests agree, and no two requests have the same row. -/
structure Ledger (w : World) (φ : Phases Phase) : Prop where
  rows : ∀ id job, w.jobs id = some job → id ∈ w.issued ∧ job.id = id ∧ job.Consistent
  holds : ∀ t, (φ t).Holds w
  exclusive : ∀ t t' id, (φ t).id = some id → (φ t').id = some id → t = t'

namespace Ledger

variable {w w' : World} {φ : Phases Phase} {t : ℕ} {id : String}

theorem start (settings : Settings) (now : ℚ) :
    Ledger (.start settings now) fun _ => .idle where
  rows id job h := by cases h
  holds _ := trivial
  exclusive t t' id h := by cases h

/-- Every id a request has is in use. -/
theorem issued (h : Ledger w φ) (hid : (φ t).id = some id) : id ∈ w.issued := by
  have hholds := h.holds t
  cases hphase : φ t with
  | idle | lost =>
    rw [hphase] at hid
    cases hid
  | named id' =>
    rw [hphase] at hid hholds
    obtain rfl := Option.some.inj hid
    exact hholds.1
  | stored id' owner status =>
    rw [hphase] at hid hholds
    obtain rfl := Option.some.inj hid
    obtain ⟨job, hjob, _⟩ := hholds
    exact (h.rows _ _ hjob).1

/-- A step that leaves the table and the ids alone. -/
theorem unchanged (h : Ledger w φ) (hjobs : w'.jobs = w.jobs) (hissued : w'.issued = w.issued) :
    Ledger w' φ where
  rows id job hjob := by
    rw [hissued]
    rw [hjobs] at hjob
    exact h.rows id job hjob
  holds t := by
    have := h.holds t
    cases hphase : φ t with
    | idle | lost => trivial
    | named id =>
      rw [hphase] at this
      simp only [Phase.Holds, hjobs, hissued]
      exact this
    | stored id owner status =>
      rw [hphase] at this
      simp only [Phase.Holds, hjobs]
      exact this
  exclusive := h.exclusive

/-- **A step of the ledger**: request `t` changes at most the row `id`, which is its own or
nobody's, and comes to a phase about that row or about none. -/
theorem step (h : Ledger w φ) (w' : World) (phase : Phase)
    (hown : ∀ t', (φ t').id = some id → t' = t) (hissued : w.issued ⊆ w'.issued)
    (hothers : ∀ id', id' ≠ id → w'.jobs id' = w.jobs id')
    (hrow : ∀ job, w'.jobs id = some job → id ∈ w'.issued ∧ job.id = id ∧ job.Consistent)
    (hphase : phase.Holds w') (hid : phase.id = some id ∨ phase.id = none) :
    Ledger w' (Function.update φ t phase) where
  rows id' job hjob := by
    by_cases heq : id' = id
    · subst heq
      exact hrow job hjob
    · rw [hothers id' heq] at hjob
      obtain ⟨hmem, hrest⟩ := h.rows id' job hjob
      exact ⟨hissued hmem, hrest⟩
  holds t' := by
    by_cases heq : t' = t
    · subst heq
      rwa [Function.update_self]
    · rw [Function.update_of_ne heq]
      have := h.holds t'
      cases hphase' : φ t' with
      | idle | lost => trivial
      | named id' =>
        have hne : id' ≠ id := by
          rintro rfl
          exact heq (hown t' (by rw [hphase']; rfl))
        rw [hphase'] at this
        exact ⟨hissued this.1, (hothers id' hne).trans this.2⟩
      | stored id' owner status =>
        have hne : id' ≠ id := by
          rintro rfl
          exact heq (hown t' (by rw [hphase']; rfl))
        rw [hphase'] at this
        obtain ⟨job, hjob, hrest⟩ := this
        exact ⟨job, (hothers id' hne).trans hjob, hrest⟩
  exclusive t₁ t₂ id' h₁ h₂ := by
    -- the new phase has no id but `id`, and that is not another request's
    have hnew : ∀ t', t' ≠ t → (φ t').id = some id' → phase.id ≠ some id' := by
      intro t' hne ht' hnew
      rcases hid with hid | hid
      · rw [hid] at hnew
        obtain rfl := Option.some.inj hnew
        exact hne (hown t' ht')
      · rw [hid] at hnew
        cases hnew
    by_cases heq₁ : t₁ = t <;> by_cases heq₂ : t₂ = t
    · exact heq₁.trans heq₂.symm
    · rw [heq₁, Function.update_self] at h₁
      rw [Function.update_of_ne heq₂] at h₂
      exact absurd h₁ (hnew t₂ heq₂ h₂)
    · rw [Function.update_of_ne heq₁] at h₁
      rw [heq₂, Function.update_self] at h₂
      exact absurd h₂ (hnew t₁ heq₁ h₁)
    · rw [Function.update_of_ne heq₁] at h₁
      rw [Function.update_of_ne heq₂] at h₂
      exact h.exclusive t₁ t₂ id' h₁ h₂

/-- `tokenHex` names an id nobody has. -/
theorem tokenHex (h : Ledger w φ) (hfresh : id ∉ w.issued) :
    Ledger { w with issued := id :: w.issued } (Function.update φ t (.named id)) := by
  have hfree : w.jobs id = none := by
    cases hjob : w.jobs id with
    | none => rfl
    | some job => exact absurd (h.rows id job hjob).1 hfresh
  refine h.step _ (.named id) (fun t' ht' => absurd (h.issued ht') hfresh)
    (List.subset_cons_self _ _) (fun _ _ => rfl) (fun job hjob => ?_)
    ⟨List.mem_cons_self, hfree⟩ (.inl rfl)
  cases hfree.symm.trans hjob

/-- The insert of a row. -/
theorem createJob (h : Ledger w φ) {job : NewJob} (hphase : φ t = .named job.id)
    (hpending : job.status = .pending) (now : ℚ) {phase : Phase}
    (hnext : phase = .stored job.id job.apiKeyId .pending ∨ phase = .lost) :
    Ledger { w with jobs := w.jobs.create job now } (Function.update φ t phase) := by
  have hid : (φ t).id = some job.id := by rw [hphase]; rfl
  refine h.step _ phase (fun t' ht' => h.exclusive t' t _ ht' hid) (List.Subset.refl _)
    (fun id' hne => w.jobs.create_of_ne job now hne) (fun row hrow => ?_) ?_ ?_
  · obtain rfl := Option.some.inj ((w.jobs.create_self job now).symm.trans hrow)
    exact ⟨h.issued hid, rfl, NewJob.row_consistent hpending now⟩
  · rcases hnext with rfl | rfl
    · exact ⟨job.row now, w.jobs.create_self job now, rfl, hpending⟩
    · trivial
  · rcases hnext with rfl | rfl
    · exact .inl rfl
    · exact .inr rfl

/-- An update of a row, by the request that knows its status. -/
theorem updateJob (h : Ledger w φ) {owner : String} {status status' : JobStatus}
    {fields : List JobField} (hphase : φ t = .stored id owner status)
    (hupdate : RowUpdate status fields status') {phase : Phase}
    (hnext : phase = .stored id owner status' ∨ phase = .lost) :
    w.jobs.Evolves (w.jobs.update id fields) ∧
      Ledger { w with jobs := w.jobs.update id fields } (Function.update φ t phase) := by
  have hholds := h.holds t
  rw [hphase] at hholds
  obtain ⟨job, hjob, howner, hstatus⟩ := hholds
  obtain ⟨hissued, hjobid, hconsistent⟩ := h.rows id job hjob
  obtain ⟨hstatus', hfollows, hconsistent'⟩ := hupdate.spec hstatus hconsistent
  have hid : (φ t).id = some id := by rw [hphase]; rfl
  have hrow := JobTable.update_of_some hjob fields
  refine ⟨.update hjob hfollows, ?_⟩
  refine h.step _ phase (fun t' ht' => h.exclusive t' t _ ht' hid) (List.Subset.refl _)
    (fun id' hne => w.jobs.update_of_ne hne fields) (fun row hrow' => ?_) ?_ ?_
  · obtain rfl := Option.some.inj (hrow.symm.trans hrow')
    exact ⟨hissued, hfollows.id.trans hjobid, hconsistent'⟩
  · rcases hnext with rfl | rfl
    · exact ⟨_, hrow, hfollows.apiKeyId.trans howner, hstatus'⟩
    · trivial
  · rcases hnext with rfl | rfl
    · exact .inl rfl
    · exact .inr rfl

/-- A request that no longer knows its row. -/
theorem forget (h : Ledger w φ) (hid : (φ t).id = some id) :
    Ledger w (Function.update φ t .lost) :=
  h.step w .lost (fun t' ht' => h.exclusive t' t _ ht' hid) (List.Subset.refl _)
    (fun _ _ => rfl) (fun job hjob => h.rows id job hjob) trivial (.inr rfl)

end Ledger

/-- An id is handed out: `accept` returns with it, or a client is answered with it. -/
inductive HandsOut (id : String) : Event Service → Prop where
  | accept (job : NewJob) : job.id = id → HandsOut id ⟨.createJob job, .ok ()⟩
  | answer (reply : HttpReply) (status : JobStatus) :
    reply.body = .accepted ⟨id, status⟩ → HandsOut id ⟨.respond reply, ()⟩

/-- What a reply to request `t` keeps: the table evolves, an id that is handed out is found by the
caller, and the ledger goes on with the next phase of `t`. -/
def Keeping (owner : String) (w w' : World) (φ : Phases Phase) (t : ℕ) (op : Op)
    (r : Service.Reply op) : Prop :=
  (w.jobs.Evolves w'.jobs ∧ ∀ id, HandsOut id ⟨op, r⟩ → (w'.jobs.get id owner).isSome) ∧
    ∃ phase, (lifecycle owner).next (φ t) op r phase ∧ Ledger w' (Function.update φ t phase)

section

variable {owner : String} {w w' : World} {φ : Phases Phase} {t : ℕ} {before : ℚ}

/-- An insert, done or reported as failed. -/
theorem keeping_createJob (h : Ledger w φ) {job : NewJob} {r : Service.Reply (.createJob job)}
    (hallows : (lifecycle owner).allows (φ t) (.createJob job))
    (hanswers : w.answers before (.createJob job) r w') :
    Keeping owner w w' φ t (.createJob job) r := by
  obtain ⟨hphase, rfl, hpending⟩ := hallows
  obtain ⟨createdAt, hwrites⟩ := hanswers
  have hid : (φ t).id = some job.id := by rw [hphase]; rfl
  have hfree : w.jobs job.id = none := by
    have := h.holds t
    rw [hphase] at this
    exact this.2
  rcases r with name | ⟨⟩
  · -- the insert may have happened all the same
    obtain rfl | ⟨_, rfl⟩ := hwrites
    · exact ⟨⟨.create hfree hpending createdAt, nofun⟩, .lost, rfl,
        h.createJob hphase hpending createdAt (.inr rfl)⟩
    · exact ⟨⟨.refl _, nofun⟩, .lost, rfl, h.forget hid⟩
  · obtain rfl | ⟨hfailed, _⟩ := hwrites
    · refine ⟨⟨.create hfree hpending createdAt, ?_⟩, _, rfl,
        h.createJob hphase hpending createdAt (.inl rfl)⟩
      rintro id ⟨_, rfl⟩
      exact JobTable.get_isSome.mpr ⟨_, w.jobs.create_self job createdAt, rfl⟩
    · exact absurd rfl hfailed

/-- An update, done or reported as failed. -/
theorem keeping_updateJob (h : Ledger w φ) {id : String} {fields : List JobField}
    {r : Service.Reply (.updateJob id fields)}
    (hallows : (lifecycle owner).allows (φ t) (.updateJob id fields))
    (hanswers : w.answers before (.updateJob id fields) r w') :
    Keeping owner w w' φ t (.updateJob id fields) r := by
  obtain ⟨status, status', hphase, hrow⟩ := hallows
  have hid : (φ t).id = some id := by rw [hphase]; rfl
  rcases r with name | ⟨⟩
  · -- the update may have happened all the same
    obtain rfl | ⟨_, rfl⟩ := hanswers
    · obtain ⟨hevolves, hledger⟩ := h.updateJob hphase hrow (.inr rfl)
      exact ⟨⟨hevolves, nofun⟩, .lost, rfl, hledger⟩
    · exact ⟨⟨.refl _, nofun⟩, .lost, rfl, h.forget hid⟩
  · obtain rfl | ⟨hfailed, _⟩ := hanswers
    · obtain ⟨hevolves, hledger⟩ := h.updateJob hphase hrow (.inl rfl)
      exact ⟨⟨hevolves, nofun⟩, _, ⟨status, status', hphase, hrow, rfl⟩, hledger⟩
    · exact absurd rfl hfailed

/-- Any other request leaves the table and the ids alone. -/
theorem keeping_other (h : Ledger w φ) {op : Op} {r : Service.Reply op}
    (hallows : (lifecycle owner).allows (φ t) op) (hanswers : w.answers before op r w')
    (htoken : op ≠ .tokenHex) (hcreate : ∀ job, op ≠ .createJob job)
    (hupdate : ∀ id fields, op ≠ .updateJob id fields) : Keeping owner w w' φ t op r := by
  have hjobs : w'.jobs = w.jobs := (World.answers_leaves hanswers).jobs hcreate hupdate
  have hissued : w'.issued = w.issued := (World.answers_leaves hanswers).issued htoken
  have hnext : (lifecycle owner).next (φ t) op r (φ t) := by
    cases op with
    | tokenHex => exact absurd rfl htoken
    | createJob job => exact absurd rfl (hcreate job)
    | updateJob id fields => exact absurd rfl (hupdate id fields)
    | _ => rfl
  refine ⟨⟨?_, ?_⟩, φ t, hnext, ?_⟩
  · rw [hjobs]
    exact .refl _
  · rintro id (⟨job, _⟩ | ⟨reply, status, hbody⟩)
    · exact absurd rfl (hcreate job)
    · -- the client is answered with the id of a row the request knows
      have hholds := h.holds t
      rw [hallows _ hbody] at hholds
      obtain ⟨job, hjob, howner, _⟩ := hholds
      rw [hjobs]
      exact JobTable.get_isSome.mpr ⟨job, hjob, howner⟩
  · rw [Function.update_eq_self]
    exact h.unchanged hjobs hissued

/-- **One request of the process** keeps the ledger. -/
theorem ledger_step (h : Ledger w φ) {op : Op} {r : Service.Reply op}
    (hallows : (lifecycle owner).allows (φ t) op) (hstep : world.step w t op r w') :
    Keeping owner w w' φ t op r := by
  obtain ⟨now, _, hanswers⟩ := hstep
  have hlater : Ledger { w with now := now } φ := h.unchanged rfl rfl
  by_cases htoken : op = .tokenHex
  · subst htoken
    obtain ⟨hfresh, rfl⟩ := hanswers
    exact ⟨⟨.refl _, nofun⟩, _, rfl, hlater.tokenHex hfresh⟩
  by_cases hcreate : ∃ job, op = .createJob job
  · obtain ⟨job, rfl⟩ := hcreate
    exact keeping_createJob hlater hallows hanswers
  by_cases hupdate : ∃ id fields, op = .updateJob id fields
  · obtain ⟨id, fields, rfl⟩ := hupdate
    exact keeping_updateJob hlater hallows hanswers
  exact keeping_other hlater hallows hanswers htoken (fun job hop => hcreate ⟨job, hop⟩)
    fun id fields hop => hupdate ⟨id, fields, hop⟩

end

/-! ## The life cycle -/

/-- **The life cycle of every job.** In every run of any number of requests side by side, each
stopped or failing wherever it may be: every row is consistent; every step moves rows only along
the life cycle, loses none and keeps what a row was inserted with; a status once final stays; and an
id that was handed out to a caller is found by them ever after. -/
theorem job_life_cycle {env : Environment} {settings : Settings} {t₀ : ℚ} {w : World}
    {log : List (Entry Service World)} {tasks : List (Task (Route × Caller) Service Unit)}
    (hrun : Run world (fun request => serve env settings request.1 request.2)
      (World.start settings t₀) log w tasks) :
    (∀ id job, w.jobs id = some job → job.id = id ∧ job.Consistent) ∧
    (∀ en ∈ log, en.before.jobs.Evolves en.after.jobs) ∧
    (∀ en ∈ log, ∀ id job, en.after.jobs id = some job → job.status.isFinal = true →
      ∃ job', w.jobs id = some job' ∧ job'.status = job.status) ∧
    ∀ en ∈ log, ∃ task, tasks[en.task]? = some task ∧
      ∀ id, HandsOut id en.event → (w.jobs.get id task.label.2.id).isSome := by
  obtain ⟨φ, hledger, _, _, hentries⟩ := hrun.ghost
    (fun request : Route × Caller => lifecycle request.2.id) (fun _ _ _ => True) .idle Ledger
    (fun request en => en.before.jobs.Evolves en.after.jobs ∧
      ∀ id, HandsOut id en.event → (en.after.jobs.get id request.2.id).isSome)
    (Ledger.start settings t₀) (fun request => wp_serve_lifecycle env settings request.1 request.2)
    (fun request w φ t op r w' h hallows hstep => ledger_step h hallows hstep)
  have hevolves : ∀ en ∈ log, en.before.jobs.Evolves en.after.jobs := by
    intro en hen
    obtain ⟨_, _, h, _⟩ := hentries en hen
    exact h
  refine ⟨fun id job hjob => (hledger.rows id job hjob).2, hevolves, ?_, fun en hen => ?_⟩
  · intro en hen id job hjob hfinal
    refine hrun.chained.ever_after
      (fun w' => ∃ job', w'.jobs id = some job' ∧ job'.status = job.status) ?_ en hen
      ⟨job, hjob, rfl⟩
    rintro en' hen' ⟨job₁, hjob₁, hstatus₁⟩
    obtain ⟨job₂, hjob₂, hfollows⟩ := (hevolves en' hen').stays id job₁ hjob₁
    refine ⟨job₂, hjob₂, (hfollows.final ?_).trans hstatus₁⟩
    rw [hstatus₁]
    exact hfinal
  obtain ⟨task, htask, _, hfound⟩ := hentries en hen
  refine ⟨task, htask, fun id hid => ?_⟩
  exact hrun.chained.ever_after (fun w' => (w'.jobs.get id task.label.2.id).isSome)
    (fun en' hen' h => (hevolves en' hen').get_isSome h) en hen (hfound id hid)

/-- Settings without the rate limit. -/
def unlimited : Settings := { Settings.defaults with rateLimitEnabled := false }

unseal RetryPolicy.loop in
/-- Two jobs side by side: the first is completed while the second one is accepted, and the process
dies when the second cannot be marked as running. The first stays done, and the second is found. -/
theorem job_life_cycle_two :
    ∃ log w tasks,
      Run world (fun request : Route × Caller => serve .sample unlimited request.1 request.2)
        (World.start unlimited 0) log w tasks ∧
      (∃ job, w.jobs "j" = some job ∧ job.status = .succeeded) ∧
      (∃ en ∈ log, HandsOut "j'" en.event) ∧ (w.jobs.get "j'" "k'").isSome := by
  let issued : World := { World.start unlimited 0 with issued := ["j"] }
  let inserted : World := { issued with
    jobs := issued.jobs.create (JobService.newJob "j" hookRequest ⟨"k", "k"⟩ "llama3.2:3b") 0 }
  let running : World := { inserted with jobs := inserted.jobs.update "j" [.status .running] }
  let issued' : World := { running with issued := ["j'", "j"] }
  let inserted' : World := { issued' with
    jobs := issued'.jobs.create (JobService.newJob "j'" hookRequest ⟨"k'", "k'"⟩ "llama3.2:3b") 0 }
  let answered : World := { inserted' with breaker := inserted'.breaker.recordSuccess }
  let metered : World := { answered with
    usage := [CompletionService.entry ⟨"k", "k"⟩ "llama3.2:3b" 200 0 0 (some ⟨0, 0⟩)] }
  let completed : World := { metered with
    jobs := metered.jobs.update "j"
      (JobService.succeededFields ⟨"1", "llama3.2:3b", "Hello.", ⟨0, 0⟩⟩) }
  have h₀ : Run world (fun request : Route × Caller => serve .sample unlimited request.1 request.2)
      (World.start unlimited 0) _ _ _ := .spawn (.submit hookRequest, ⟨"k", "k"⟩) .start
  have h₁ := h₀.reply 0 rfl "j" issued ⟨0, le_rfl, List.not_mem_nil, rfl⟩
  have h₂ := h₁.reply 0 rfl (.ok ()) inserted ⟨0, le_rfl, 0, .inl rfl⟩
  have h₃ := h₂.reply 0 rfl () inserted ⟨0, le_rfl, rfl⟩
  have h₄ := h₃.reply 0 rfl (.ok ()) running ⟨0, le_rfl, .inl rfl⟩
  have h₅ := h₄.reply 0 rfl (0 : ℚ) running ⟨0, le_rfl, rfl, rfl⟩
  have h₆ := h₅.reply 0 rfl (0 : ℚ) running ⟨0, le_rfl, rfl, rfl⟩
  have h₇ := h₆.reply 0 rfl (.ok ()) running ⟨0, le_rfl, rfl, rfl⟩
  have h₈ := h₇.reply 0 rfl () running ⟨0, le_rfl, rfl⟩
  have hboth := h₈.spawn (.submit hookRequest, ⟨"k'", "k'"⟩)
  have h₉ := hboth.reply 1 rfl "j'" issued' ⟨0, le_rfl, by decide, rfl⟩
  have h₁₀ := h₉.reply 1 rfl (.ok ()) inserted' ⟨0, le_rfl, 0, .inl rfl⟩
  have h₁₁ := h₁₀.reply 1 rfl () inserted' ⟨0, le_rfl, rfl⟩
  have h₁₂ := h₁₁.reply 0 rfl (.response helloResponse) inserted' ⟨0, le_rfl, rfl⟩
  have h₁₃ := h₁₂.reply 0 rfl () answered ⟨0, le_rfl, rfl⟩
  have h₁₄ := h₁₃.reply 0 rfl (0 : ℚ) answered ⟨0, le_rfl, rfl, rfl⟩
  have h₁₅ := h₁₄.reply 0 rfl (.ok ()) metered ⟨0, le_rfl, .inl rfl⟩
  have h₁₆ := h₁₅.reply 0 rfl (.ok ()) completed ⟨0, le_rfl, .inl rfl⟩
  have h₁₇ := h₁₆.reply 1 rfl (.error "OperationalError") completed
    ⟨0, le_rfl, .inr ⟨nofun, rfl⟩⟩
  have hother : inserted'.jobs "j" = running.jobs "j" :=
    running.jobs.create_of_ne (JobService.newJob "j'" hookRequest ⟨"k'", "k'"⟩ "llama3.2:3b") 0
      (show "j" ≠ "j'" by decide)
  have hrunning : running.jobs "j" = some _ := JobTable.update_of_some (JobTable.create_self
    issued.jobs (JobService.newJob "j" hookRequest ⟨"k", "k"⟩ "llama3.2:3b") 0) _
  have hjob : completed.jobs "j" = some _ := JobTable.update_of_some (hother.trans hrunning) _
  obtain ⟨-, -, hkept, hfound⟩ := job_life_cycle h₁₇
  refine ⟨_, _, _, h₁₇, ?_, ?_⟩
  · obtain ⟨job, hjob', hstatus⟩ := hkept _ (List.mem_append_left _ List.mem_concat_self) "j" _ hjob
      rfl
    exact ⟨job, hjob', hstatus⟩
  · -- the answer to the second submission came six steps before
    have hlast : ∀ {log : List (Entry Service World)} {en e₁ e₂ e₃ e₄ e₅ e₆ : Entry Service World},
        en ∈ log ++ [en] ++ [e₁] ++ [e₂] ++ [e₃] ++ [e₄] ++ [e₅] ++ [e₆] := by simp
    obtain ⟨task, htask, hanswered⟩ := hfound _ hlast
    cases htask
    exact ⟨⟨_, hlast, .answer _ _ rfl⟩, hanswered "j'" (.answer _ _ rfl)⟩

end PrdApiWrapper
