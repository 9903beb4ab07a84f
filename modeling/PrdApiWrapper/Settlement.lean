import PrdApiWrapper.Metering
import PrdApiWrapper.Provenance

/-!
# No job is forgotten

A caller who was given an id waits for a result. Nothing in the service takes up a job a second
time: what the background task of its own request does not finish stays unfinished. Two things only
can keep that task from writing a result and pushing it. The database refuses to write the status of
the row, or the attempts at the completion crash (`Crashes`), so that there is no failure to be
written either. `settled_iff` says that it is so, whatever the provider, the callback and the other
requests do.
-/

namespace PrdApiWrapper

open Interaction

/-! ## What a trace shows of a job -/

/-- The rows a trace has inserted. -/
def created (trace : List (Event Service)) : List NewJob :=
  trace.filterMap fun
    | ⟨.createJob job, .ok ()⟩ => some job
    | _ => none

/-- What a trace has sent to callbacks. -/
def pushed (trace : List (Event Service)) : List CallbackPost :=
  trace.filterMap fun
    | ⟨.callback post, _⟩ => some post
    | _ => none

/-- The status of a row could not be written. -/
def Hinders : Event Service → Prop
  | ⟨.updateJob _ fields, .error _⟩ => ∃ status, .status status ∈ fields
  | _ => False

/-- A status could not be written. -/
def Troubled (trace : List (Event Service)) : Prop := ∃ ev ∈ trace, Hinders ev

@[simp] theorem created_append (trace trace' : List (Event Service)) :
    created (trace ++ trace') = created trace ++ created trace' :=
  List.filterMap_append

@[simp] theorem pushed_append (trace trace' : List (Event Service)) :
    pushed (trace ++ trace') = pushed trace ++ pushed trace' :=
  List.filterMap_append

@[simp] theorem troubled_snoc (trace : List (Event Service)) (ev : Event Service) :
    Troubled (trace ++ [ev]) ↔ Troubled trace ∨ Hinders ev := by
  simp [Troubled, or_and_right, exists_or]

theorem mem_created {trace : List (Event Service)} {job : NewJob} :
    job ∈ created trace ↔ ⟨.createJob job, .ok ()⟩ ∈ trace := by
  rw [created, List.mem_filterMap]
  constructor
  · rintro ⟨⟨op, r⟩, hmem, hev⟩
    split at hev
    · obtain rfl := Option.some.inj hev
      next heq =>
        obtain ⟨rfl, heq⟩ := Event.mk.inj heq
        obtain rfl := eq_of_heq heq
        exact hmem
    · cases hev
  · exact fun hmem => ⟨_, hmem, rfl⟩

theorem mem_pushed {trace : List (Event Service)} {post : CallbackPost} :
    post ∈ pushed trace ↔ ∃ outcome, ⟨.callback post, outcome⟩ ∈ trace := by
  rw [pushed, List.mem_filterMap]
  constructor
  · rintro ⟨⟨op, r⟩, hmem, hev⟩
    split at hev
    · obtain rfl := Option.some.inj hev
      next heq =>
        obtain ⟨rfl, heq⟩ := Event.mk.inj heq
        obtain rfl := eq_of_heq heq
        exact ⟨_, hmem⟩
    · cases hev
  · exact fun ⟨outcome, hmem⟩ => ⟨_, hmem, rfl⟩

section

variable (env : Environment) (settings : Settings)

/-- The attempts did not crash. -/
def Uncrashed (trace : List (Event Service)) : Prop :=
  ¬ Crashes env.toLibraries settings.retryMaxAttempts (providerAnswers trace)

/-- The job was inserted and its result not pushed yet, and nothing is wrong with its row. -/
structure Pending (job : NewJob) (trace : List (Event Service)) : Prop where
  created : created trace = [job]
  pushed : pushed trace = []
  untroubled : ¬ Troubled trace

/-- The job was inserted, and what is needed for its result is lost. -/
structure Forgotten (job : NewJob) (trace : List (Event Service)) : Prop where
  created : created trace = [job]
  pushed : pushed trace = []
  lost : Troubled trace ∨ ¬ Uncrashed env settings trace

/-- The job was inserted and its result written. -/
structure Finished (request : JobRequest) (caller : Caller) (job : NewJob)
    (result : WebhookPayload) (trace : List (Event Service)) : Prop where
  created : created trace = [job]
  id : result.jobId = job.id
  written : Written request caller trace result
  untroubled : ¬ Troubled trace
  uncrashed : Uncrashed env settings trace

/-- The result was sent to the callback. -/
def Pushed (request : JobRequest) (result : WebhookPayload) (trace : List (Event Service)) : Prop :=
  ∃ timestamp, (webhookService env settings).postFor request.callbackUrl.text
    (encode (env.dumpJson result)) timestamp ∈ pushed trace

/-- The result was written and sent. -/
def Landed (request : JobRequest) (caller : Caller) (job : NewJob) (result : WebhookPayload)
    (trace : List (Event Service)) : Prop :=
  Finished env settings request caller job result trace ∧ Pushed env settings request result trace

end

variable {env : Environment} {settings : Settings} {request : JobRequest} {caller : Caller}
  {job : NewJob} {result : WebhookPayload} {trace : List (Event Service)}

/-- The requests that neither touch the row nor reach the provider's answer or the callback. -/
def Aside : Op → Prop
  | .createJob _ | .updateJob _ _ | .callback _ | .answer => False
  | _ => True

section

variable {op : Op} {r : Service.Reply op}

theorem Aside.created (h : Aside op) : created [⟨op, r⟩] = [] := by
  cases op <;> first | rfl | cases h

theorem Aside.pushed (h : Aside op) : pushed [⟨op, r⟩] = [] := by
  cases op <;> first | rfl | cases h

theorem Aside.providerAnswers (h : Aside op) : providerAnswers [⟨op, r⟩] = [] := by
  cases op <;> first | rfl | cases h

theorem Aside.not_hinders (h : Aside op) : ¬ Hinders ⟨op, r⟩ := by
  cases op <;> first | exact id | cases h

end

/-- What is known of a job is not changed by requests aside. -/
theorem keeps_forgotten :
    Keeps (Protocol.observed BreakerSays) Aside (Forgotten env settings job) := by
  rintro op hop trace ⟨hcreated, hpushed, hlost⟩
  refine ⟨trivial, ?_⟩
  rintro r _ ⟨-, rfl⟩
  exact ⟨by simp [hcreated, hop.created], by simp [hpushed, hop.pushed], by
    simpa [Uncrashed, hop.not_hinders, hop.providerAnswers] using hlost⟩

theorem keeps_finished : Keeps (Protocol.observed BreakerSays) Aside
    (Finished env settings request caller job result) := by
  rintro op hop trace ⟨hcreated, hid, hwritten, huntroubled, huncrashed⟩
  refine ⟨trivial, ?_⟩
  rintro r _ ⟨-, rfl⟩
  exact ⟨by simp [hcreated, hop.created], hid,
    lasting_written request caller result trace _ hwritten,
    by simp [huntroubled, hop.not_hinders],
    by simpa [Uncrashed, hop.providerAnswers] using huncrashed⟩

theorem lasting_pushed : Lasting (Pushed env settings request result) := by
  rintro trace ev ⟨timestamp, h⟩
  exact ⟨timestamp, by simp [h]⟩

/-- The requests of a completion are aside, but for the provider's answer. -/
theorem Completes.aside {op : Op} (h : Completes op) : Aside op ∨ op = .answer := by
  cases h with
  | record entry => exact .inl trivial
  | calls h =>
    cases h with
    | waits h => cases h <;> exact .inl trivial
    | answer => exact .inr rfl
    | _ => exact .inl trivial

/-- A job stays pending while its completion is asked for. -/
theorem keeps_pending : Keeps (Protocol.observed BreakerSays) (fun op => Aside op ∨ op = .answer)
    (Pending job) := by
  rintro op hop trace ⟨hcreated, hpushed, huntroubled⟩
  refine ⟨trivial, ?_⟩
  rintro r _ ⟨-, rfl⟩
  rcases hop with hop | rfl
  · exact ⟨by simp [hcreated, hop.created], by simp [hpushed, hop.pushed],
      by simp [huntroubled, hop.not_hinders]⟩
  · refine ⟨?_, ?_, by simp [huntroubled, Hinders]⟩
    · rw [created_append, hcreated]
      rfl
    · rw [pushed_append, hpushed]
      rfl

/-! ## What becomes of the job -/

/-- The record of a completion changes nothing for its job. -/
theorem awp_recordUsage_uncrashed {model : String} {statusCode : ℤ} {started : ℚ}
    {usage : Option CompletionUsage} (h : Pending job trace)
    (huncrashed : Uncrashed env settings trace) {err : Exc → List (Event Service) → Prop} :
    Async.awp (Protocol.observed BreakerSays)
      ((completionService env settings).recordUsage caller model statusCode started usage)
      (fun _ trace' => Pending job trace' ∧ Uncrashed env settings trace') err trace := by
  rw [awp_recordUsage]
  refine ⟨trivial, fun now trace₁ h₁ => ⟨trivial, fun r trace₂ h₂ => ⟨?_, ?_⟩⟩⟩
  · have hpending := (keeps_pending .monotonic (.inl trivial) trace h).2 now trace₁ h₁
    exact (keeps_pending (.record _) (.inl trivial) trace₁ hpending).2 r trace₂ h₂
  · obtain ⟨-, rfl⟩ := h₁
    obtain ⟨-, rfl⟩ := h₂
    simpa [Uncrashed, providerAnswers] using huncrashed

/-- **A completion** returns or raises an `AppError` exactly if its attempts do not crash. -/
theorem awp_complete_uncrashed (completion : CompletionRequest) (h : Pending job trace)
    (hseen : Seen [] trace) :
    Async.awp (Protocol.observed BreakerSays)
      ((completionService env settings).complete completion caller)
      (fun _ trace' => Pending job trace' ∧ Uncrashed env settings trace')
      (fun exc trace' => Pending job trace' ∧ match exc with
        | .app _ => Uncrashed env settings trace'
        | .foreign _ => ¬ Uncrashed env settings trace') trace := by
  have hcrashed : ∀ {model outcome trace}, AfterAttempts env settings model outcome trace →
      (recordedStatus outcome = none ↔ ¬ Uncrashed env settings trace) := by
    rintro model outcome trace ⟨answers, ⟨-, rfl⟩, hcrashed, -⟩
    rw [Uncrashed, not_not]
    exact hcrashed
  rw [awp_complete]
  refine ⟨trivial, ?_⟩
  rintro started trace₁ h₁
  have hpending := (keeps_pending .monotonic (.inl trivial) trace h).2 started trace₁ h₁
  have hseen₁ : Seen [] trace₁ := h₁.2 ▸ hseen.append_nothing ⟨rfl, rfl⟩
  refine Async.awp_mono ?_ ?_ (Async.awp_beside (attempts_only env settings _ _)
    (fun op hop => keeps_pending op (Completes.calls hop).aside) hpending
    (attempts_seen env settings _ _ hseen₁))
  · rintro response trace₂ ⟨hattempts, h₂⟩
    exact awp_recordUsage_uncrashed h₂ (not_not.mp (mt (hcrashed hattempts).mpr nofun))
  · rintro (error | name) trace₂ ⟨hattempts, h₂⟩
    · exact awp_recordUsage_uncrashed h₂ (not_not.mp (mt (hcrashed hattempts).mpr nofun))
    · exact ⟨h₂, (hcrashed hattempts).mp rfl⟩

/-- An update of the row that is not refused. -/
theorem awp_update_settles {id : String} {fields : List JobField}
    {ok err : List (Event Service) → Prop} (hok : ok (trace ++ [⟨.updateJob id fields, .ok ()⟩]))
    (herr : ∀ name, err (trace ++ [⟨.updateJob id fields, .error name⟩])) :
    Async.awp (Protocol.observed BreakerSays) ((jobsOf env settings).jobs.update id fields)
      (fun _ => ok) (fun _ => err) trace := by
  simp only [jobsOf, stored, Async.awp_mk, Prog.wp_map]
  refine ⟨trivial, ?_⟩
  rintro (name | ⟨⟩) _ ⟨-, rfl⟩
  · exact herr name
  · exact hok

/-- A status that cannot be written is lost. -/
theorem Pending.forgotten (h : Pending job trace) {id : String} {fields : List JobField}
    {status : JobStatus} (hfields : .status status ∈ fields) (name : String) :
    Forgotten env settings job (trace ++ [⟨.updateJob id fields, .error name⟩]) := by
  refine ⟨?_, ?_, .inl ((troubled_snoc _ _).mpr (.inr ⟨status, hfields⟩))⟩
  · rw [created_append, h.created]
    rfl
  · rw [pushed_append, h.pushed]
    rfl

/-- A status that is written leaves the job pending. -/
theorem Pending.update (h : Pending job trace) {id : String} {fields : List JobField} :
    Pending job (trace ++ [⟨.updateJob id fields, .ok ()⟩]) := by
  refine ⟨?_, ?_, by simp [h.untroubled, Hinders]⟩
  · rw [created_append, h.created]
    rfl
  · rw [pushed_append, h.pushed]
    rfl

theorem uncrashed_update {id : String} {fields : List JobField}
    {r : Service.Reply (.updateJob id fields)} (h : Uncrashed env settings trace) :
    Uncrashed env settings (trace ++ [⟨.updateJob id fields, r⟩]) := by
  rw [Uncrashed, providerAnswers_append]
  exact (List.append_nil (providerAnswers trace)).symm ▸ h

/-- `_execute` returns what it has written, or the job is lost. -/
theorem awp_execute_settles {id : String} {model : String}
    (hjob : job = JobService.newJob id request caller model) (h : Pending job trace)
    (hseen : Seen [] trace) :
    Async.awp (Protocol.observed BreakerSays) ((jobsOf env settings).execute id request caller)
      (fun result trace' => result.jobId = id ∧
        Finished env settings request caller job result trace')
      (fun _ trace' => Forgotten env settings job trace') trace := by
  have hwrites : ∀ {fields : List JobField} {status : JobStatus} {result : WebhookPayload}
      {trace : List (Event Service)}, Pending job trace → Uncrashed env settings trace →
      Tells request id fields result → result.jobId = id → .status status ∈ fields →
      Async.awp (Protocol.observed BreakerSays) ((jobsOf env settings).jobs.update id fields)
        (fun _ trace' => result.jobId = id ∧
          Finished env settings request caller job result trace')
        (fun _ trace' => Forgotten env settings job trace') trace := by
    intro fields status result trace h huncrashed htells hid hfields
    refine awp_update_settles ⟨hid, h.update.created, ?_, ⟨⟨model, ?_⟩, ?_⟩,
      h.update.untroubled, uncrashed_update huncrashed⟩ fun name => h.forgotten hfields name
    · rw [hid, hjob]
      rfl
    · rw [hid, ← hjob, ← mem_created, h.update.created]
      exact List.mem_singleton_self job
    · rw [hid]
      exact ⟨fields, htells, List.mem_concat_self⟩
  simp only [JobService.execute, JobService.catchAppError, Async.awp_bind, Async.awp_tryCatch,
    Async.awp_map]
  refine Async.awp_mono ?_ ?_ (awp_complete_uncrashed request.completionRequest h hseen)
  · rintro completion trace₁ ⟨h₁, huncrashed⟩
    simp only [Async.awp_pure]
    exact hwrites h₁ huncrashed (.succeeded completion) rfl (List.mem_cons_self ..)
  · rintro (error | name) trace₁ ⟨h₁, huncrashed⟩
    · simp only [Async.awp_bind, Async.awp_pure]
      exact hwrites h₁ huncrashed (.failed error) rfl (List.mem_cons_self ..)
    · exact ⟨h₁.created, h₁.pushed, .inr huncrashed⟩

/-- A row whose status is not touched. -/
theorem awp_update_landed {fields : List JobField} (hfields : ∀ status, .status status ∉ fields)
    (h : Landed env settings request caller job result trace) :
    Async.awp (Protocol.observed BreakerSays)
      ((jobsOf env settings).jobs.update result.jobId fields)
      (fun _ => Landed env settings request caller job result)
      (fun _ => Landed env settings request caller job result) trace := by
  obtain ⟨⟨hcreated, hid, hwritten, huntroubled, huncrashed⟩, hpushed⟩ := h
  have hafter : ∀ r, Landed env settings request caller job result
      (trace ++ [⟨.updateJob result.jobId fields, r⟩]) := by
    refine fun r => ⟨⟨?_, hid, lasting_written request caller result trace _ hwritten, ?_,
      uncrashed_update huncrashed⟩, lasting_pushed trace _ hpushed⟩
    · rw [created_append, hcreated]
      rfl
    · rw [troubled_snoc]
      rintro (htroubled | hhinders)
      · exact huntroubled htroubled
      · rcases r with name | ⟨⟩
        · obtain ⟨status, hmem⟩ := hhinders
          exact hfields status hmem
        · exact hhinders
  exact awp_update_settles (hafter _) fun _ => hafter _

/-- A delivery sends the result at least once. -/
theorem wp_deliver_landed (h : Finished env settings request caller job result trace) :
    ((webhookService env settings).deliver request.callbackUrl.text result).run.wp
      (Protocol.observed BreakerSays)
      (fun _ => Landed env settings request caller job result) trace := by
  let Sent (answers : List CallbackOutcome) (trace : List (Event Service)) : Prop :=
    Finished env settings request caller job result trace ∧
      (answers ≠ [] → Pushed env settings request result trace)
  have haside : ∀ answers, Keeps (Protocol.observed BreakerSays) Aside (Sent answers) := by
    rintro answers op hop trace ⟨hfinished, hsent⟩
    refine ⟨trivial, ?_⟩
    rintro r _ hr
    refine ⟨(keeps_finished op hop trace hfinished).2 r _ hr, fun hne => ?_⟩
    exact hr.2 ▸ lasting_pushed trace _ (hsent hne)
  refine Prog.wp_mono ?_ (wp_deliver (I := Sent) (fun answers op hop => haside answers op ?_)
    (fun answers op hop => haside answers op (hop ▸ trivial)) ?_ ⟨h, fun hne => (hne rfl).elim⟩)
  · rintro r trace' ⟨answers, last, outcome, ⟨hfinished, hsent⟩, -⟩
    exact ⟨hfinished, hsent (by simp)⟩
  · cases hop <;> trivial
  · rintro answers trace timestamp ⟨⟨hcreated, hid, hwritten, huntroubled, huncrashed⟩, -⟩
    refine ⟨trivial, ?_⟩
    rintro outcome _ ⟨-, rfl⟩
    refine ⟨⟨?_, hid, lasting_written request caller result trace _ hwritten,
      by simp [huntroubled, Hinders], ?_⟩, fun _ => ⟨timestamp, ?_⟩⟩
    · rw [created_append, hcreated]
      rfl
    · rw [Uncrashed, providerAnswers_append]
      exact (List.append_nil (providerAnswers trace)).symm ▸ huncrashed
    · rw [pushed_append]
      exact List.mem_concat_self

/-- Nothing that happens to a delivery is a setback. -/
theorem awp_deliverResult_settles (h : Finished env settings request caller job result trace) :
    Async.awp (Protocol.observed BreakerSays)
      ((jobsOf env settings).deliverResult result.jobId request.callbackUrl.text result)
      (fun _ => Landed env settings request caller job result)
      (fun _ => Landed env settings request caller job result) trace := by
  refine awp_deliverResult_keeps (Prog.wp_mono ?_ (wp_deliver_landed h)) ?_
    fun fields hfields trace h => awp_update_landed (by cases hfields <;> simp) h
  · rintro (exc | attempts) trace₁ h₁ <;> exact h₁
  · rintro op rfl trace₁ ⟨hfinished, hpushed⟩
    refine ⟨trivial, fun now trace₂ h₂ => ⟨?_, h₂.2 ▸ lasting_pushed trace₁ _ hpushed⟩⟩
    exact (keeps_finished .utcNow trivial trace₁ hfinished).2 now trace₂ h₂

/-- What is known of the job once its request has ended. -/
def Decided (env : Environment) (settings : Settings) (request : JobRequest) (caller : Caller)
    (job : NewJob) (trace : List (Event Service)) : Prop :=
  Forgotten env settings job trace ∨
    ∃ result, Landed env settings request caller job result trace

theorem keeps_decided : Keeps (Protocol.observed BreakerSays) Aside
    (Decided env settings request caller job) := by
  rintro op hop trace (hforgotten | ⟨result, hfinished, hpushed⟩)
  · obtain ⟨-, hnext⟩ := keeps_forgotten op hop trace hforgotten
    exact ⟨trivial, fun r trace' hr => .inl (hnext r trace' hr)⟩
  · obtain ⟨-, hnext⟩ := keeps_finished op hop trace hfinished
    refine ⟨trivial, fun r trace' hr => .inr ⟨result, hnext r trace' hr, ?_⟩⟩
    exact hr.2 ▸ lasting_pushed trace _ hpushed

/-- **The background half** decides what becomes of its job. -/
theorem awp_run_settles {id : String} {model : String}
    (hjob : job = JobService.newJob id request caller model) (h : Pending job trace)
    (hseen : Seen [] trace) :
    Async.awp (Protocol.observed BreakerSays) ((jobsOf env settings).run id request caller)
      (fun _ => Decided env settings request caller job)
      (fun _ => Decided env settings request caller job) trace := by
  have hrunning : Async.awp (Protocol.observed BreakerSays)
      ((jobsOf env settings).jobs.update id [.status .running])
      (fun _ trace₁ => Pending job trace₁ ∧ Seen [] trace₁)
      (fun _ => Decided env settings request caller job) trace :=
    awp_update_settles ⟨h.update, hseen.append_nothing ⟨rfl, rfl⟩⟩
      fun name => .inl (h.forgotten (List.mem_singleton_self _) name)
  simp only [JobService.run, Async.awp_bind]
  refine Async.awp_mono ?_ (fun _ _ h => h) hrunning
  rintro _ trace₁ ⟨h₁, hseen₁⟩
  refine Async.awp_mono ?_ (fun _ _ h => .inl h) (awp_execute_settles hjob h₁ hseen₁)
  rintro result trace₂ ⟨rfl, h₂⟩
  exact Async.awp_mono (fun _ _ h => .inr ⟨result, h⟩) (fun _ _ h => .inr ⟨result, h⟩)
    (awp_deliverResult_settles h₂)

/-- What is known of a request to submit that has ended. -/
def Concluded (env : Environment) (settings : Settings) (request : JobRequest) (caller : Caller)
    (trace : List (Event Service)) : Prop :=
  created trace = [] ∨ ∃ job, Decided env settings request caller job trace

theorem keeps_concluded : Keeps (Protocol.observed BreakerSays) Aside
    (Concluded env settings request caller) := by
  rintro op hop trace (hnone | ⟨job, hdecided⟩)
  · refine ⟨trivial, ?_⟩
    rintro r _ ⟨-, rfl⟩
    exact .inl (by simp [hnone, hop.created])
  · obtain ⟨-, hnext⟩ := keeps_decided op hop trace hdecided
    exact ⟨trivial, fun r trace' hr => .inr ⟨job, hnext r trace' hr⟩⟩

/-- **A request to submit** inserts no row, or decides what becomes of it. -/
theorem serve_settles (env : Environment) (settings : Settings) (request : JobRequest)
    (caller : Caller) :
    (serve env settings (.submit request) caller).wp (Protocol.observed BreakerSays)
      (fun _ => Concluded env settings request caller) [] := by
  -- what holds before the row is inserted
  let Fresh (trace : List (Event Service)) : Prop :=
    created trace = [] ∧ pushed trace = [] ∧ ¬ Troubled trace ∧ Seen [] trace
  have hlimit : Async.awp (Protocol.observed BreakerSays)
      (if (Route.submit request).limited then enforceRateLimit settings caller else pure [])
      (fun _ => Fresh) (fun _ => Concluded env settings request caller) [] := by
    have hstart : Fresh [] := ⟨rfl, rfl, by simp [Troubled], rfl, rfl⟩
    refine Async.awp_mono (fun _ _ h => h) (fun _ _ h => .inl h.1) (awp_gate ?_ hstart)
    rintro _ rfl trace ⟨hcreated, hpushed, huntroubled, hseen⟩
    refine ⟨trivial, ?_⟩
    rintro r _ ⟨-, rfl⟩
    refine ⟨?_, ?_, ?_, hseen.append_nothing ⟨rfl, rfl⟩⟩
    · rw [created_append, hcreated]
      rfl
    · rw [pushed_append, hpushed]
      rfl
    · rw [troubled_snoc]
      simp [huntroubled, Hinders]
  have hends : Keeps (Protocol.observed BreakerSays) Concluding
      (Concluded env settings request caller) :=
    fun op hop => keeps_concluded op (by cases hop <;> trivial)
  refine wp_serve_keeps hends hlimit fun trace₁ h₁ => ?_
  obtain ⟨hcreated, hpushed, huntroubled, hseen⟩ := h₁
  simp only [endpoint, JobService.accept, jobsOf, stored, Async.awp_bind, Async.awp_lift,
    Async.awp_mk, Async.awp_pure, Prog.wp_map]
  refine ⟨trivial, ?_⟩
  rintro id _ ⟨-, rfl⟩
  refine ⟨trivial, ?_⟩
  rintro (name | ⟨⟩) trace₂ ⟨-, rfl⟩
  · refine .inl ?_
    rw [created_append, created_append, hcreated]
    rfl
  · refine ⟨fun collected => ⟨trivial, fun u trace₃ h₃ => ?_⟩, by rintro ⟨⟩⟩
    let job := JobService.newJob id request caller (orElse request.model settings.upstreamModel)
    have h₂ : Pending job (trace₁ ++ [⟨.tokenHex, id⟩] ++ [⟨.createJob job, .ok ()⟩]) := by
      refine ⟨?_, ?_, ?_⟩
      · rw [created_append, created_append, hcreated]
        rfl
      · rw [pushed_append, pushed_append, hpushed]
        rfl
      · rw [troubled_snoc, troubled_snoc]
        simp [huntroubled, Hinders]
    have hpending := (keeps_pending (.respond _) (.inl trivial) _ h₂).2 u trace₃ h₃
    have hseen₃ : Seen [] trace₃ := h₃.2 ▸
      ((hseen.append_nothing ⟨rfl, rfl⟩).append_nothing ⟨rfl, rfl⟩).append_nothing ⟨rfl, rfl⟩
    exact Async.awp_mono (fun _ _ h => .inr ⟨job, h⟩) (fun _ _ h => .inr ⟨job, h⟩)
      (awp_run_settles rfl hpending hseen₃)

/-! ## All requests together -/

/-- **No job is forgotten.** In every run of any number of requests side by side: where a request to
submit has ended and its row was inserted, its caller finds a final result in that row, and the
callback was sent this very result, if and only if every status could be written and the attempts
at the completion did not crash. -/
theorem settled_iff {t₀ : ℚ} {w : World} {log : List (Entry Service World)}
    {tasks : List (Task (Route × Caller) Service Unit)}
    (h : Run world (fun request => serve env settings request.1 request.2)
      (World.start settings t₀) log w tasks) {t : ℕ}
    (hdone : tasks[t]? = some ⟨(.submit request, caller), .ret ()⟩)
    (hcreated : ⟨.createJob job, .ok ()⟩ ∈ ownTrace t log) :
    (∃ result row timestamp outcome, result.jobId = job.id ∧ result.status.isFinal = true ∧
      w.jobs job.id = some row ∧ row.Of request caller ∧ row.Says result ∧
      ⟨.callback ((webhookService env settings).postFor request.callbackUrl.text
        (encode (env.dumpJson result)) timestamp), outcome⟩ ∈ ownTrace t log) ↔
    ¬ Troubled (ownTrace t log) ∧
      ¬ Crashes env.toLibraries settings.retryMaxAttempts (providerAnswers (ownTrace t log)) := by
  have hreplied : ∀ ev ∈ ownTrace t log, BreakerSays ev := by
    intro ev hev
    obtain ⟨en, hen, -, rfl⟩ := mem_ownTrace.mp hev
    exact chained_breakerSays h.chained en hen
  have hsteps : Prog.Steps (serve env settings (.submit request) caller) (ownTrace t log)
      (.ret ()) := h.trace t _ hdone
  have hconcluded := Prog.wp_trace (serve_settles env settings request caller) hsteps hreplied
  have hjob := mem_created.mpr hcreated
  rcases hconcluded with hnone | ⟨job', hforgotten | ⟨result, hfinished, timestamp, hpost⟩⟩
  · rw [hnone] at hjob
    cases hjob
  · -- nothing was sent
    refine iff_of_false ?_ ?_
    · rintro ⟨result, row, timestamp, outcome, -, -, -, -, -, hmem⟩
      have hsent := mem_pushed.mpr ⟨outcome, hmem⟩
      rw [hforgotten.pushed] at hsent
      cases hsent
    · rintro ⟨huntroubled, huncrashed⟩
      exact hforgotten.lost.elim huntroubled fun hlost => hlost huncrashed
  · rw [hfinished.created] at hjob
    obtain rfl := List.mem_singleton.mp hjob
    obtain ⟨outcome, hmem⟩ := mem_pushed.mp hpost
    obtain ⟨row, hrow, hof, hsays⟩ := run_written h hfinished.written
    obtain ⟨fields, htells, -⟩ := hfinished.written.written
    rw [hfinished.id] at hrow
    exact iff_of_true ⟨result, row, timestamp, outcome, hfinished.id, htells.isFinal, hrow, hof,
      hsays, hmem⟩ ⟨hfinished.untroubled, hfinished.uncrashed⟩

unseal RetryPolicy.loop in
/-- The sample job, delivered at once. -/
theorem run_settled : ∃ log w, Run world
      (fun request : Route × Caller => serve .sample unlimited request.1 request.2)
      (World.start unlimited 0) log w [⟨(.submit hookRequest, ⟨"k", "k"⟩), .ret ()⟩] ∧
    ⟨.createJob (JobService.newJob "j" hookRequest ⟨"k", "k"⟩ "llama3.2:3b"), .ok ()⟩ ∈
      ownTrace 0 log ∧
    ¬ Troubled (ownTrace 0 log) ∧
    ∀ outcome ∈ providerAnswers (ownTrace 0 log), outcome = .response helloResponse := by
  let issued : World := { World.start unlimited 0 with issued := ["j"] }
  let inserted : World := { issued with
    jobs := issued.jobs.create (JobService.newJob "j" hookRequest ⟨"k", "k"⟩ "llama3.2:3b") 0 }
  let running : World := { inserted with jobs := inserted.jobs.update "j" [.status .running] }
  let answered : World := { running with breaker := running.breaker.recordSuccess }
  let metered : World := { answered with
    usage := [CompletionService.entry ⟨"k", "k"⟩ "llama3.2:3b" 200 0 0 (some ⟨0, 0⟩)] }
  let delivered : World := { helloWorld with
    jobs := helloWorld.jobs.update "j" [.deliveryAttempts 1, .deliveredAt 0] }
  have h₀ : Run world (fun request : Route × Caller => serve .sample unlimited request.1 request.2)
      (World.start unlimited 0) _ _ _ := .spawn (.submit hookRequest, ⟨"k", "k"⟩) .start
  have h₁ := h₀.reply 0 rfl "j" issued ⟨0, le_rfl, List.not_mem_nil, rfl⟩
  have h₂ := h₁.reply 0 rfl (.ok ()) inserted ⟨0, le_rfl, 0, .inl rfl⟩
  have h₃ := h₂.reply 0 rfl () inserted ⟨0, le_rfl, rfl⟩
  have h₄ := h₃.reply 0 rfl (.ok ()) running ⟨0, le_rfl, .inl rfl⟩
  have h₅ := h₄.reply 0 rfl (0 : ℚ) running ⟨0, le_rfl, rfl, rfl⟩
  have h₆ := h₅.reply 0 rfl (0 : ℚ) running ⟨0, le_rfl, rfl, rfl⟩
  have h₇ := h₆.reply 0 rfl (.ok ()) running ⟨0, le_rfl, rfl, rfl⟩
  have h₈ := h₇.reply 0 rfl () running ⟨0, le_rfl, rfl⟩
  have h₉ := h₈.reply 0 rfl (.response helloResponse) running ⟨0, le_rfl, rfl⟩
  have h₁₀ := h₉.reply 0 rfl () answered ⟨0, le_rfl, rfl⟩
  have h₁₁ := h₁₀.reply 0 rfl (0 : ℚ) answered ⟨0, le_rfl, rfl, rfl⟩
  have h₁₂ := h₁₁.reply 0 rfl (.ok ()) metered ⟨0, le_rfl, .inl rfl⟩
  have h₁₃ := h₁₂.reply 0 rfl (.ok ()) helloWorld ⟨0, le_rfl, .inl rfl⟩
  have h₁₄ := h₁₃.reply 0 rfl (0 : ℚ) helloWorld ⟨0, le_rfl, rfl, rfl⟩
  have h₁₅ := h₁₄.reply 0 rfl (0 : ℚ) helloWorld ⟨0, le_rfl, rfl⟩
  have h₁₆ := h₁₅.reply 0 rfl (.response 200) helloWorld ⟨0, le_rfl, rfl⟩
  have h₁₇ := h₁₆.reply 0 rfl (0 : ℚ) helloWorld ⟨0, le_rfl, rfl⟩
  have h₁₈ := h₁₇.reply 0 rfl (.ok ()) delivered ⟨0, le_rfl, .inl rfl⟩
  have h₁₉ := h₁₈.reply 0 rfl (.ok ()) delivered ⟨0, le_rfl, rfl⟩
  obtain ⟨log, hend, hinserted, hevents⟩ : ∃ log, Run world
      (fun request : Route × Caller => serve .sample unlimited request.1 request.2)
      (World.start unlimited 0) log delivered [⟨(.submit hookRequest, ⟨"k", "k"⟩), .ret ()⟩] ∧
      (∃ en ∈ log, en.task = 0 ∧ en.event =
        ⟨.createJob (JobService.newJob "j" hookRequest ⟨"k", "k"⟩ "llama3.2:3b"), .ok ()⟩) ∧
      ∀ en ∈ log, ¬ Hinders en.event ∧
        ∀ outcome ∈ providerAnswers [en.event], outcome = .response helloResponse := by
    refine ⟨_, h₁₉, ?_, by simp [Entry.event, Hinders, providerAnswers]⟩
    simp only [Entry.event, List.nil_append, List.cons_append, List.mem_cons]
    exact ⟨_, .inr (.inl rfl), rfl, rfl⟩
  refine ⟨_, _, hend, ?_, ?_, ?_⟩
  · obtain ⟨en, hen, htask, hevent⟩ := hinserted
    exact mem_ownTrace.mpr ⟨en, hen, htask, hevent⟩
  · rintro ⟨ev, hev, hhinders⟩
    obtain ⟨en, hen, -, rfl⟩ := mem_ownTrace.mp hev
    exact (hevents en hen).1 hhinders
  · intro outcome hmem
    obtain ⟨ev, hev, houtcome⟩ := List.mem_filterMap.mp hmem
    obtain ⟨en, hen, -, rfl⟩ := mem_ownTrace.mp hev
    exact (hevents en hen).2 outcome
      (List.mem_filterMap.mpr ⟨_, List.mem_singleton_self _, houtcome⟩)

/-- A job whose row cannot be set to running. -/
theorem run_unsettled : ∃ log w, Run world
      (fun request : Route × Caller => serve .sample unlimited request.1 request.2)
      (World.start unlimited 0) log w [⟨(.submit hookRequest, ⟨"k", "k"⟩), .ret ()⟩] ∧
    ⟨.createJob (JobService.newJob "j" hookRequest ⟨"k", "k"⟩ "llama3.2:3b"), .ok ()⟩ ∈
      ownTrace 0 log ∧ Troubled (ownTrace 0 log) := by
  let issued : World := { World.start unlimited 0 with issued := ["j"] }
  let inserted : World := { issued with
    jobs := issued.jobs.create (JobService.newJob "j" hookRequest ⟨"k", "k"⟩ "llama3.2:3b") 0 }
  have h₀ : Run world (fun request : Route × Caller => serve .sample unlimited request.1 request.2)
      (World.start unlimited 0) _ _ _ := .spawn (.submit hookRequest, ⟨"k", "k"⟩) .start
  have h₁ := h₀.reply 0 rfl "j" issued ⟨0, le_rfl, List.not_mem_nil, rfl⟩
  have h₂ := h₁.reply 0 rfl (.ok ()) inserted ⟨0, le_rfl, 0, .inl rfl⟩
  have h₃ := h₂.reply 0 rfl () inserted ⟨0, le_rfl, rfl⟩
  have h₄ := h₃.reply 0 rfl (.error "OperationalError") inserted ⟨0, le_rfl, .inr ⟨nofun, rfl⟩⟩
  have h₅ := h₄.reply 0 rfl (.ok ()) inserted ⟨0, le_rfl, rfl⟩
  exact ⟨_, _, h₅, .tail _ (.head _), _, .tail _ (.tail _ (.tail _ (.head _))), .running, .head _⟩

/-- The sample job is settled in the one run, and not in the other. -/
theorem settled_iff_hello :
    (∃ log w, Run world
        (fun request : Route × Caller => serve .sample unlimited request.1 request.2)
        (World.start unlimited 0) log w [⟨(.submit hookRequest, ⟨"k", "k"⟩), .ret ()⟩] ∧
      ∃ (result : WebhookPayload) (row : Job) (timestamp : ℤ) (outcome : CallbackOutcome),
        result.jobId = "j" ∧ result.status.isFinal = true ∧ w.jobs "j" = some row ∧
        row.Of hookRequest ⟨"k", "k"⟩ ∧ row.Says result ∧
        ⟨.callback ((webhookService .sample unlimited).postFor hookRequest.callbackUrl.text
          (encode (Environment.sample.dumpJson result)) timestamp), outcome⟩ ∈ ownTrace 0 log) ∧
    ∃ log w, Run world
        (fun request : Route × Caller => serve .sample unlimited request.1 request.2)
        (World.start unlimited 0) log w [⟨(.submit hookRequest, ⟨"k", "k"⟩), .ret ()⟩] ∧
      ¬ ∃ (result : WebhookPayload) (row : Job) (timestamp : ℤ) (outcome : CallbackOutcome),
        result.jobId = "j" ∧ result.status.isFinal = true ∧ w.jobs "j" = some row ∧
        row.Of hookRequest ⟨"k", "k"⟩ ∧ row.Says result ∧
        ⟨.callback ((webhookService .sample unlimited).postFor hookRequest.callbackUrl.text
          (encode (Environment.sample.dumpJson result)) timestamp), outcome⟩ ∈ ownTrace 0 log := by
  refine ⟨?_, ?_⟩
  · obtain ⟨log, w, hrun, hcreated, huntroubled, hanswers⟩ := run_settled
    refine ⟨log, w, hrun, (settled_iff (t := 0) hrun rfl hcreated).mpr ⟨huntroubled, ?_⟩⟩
    rintro ⟨k, outcome, hk, hcrash⟩
    obtain rfl := hanswers outcome (List.mem_of_getElem? hk)
    rcases hcrash with haborts | ⟨hunwaited, -⟩
    · exact haborts nofun
    · rcases hunwaited with hnan | ⟨hnothing, -⟩
      · exact absurd hnan.1 (by decide)
      · rcases hnothing with hlimited | hserver
        · exact absurd hlimited.1 (by decide)
        · exact absurd hserver.1 (by decide)
  · obtain ⟨log, w, hrun, hcreated, htroubled⟩ := run_unsettled
    exact ⟨log, w, hrun, fun hsettled =>
      ((settled_iff (t := 0) hrun rfl hcreated).mp hsettled).1 htroubled⟩

end PrdApiWrapper
