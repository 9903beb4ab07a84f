import PrdApiWrapper.JobRun
import PrdApiWrapper.Rules

/-!
# Deliveries

`delivered_at` is what tells a delivered result from one that is not. `_deliver` sets it whenever
`deliver` returns, `deliver` returns unless the last answer is an error for httpx, and that is a
status of 400 to 599. The client follows no redirects, so a receiver that moved answers 302, and
its jobs count as delivered.
-/

namespace PrdApiWrapper

open Interaction

/-! ## What a trace shows -/

/-- What the receiver answered, POST by POST. -/
def callbackAnswers (trace : List (Event Service)) : List CallbackOutcome :=
  trace.filterMap fun
    | ⟨.callback _, outcome⟩ => some outcome
    | _ => none

/-- The job table after the updates of a trace that succeeded. -/
def tableAfter (table : JobTable) (trace : List (Event Service)) : JobTable :=
  trace.foldl (fun table => fun
    | ⟨.updateJob jobId fields, .ok ()⟩ => table.update jobId fields
    | _ => table) table

@[simp] theorem callbackAnswers_snoc (trace : List (Event Service)) (ev : Event Service) :
    callbackAnswers (trace ++ [ev]) = callbackAnswers trace ++ callbackAnswers [ev] :=
  List.filterMap_append

@[simp] theorem tableAfter_snoc (table : JobTable) (trace : List (Event Service))
    (ev : Event Service) :
    tableAfter table (trace ++ [ev]) = tableAfter (tableAfter table trace) [ev] :=
  List.foldl_append

/-- The repository works. -/
def Stores : Event Service → Prop
  | ⟨.updateJob _ _, reply⟩ => reply = .ok ()
  | _ => True

/-- The receiver accepted the result. -/
def CallbackOutcome.Accepts (outcome : CallbackOutcome) : Prop :=
  ∃ status, outcome = .response status ∧ 200 ≤ status ∧ status ≤ 299

/-! ## What is recorded of a delivery -/

section

variable {env : Environment} {settings : Settings} {table : JobTable}

/-- So far a trace shows these answers, and no change of the table. -/
def Tried (table : JobTable) (answers : List CallbackOutcome) (trace : List (Event Service)) :
    Prop :=
  callbackAnswers trace = answers ∧ tableAfter table trace = table

theorem tried_waits (answers : List CallbackOutcome) :
    Keeps (Protocol.observed Stores) Waits (Tried table answers) := by
  rintro op hop trace ⟨hanswers, htable⟩
  refine ⟨trivial, ?_⟩
  rintro r _ ⟨-, rfl⟩
  rw [Tried, callbackAnswers_snoc, tableAfter_snoc, hanswers, htable]
  cases hop <;> exact ⟨List.append_nil _, rfl⟩

theorem tried_time (answers : List CallbackOutcome) :
    Keeps (Protocol.observed Stores) (· = .time) (Tried table answers) := by
  rintro _ rfl trace ⟨hanswers, htable⟩
  refine ⟨trivial, ?_⟩
  rintro r _ ⟨-, rfl⟩
  rw [Tried, callbackAnswers_snoc, tableAfter_snoc, hanswers, htable]
  exact ⟨List.append_nil _, rfl⟩

/-- A finished delivery: every answer but the last was worth another attempt, and the row is
updated as its outcome says. -/
def Recorded (settings : Settings) (table : JobTable) (jobId : String)
    (trace : List (Event Service)) : Prop :=
  ∃ answers last outcome now, callbackAnswers trace = answers ++ [last] ∧
    Ends settings (answers.length + 1) last outcome ∧
    (∀ answer ∈ answers, answer.Retried) ∧
    (answers.length : ℤ) < max 1 settings.webhookMaxAttempts ∧
    tableAfter table trace = table.update jobId (deliveryFields
      (WebhookService.delivered (outcome, answers.length + 1)) now)

/-- The update of the row, after a trace that changed nothing. -/
theorem awp_store (env : Environment) (settings : Settings) {jobId : String}
    {fields : List JobField} {answers : List CallbackOutcome}
    {trace : List (Event Service)} (h : Tried table answers trace)
    {ok : Unit → List (Event Service) → Prop} {err : Exc → List (Event Service) → Prop}
    (hok : ∀ trace', callbackAnswers trace' = answers →
      tableAfter table trace' = table.update jobId fields → ok () trace') :
    Async.awp (Protocol.observed Stores) ((jobsOf env settings).jobs.update jobId fields) ok err
      trace := by
  obtain ⟨hanswers, htable⟩ := h
  simp only [jobsOf, stored, Async.awp_mk, Prog.wp_map]
  refine ⟨trivial, ?_⟩
  rintro r _ ⟨hworks, rfl⟩
  obtain rfl : r = .ok () := hworks
  apply hok
  · rw [callbackAnswers_snoc, hanswers]
    exact List.append_nil answers
  · rw [tableAfter_snoc, htable]
    rfl

/-- **What `_deliver` records.** -/
theorem deliverResult_recorded (jobId url : String) (payload : WebhookPayload) :
    Async.awp (Protocol.observed Stores) ((jobsOf env settings).deliverResult jobId url payload)
      (fun _ trace => Recorded settings table jobId trace)
      (fun _ trace => Recorded settings table jobId trace) [] := by
  have hcallback : ∀ answers trace timestamp, Tried table answers trace → True ∧
      ∀ (outcome : CallbackOutcome) trace', (Protocol.observed Stores).next trace
        (.callback ((webhookService env settings).postFor url (encode (env.dumpJson payload))
          timestamp)) outcome trace' → Tried table (answers ++ [outcome]) trace' := by
    rintro answers trace timestamp ⟨hanswers, htable⟩
    refine ⟨trivial, ?_⟩
    rintro outcome _ ⟨-, rfl⟩
    rw [Tried, callbackAnswers_snoc, tableAfter_snoc, hanswers, htable]
    exact ⟨rfl, rfl⟩
  simp only [JobService.deliverResult, Async.awp_tryCatch, Async.awp_bind, Async.awp_lift]
  refine Prog.wp_mono ?_ (wp_deliver tried_waits tried_time hcallback ⟨rfl, rfl⟩)
  rintro r trace ⟨answers, last, outcome, htried, hends, rfl, hretried, hbound⟩
  have hrecorded : ∀ fields now, fields = deliveryFields
      (WebhookService.delivered (outcome, answers.length + 1)) now → ∀ trace',
      callbackAnswers trace' = answers ++ [last] →
      tableAfter table trace' = table.update jobId fields →
      Recorded settings table jobId trace' := by
    rintro fields now rfl trace' hanswers htable
    exact ⟨answers, last, outcome, now, hanswers, hends, hretried, hbound, htable⟩
  cases outcome with
  | ok u =>
    refine ⟨trivial, ?_⟩
    rintro now _ ⟨-, rfl⟩
    refine awp_store env settings ⟨?_, ?_⟩ (hrecorded _ now rfl)
    · rw [callbackAnswers_snoc, htried.1]
      exact List.append_nil _
    · rw [tableAfter_snoc, htried.2]
      rfl
  | error exc =>
    cases exc with
    | app error =>
      have hcls := hends.cls_eq
      simp only [WebhookService.delivered, if_pos hcls]
      refine awp_store env settings htried (hrecorded _ 0 ?_)
      rw [WebhookService.delivered, if_pos hcls, deliveryFields, if_pos hcls]
    | foreign name =>
      refine hrecorded [] 0 rfl trace htried.1 ?_
      rw [htried.2, JobTable.update_nil]

end

/-! ## What a date of delivery means -/

/-- The statuses that are no error for httpx. -/
theorem posted_eq_ok {outcome : CallbackOutcome} : posted outcome = .ok () ↔
    ∃ status, outcome = .response status ∧ ¬ (400 ≤ status ∧ status ≤ 599) := by
  cases outcome with
  | requestError =>
    refine ⟨?_, ?_⟩
    · rintro ⟨⟩
    · rintro ⟨_, ⟨⟩, _⟩
  | foreign name =>
    refine ⟨?_, ?_⟩
    · rintro ⟨⟩
    · rintro ⟨_, ⟨⟩, _⟩
  | response status =>
    rw [posted]
    split
    · next herror =>
      refine ⟨?_, ?_⟩
      · rintro ⟨⟩
      · rintro ⟨_, ⟨⟩, hnot⟩
        exact absurd herror hnot
    · next hnot => exact iff_of_true rfl ⟨status, rfl, hnot⟩

/-- A row without a date gets one exactly if the POST came back without an error. -/
theorem deliveredAt_isSome {settings : Settings} {job : Job} (hnull : job.deliveredAt = none)
    {n : ℕ} {last : CallbackOutcome} {outcome : Except Exc Unit}
    (hends : Ends settings n last outcome) (now : ℚ) :
    (job.update (deliveryFields
      (WebhookService.delivered (outcome, n)) now)).deliveredAt.isSome = true ↔
        posted last = .ok () := by
  refine Iff.trans ?_ hends.eq_ok_iff
  cases outcome with
  | ok u => exact iff_of_true rfl rfl
  | error exc =>
    refine iff_of_false ?_ (by rintro ⟨⟩)
    cases exc with
    | app error =>
      have hcls := hends.cls_eq
      rw [WebhookService.delivered, if_pos hcls, deliveryFields, if_pos hcls, Job.update_cons,
        Job.update_nil, Job.setattr, hnull]
      exact Bool.false_ne_true
    | foreign name =>
      rw [WebhookService.delivered, deliveryFields, Job.update_nil, hnull]
      · exact Bool.false_ne_true
      · rintro _ ⟨⟩

/-- **When a date of delivery means that the receiver accepted.** In every finished `_deliver`, for
every sequence of answers and every configuration of the retries, with a repository that works: the
row has a date exactly if the last answer was a 2xx, if and only if no answer had a status that is
neither a 2xx nor an error. -/
theorem delivered_means_accepted {env : Environment} {settings : Settings} {jobId url : String}
    {payload : WebhookPayload} {trace : List (Event Service)} {outcome : Except Exc Unit}
    (hsteps : Prog.Steps ((jobsOf env settings).deliverResult jobId url payload).run trace
      (.ret outcome))
    (hstores : ∀ ev ∈ trace, Stores ev) {table : JobTable} {job : Job}
    (hrow : table jobId = some job) (hnull : job.deliveredAt = none) :
    ((∃ row, tableAfter table trace jobId = some row ∧ row.deliveredAt.isSome = true) ↔
      ∃ last ∈ (callbackAnswers trace).getLast?, last.Accepts) ↔
    ∀ status, .response status ∈ callbackAnswers trace →
      (200 ≤ status ∧ status ≤ 299) ∨ (400 ≤ status ∧ status ≤ 599) := by
  have hwp : ((jobsOf env settings).deliverResult jobId url payload).run.wp
      (Protocol.observed Stores) (fun _ trace => Recorded settings table jobId trace) [] :=
    (Async.awp_outcome _ (fun _ => Recorded settings table jobId) []).mp
      (deliverResult_recorded jobId url payload)
  obtain ⟨answers, last, outcome, now, hanswers, hends, hretried, -, htable⟩ :=
    Prog.wp_trace hwp hsteps hstores
  have hdate : (∃ row, tableAfter table trace jobId = some row ∧ row.deliveredAt.isSome = true) ↔
      posted last = .ok () := by
    rw [htable, JobTable.update_of_some hrow]
    simp only [Option.some.injEq, exists_eq_left', deliveredAt_isSome hnull hends]
  have hlast : (∃ last' ∈ (callbackAnswers trace).getLast?, last'.Accepts) ↔ last.Accepts := by
    rw [hanswers, List.getLast?_concat]
    simp only [Option.mem_def, Option.some.injEq, exists_eq_left']
  rw [hdate, hlast, hanswers, posted_eq_ok]
  refine ⟨?_, ?_⟩
  · intro hmeans status hstatus
    by_contra hneither
    obtain ⟨hnot, hnoerror⟩ := not_or.mp hneither
    rcases List.mem_append.mp hstatus with hearlier | hlatest
    -- an earlier answer was an error, since it was retried
    · obtain ⟨error, hposted, -⟩ := hretried _ hearlier
      have hok : posted (.response status) = .ok () := posted_eq_ok.mpr ⟨status, rfl, hnoerror⟩
      rw [hok] at hposted
      cases hposted
    · have hsame : .response status = last := List.mem_singleton.mp hlatest
      subst hsame
      obtain ⟨_, ⟨⟩, haccepts⟩ := hmeans.mp ⟨status, rfl, hnoerror⟩
      exact hnot haccepts
  · intro hall
    refine ⟨?_, ?_⟩
    · rintro ⟨status, rfl, hnoerror⟩
      rcases hall status (List.mem_append_right _ (List.mem_singleton_self _))
        with haccepts | herror
      · exact ⟨status, rfl, haccepts⟩
      · exact absurd herror hnoerror
    · rintro ⟨status, rfl, hlow, hhigh⟩
      exact ⟨status, rfl, by omega⟩

/-- What a job that got its answer tells its callback. -/
def helloPayload : WebhookPayload where
  jobId := "j"
  status := .succeeded
  model := "llama3.2:3b"
  content := some "Hello!"
  errorCode := none
  errorMessage := none

/-- The POST of it at time 0. -/
def helloPost : CallbackPost :=
  (webhookService .sample .defaults).postFor "https://example.com/hook"
    (encode (Environment.sample.dumpJson helloPayload)) 0

/-- A `_deliver` whose only POST is answered with this status. -/
def answeredWith (status : ℤ) : List (Event Service) :=
  [⟨.monotonic, (0 : ℚ)⟩, ⟨.time, (0 : ℚ)⟩, ⟨.callback helloPost, .response status⟩,
    ⟨.utcNow, (1 : ℚ)⟩, ⟨.updateJob "j" [.deliveryAttempts 1, .deliveredAt 1], .ok ()⟩]

/-- A `_deliver` whose first POST is answered with 503, and whose second one, made at once, with
200. -/
def triedTwice : List (Event Service) :=
  [⟨.monotonic, (0 : ℚ)⟩, ⟨.time, (0 : ℚ)⟩, ⟨.callback helloPost, .response 503⟩,
    ⟨.jitter, (0 : ℚ)⟩, ⟨.monotonic, (0 : ℚ)⟩, ⟨.sleep (.fin 0), ()⟩, ⟨.time, (0 : ℚ)⟩,
    ⟨.callback helloPost, .response 200⟩, ⟨.utcNow, (1 : ℚ)⟩,
    ⟨.updateJob "j" [.deliveryAttempts 2, .deliveredAt 1], .ok ()⟩]

unseal RetryPolicy.loop Rat.add Rat.sub Rat.mul Rat.inv in
theorem steps_triedTwice : Prog.Steps ((jobsOf .sample .defaults).deliverResult "j"
    "https://example.com/hook" helloPayload).run triedTwice (.ret (.ok ())) :=
  .cons (.cons (.cons (.cons (.cons (.cons (.cons (.cons (.cons (.cons (.refl _))))))))))

/-- A result that is accepted at the second POST has its date. -/
theorem delivered_means_accepted_second :
    (∃ row, tableAfter hookTable triedTwice "j" = some row ∧ row.deliveredAt.isSome = true) ∧
      ∃ last ∈ (callbackAnswers triedTwice).getLast?, last.Accepts := by
  have hstores : ∀ ev ∈ triedTwice, Stores ev := by
    simp [triedTwice, Stores]
  have hrow : hookTable "j" =
      some ((JobService.newJob "j" hookRequest ⟨"k", "k"⟩ "llama3.2:3b").row 0) :=
    JobTable.create_self ..
  have hanswered : ∀ status, .response status ∈ callbackAnswers triedTwice →
      (200 ≤ status ∧ status ≤ 299) ∨ (400 ≤ status ∧ status ≤ 599) := by
    intro status hstatus
    have hposts : status = 503 ∨ status = 200 := by
      simpa [triedTwice, callbackAnswers] using hstatus
    omega
  have hmeans := (delivered_means_accepted steps_triedTwice hstores hrow rfl).mpr hanswered
  have haccepts : ∃ last ∈ (callbackAnswers triedTwice).getLast?, last.Accepts :=
    ⟨_, rfl, 200, rfl, by decide, by decide⟩
  exact ⟨hmeans.mpr haccepts, haccepts⟩

unseal RetryPolicy.loop in
/-- A receiver that has moved answers 302, and its job is delivered. -/
theorem redirect_counts_as_delivered :
    ∃ trace, Prog.Steps ((jobsOf .sample .defaults).deliverResult "j" "https://example.com/hook"
        helloPayload).run trace (.ret (.ok ())) ∧ (∀ ev ∈ trace, Stores ev) ∧
      callbackAnswers trace = [.response 302] ∧
      (∃ row, tableAfter hookTable trace "j" = some row ∧ row.deliveredAt = some 1) ∧
      ¬ ∃ last ∈ (callbackAnswers trace).getLast?, last.Accepts := by
  refine ⟨answeredWith 302, .cons (.cons (.cons (.cons (.cons (.refl _))))), ?_, rfl,
    ⟨_, rfl, rfl⟩, ?_⟩
  · simp [answeredWith, Stores]
  · rintro ⟨_, ⟨⟩, status, hstatus, hlow, hhigh⟩
    cases hstatus
    omega

end PrdApiWrapper
