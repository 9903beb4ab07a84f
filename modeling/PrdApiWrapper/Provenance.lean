import PrdApiWrapper.RowHistory

/-!
# Where results come from

A result is made once, from the provider's answer, and then goes two ways: into its row, where its
caller finds it, and to the callback. What is said here is that neither way makes anything up: what
a row holds was answered by the provider and recorded as usage by the same request (`Justified`),
and what is posted to a callback is in the row already, and stays there.
-/

namespace PrdApiWrapper

open Interaction

variable {env : Environment} {settings : Settings}

/-! ## What a request has seen -/

/-- A usage record was asked for. -/
def Records (caller : Caller) (model : String) (trace : List (Event Service)) (statusCode : ℤ)
    (usage : Option CompletionUsage) : Prop :=
  ∃ started now r,
    ⟨.record (CompletionService.entry caller model statusCode started now usage), r⟩ ∈ trace

/-- The provider was sent `upstream`, and answered with this completion. -/
def Answers (env : Environment) (upstream : UpstreamPayload) (trace : List (Event Service))
    (completion : CompletionResponse) : Prop :=
  ∃ earlier outcome later,
    trace = earlier ++ ⟨.post upstream, ()⟩ :: ⟨.answer, outcome⟩ :: later ∧
    received env.toLibraries upstream.model outcome = .ok completion

/-- What the provider is sent for a request. -/
def upstreamFor (settings : Settings) (request : CompletionRequest) : UpstreamPayload where
  model := orElse request.model settings.upstreamModel
  prompt := request.prompt
  temperature := request.temperature
  maxTokens := request.maxTokens

/-- The updates of a row, with what the request has seen by then. -/
inductive Justified (env : Environment) (caller : Caller) (upstream : UpstreamPayload)
    (trace : List (Event Service)) : List JobField → Prop where
  | start : Justified env caller upstream trace [.status .running]
  | succeed (completion : CompletionResponse) : Answers env upstream trace completion →
    Records caller upstream.model trace 200 (some completion.usage) →
    Justified env caller upstream trace (JobService.succeededFields completion)
  | fail (error : AppError) : Records caller upstream.model trace error.statusCode none →
    Justified env caller upstream trace (JobService.failedFields error)
  | deliver (attempts : ℤ) (now : ℚ) :
    Justified env caller upstream trace [.deliveryAttempts attempts, .deliveredAt now]
  | giveUp (attempts : ℤ) : Justified env caller upstream trace [.deliveryAttempts attempts]

/-- What the callback is told, beside what is written to the row. -/
inductive Tells (request : JobRequest) (id : String) : List JobField → WebhookPayload → Prop where
  | succeeded (completion : CompletionResponse) :
    Tells request id (JobService.succeededFields completion)
      (JobService.succeededPayload id completion)
  | failed (error : AppError) :
    Tells request id (JobService.failedFields error) (JobService.failedPayload id request error)

/-- The row of the request was inserted under this id. -/
def Inserted (request : JobRequest) (caller : Caller) (id : String)
    (trace : List (Event Service)) : Prop :=
  ∃ model, ⟨.createJob (JobService.newJob id request caller model), .ok ()⟩ ∈ trace

/-- The row of the request was inserted, and its result written. -/
structure Written (request : JobRequest) (caller : Caller) (trace : List (Event Service))
    (payload : WebhookPayload) : Prop where
  inserted : Inserted request caller payload.jobId trace
  written : ∃ fields, Tells request payload.jobId fields payload ∧
    ⟨.updateJob payload.jobId fields, .ok ()⟩ ∈ trace

/-- What a request may ask of its row and of its callback, after what it has seen. -/
def Evidence (env : Environment) (settings : Settings) (request : Route × Caller)
    (trace : List (Event Service)) : Op → Prop
  | .updateJob id fields => ∃ payload, request.1 = .submit payload ∧
      Inserted payload request.2 id trace ∧
      Justified env request.2 (upstreamFor settings payload.completionRequest) trace fields
  | .callback post => ∃ payload result timestamp, request.1 = .submit payload ∧
      Written payload request.2 trace result ∧
      post = (webhookService env settings).postFor payload.callbackUrl.text
        (encode (env.dumpJson result)) timestamp
  | _ => True

/-- A fact about what has been seen that stays one. -/
def Lasting (P : List (Event Service) → Prop) : Prop := ∀ trace ev, P trace → P (trace ++ [ev])

theorem lasting_inserted (request : JobRequest) (caller : Caller) (id : String) :
    Lasting (Inserted request caller id) :=
  fun _ _ ⟨model, h⟩ => ⟨model, List.mem_append_left _ h⟩

theorem lasting_records (caller : Caller) (model : String) (statusCode : ℤ)
    (usage : Option CompletionUsage) :
    Lasting fun trace => Records caller model trace statusCode usage :=
  fun _ _ ⟨started, now, r, h⟩ => ⟨started, now, r, List.mem_append_left _ h⟩

theorem lasting_answers (env : Environment) (upstream : UpstreamPayload)
    (completion : CompletionResponse) :
    Lasting fun trace => Answers env upstream trace completion :=
  fun trace ev ⟨earlier, outcome, later, htrace, h⟩ =>
    ⟨earlier, outcome, later ++ [ev], by rw [htrace]; simp, h⟩

theorem Lasting.append {P : List (Event Service) → Prop} (h : Lasting P)
    {trace : List (Event Service)} (htrace : P trace) (more : List (Event Service)) :
    P (trace ++ more) := by
  induction more using List.reverseRecOn with
  | nil => rwa [List.append_nil]
  | append_singleton more ev ih =>
    rw [← List.append_assoc]
    exact h _ ev ih

/-- So it holds of a request's part of a whole log if it holds of that of an earlier log. -/
theorem Lasting.ownTrace {P : List (Event Service) → Prop} (h : Lasting P) {W : Type} {t : ℕ}
    {earlier : List (Entry Service W)} (hearlier : P (ownTrace t earlier))
    (later : List (Entry Service W)) : P (Interaction.ownTrace t (earlier ++ later)) := by
  rw [Interaction.ownTrace, List.filter_append, List.map_append]
  exact h.append hearlier _

theorem Lasting.and {P P' : List (Event Service) → Prop} (h : Lasting P) (h' : Lasting P') :
    Lasting fun trace => P trace ∧ P' trace :=
  fun trace ev hboth => ⟨h trace ev hboth.1, h' trace ev hboth.2⟩

section

variable {allows : List (Event Service) → Op → Prop} {P : List (Event Service) → Prop}
  {trace : List (Event Service)}

/-- What is allowed at any time keeps a lasting fact. -/
theorem keeps_lasting {R : Op → Prop} (hallows : ∀ trace op, R op → allows trace op)
    (hP : Lasting P) : Keeps (Protocol.guarded allows) R P := by
  refine fun op hop trace h => ⟨hallows trace op hop, ?_⟩
  rintro r _ rfl
  exact hP trace _ h

/-- The attempts at a completion return what the provider answered. -/
theorem awp_attempts_seen (hallows : ∀ trace op, CallsProvider op → allows trace op)
    (hP : Lasting P) (payload : UpstreamPayload) (h : P trace) :
    Async.awp (Protocol.guarded allows)
      ((completionService env settings).retry.run
        ((completionService env settings).guardedCall payload payload.model))
      (fun completion trace' => P trace' ∧ Answers env payload trace' completion)
      (fun _ trace' => P trace') trace := by
  have hkeeps := keeps_lasting hallows hP
  refine RetryPolicy.awp_run (fun _ => P) (fun _ _ => P)
    (hkeeps _ (.waits .monotonic) trace h) (fun k trace₁ h₁ => ?_) (fun _ _ _ h _ => h)
    fun started k error trace₁ h₁ _ _ => ?_
  · rw [awp_guardedCall]
    obtain ⟨hallow₁, hnext₁⟩ := hkeeps _ .beforeCall trace₁ h₁
    refine ⟨hallow₁, fun r trace₂ hr => ?_⟩
    have h₂ := hnext₁ r trace₂ hr
    rcases r with (error | name) | ⟨⟩
    · exact h₂
    · exact h₂
    · obtain ⟨hallow₂, hnext₂⟩ := hkeeps _ (.post payload) trace₂ h₂
      refine ⟨hallow₂, fun u trace₃ hu => ?_⟩
      obtain ⟨hallow₃, hnext₃⟩ := hkeeps _ .answer trace₃ (hnext₂ u trace₃ hu)
      refine ⟨hallow₃, fun outcome trace₄ ho => ?_⟩
      have h₄ := hnext₃ outcome trace₄ ho
      cases hreceived : received env.toLibraries payload.model outcome with
      | ok completion =>
        have hanswers : Answers env payload trace₄ completion := by
          obtain rfl := ho
          obtain rfl := hu
          exact ⟨trace₂, outcome, [], by simp, hreceived⟩
        exact keeps_lasting hallows (hP.and (lasting_answers env payload completion)) _
          .recordSuccess trace₄ ⟨h₄, hanswers⟩
      | error exc =>
        match exc with
        | .foreign name => exact h₄
        | .app error =>
          simp only
          split
          · exact hkeeps _ .recordFailure trace₄ h₄
          · exact h₄
  · refine awp_servicePause (fun op hop => hkeeps op (.waits hop)) h₁ (fun _ again _ h₂ => ?_)
      fun _ _ _ h₂ => h₂
    cases again <;> exact h₂

/-- A completion returns what the provider answered, and asks for a record of it, or of the error it
raises. -/
theorem awp_complete_seen (hallows : ∀ trace op, Completes op → allows trace op) (hP : Lasting P)
    (request : CompletionRequest) (caller : Caller) (h : P trace) :
    Async.awp (Protocol.guarded allows)
      ((completionService env settings).complete request caller)
      (fun completion trace' => P trace' ∧
        Answers env (upstreamFor settings request) trace' completion ∧
        Records caller (upstreamFor settings request).model trace' 200 (some completion.usage))
      (fun exc trace' => P trace' ∧ ∀ error, exc = .app error →
        Records caller (upstreamFor settings request).model trace' error.statusCode none)
      trace := by
  have hrecord : ∀ {P' : List (Event Service) → Prop} (statusCode : ℤ) (started : ℚ) usage trace
      (err : Exc → List (Event Service) → Prop), Lasting P' → P' trace →
      Async.awp (Protocol.guarded allows) ((completionService env settings).recordUsage caller
        (upstreamFor settings request).model statusCode started usage)
        (fun _ trace' => P' trace' ∧
          Records caller (upstreamFor settings request).model trace' statusCode usage)
        err trace := by
    intro P' statusCode started usage trace err hP' h'
    have hkeeps := keeps_lasting hallows hP'
    rw [awp_recordUsage]
    obtain ⟨hallow, hnext⟩ := hkeeps _ (.calls (.waits .monotonic)) trace h'
    refine ⟨hallow, fun now trace₁ h₁ => ?_⟩
    obtain ⟨hallow₁, hnext₁⟩ := hkeeps _ (.record _) trace₁ (hnext now trace₁ h₁)
    refine ⟨hallow₁, fun r trace₂ h₂ => ⟨hnext₁ r trace₂ h₂, started, now, r, ?_⟩⟩
    obtain rfl := h₂
    exact List.mem_concat_self
  rw [awp_complete]
  obtain ⟨hallow, hnext⟩ := keeps_lasting hallows hP _ (.calls (.waits .monotonic)) trace h
  refine ⟨hallow, fun started trace₁ h₁ => ?_⟩
  refine Async.awp_mono (fun completion trace₂ h₂ => ?_) ?_
    (awp_attempts_seen (fun trace op hop => hallows trace op (.calls hop)) hP
      (upstreamFor settings request) (hnext started trace₁ h₁))
  · refine Async.awp_mono ?_ (fun _ _ h => h)
      (hrecord 200 started (some completion.usage) trace₂ _
        (hP.and (lasting_answers env _ completion)) h₂)
    exact fun _ _ ⟨⟨hP₃, hanswers⟩, hrecords⟩ => ⟨hP₃, hanswers, hrecords⟩
  · rintro (error | name) trace₂ h₂
    · refine Async.awp_mono ?_ (fun _ _ h => h)
        (hrecord error.statusCode started none trace₂ _ hP h₂)
      rintro _ trace₃ ⟨hP₃, hrecords⟩
      refine ⟨hP₃, ?_⟩
      rintro _ ⟨⟩
      exact hrecords
    · exact ⟨h₂, nofun⟩

end

/-! ## What a request does with its result -/

section

variable {request : JobRequest} {caller : Caller} {trace : List (Event Service)}
  {P : List (Event Service) → Prop}

/-- The requests that need no evidence. -/
def Plain (op : Op) : Prop :=
  match op with
  | .updateJob _ _ | .callback _ => False
  | _ => True

theorem Plain.evidence {op : Op} (h : Plain op) (route : Route × Caller)
    (trace : List (Event Service)) : Evidence env settings route trace op := by
  cases op <;> trivial

theorem CallsProvider.plain {op : Op} (h : CallsProvider op) : Plain op := by
  cases h with
  | waits h => cases h <;> trivial
  | _ => trivial

theorem Completes.plain {op : Op} (h : Completes op) : Plain op := by
  cases h with
  | calls h => exact h.plain
  | record _ => trivial

theorem keeps_plain (route : Route × Caller) (hP : Lasting P) :
    Keeps (Protocol.guarded (Evidence env settings route)) Plain P :=
  keeps_lasting (fun trace _ hop => hop.evidence route trace) hP

/-- A justified update of the row. -/
theorem awp_update_seen {id : String} {fields : List JobField} (hP : Lasting P) (h : P trace)
    (hinserted : Inserted request caller id trace)
    (hjustified : Justified env caller (upstreamFor settings request.completionRequest) trace
      fields) :
    Async.awp (Protocol.guarded (Evidence env settings (.submit request, caller)))
      ((jobsOf env settings).jobs.update id fields)
      (fun _ trace' => P trace' ∧ ⟨.updateJob id fields, .ok ()⟩ ∈ trace')
      (fun exc _ => ∃ name, exc = .foreign name) trace := by
  simp only [jobsOf, stored, Async.awp_mk, Prog.wp_map]
  refine ⟨⟨request, rfl, hinserted, hjustified⟩, ?_⟩
  rintro (name | ⟨⟩) _ rfl
  · exact ⟨name, rfl⟩
  · exact ⟨hP trace _ h, List.mem_concat_self⟩

/-- `_execute` returns what it has written. -/
theorem awp_execute_seen {id : String} (h : Inserted request caller id trace) :
    Async.awp (Protocol.guarded (Evidence env settings (.submit request, caller)))
      ((jobsOf env settings).execute id request caller)
      (fun payload trace' => payload.jobId = id ∧ Written request caller trace' payload)
      (fun _ _ => True) trace := by
  simp only [JobService.execute, JobService.catchAppError, Async.awp_bind, Async.awp_tryCatch,
    Async.awp_map]
  refine Async.awp_mono ?_ ?_ (awp_complete_seen
    (fun trace _ hop => hop.plain.evidence (.submit request, caller) trace)
    (lasting_inserted request caller id) request.completionRequest caller h)
  · rintro completion trace₁ ⟨h₁, hanswers, hrecords⟩
    simp only [Async.awp_pure]
    refine Async.awp_mono ?_ (fun _ _ _ => trivial)
      (awp_update_seen (lasting_inserted request caller id) h₁ h₁
        (.succeed completion hanswers hrecords))
    rintro _ trace₂ ⟨h₂, hwritten⟩
    exact ⟨rfl, h₂, _, .succeeded completion, hwritten⟩
  · rintro (error | name) trace₁ ⟨h₁, hrecords⟩
    · simp only [Async.awp_bind, Async.awp_pure]
      refine Async.awp_mono ?_ (fun _ _ _ => trivial)
        (awp_update_seen (lasting_inserted request caller id) h₁ h₁
          (.fail error (hrecords error rfl)))
      rintro _ trace₂ ⟨h₂, hwritten⟩
      exact ⟨rfl, h₂, _, .failed error, hwritten⟩
    · trivial

/-- What was written stays written. -/
theorem lasting_written (request : JobRequest) (caller : Caller) (payload : WebhookPayload) :
    Lasting fun trace => Written request caller trace payload :=
  fun trace ev ⟨hinserted, fields, htells, hwritten⟩ =>
    ⟨lasting_inserted request caller _ trace ev hinserted, fields, htells,
      List.mem_append_left _ hwritten⟩

/-- `_deliver` posts what was written. -/
theorem awp_deliverResult_seen {payload : WebhookPayload}
    (h : Written request caller trace payload) :
    Async.awp (Protocol.guarded (Evidence env settings (.submit request, caller)))
      ((jobsOf env settings).deliverResult payload.jobId request.callbackUrl.text payload)
      (fun _ _ => True) (fun _ _ => True) trace := by
  have hlasting := lasting_written request caller payload
  have hdelivers : Keeps (Protocol.guarded (Evidence env settings (.submit request, caller)))
      (DeliversTo env settings request.callbackUrl.text payload)
      fun trace => Written request caller trace payload := by
    rintro op hop trace h
    refine ⟨?_, by rintro r _ rfl; exact hlasting trace _ h⟩
    cases hop with
    | waits hop => cases hop <;> trivial
    | time => trivial
    | callback timestamp => exact ⟨request, payload, timestamp, rfl, h, rfl⟩
  simp only [JobService.deliverResult, Async.awp_tryCatch, Async.awp_bind, Async.awp_lift]
  refine Async.awp_mono ?_ ?_ (awp_deliver hdelivers h)
  · rintro attempts trace₁ ⟨h₁, -⟩
    refine ⟨trivial, ?_⟩
    rintro now _ rfl
    refine Async.awp_mono (fun _ _ _ => trivial) ?_
      (awp_update_seen hlasting (hlasting _ _ h₁) (hlasting _ _ h₁).inserted
        (.deliver attempts now))
    rintro _ _ ⟨name, rfl⟩
    trivial
  · rintro (error | name) trace₁ ⟨h₁, -⟩
    · by_cases hcls : error.cls = .webhookDeliveryFailed
      · simp only [if_pos hcls]
        exact Async.awp_mono (fun _ _ _ => trivial) (fun _ _ _ => trivial)
          (awp_update_seen hlasting h₁ h₁.inserted (.giveUp _))
      · simp only [if_neg hcls]
        trivial
    · trivial

/-- The background half of a job. -/
theorem awp_run_seen {id : String} (h : Inserted request caller id trace) :
    Async.awp (Protocol.guarded (Evidence env settings (.submit request, caller)))
      ((jobsOf env settings).run id request caller) (fun _ _ => True) (fun _ _ => True) trace := by
  simp only [JobService.run, Async.awp_bind]
  refine Async.awp_mono ?_ (fun _ _ _ => trivial)
    (awp_update_seen (lasting_inserted request caller id) h h .start)
  rintro _ trace₁ ⟨h₁, -⟩
  refine Async.awp_mono ?_ (fun _ _ _ => trivial) (awp_execute_seen h₁)
  rintro payload trace₂ ⟨rfl, h₂⟩
  exact awp_deliverResult_seen h₂

/-- **Every request** asks of its row and of its callback only what it has evidence for. -/
theorem serve_evidence (env : Environment) (settings : Settings) (request : Route × Caller) :
    (serve env settings request.1 request.2).wp
      (Protocol.guarded (Evidence env settings request)) (fun _ _ => True) [] := by
  obtain ⟨route, caller⟩ := request
  have hplain : Keeps (Protocol.guarded (Evidence env settings (route, caller))) Plain
      fun _ => True := keeps_plain (route, caller) fun _ _ _ => trivial
  have hcloses : Closes (Protocol.guarded (Evidence env settings (route, caller)))
      fun _ => True :=
    ⟨fun _ => ⟨trivial, fun _ _ => trivial⟩, fun _ => ⟨trivial, fun _ _ _ => trivial⟩,
      fun _ _ _ _ _ => ⟨trivial, fun _ _ _ => trivial⟩⟩
  have hlimit : Async.awp (Protocol.guarded (Evidence env settings (route, caller)))
      (if route.limited then enforceRateLimit settings caller else pure [])
      (fun _ _ => True) (fun _ _ => True) [] :=
    awp_gate (fun op hop => hplain op (hop ▸ trivial)) trivial
  refine wp_serve hcloses hlimit fun trace _ => ?_
  cases route with
  | complete payload =>
    simp only [endpoint, Async.awp_bind, Async.awp_pure]
    have hcomplete := (complete_only env settings payload caller).mono fun _ => Completes.plain
    exact Async.awp_mono (fun _ _ _ collected => ⟨trivial, fun _ _ _ => trivial⟩)
      (fun _ _ _ => trivial) (Async.awp_of_only hcomplete hplain trivial)
  | submit payload =>
    simp only [endpoint, JobService.accept, jobsOf, stored, Async.awp_bind, Async.awp_lift,
      Async.awp_mk, Async.awp_pure, Prog.wp_map]
    refine ⟨trivial, ?_⟩
    rintro id _ rfl
    refine ⟨trivial, ?_⟩
    rintro (name | ⟨⟩) _ rfl
    · trivial
    · refine fun collected => ⟨trivial, ?_⟩
      rintro _ _ rfl
      exact awp_run_seen ⟨_, List.mem_append_left _ List.mem_concat_self⟩
  | «show» jobId =>
    simp only [endpoint, JobService.get, jobsOf, stored, Async.awp_bind, Async.awp_mk,
      Async.awp_pure, Prog.wp_map]
    refine ⟨trivial, ?_⟩
    rintro (name | (_ | view)) _ rfl
    · trivial
    · trivial
    · exact fun collected => ⟨trivial, fun _ _ _ => trivial⟩

end

/-! ## A sample job -/

/-- The world once the sample job has been answered by the provider and written. -/
def helloWorld : World where
  now := 0
  breaker := (World.start unlimited 0).breaker.recordSuccess
  limiter := (World.start unlimited 0).limiter
  jobs := (((World.start unlimited 0).jobs.create
    (JobService.newJob "j" hookRequest ⟨"k", "k"⟩ "llama3.2:3b") 0).update "j"
      [.status .running]).update "j"
        (JobService.succeededFields ⟨"1", "llama3.2:3b", "Hello.", ⟨0, 0⟩⟩)
  usage := [CompletionService.entry ⟨"k", "k"⟩ "llama3.2:3b" 200 0 0 (some ⟨0, 0⟩)]
  issued := ["j"]

unseal RetryPolicy.loop in
/-- A job whose provider answers at once, up to the first POST to its callback. -/
theorem run_hello :
    ∃ earlier en tasks,
      Run world (fun request : Route × Caller => serve .sample unlimited request.1 request.2)
        (World.start unlimited 0) (earlier ++ [en]) helloWorld tasks ∧
      (∃ post, en.op = .callback post) ∧
      ∃ row, helloWorld.jobs "j" = some row ∧ row.status = .succeeded ∧
        ∀ task ∈ tasks, task.label = (.submit hookRequest, ⟨"k", "k"⟩) := by
  let issued : World := { World.start unlimited 0 with issued := ["j"] }
  let inserted : World := { issued with
    jobs := issued.jobs.create (JobService.newJob "j" hookRequest ⟨"k", "k"⟩ "llama3.2:3b") 0 }
  let running : World := { inserted with jobs := inserted.jobs.update "j" [.status .running] }
  let answered : World := { running with breaker := running.breaker.recordSuccess }
  let metered : World := { answered with
    usage := [CompletionService.entry ⟨"k", "k"⟩ "llama3.2:3b" 200 0 0 (some ⟨0, 0⟩)] }
  have h₀ : Run world (fun request : Route × Caller => serve .sample unlimited request.1 request.2)
      (World.start unlimited 0) _ _ _ := .spawn (.submit hookRequest, ⟨"k", "k"⟩) .start
  have h₁ := h₀.reply 0 rfl "j" issued ⟨0, le_rfl, List.not_mem_nil, rfl⟩
  have h₂ := h₁.reply 0 rfl (.ok ()) inserted ⟨0, le_rfl, 0, .inl rfl⟩
  have h₃ := h₂.reply 0 rfl () inserted ⟨0, le_rfl, rfl⟩
  have h₄ := h₃.reply 0 rfl (.ok ()) running ⟨0, le_rfl, .inl rfl⟩
  have h₅ := h₄.reply 0 rfl (0 : ℚ) running ⟨0, le_rfl, rfl, rfl⟩
  have h₆ := h₅.reply 0 rfl (0 : ℚ) running ⟨0, le_rfl, rfl, rfl⟩
  have h₇ := h₆.reply 0 rfl (.ok ()) running ⟨0, le_rfl, rfl, rfl⟩
  have h₈ := h₇.reply 0 rfl () running ⟨0, le_rfl, rfl⟩
  have h₉ := h₈.reply 0 rfl (.response helloResponse) running ⟨0, le_rfl, rfl⟩
  have h₁₀ := h₉.reply 0 rfl () answered ⟨0, le_rfl, rfl⟩
  have h₁₁ := h₁₀.reply 0 rfl (0 : ℚ) answered ⟨0, le_rfl, rfl, rfl⟩
  have h₁₂ := h₁₁.reply 0 rfl (.ok ()) metered ⟨0, le_rfl, .inl rfl⟩
  have h₁₃ := h₁₂.reply 0 rfl (.ok ()) helloWorld ⟨0, le_rfl, .inl rfl⟩
  have h₁₄ := h₁₃.reply 0 rfl (0 : ℚ) helloWorld ⟨0, le_rfl, rfl, rfl⟩
  have h₁₅ := h₁₄.reply 0 rfl (0 : ℚ) helloWorld ⟨0, le_rfl, rfl⟩
  have h₁₆ := h₁₅.reply 0 rfl .requestError helloWorld ⟨0, le_rfl, rfl⟩
  have hrow : helloWorld.jobs "j" = some _ := JobTable.update_of_some (JobTable.update_of_some
    (JobTable.create_self (World.start unlimited 0).jobs
      (JobService.newJob "j" hookRequest ⟨"k", "k"⟩ "llama3.2:3b") 0) _) _
  refine ⟨_, _, _, h₁₆, ⟨_, rfl⟩, _, hrow, rfl, ?_⟩
  intro task htask
  obtain rfl := List.mem_singleton.mp htask
  rfl

/-! ## All requests together -/

/-- A row of a request. -/
structure Job.Of (job : Job) (request : JobRequest) (caller : Caller) : Prop where
  apiKeyId : job.apiKeyId = caller.id
  prompt : job.prompt = request.prompt
  callbackUrl : job.callbackUrl = request.callbackUrl.text

theorem Job.Akin.of {job job' : Job} {request : JobRequest} {caller : Caller}
    (h : job.Akin job') (hof : job.Of request caller) : job'.Of request caller :=
  ⟨h.apiKeyId.trans hof.apiKeyId, h.prompt.trans hof.prompt,
    h.callbackUrl.trans hof.callbackUrl⟩

/-- A row says what the callback is told. -/
structure Job.Says (job : Job) (payload : WebhookPayload) : Prop where
  status : job.status = payload.status
  content : job.content = payload.content
  errorCode : job.errorCode = payload.errorCode
  errorMessage : job.errorMessage = payload.errorMessage

theorem Job.Says.of_result {job job' : Job} {payload : WebhookPayload} (h : job.Says payload)
    (hresult : job'.result = job.result) : job'.Says payload :=
  ⟨(congrArg JobResult.status hresult).trans h.status,
    (congrArg JobResult.content hresult).trans h.content,
    (congrArg JobResult.errorCode hresult).trans h.errorCode,
    (congrArg JobResult.errorMessage hresult).trans h.errorMessage⟩

/-- The callback is told of final results only. -/
theorem Tells.isFinal {request : JobRequest} {id : String} {fields : List JobField}
    {payload : WebhookPayload} (h : Tells request id fields payload) :
    payload.status.isFinal = true := by
  cases h <;> rfl

/-- **What is written is what is told.** -/
theorem Tells.says {request : JobRequest} {id : String} {fields : List JobField}
    {payload : WebhookPayload} (h : Tells request id fields payload) {row : Job}
    {status' : JobStatus} (hconsistent : row.Consistent)
    (hupdate : RowUpdate row.status fields status') : (row.update fields).Says payload := by
  generalize hstatus : row.status = status at hupdate
  cases h with
  | succeeded completion =>
    -- only a running row is updated so, and it is blank
    have hrunning : status = .running := by
      generalize hfields : JobService.succeededFields completion = fields at hupdate
      cases hupdate <;> first | rfl | cases hfields
    obtain ⟨-, hcode, hmessage, -⟩ := hconsistent.blank (by rw [hstatus, hrunning]; rfl)
    refine ⟨rfl, rfl, ?_, ?_⟩ <;>
      simp [JobService.succeededFields, JobService.succeededPayload, Job.setattr, hcode, hmessage]
  | failed error =>
    have hrunning : status = .running := by
      generalize hfields : JobService.failedFields error = fields at hupdate
      cases hupdate <;> first | rfl | cases hfields
    obtain ⟨hcontent, -⟩ := hconsistent.blank (by rw [hstatus, hrunning]; rfl)
    refine ⟨rfl, ?_, rfl, rfl⟩
    simp [JobService.failedFields, JobService.failedPayload, Job.setattr, hcontent]

section

variable {t₀ : ℚ} {w : World} {log : List (Entry Service World)}
  {tasks : List (Task (Route × Caller) Service Unit)}

/-- A row, once inserted, stays one of its request. -/
theorem run_inserted (h : Run world (fun request => serve env settings request.1 request.2)
      (World.start settings t₀) log w tasks) {t : ℕ} {payload : JobRequest} {caller : Caller}
    {id : String} (hinserted : Inserted payload caller id (ownTrace t log)) :
    ∃ row, w.jobs id = some row ∧ row.Of payload caller := by
  obtain ⟨model, hmem⟩ := hinserted
  obtain ⟨en, hen, -, hevent⟩ := mem_ownTrace.mp hmem
  have hrows := run_rows h
  refine h.chained.ever_after (fun w => ∃ row, w.jobs id = some row ∧ row.Of payload caller)
    (fun en' hen' => ?_) en hen ?_
  · rintro ⟨row, hrow, hof⟩
    obtain ⟨task, -, hhistoric⟩ := hrows en' hen'
    have hstep := hhistoric.rows id
    rw [hrow] at hstep
    obtain ⟨row', hrow', hakin⟩ := hstep.akin
    exact ⟨row', hrow', hakin.of hof⟩
  · obtain ⟨task, -, hhistoric⟩ := hrows en hen
    obtain ⟨now, hrow⟩ := hhistoric.done.1 _ hevent
    exact ⟨_, hrow, rfl, rfl, rfl⟩

/-- A result that was written and reported is in its row ever after. -/
theorem run_written (h : Run world (fun request => serve env settings request.1 request.2)
      (World.start settings t₀) log w tasks) {t : ℕ} {payload : JobRequest} {caller : Caller}
    {result : WebhookPayload} (hwritten : Written payload caller (ownTrace t log) result) :
    ∃ row, w.jobs result.jobId = some row ∧ row.Of payload caller ∧ row.Says result := by
  obtain ⟨row, hrow, hof⟩ := run_inserted h hwritten.inserted
  obtain ⟨fields, htells, hmem⟩ := hwritten.written
  obtain ⟨en, hen, -, hevent⟩ := mem_ownTrace.mp hmem
  have hrows := run_rows h
  have hsays : ∃ row, w.jobs result.jobId = some row ∧ row.Says result := by
    refine h.chained.ever_after
      (fun w => ∃ row, w.jobs result.jobId = some row ∧ row.Says result) (fun en' hen' => ?_) en
      hen ?_
    · rintro ⟨row, hrow, hsays⟩
      obtain ⟨task, -, hhistoric⟩ := hrows en' hen'
      have hstep := hhistoric.rows result.jobId
      rw [hrow] at hstep
      obtain ⟨row', hrow', hresult, -⟩ := hstep.keeps_result
        ((congrArg JobStatus.isFinal hsays.status).trans htells.isFinal)
      exact ⟨row', hrow', hsays.of_result hresult⟩
    · obtain ⟨task, -, hhistoric⟩ := hrows en hen
      obtain ⟨row, status', -, hconsistent, hupdate, hafter⟩ := hhistoric.done.2 _ _ hevent
      exact ⟨_, hafter, htells.says hconsistent hupdate⟩
  obtain ⟨row', hrow', hsays⟩ := hsays
  obtain rfl := Option.some.inj (hrow.symm.trans hrow')
  exact ⟨row, hrow, hof, hsays⟩

/-- **What is pushed can be polled.** In every run of any number of requests side by side, stopped
or failing wherever they may be: a POST to a callback belongs to a submitted job, goes to the URL
that was submitted with it, and carries a final result under the id its own request had inserted
that job under; and at the end of the run, so at every moment from that POST on, the caller of that
job finds a row there with the same status, content and error. -/
theorem pushed_can_be_polled
    (h : Run world (fun request => serve env settings request.1 request.2)
      (World.start settings t₀) log w tasks) {earlier : List (Entry Service World)}
    {en : Entry Service World} {later : List (Entry Service World)}
    (hsplit : log = earlier ++ en :: later) {post : CallbackPost} (hop : en.op = .callback post) :
    ∃ task payload result timestamp, tasks[en.task]? = some task ∧
      task.label.1 = .submit payload ∧
      Inserted payload task.label.2 result.jobId (ownTrace en.task earlier) ∧
      post = (webhookService env settings).postFor payload.callbackUrl.text
        (encode (env.dumpJson result)) timestamp ∧
      result.status.isFinal = true ∧
      ∃ view, w.jobs.get result.jobId task.label.2.id = some view ∧
        view.status = result.status ∧ view.content = result.content ∧
        view.errorCode = result.errorCode ∧ view.errorMessage = result.errorMessage := by
  obtain ⟨task, htask, hevidence⟩ := h.guard (serve_evidence env settings) hsplit
  rw [hop] at hevidence
  obtain ⟨payload, result, timestamp, hroute, hwritten, hpost⟩ := hevidence
  refine ⟨task, payload, result, timestamp, htask, hroute, hwritten.inserted, hpost, ?_, ?_⟩
  · obtain ⟨fields, htells, -⟩ := hwritten.written
    exact htells.isFinal
  · have hlater : Written payload task.label.2 (ownTrace en.task log) result := by
      rw [hsplit]
      exact (lasting_written payload task.label.2 result).ownTrace hwritten _
    obtain ⟨row, hrow, hof, hsays⟩ := run_written h hlater
    refine ⟨row.toView, ?_, hsays.status, hsays.content, hsays.errorCode, hsays.errorMessage⟩
    rw [JobTable.get, hrow]
    exact if_pos hof.apiKeyId

/-- The sample job is found by its caller as its callback is told of it. -/
theorem pushed_can_be_polled_hello :
    ∃ (earlier : List (Entry Service World)) (t : ℕ) (result : WebhookPayload) (view : JobView),
      Inserted hookRequest ⟨"k", "k"⟩ result.jobId (ownTrace t earlier) ∧
      helloWorld.jobs.get result.jobId "k" = some view ∧
      view.status = result.status ∧ view.content = result.content := by
  obtain ⟨earlier, en, tasks, hrun, ⟨post, hop⟩, row, -, -, hlabels⟩ := run_hello
  obtain ⟨task, payload, result, -, htask, hroute, hinserted, -, -, view, hget, hstatus, hcontent,
    -⟩ := pushed_can_be_polled hrun rfl hop
  rw [hlabels task (List.mem_of_getElem? htask)] at hget hinserted hroute
  obtain rfl := Route.submit.inj hroute
  exact ⟨earlier, en.task, result, view, hinserted, hget, hstatus, hcontent⟩

/-- What a final result is made of, by what its request has seen. -/
inductive Earns (env : Environment) (caller : Caller) (upstream : UpstreamPayload)
    (trace : List (Event Service)) : JobResult → Prop where
  /-- the provider's answer to this very payload, recorded with its tokens -/
  | succeeded (completion : CompletionResponse) : Answers env upstream trace completion →
    Records caller upstream.model trace 200 (some completion.usage) →
    Earns env caller upstream trace (.succeeded completion)
  /-- an error, recorded with its status -/
  | failed (error : AppError) (row : Job) :
    Records caller upstream.model trace error.statusCode none →
    Earns env caller upstream trace (.failed error row)

theorem lasting_earns (env : Environment) (caller : Caller) (upstream : UpstreamPayload)
    (result : JobResult) : Lasting fun trace => Earns env caller upstream trace result := by
  intro trace ev h
  cases h with
  | succeeded completion hanswers hrecords =>
    exact .succeeded completion (lasting_answers env upstream completion trace ev hanswers)
      (lasting_records _ _ _ _ trace ev hrecords)
  | failed error row hrecords => exact .failed error row (lasting_records _ _ _ _ trace ev hrecords)

/-- The result under an id came into its row by an update of request `t`. -/
def Wrote (log : List (Entry Service World)) (t : ℕ) (id : String) (result : JobResult) : Prop :=
  ∃ en ∈ log, en.task = t ∧ (∃ fields, en.op = .updateJob id fields) ∧
    (∃ row, en.before.jobs id = some row ∧ row.status.isFinal = false) ∧
    ∃ row, en.after.jobs id = some row ∧ row.result = result

/-- What is written as a success was answered. -/
theorem Justified.earns_succeeded {caller : Caller} {upstream : UpstreamPayload}
    {trace : List (Event Service)} {completion : CompletionResponse}
    (h : Justified env caller upstream trace (JobService.succeededFields completion)) :
    Earns env caller upstream trace (.succeeded completion) := by
  generalize hfields : JobService.succeededFields completion = fields at h
  cases h with
  | succeed completion' hanswers hrecords =>
    have hsame : JobResult.succeeded completion = .succeeded completion' := by
      simp only [JobService.succeededFields, List.cons.injEq, JobField.content.injEq,
        JobField.model.injEq, JobField.promptTokens.injEq, JobField.completionTokens.injEq,
        true_and, and_true] at hfields
      obtain ⟨hcontent, hmodel, hprompt, hcompletion⟩ := hfields
      simp only [JobResult.succeeded, hcontent, hmodel, hprompt, hcompletion]
    rw [hsame]
    exact .succeeded completion' hanswers hrecords
  | start | fail _ _ | deliver _ _ | giveUp _ => cases hfields

/-- What is written as a failure was recorded. -/
theorem Justified.earns_failed {caller : Caller} {upstream : UpstreamPayload}
    {trace : List (Event Service)} {error : AppError}
    (h : Justified env caller upstream trace (JobService.failedFields error)) (row : Job) :
    Earns env caller upstream trace (.failed error row) := by
  generalize hfields : JobService.failedFields error = fields at h
  cases h with
  | fail error' hrecords =>
    have hsame : JobResult.failed error row = .failed error' row := by
      simp only [JobService.failedFields, List.cons.injEq, JobField.errorCode.injEq,
        JobField.errorMessage.injEq, true_and, and_true] at hfields
      obtain ⟨hcode, hmessage⟩ := hfields
      simp only [JobResult.failed, hcode, hmessage]
    rw [hsame]
    exact .failed error' row hrecords
  | start | succeed _ _ _ | deliver _ _ | giveUp _ => cases hfields

/-- A result that came into the row of a request by an update of that request. -/
theorem wrote_of_update (h : Run world (fun request => serve env settings request.1 request.2)
      (World.start settings t₀) log w tasks) {earlier : List (Entry Service World)}
    {en : Entry Service World} {later : List (Entry Service World)}
    (hsplit : log = earlier ++ en :: later) {id owner : String} {row row' : Job}
    (hbefore : ¬ ∃ row₀, en.before.jobs id = some row₀ ∧ row₀.result = row.result ∧ row₀.Akin row)
    (hrow' : en.after.jobs id = some row') (hresult : row'.result = row.result)
    (hakin : row'.Akin row)
    (hstep : RowStep owner en.op id (en.before.jobs id) (some row')) {payload : JobRequest}
    {caller : Caller} {fields : List JobField} (hop : en.op = .updateJob id fields)
    (hinserted : Inserted payload caller id (ownTrace en.task earlier)) :
    Inserted payload caller id (ownTrace en.task log) ∧ Wrote log en.task id row.result ∧
      row.Of payload caller := by
  obtain ⟨tasks', l, k, hrun, -⟩ := h.before earlier en later hsplit
  obtain ⟨row₀, hrow₀, hof₀⟩ := run_inserted hrun hinserted
  rw [hrow₀] at hstep
  obtain ⟨row₁, hrow₁, hakin₁⟩ := hstep.akin
  obtain rfl := Option.some.inj hrow₁
  have hopen : row₀.status.isFinal = false := by
    by_contra hfinal₀
    obtain ⟨row₂, hrow₂, hsame, hakin₂⟩ :=
      hstep.keeps_result (Bool.eq_true_of_not_eq_false hfinal₀)
    obtain rfl := Option.some.inj hrow₂
    exact hbefore ⟨row₀, hrow₀, hsame.symm.trans hresult, hakin₂.trans hakin⟩
  refine ⟨?_, ⟨en, by rw [hsplit]; simp, rfl, ⟨fields, hop⟩, ⟨row₀, hrow₀, hopen⟩, row', hrow',
    hresult⟩, hakin.of (hakin₁.of hof₀)⟩
  rw [hsplit]
  exact (lasting_inserted payload caller id).ownTrace hinserted _

/-- **Results are genuine.** In every run of any number of requests side by side, stopped or failing
wherever they may be: a row with a final status was inserted by a submitted job, with its caller,
prompt and callback, and its result was written by that request. If it succeeded, its own request
sent the provider this very prompt, the content, model and tokens in the row are what the answer to
that very POST parses to, and a usage record with the same tokens was asked for, charged to the same
caller; if it failed, its code and message are those of an error whose status was recorded so. No
result is another job's. -/
theorem results_genuine
    (h : Run world (fun request => serve env settings request.1 request.2)
      (World.start settings t₀) log w tasks) {id : String} {row : Job}
    (hrow : w.jobs id = some row) (hfinal : row.status.isFinal = true) :
    ∃ (t : ℕ) (task : Task (Route × Caller) Service Unit) (payload : JobRequest),
      tasks[t]? = some task ∧ task.label.1 = .submit payload ∧
      Inserted payload task.label.2 id (ownTrace t log) ∧ Wrote log t id row.result ∧
      row.Of payload task.label.2 ∧
      Earns env task.label.2 (upstreamFor settings payload.completionRequest) (ownTrace t log)
        row.result := by
  -- the step that wrote it
  obtain ⟨earlier, en, later, hsplit, hbefore, row', hrow', hresult, hakin⟩ :=
    h.chained.came_about
      (fun w => ∃ row', w.jobs id = some row' ∧ row'.result = row.result ∧ row'.Akin row)
      (by rintro ⟨_, ⟨⟩, _⟩) ⟨row, hrow, rfl, .refl row⟩
  obtain ⟨task', htask', hhistoric⟩ := run_rows h en (by rw [hsplit]; simp)
  obtain ⟨task, htask, hevidence⟩ := h.guard (serve_evidence env settings) hsplit
  obtain rfl := Option.some.inj (htask.symm.trans htask')
  have hstep := hhistoric.rows id
  rw [hrow'] at hstep
  have hfinal' : row'.status.isFinal = true :=
    (congrArg (fun result => JobStatus.isFinal result.status) hresult).trans hfinal
  rcases hstep.result_cases hfinal' with ⟨row₀, hrow₀, hsame, hakin₀⟩ | ⟨-, hwrote⟩
  · exact absurd ⟨row₀, hrow₀, hsame.trans hresult, hakin₀.trans hakin⟩ hbefore
  have hlater : ∀ {upstream : UpstreamPayload},
      Earns env task.label.2 upstream (ownTrace en.task earlier) row'.result →
      Earns env task.label.2 upstream (ownTrace en.task log) row.result := by
    intro upstream hearns
    rw [hsplit, ← hresult]
    exact (lasting_earns env task.label.2 upstream row'.result).ownTrace hearns _
  rcases hwrote with ⟨completion, hop, hwritten⟩ | ⟨error, row₀, hop, hwritten⟩
  · rw [hop] at hevidence
    obtain ⟨payload, hroute, hinserted, hjustified⟩ := hevidence
    obtain ⟨hours, hwrote, hof⟩ :=
      wrote_of_update h hsplit hbefore hrow' hresult hakin hstep hop hinserted
    refine ⟨en.task, task, payload, htask, hroute, hours, hwrote, hof, hlater ?_⟩
    rw [hwritten]
    exact hjustified.earns_succeeded
  · rw [hop] at hevidence
    obtain ⟨payload, hroute, hinserted, hjustified⟩ := hevidence
    obtain ⟨hours, hwrote, hof⟩ :=
      wrote_of_update h hsplit hbefore hrow' hresult hakin hstep hop hinserted
    refine ⟨en.task, task, payload, htask, hroute, hours, hwrote, hof, hlater ?_⟩
    rw [hwritten]
    exact hjustified.earns_failed row₀

/-- The result of the sample job was earned. -/
theorem results_genuine_hello :
    ∃ (row : Job) (log : List (Entry Service World)) (t : ℕ) (caller : Caller),
      helloWorld.jobs "j" = some row ∧ Wrote log t "j" row.result ∧ row.Of hookRequest caller ∧
      Earns .sample caller (upstreamFor unlimited hookRequest.completionRequest) (ownTrace t log)
        row.result := by
  obtain ⟨earlier, en, tasks, hrun, -, row, hrow, hstatus, hlabels⟩ := run_hello
  obtain ⟨t, task, payload, htask, hroute, -, hwrote, hof, hearns⟩ :=
    results_genuine hrun hrow (by rw [hstatus]; rfl)
  rw [hlabels task (List.mem_of_getElem? htask)] at hroute
  obtain rfl := Route.submit.inj hroute
  exact ⟨row, _, t, _, hrow, hwrote, hof, hearns⟩

end

end PrdApiWrapper
