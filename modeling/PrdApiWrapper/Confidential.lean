import PrdApiWrapper.Indifference
import PrdApiWrapper.Metering
import PrdApiWrapper.Replies

/-!
# What the provider says about itself

A 401 or a 403 of the provider is about our key, and a 5xx about a failure of its own.
`_as_app_error` reads the body of every error response before it looks at the status, but of these
it keeps the status alone. So whatever else is in them, nothing comes of it: two runs of the service
whose provider differs in that only cannot be told apart, `provider_text_unseen`.
-/

namespace PrdApiWrapper

open Interaction

/-! ## Confidential responses -/

/-- The statuses of what is about our key, or about the provider's own failures. -/
def Confidential (statusCode : ℤ) : Prop :=
  statusCode = 401 ∨ statusCode = 403 ∨ (500 ≤ statusCode ∧ statusCode ≤ 599)

/-- Two outcomes that are identical except for the body and the headers of a confidential
response. The bodies are JSON or fail with a `ValueError`. -/
inductive UpstreamOutcome.Alike : UpstreamOutcome → UpstreamOutcome → Prop where
  | refl (outcome : UpstreamOutcome) : Alike outcome outcome
  | confidential {response response' : HttpResponse} : Confidential response.statusCode →
      response'.statusCode = response.statusCode → response.Readable → response'.Readable →
      Alike (.response response) (.response response')

/-- Replies that should not be told apart. -/
def Unseen : (op : Op) → Service.Reply op → Service.Reply op → Prop
  | .answer, outcome, outcome' => UpstreamOutcome.Alike outcome outcome'
  | _, _, _ => False

theorem Unseen.op_eq {op : Op} {r r' : Service.Reply op} (h : Unseen op r r') : op = .answer := by
  cases op <;> first | rfl | cases h

/-- Only the status of a confidential response is kept. -/
theorem appErrorOf_alike (lib : Libraries) (model : String) {response response' : HttpResponse}
    (h : Confidential response.statusCode) (hstatus : response'.statusCode = response.statusCode)
    (message message' : Option String) :
    appErrorOf lib response' model message' = appErrorOf lib response model message := by
  rw [Confidential] at h
  have h404 : ¬ response.statusCode = 404 := by omega
  have h429 : ¬ response.statusCode = 429 := by omega
  simp only [appErrorOf, hstatus, if_neg h404, if_neg h429]
  by_cases hauth : response.statusCode = 401 ∨ response.statusCode = 403
  · simp only [if_pos hauth]
  · have hserver : ¬ (400 ≤ response.statusCode ∧ response.statusCode < 500) := by omega
    simp only [if_neg hauth, if_neg hserver]

theorem received_alike (lib : Libraries) (model : String) {outcome outcome' : UpstreamOutcome}
    (h : outcome.Alike outcome') : received lib model outcome = received lib model outcome' := by
  cases h with
  | refl => rfl
  | @confidential response response' hconfidential hstatus hreadable hreadable' =>
    have herror : response.isError = true := by
      rw [Confidential] at hconfidential
      simp only [HttpResponse.isError, decide_eq_true_eq]
      omega
    have herror' : response'.isError = true := by rwa [HttpResponse.isError, hstatus]
    obtain ⟨message, hmessage⟩ := upstreamMessage_readable hreadable
    obtain ⟨message', hmessage'⟩ := upstreamMessage_readable hreadable'
    rw [received_error lib model herror hmessage, received_error lib model herror' hmessage',
      appErrorOf_alike lib model hconfidential hstatus]

/-! ## The service is blind to the rest -/

section

variable {α : Type} {env : Environment} {settings : Settings}

theorem blind_of_only {p : Prog Service α} (h : p.Only (· ≠ Op.answer)) : p.Blind Unseen :=
  .of_only h fun _ hop _ _ hunseen => hop hunseen.op_eq

theorem blind_request {op : Op} (h : op ≠ .answer) : op.request.Blind Unseen :=
  blind_of_only ⟨h, fun _ => trivial⟩

/-- The one place where an answer of the provider is looked at. -/
theorem callUpstream_blind (payload : UpstreamPayload) (model : String) :
    ((completionService env settings).callUpstream payload model).run.Blind Unseen := by
  refine ⟨fun _ _ h => h.elim, fun _ => ⟨fun outcome outcome' h => ?_, fun _ => trivial⟩⟩
  exact congrArg Prog.ret (received_alike env.toLibraries model h)

theorem guardedCall_blind (payload : UpstreamPayload) (model : String) :
    ((completionService env settings).guardedCall payload model).run.Blind Unseen := by
  have hbefore : (completionService env settings).breaker.beforeCall.run.Blind Unseen :=
    blind_request nofun
  have hsuccess : (completionService env settings).breaker.recordSuccess.Blind Unseen :=
    blind_request nofun
  have hfailure : (completionService env settings).breaker.recordFailure.Blind Unseen :=
    blind_request nofun
  refine Async.blind_bind hbefore fun _ => ?_
  refine Async.blind_bind (Async.blind_tryCatch (callUpstream_blind payload model) ?_) fun _ => ?_
  · rintro (error | name)
    · simp only
      split
      · exact Async.blind_bind (.map _ hfailure) fun _ => trivial
      · trivial
    · trivial
  · exact Async.blind_bind (.map _ hsuccess) fun _ => trivial

theorem pause_blind (maxAttempts : ℤ) (started : ℚ) (attempt : ℕ) (error : AppError) :
    ((retryPolicy settings maxAttempts).pause started attempt error).run.Blind Unseen := by
  have hkeeps : Keeps (Protocol.permits (· ≠ Op.answer)) Waits fun _ => True := by
    intro op hop _ _
    refine ⟨?_, fun _ _ _ => trivial⟩
    rintro rfl
    cases hop
  exact blind_of_only (Async.only_of_awp (awp_servicePause hkeeps trivial
    (fun _ _ _ _ => trivial) fun _ _ _ _ => trivial))

theorem recordUsage_blind (caller : Caller) (model : String) (statusCode : ℤ) (started : ℚ)
    (usage : Option CompletionUsage) : ((completionService env settings).recordUsage caller model
      statusCode started usage).run.Blind Unseen := by
  refine blind_of_only (Async.only_of_awp ?_)
  rw [awp_recordUsage]
  exact ⟨nofun, fun _ _ _ => ⟨nofun, fun _ _ _ => trivial⟩⟩

theorem complete_blind (request : CompletionRequest) (caller : Caller) :
    ((completionService env settings).complete request caller).run.Blind Unseen := by
  have hclock : Op.monotonic.request.Blind Unseen := blind_request nofun
  refine Async.blind_bind (.map _ hclock) fun started => ?_
  refine Async.blind_bind (Async.blind_tryCatch ?_ ?_) fun response => ?_
  · exact RetryPolicy.blind_run hclock (guardedCall_blind _ _) fun _ _ _ => pause_blind _ _ _ _
  · rintro (error | name)
    · exact Async.blind_bind (recordUsage_blind _ _ _ _ _) fun _ => trivial
    · trivial
  · exact Async.blind_bind (recordUsage_blind _ _ _ _ _) fun _ => trivial

theorem Reports.blind {p : Prog Service α} (h : p.Only Reports) : p.Blind Unseen := by
  refine blind_of_only (h.mono ?_)
  rintro _ hop rfl
  rcases hop with ⟨⟨⟨⟩⟩⟩

/-- The background half of a job. -/
theorem run_blind (jobId : String) (request : JobRequest) (caller : Caller) :
    ((jobsOf env settings).run jobId request caller).run.Blind Unseen := by
  have hupdate : ∀ fields, ((jobsOf env settings).jobs.update jobId fields).run.Blind Unseen :=
    fun fields => Reports.blind (update_only env settings jobId fields)
  have hexecute : ((jobsOf env settings).execute jobId request caller).run.Blind Unseen := by
    refine Async.blind_bind (Async.blind_tryCatch (Async.blind_map _ (complete_blind _ _)) ?_) ?_
    · rintro (error | name) <;> trivial
    · rintro (error | completion)
      · exact Async.blind_bind (hupdate _) fun _ => trivial
      · exact Async.blind_bind (hupdate _) fun _ => trivial
  exact Async.blind_bind (hupdate _) fun _ => Async.blind_bind hexecute fun payload =>
    Reports.blind (deliverResult_only env settings jobId _ payload)

theorem authenticate_blind (rawKey : Option String) :
    (authenticate env settings rawKey).run.Blind Unseen := by
  refine blind_of_only (Async.only_of_awp ?_)
  rw [awp_authenticate]
  split
  · split <;> trivial
  · refine ⟨nofun, ?_⟩
    rintro (name | (_ | caller)) _ _ <;> trivial

theorem enforceRateLimit_blind (caller : Caller) :
    (enforceRateLimit settings caller).run.Blind Unseen := by
  refine blind_of_only (Async.only_of_awp ?_)
  rw [awp_enforceRateLimit]
  split
  · refine ⟨nofun, ?_⟩
    rintro (exc | decision) _ _
    · trivial
    · simp only
      split <;> trivial
  · trivial

theorem rollback_blind : Op.rollback.request.Blind Unseen :=
  blind_request nofun

theorem respond_blind (reply : HttpReply) : (Op.respond reply).request.Blind Unseen :=
  blind_request nofun

theorem fail_blind (lib : Libraries) (collected : List (String × String)) (exc : Exc) :
    (fail lib collected exc).Blind Unseen :=
  rollback_blind.bind fun _ => respond_blind _

theorem finish_blind {background : Async Service Exc Unit} (h : background.run.Blind Unseen) :
    (finish background).Blind Unseen := by
  refine h.bind ?_
  rintro (exc | ⟨⟩)
  · exact rollback_blind.bind fun _ => trivial
  · refine (blind_request nofun : Op.commit.request.Blind Unseen).bind ?_
    rintro (name | ⟨⟩)
    · exact rollback_blind.bind fun _ => trivial
    · trivial

theorem accept_blind (payload : JobRequest) (caller : Caller) (model : String) :
    ((jobsOf env settings).accept payload caller model).run.Blind Unseen := by
  refine blind_of_only (Async.only_bind ⟨nofun, fun _ => trivial⟩ fun jobId => ?_)
  exact Async.only_bind (.map _ ⟨nofun, fun _ => trivial⟩) fun _ => trivial

theorem get_blind (jobId : String) (caller : Caller) :
    ((jobsOf env settings).get jobId caller).run.Blind Unseen := by
  refine blind_of_only (Async.only_bind (.map _ ⟨nofun, fun _ => trivial⟩) ?_)
  rintro (_ | view) <;> trivial

theorem serialized_blind (lib : Libraries) (answer : Answer)
    {k : Except Exc Answer → Prog Service Unit} (hok : (k (.ok answer)).Blind Unseen)
    (herror : ∀ exc, (k (.error exc)).Blind Unseen) :
    ((serialized lib answer).run >>= k).Blind Unseen := by
  rcases serialized_cases lib answer with h | h <;> rw [h]
  · exact hok
  · exact herror _

theorem serve_blind (route : Route) (caller : Caller) :
    (serve env settings route caller).Blind Unseen := by
  have hlimit : (if route.limited then enforceRateLimit settings caller
      else pure [] : Async Service Exc (List (String × String))).run.Blind Unseen := by
    split
    · exact enforceRateLimit_blind caller
    · trivial
  rw [serve]
  refine hlimit.bind ?_
  rintro (exc | collected)
  · exact fail_blind _ [] exc
  cases route with
  | complete payload =>
    simp only [endpoint, ExceptT.run_bind, Prog.bind_assoc]
    refine (complete_blind payload caller).bind ?_
    rintro (exc | response)
    · exact fail_blind _ collected exc
    · exact serialized_blind _ _ ((respond_blind _).bind fun _ => finish_blind trivial)
        (fail_blind _ collected)
  | submit payload =>
    simp only [endpoint, ExceptT.run_bind, Prog.bind_assoc]
    refine (accept_blind payload caller _).bind ?_
    rintro (exc | accepted)
    · exact fail_blind _ collected exc
    · exact serialized_blind _ _
        ((respond_blind _).bind fun _ => finish_blind (run_blind accepted.id payload caller))
        (fail_blind _ collected)
  | «show» jobId =>
    simp only [endpoint, ExceptT.run_bind, Prog.bind_assoc]
    refine (get_blind jobId caller).bind ?_
    rintro (exc | view)
    · exact fail_blind _ collected exc
    · exact serialized_blind _ _ ((respond_blind _).bind fun _ => finish_blind trivial)
        (fail_blind _ collected)

theorem turnAway_blind (fields : List Json) (caller : Caller) :
    (turnAway env.toLibraries settings fields caller).Blind Unseen := by
  refine (enforceRateLimit_blind caller).bind ?_
  rintro (exc | collected)
  · exact fail_blind _ [] exc
  · exact rollback_blind.bind fun _ => respond_blind _

/-- **A request is blind** to all of a confidential response but its status. -/
theorem receive_blind (request : Submission × Option String) :
    (receive env settings request).Blind Unseen := by
  obtain ⟨route | fields | failure, credentials⟩ := request
  · refine (authenticate_blind credentials).bind ?_
    rintro (exc | caller)
    · exact fail_blind _ [] exc
    · exact serve_blind route caller
  · refine (authenticate_blind credentials).bind ?_
    rintro (exc | caller)
    · exact fail_blind _ [] exc
    · exact turnAway_blind fields caller
  · exact respond_blind _

end

/-! ## Two runs -/

/-- Everything outside of the process that a run depends on, except for what the provider
answers. -/
structure Circumstances where
  /-- whose request is answered in which step -/
  turn : ℕ → ℕ
  /-- how a request would be answered in which step, and the world after that -/
  answer : ℕ → World → (op : Op) → Service.Reply op × World

/-- How often the provider has answered. -/
def answered (log : List (Entry Service World)) : ℕ :=
  (providerAnswers (log.map Entry.event)).length

/-- How a request is answered after a log: by the provider with its next outcome. -/
def Circumstances.reply (c : Circumstances) (outcomes : ℕ → UpstreamOutcome)
    (log : List (Entry Service World)) (w : World) : (op : Op) → Service.Reply op × World
  | .answer => (outcomes (answered log), (c.answer log.length w .answer).2)
  | op => c.answer log.length w op

/-- What decides a run: the circumstances, and the outcomes of the POSTs to the provider. -/
def Circumstances.resolution (c : Circumstances) (outcomes : ℕ → UpstreamOutcome) :
    Resolution Service World where
  turn log := c.turn log.length
  reply log w op := (c.reply outcomes log w op).1
  after log w op := (c.reply outcomes log w op).2

/-- What can be observed of a run. -/
structure Observed where
  /-- for which request, when and with what payload a POST left for the provider -/
  posts : List (ℕ × ℚ × UpstreamPayload)
  /-- the breaker after each step -/
  breaker : List CircuitBreaker
  /-- what clients were answered -/
  replies : List (ℕ × ℚ × HttpReply)
  /-- the usage table after each step -/
  usage : List (List UsageEntry)
  /-- the job table after each step -/
  jobs : List JobTable
  /-- what was sent to callbacks -/
  callbacks : List (ℕ × ℚ × CallbackPost)

def observe (log : List (Entry Service World)) : Observed where
  posts := log.filterMap fun en => match en.op with
    | .post payload => some (en.task, en.after.now, payload)
    | _ => none
  breaker := log.map fun en => en.after.breaker
  replies := log.filterMap fun en => match en.op with
    | .respond reply => some (en.task, en.after.now, reply)
    | _ => none
  usage := log.map fun en => en.after.usage
  jobs := log.map fun en => en.after.jobs
  callbacks := log.filterMap fun en => match en.op with
    | .callback post => some (en.task, en.after.now, post)
    | _ => none

section

variable {w₀ w : World} {log log' : List (Entry Service World)}
  {tasks : List (Task (Submission × Option String) Service Unit)}

theorem observe_alike (h : List.Forall₂ (Entry.Alike Unseen) log log') :
    observe log' = observe log := by
  rw [observe, observe, Observed.mk.injEq]
  exact ⟨filterMap_alike (fun _ _ _ _ _ _ _ => rfl) h, map_alike (fun _ _ _ _ _ _ _ => rfl) h,
    filterMap_alike (fun _ _ _ _ _ _ _ => rfl) h, map_alike (fun _ _ _ _ _ _ _ => rfl) h,
    map_alike (fun _ _ _ _ _ _ _ => rfl) h, filterMap_alike (fun _ _ _ _ _ _ _ => rfl) h⟩

theorem answered_append (log log' : List (Entry Service World)) :
    answered (log ++ log') = answered log + answered log' := by
  simp only [answered, List.map_append, providerAnswers_append, List.length_append]

theorem answered_alike (h : List.Forall₂ (Entry.Alike Unseen) log log') :
    answered log' = answered log := by
  induction h with
  | nil => rfl
  | @cons en _ log log' hen _ ih =>
    cases hen with
    | refl => exact (answered_append [en] log').trans (ih ▸ (answered_append [en] log).symm)
    | mk hr =>
      obtain rfl := hr.op_eq
      exact congrArg (· + 1) ih

theorem Circumstances.reply_of_ne (c : Circumstances) (outcomes : ℕ → UpstreamOutcome) {op : Op}
    (hop : op ≠ .answer) (w : World) : c.reply outcomes log w op = c.answer log.length w op := by
  cases op <;> first | rfl | exact absurd rfl hop

/-- Under the same circumstances, alike outcomes make entries that are alike. -/
theorem Circumstances.next_alike (c : Circumstances) {outcomes outcomes' : ℕ → UpstreamOutcome}
    (halike : ∀ n, (outcomes n).Alike (outcomes' n))
    (h : List.Forall₂ (Entry.Alike Unseen) log log') (w : World) (op : Op) :
    Entry.Alike Unseen ((c.resolution outcomes).next log w op)
      ((c.resolution outcomes').next log' w op) := by
  by_cases hop : op = .answer
  · subst hop
    simp only [Resolution.next, Circumstances.resolution, Circumstances.reply, ← h.length_eq,
      answered_alike h]
    exact .mk (halike (answered log))
  · simp only [Resolution.next, Circumstances.resolution, c.reply_of_ne _ hop, ← h.length_eq]
    exact .refl _

/-- Every log is decided by circumstances and outcomes. -/
theorem exists_circumstances (log : List (Entry Service World)) :
    ∃ (c : Circumstances) (outcomes : ℕ → UpstreamOutcome),
      (c.resolution outcomes).Decides log := by
  have hanswer : ∀ (n : ℕ) (w : World) (op : Op), ∃ answer : Service.Reply op × World,
      ∀ en, log[n]? = some en → en.op = op →
        en = ⟨en.task, en.before, op, answer.1, answer.2⟩ := by
    intro n w op
    by_cases h : ∃ en, log[n]? = some en ∧ en.op = op
    · obtain ⟨en, hen, rfl⟩ := h
      refine ⟨(en.reply, en.after), fun en' hen' _ => ?_⟩
      obtain rfl := Option.some.inj (hen.symm.trans hen')
      rfl
    · obtain ⟨r, w', _⟩ := world_total w 0 op
      exact ⟨(r, w'), fun en hen hop => absurd ⟨en, hen, hop⟩ h⟩
  choose answer hanswer using hanswer
  refine ⟨⟨fun n => (log[n]?.map Entry.task).getD 0, answer⟩,
    fun n => (providerAnswers (log.map Entry.event))[n]?.getD .timeout, ?_⟩
  rintro earlier en later rfl
  have hget : (earlier ++ en :: later)[earlier.length]? = some en := by simp
  have hen := hanswer earlier.length en.before en.op en hget rfl
  by_cases hop : en.op = .answer
  · obtain ⟨t, w, op, r, w'⟩ := en
    obtain rfl : op = .answer := hop
    have hanswers : providerAnswers ((earlier ++ ⟨t, w, .answer, r, w'⟩ :: later).map Entry.event) =
        providerAnswers (earlier.map Entry.event) ++ r ::
          providerAnswers (later.map Entry.event) := by
      rw [List.map_append, providerAnswers_append]
      rfl
    simp only [Entry.mk.injEq] at hen
    simp only [Resolution.next, Circumstances.resolution, Circumstances.reply, hget, hanswers,
      answered, ← hen.2.2.2.2]
    simp
  · simp only [Resolution.next, Circumstances.resolution, Circumstances.reply_of_ne _ _ hop, hget]
    exact hen

/-- **What the provider says about itself is seen by nobody.** Take any two sequences of outcomes
that are identical except for the bodies and the headers of confidential responses. For every run of
any number of requests from any state with the first, there is a run with the second under the same
circumstances; and whatever is observed of any such run of the same requests, if both are watched
for as many steps or to their ends, is what is observed of the first, and it comes to the same. -/
theorem provider_text_unseen (env : Environment) (settings : Settings) (c : Circumstances)
    {outcomes outcomes' : ℕ → UpstreamOutcome} (halike : ∀ n, (outcomes n).Alike (outcomes' n))
    (hrun : Run world (receive env settings) w₀ log w tasks)
    (hdecides : (c.resolution outcomes).Decides log) :
    (∃ log', log'.length = log.length ∧ Run world (receive env settings) w₀ log' w tasks ∧
      (c.resolution outcomes').Decides log') ∧
    ∀ log' w' tasks', Run world (receive env settings) w₀ log' w' tasks' →
      (c.resolution outcomes').Decides log' → tasks'.map Task.label = tasks.map Task.label →
      Comparable log log' tasks tasks' →
      observe log' = observe log ∧ w' = w ∧ tasks' = tasks := by
  have hworld : ∀ (w : World) t (op : Op) (r r' : Service.Reply op) w', Unseen op r r' →
      world.step w t op r w' → world.step w t op r' w' := by
    intro w t op r r' w' hr hstep
    obtain rfl := hr.op_eq
    exact hstep
  obtain ⟨hexists, hsame⟩ := hrun.indifferent receive_blind hworld
    (fun _ _ w op h => c.next_alike halike h w op) hdecides
  refine ⟨hexists, fun log' w' tasks' hrun' hdecides' hlabels hcomparable => ?_⟩
  obtain ⟨hlogs, hrest⟩ := hsame log' w' tasks' hrun' hdecides' hlabels hcomparable
  exact ⟨observe_alike hlogs, hrest⟩

end

/-! ## A refusal -/

/-- Time stands still, and everything but the provider does what it is asked to. -/
def calm : Circumstances where
  turn _ := 0
  answer _ w
    | .monotonic | .time | .utcNow => (w.now, w)
    | .jitter => ((0 : ℚ), w)
    | .sleep _ | .post _ | .respond _ => ((), w)
    | .beforeCall => ((w.breaker.beforeCall w.now).1,
        { w with breaker := (w.breaker.beforeCall w.now).2 })
    | .recordSuccess => ((), { w with breaker := w.breaker.recordSuccess })
    | .recordFailure => ((), { w with breaker := w.breaker.recordFailure w.now })
    | .answer => (.timeout, w)
    | .record entry => (.ok (), { w with usage := w.usage ++ [entry] })
    | .check key => ((w.limiter.check key w.now w.now).1,
        { w with limiter := (w.limiter.check key w.now w.now).2 })
    | .tokenHex => ("j", { w with issued := "j" :: w.issued })
    | .createJob job => (.ok (), { w with jobs := w.jobs.create job w.now })
    | .updateJob jobId fields => (.ok (), { w with jobs := w.jobs.update jobId fields })
    | .getJob jobId apiKeyId => (.ok (w.jobs.get jobId apiKeyId), w)
    | .callback _ => (.response 200, w)
    | .findByHash _ => (.ok none, w)
    | .commit | .rollback => (.ok (), w)

/-- A 401 with this message, or with a body that is no JSON. -/
def refusal (message : Option String) : UpstreamOutcome :=
  .response {
    statusCode := 401
    header := fun _ => none
    json := match message with
      | some text => .ok (.obj [("error", .obj [("message", .str text)])])
      | none => .error .valueError }

/-- Settings without keys and limits. -/
def openHouse : Settings :=
  { Settings.defaults with requireApiKey := false, rateLimitEnabled := false }

/-- A completion, asked for without a key. -/
def helloCall : Submission × Option String := (.valid (.complete helloRequest), none)

unseal RetryPolicy.loop in
/-- The provider refuses our key. -/
theorem helloCall_refused : ∃ log w,
    Run world (receive .sample openHouse) (.start openHouse 0) log w [⟨helloCall, .ret ()⟩] ∧
    (calm.resolution fun _ => refusal (some "invalid api key sk-abc123")).Decides log ∧
    (observe log).replies.map (fun reply => reply.2.2.statusCode) = [502] := by
  let began : World := .start openHouse 0
  have h₀ : Run world (receive .sample openHouse) began _ _ _ := .spawn helloCall .start
  have h₁ := h₀.reply 0 rfl (0 : ℚ) began ⟨0, le_rfl, rfl, rfl⟩
  have h₂ := h₁.reply 0 rfl (0 : ℚ) began ⟨0, le_rfl, rfl, rfl⟩
  have h₃ := h₂.reply 0 rfl (.ok ()) began ⟨0, le_rfl, rfl, rfl⟩
  have h₄ := h₃.reply 0 rfl () began ⟨0, le_rfl, rfl⟩
  have h₅ := h₄.reply 0 rfl (refusal (some "invalid api key sk-abc123")) began ⟨0, le_rfl, rfl⟩
  have h₆ := h₅.reply 0 rfl (0 : ℚ) began ⟨0, le_rfl, rfl, rfl⟩
  have h₇ := h₆.reply 0 rfl (.ok ()) _ ⟨0, le_rfl, .inl rfl⟩
  have h₈ := h₇.reply 0 rfl (.ok ()) _ ⟨0, le_rfl, rfl⟩
  have h₉ := h₈.reply 0 rfl () _ ⟨0, le_rfl, rfl⟩
  refine ⟨_, _, h₉, ?_, rfl⟩
  iterate 9 refine Resolution.decides_concat.mpr ⟨?_, rfl⟩
  exact Resolution.decides_nil _

/-- A message about our key makes no difference: the client is answered with the same 502. -/
theorem provider_text_unseen_key : ∃ log w log',
    Run world (receive .sample openHouse) (.start openHouse 0) log w [⟨helloCall, .ret ()⟩] ∧
    Run world (receive .sample openHouse) (.start openHouse 0) log' w [⟨helloCall, .ret ()⟩] ∧
    (calm.resolution fun _ => refusal (some "invalid api key sk-abc123")).Decides log ∧
    (calm.resolution fun _ => refusal none).Decides log' ∧
    observe log' = observe log ∧
    (observe log).replies.map (fun reply => reply.2.2.statusCode) = [502] := by
  obtain ⟨log, w, hrun, hdecides, hreply⟩ := helloCall_refused
  have halike : ∀ _ : ℕ, (refusal (some "invalid api key sk-abc123")).Alike (refusal none) :=
    fun _ => .confidential (.inl rfl) rfl nofun (by rintro _ ⟨⟩; rfl)
  obtain ⟨⟨log', hlength, hrun', hdecides'⟩, hsame⟩ :=
    provider_text_unseen .sample openHouse calm halike hrun hdecides
  have hobserved := (hsame log' w _ hrun' hdecides' rfl (.inl hlength)).1
  exact ⟨log, w, log', hrun, hrun', hdecides, hdecides', hobserved, hreply⟩

end PrdApiWrapper
