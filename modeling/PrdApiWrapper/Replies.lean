import PrdApiWrapper.World
import PrdApiWrapper.Rules

/-!
# Answers to requests

Every way a request can come to its answer. A request is refused by authentication, refused by the
rate limit, turned away because its body does not meet the schema, or served; what is said here of
an answer (`Proper`) is what the refusals and the reported budget are derived from.

FastAPI decodes a body before it resolves the dependencies, but looks only after them at what is
wrong with it, and then raises `RequestValidationError`.
-/

namespace PrdApiWrapper

open Interaction

/-! ## What is submitted -/

/-- Why a body is not decoded. -/
inductive DecodingFailure where
  /-- a `JSONDecodeError`, with its `pos` and `msg` -/
  | noJson (position : ℕ) (reason : String)
  /-- anything else: the body is in no encoding of Unicode, or is nested too deeply -/
  | other

/-- What arrives at a route that needs a caller. -/
inductive Submission where
  /-- an input that passes validation -/
  | valid (route : Route)
  /-- a POST with a body that does not, with the errors, which quote it; both routes that take one
  have the rate limit -/
  | invalid (fields : List Json)
  /-- a POST with a body that is not even decoded -/
  | undecoded (failure : DecodingFailure)

/-- `validation_error_handler`. -/
def validationErrorReply (fields : List Json) : HttpReply :=
  let failure := { AppError.new .validationFailed with details := [("fields", .arr fields)] }
  { statusCode := failure.statusCode
    headers := []
    body := .error failure.code failure.message failure.details }

/-- The answer to an invalid body: if `validation_error_handler` raises, because there is a NaN to
quote or a text that is not encoded, that of `unhandled_error_handler`. -/
def rejectionReply (lib : Libraries) (collected : List (String × String)) (fields : List Json) :
    HttpReply :=
  if (validationErrorReply fields).renders lib then validationErrorReply fields
  else unhandledReply collected

/-- Whether a submission is answered by `validation_error_handler` once its caller has been charged
for it. -/
def Submission.rejected (lib : Libraries) : Submission → Bool
  | .valid _ | .undecoded _ => false
  | .invalid fields => (validationErrorReply fields).renders lib

/-- FastAPI's answer to a body it does not decode: an error of validation, which
`validation_error_handler` renders, or an `HTTPException`. -/
def undecodedReply (lib : Libraries) : DecodingFailure → HttpReply
  | .noJson position reason => rejectionReply lib [] [.obj [("type", .str "json_invalid"),
      ("loc", .arr [.str "body", .int position]), ("msg", .str "JSON decode error"),
      ("input", .obj []), ("ctx", .obj [("error", .str reason)])]]
  | .other => ⟨400, [], .detail "There was an error parsing the body"⟩

/-- A request with an invalid body once its caller is known. -/
def turnAway (lib : Libraries) (settings : Settings) (fields : List Json) (caller : Caller) :
    Prog Service Unit := do
  match ← (enforceRateLimit settings caller).run with
  | .error exc => fail lib [] exc
  | .ok collected => do
    let _ ← Op.rollback.request
    (Op.respond (rejectionReply lib collected fields)).request

/-- A whole request, with whatever it submits. -/
def receive (env : Environment) (settings : Settings) (request : Submission × Option String) :
    Prog Service Unit :=
  match request.1 with
  | .valid route => handle env settings route request.2
  | .invalid fields => do
    match ← (authenticate env settings request.2).run with
    | .error exc => fail env.toLibraries [] exc
    | .ok caller => turnAway env.toLibraries settings fields caller
  -- no dependency has run yet
  | .undecoded failure => (Op.respond (undecodedReply env.toLibraries failure)).request

/-! ## What endpoints raise -/

/-- What no dependency raises: neither a refusal, nor anything with headers of its own but for a
Retry-After. -/
def Exc.Ordinary : Exc → Prop
  | .app error =>
    error.cls ∉ [.missingCredentials, .invalidCredentials, .rateLimitExceeded] ∧
      ∀ entry ∈ error.headers, entry.1 = "Retry-After"
  | .foreign _ => True

/-- An instance raised without saying so is ordinary if its class is. -/
theorem AppError.new_ordinary (cls : ErrorClass)
    (h : cls ∉ [.missingCredentials, .invalidCredentials, .rateLimitExceeded]) :
    (Exc.app (.new cls)).Ordinary := by
  refine ⟨h, ?_⟩
  cases cls
  case missingCredentials | invalidCredentials => simp at h
  all_goals exact fun entry hentry => absurd hentry List.not_mem_nil

theorem appErrorOf_ordinary (lib : Libraries) (response : HttpResponse) (model : String)
    (message : Option String) : (Exc.app (appErrorOf lib response model message)).Ordinary := by
  have hmessage : ∀ cls message details,
      cls ∉ [.missingCredentials, .invalidCredentials, .rateLimitExceeded] →
      (Exc.app { (AppError.new cls).withMessage message with details := details }).Ordinary := by
    intro cls message details hcls
    simp only [Exc.Ordinary, AppError.withMessage_cls, AppError.withMessage_headers]
    exact AppError.new_ordinary cls hcls
  rw [appErrorOf]
  simp only
  split
  · exact hmessage .modelNotFound _ _ (by decide)
  · split
    · -- the provider's own Retry-After is passed on
      refine ⟨by simp [AppError.new], ?_⟩
      cases response.header "retry-after" with
      | none => simp [retryAfterHeaders]
      | some value => by_cases hempty : value = "" <;> simp [retryAfterHeaders, hempty]
    · split
      · exact AppError.new_ordinary .upstreamAuthFailed (by decide)
      · split
        · exact hmessage .upstreamRejectedRequest _ _ (by decide)
        · exact AppError.new_ordinary .upstreamError (by decide)

/-- What an answer of the provider raises is ordinary. -/
theorem received_ordinary {lib : Libraries} {model : String} {outcome : UpstreamOutcome} {exc : Exc}
    (h : received lib model outcome = .error exc) : exc.Ordinary := by
  cases outcome with
  | timeout =>
    cases h
    exact AppError.new_ordinary .upstreamTimeout (by decide)
  | requestError =>
    cases h
    exact AppError.new_ordinary .upstreamUnavailable (by decide)
  | foreign name =>
    cases h
    trivial
  | response response =>
    by_cases hreadable : response.Readable
    · by_cases herror : response.isError = true
      · obtain ⟨message, hmessage⟩ := upstreamMessage_readable hreadable
        cases h.symm.trans (received_error lib model herror hmessage)
        exact appErrorOf_ordinary lib response model message
      · rcases received_response_cases lib model herror hreadable with ⟨completion, hok⟩ | hinvalid
        · cases h.symm.trans hok
        · cases h.symm.trans hinvalid
          exact AppError.new_ordinary _ (by decide)
    · obtain ⟨name, hname⟩ := received_unreadable lib model hreadable
      cases h.symm.trans hname
      trivial

/-! ## What endpoints do -/

/-- What endpoints and background tasks ask for: nothing that dependencies ask for, and no
answer. -/
def Works (op : Op) : Prop :=
  match op with
  | .respond _ | .check _ | .findByHash _ | .commit | .rollback => False
  | _ => True

theorem CallsProvider.works {op : Op} (h : CallsProvider op) : Works op := by
  cases h with
  | waits h => cases h <;> trivial
  | _ => trivial

theorem Completes.works {op : Op} (h : Completes op) : Works op := by
  cases h with
  | calls h => exact h.works
  | record _ => trivial

theorem Reports.works {op : Op} (h : Reports op) : Works op := by
  cases h with
  | delivers h =>
    cases h with
    | waits h => cases h <;> trivial
    | _ => trivial
  | _ => trivial

variable (env : Environment) (settings : Settings)

theorem run_works (jobId : String) (request : JobRequest) (caller : Caller) :
    ((jobsOf env settings).run jobId request caller).run.Only Works := by
  refine JobService.only_run (fun fields => ?_) ?_ fun payload => ?_
  · exact (update_only env settings jobId fields).mono fun _ => Reports.works
  · exact (complete_only env settings request.completionRequest caller).mono
      fun _ => Completes.works
  · exact (deliverResult_only env settings jobId _ payload).mono fun _ => Reports.works

section

variable {Q : Type} {A : Protocol Service Q} {I : Q → Prop}

/-- The attempts at a completion raise what is ordinary, if the breaker is one. -/
theorem awp_attempts_ordinary (hkeeps : Keeps A CallsProvider I)
    (hbreaker : ∀ q r q', A.next q .beforeCall r q' → BreakerSays ⟨.beforeCall, r⟩)
    (payload : UpstreamPayload) (model : String) {q : Q} (hI : I q) :
    Async.awp A ((completionService env settings).retry.run
        ((completionService env settings).guardedCall payload model))
      (fun _ => I) (fun exc q' => I q' ∧ exc.Ordinary) q := by
  let Raised (outcome : Except Exc CompletionResponse) : Prop :=
    ∀ exc, outcome = .error exc → exc.Ordinary
  refine Async.awp_mono (fun _ _ h => h.1) (fun exc _ h => ⟨h.1, h.2 exc rfl⟩)
    (awp_attempts_outcome (R := Raised) hkeeps payload model ?_ ?_ ?_ hI)
  · rintro q exc q' hnext _ ⟨⟩
    rcases hbreaker q _ q' hnext rfl with h | h
    · cases h
    · cases h
      exact AppError.new_ordinary .upstreamCircuitOpen (by decide)
  · exact fun _ _ _ _ _ => received_ordinary
  · rintro name _ ⟨⟩
    trivial

theorem awp_complete_ordinary (hkeeps : Keeps A Completes I)
    (hbreaker : ∀ q r q', A.next q .beforeCall r q' → BreakerSays ⟨.beforeCall, r⟩)
    (request : CompletionRequest) (caller : Caller) {q : Q} (hI : I q) :
    Async.awp A ((completionService env settings).complete request caller)
      (fun _ => I) (fun exc q' => I q' ∧ exc.Ordinary) q := by
  have hrecord : ∀ model statusCode started usage q, I q →
      Async.awp A
        ((completionService env settings).recordUsage caller model statusCode started usage)
        (fun _ => I) (fun exc q' => I q' ∧ exc.Ordinary) q := by
    intro model statusCode started usage q hI
    rw [awp_recordUsage]
    obtain ⟨hallow, hnext⟩ := hkeeps _ (.calls (.waits .monotonic)) q hI
    refine ⟨hallow, fun now q₁ h₁ => ?_⟩
    exact hkeeps _ (.record _) q₁ (hnext now q₁ h₁)
  rw [awp_complete]
  obtain ⟨hallow, hnext⟩ := hkeeps _ (.calls (.waits .monotonic)) q hI
  refine ⟨hallow, fun started q₁ h₁ => ?_⟩
  refine Async.awp_mono (fun response q₂ hI₂ => hrecord _ _ _ _ q₂ hI₂) ?_
    (awp_attempts_ordinary env settings (fun op hop => hkeeps op (.calls hop)) hbreaker _ _
      (hnext started q₁ h₁))
  rintro (error | name) q₂ ⟨hI₂, hordinary⟩
  · exact Async.awp_mono (fun _ q₃ hI₃ => ⟨hI₃, hordinary⟩) (fun _ _ h => h)
      (hrecord _ _ _ _ q₂ hI₂)
  · exact ⟨hI₂, hordinary⟩

/-- **An endpoint** answers with 200 or 202, or raises what is ordinary. -/
theorem awp_endpoint_ordinary (hkeeps : Keeps A Works I)
    (hbreaker : ∀ q r q', A.next q .beforeCall r q' → BreakerSays ⟨.beforeCall, r⟩)
    (route : Route) (caller : Caller) {q : Q} (hI : I q) :
    Async.awp A (endpoint env settings caller route)
      (fun answer q' => I q' ∧ (answer.statusCode = 200 ∨ answer.statusCode = 202) ∧
        answer.background.run.Only Works)
      (fun exc q' => I q' ∧ exc.Ordinary) q := by
  cases route with
  | complete payload =>
    simp only [endpoint, Async.awp_bind, Async.awp_pure]
    exact Async.awp_mono (fun _ _ hI => ⟨hI, .inl trivial, trivial⟩) (fun _ _ h => h)
      (awp_complete_ordinary env settings (fun op hop => hkeeps op hop.works) hbreaker payload
        caller hI)
  | submit payload =>
    simp only [endpoint, JobService.accept, jobsOf, stored, Async.awp_bind, Async.awp_lift,
      Async.awp_mk, Async.awp_pure, Prog.wp_map]
    obtain ⟨hallow, hnext⟩ := hkeeps .tokenHex trivial q hI
    refine ⟨hallow, fun id q₁ h₁ => ?_⟩
    obtain ⟨hallow₁, hnext₁⟩ := hkeeps (.createJob _) trivial q₁ (hnext id q₁ h₁)
    refine ⟨hallow₁, ?_⟩
    rintro (name | ⟨⟩) q₂ h₂
    · exact ⟨hnext₁ _ q₂ h₂, trivial⟩
    · exact ⟨hnext₁ _ q₂ h₂, .inr trivial, run_works env settings _ payload caller⟩
  | «show» jobId =>
    simp only [endpoint, JobService.get, jobsOf, stored, Async.awp_bind, Async.awp_mk,
      Async.awp_pure, Prog.wp_map]
    obtain ⟨hallow, hnext⟩ := hkeeps (.getJob jobId caller.id) trivial q hI
    refine ⟨hallow, ?_⟩
    rintro (name | (_ | view)) q₁ h₁
    · exact ⟨hnext _ q₁ h₁, trivial⟩
    · exact ⟨hnext _ q₁ h₁, AppError.new_ordinary .jobNotFound (by decide)⟩
    · exact ⟨hnext _ q₁ h₁, .inl trivial, trivial⟩

end

/-! ## Answers -/

/-- The code in an error body. -/
def ReplyBody.code : ReplyBody → Option String
  | .error code _ _ => some code
  | _ => none

/-- An answer that refuses its request: 401, or 429 for the caller's own rate. -/
def HttpReply.Refuses (reply : HttpReply) : Prop :=
  reply.statusCode = 401 ∨
    reply.statusCode = 429 ∧ reply.body.code = some "rate_limit_exceeded"

/-- The answer carries the headers of a decision. -/
def HttpReply.Reports (reply : HttpReply) (decision : RateLimitDecision) : Prop :=
  ∀ entry ∈ rateLimitHeaders decision, lookup entry.1 reply.headers = some entry.2

theorem unhandledReply_not_refuses (collected : List (String × String)) :
    ¬ (unhandledReply collected).Refuses := by
  simp [HttpReply.Refuses, unhandledReply, AppError.statusCode, AppError.new,
    ErrorClass.statusCode]

/-- What is not ordinary is all that refuses. -/
theorem errorReply_not_refuses (lib : Libraries) (collected : List (String × String)) {exc : Exc}
    (h : exc.Ordinary) : ¬ (errorReply lib collected exc).Refuses := by
  rcases errorReply_cases lib collected exc with ⟨error, rfl, hreply⟩ | hreply <;> rw [hreply]
  · obtain ⟨cls, message, details, headers, retryAfter, retryable⟩ := error
    have hcls := h.1
    simp only [HttpReply.Refuses, appErrorReply, AppError.statusCode, AppError.code, ReplyBody.code]
    cases cls
    case missingCredentials | invalidCredentials | rateLimitExceeded => simp at hcls
    all_goals simp [ErrorClass.statusCode, ErrorClass.code]
  · exact unhandledReply_not_refuses collected

theorem rateLimitHeaders_names (decision : RateLimitDecision) :
    ∀ entry ∈ rateLimitHeaders decision, entry.1 ≠ "Retry-After" := by
  simp [rateLimitHeaders]

/-- Each of the three headers has a name of its own. -/
theorem lookup_rateLimitHeaders (decision : RateLimitDecision) :
    ∀ entry ∈ rateLimitHeaders decision,
      lookup entry.1 (rateLimitHeaders decision) = some entry.2 := by
  simp [rateLimitHeaders, lookup]

/-- `d | e` keeps what `e` does not have. -/
theorem lookup_mergeHeaders {name : String} {d e : List (String × String)}
    (h : ∀ entry ∈ e, entry.1 ≠ name) : lookup name (mergeHeaders d e) = lookup name d := by
  have hnone : e.find? (fun entry => entry.1 == name) = none := by
    rw [List.find?_eq_none]
    intro entry hentry
    simpa using h entry hentry
  unfold lookup mergeHeaders
  rw [List.find?_append, hnone, Option.or_none, List.find?_filter]
  congr 2
  funext entry
  by_cases hname : entry.1 = name
  · simpa [hname] using h
  · simp [hname]

/-- The answer to what is ordinary reports the budget it is handed. -/
theorem errorReply_reports (lib : Libraries) {exc : Exc} (h : exc.Ordinary)
    (decision : RateLimitDecision) :
    (errorReply lib (rateLimitHeaders decision) exc).Reports decision := by
  intro entry hentry
  rcases errorReply_cases lib (rateLimitHeaders decision) exc with ⟨error, rfl, hreply⟩ | hreply <;>
    rw [hreply]
  · have hother : ∀ entry' ∈ error.headers, entry'.1 ≠ entry.1 := by
      intro entry' hentry'
      rw [h.2 entry' hentry']
      exact (rateLimitHeaders_names decision entry hentry).symm
    exact (lookup_mergeHeaders hother).trans (lookup_rateLimitHeaders decision entry hentry)
  · exact lookup_rateLimitHeaders decision entry hentry

/-- An invalid body is no refusal. -/
theorem rejectionReply_not_refuses (lib : Libraries) (collected : List (String × String))
    (fields : List Json) : ¬ (rejectionReply lib collected fields).Refuses := by
  rw [rejectionReply]
  split
  · simp [HttpReply.Refuses, validationErrorReply, AppError.statusCode, AppError.new,
      ErrorClass.statusCode]
  · exact unhandledReply_not_refuses collected

/-- Nor is one that is not decoded. -/
theorem undecodedReply_not_refuses (lib : Libraries) (failure : DecodingFailure) :
    ¬ (undecodedReply lib failure).Refuses := by
  cases failure with
  | noJson position reason => exact rejectionReply_not_refuses lib [] _
  | other => simp [undecodedReply, HttpReply.Refuses]

/-- The answer to an invalid body reports the budget it is handed unless
`validation_error_handler` gives it. -/
theorem rejectionReply_reports (lib : Libraries) (decision : RateLimitDecision)
    (fields : List Json) :
    (rejectionReply lib (rateLimitHeaders decision) fields).Reports decision ↔
      (Submission.invalid fields).rejected lib = false := by
  unfold rejectionReply Submission.rejected
  split
  · next hrenders =>
    refine iff_of_false (fun hreports => ?_) (by simp [hrenders])
    -- its headers are not sent
    have hlimit := hreports ("X-RateLimit-Limit", toString decision.limit) List.mem_cons_self
    cases hlimit
  · next hrenders =>
    exact iff_of_true (fun entry => lookup_rateLimitHeaders decision entry)
      (Bool.eq_false_iff.mpr hrenders)

/-! ## The way to an answer -/

/-- What a limiter raises is not an `AppError`. -/
def LimiterSays (ev : Event Service) : Prop :=
  ∀ key exc, ev = ⟨.check key, .error exc⟩ → ∃ name, exc = .foreign name

/-- The replies of a breaker and a limiter. -/
def Genuine (ev : Event Service) : Prop := BreakerSays ev ∧ LimiterSays ev

/-- The decision of a check that let its request through. -/
def grantOf (ev : Event Service) : Option RateLimitDecision :=
  match ev with
  | ⟨.check _, .ok decision⟩ => if decision.allowed then some decision else none
  | _ => none

/-- What a refused request does: it looks its caller up, is denied a token, rolls back and
answers. -/
def Quiet (ev : Event Service) : Prop :=
  match ev with
  | ⟨.findByHash _, _⟩ | ⟨.rollback, _⟩ | ⟨.respond _, _⟩ => True
  | ⟨.check _, r⟩ => ∃ decision, r = .ok decision ∧ decision.allowed = false
  | _ => False

/-- What is true of an answer, after what its request did before. -/
structure ProperReply (lib : Libraries) (submission : Submission) (trace : List (Event Service))
    (reply : HttpReply) : Prop where
  /-- it is the only one -/
  first : ∀ ev ∈ trace, ∀ reply', ev.op ≠ .respond reply'
  /-- only requests that did nothing are refused -/
  quiet : reply.Refuses → ∀ ev ∈ trace, Quiet ev
  /-- the budget is reported, unless the body was rejected -/
  budget : ∀ decision ∈ trace.filterMap grantOf,
    reply.Reports decision ↔ submission.rejected lib = false

/-- No refusal so far. -/
def NotRefused (trace : List (Event Service)) : Prop :=
  ∀ ev ∈ trace, ∀ reply, ev.op = .respond reply → ¬ reply.Refuses

/-- What is true of every step of a request: a refusal ends it, and what it is answered is
proper. -/
def Proper (env : Environment) (settings : Settings) (submission : Submission)
    (trace : List (Event Service)) (op : Op) : Prop :=
  NotRefused trace ∧ match op with
    | .respond reply => ProperReply env.toLibraries submission trace reply
    | .check _ => settings.rateLimitEnabled = true
    | _ => True

/-- A request that has not been answered, and was granted these tokens. -/
structure Unanswered (granted : List RateLimitDecision) (trace : List (Event Service)) : Prop where
  silent : ∀ ev ∈ trace, ∀ reply, ev.op ≠ .respond reply
  granted : trace.filterMap grantOf = granted

variable {env settings} {submission : Submission} {granted : List RateLimitDecision}
  {trace : List (Event Service)}

theorem Unanswered.start : Unanswered [] [] := ⟨by simp, rfl⟩

theorem Unanswered.snoc (h : Unanswered granted trace) {ev : Event Service}
    (hev : ∀ reply, ev.op ≠ .respond reply) (hgrant : grantOf ev = none) :
    Unanswered granted (trace ++ [ev]) where
  silent ev' hev' := by
    rcases List.mem_append.mp hev' with hev' | hev'
    · exact h.silent ev' hev'
    · obtain rfl := List.mem_singleton.mp hev'
      exact hev
  granted := by
    rw [List.filterMap_append, h.granted, List.filterMap_cons_none hgrant, List.filterMap_nil,
      List.append_nil]

theorem Unanswered.notRefused (h : Unanswered granted trace) : NotRefused trace :=
  fun ev hev reply hop => absurd hop (h.silent ev hev reply)

theorem Unanswered.rollback (h : Unanswered granted trace) (r : Except String Unit) :
    Unanswered granted (trace ++ [⟨.rollback, r⟩]) :=
  h.snoc (by rintro _ ⟨⟩) rfl

theorem quiet_snoc (h : ∀ ev ∈ trace, Quiet ev) {ev : Event Service} (hev : Quiet ev) :
    ∀ ev' ∈ trace ++ [ev], Quiet ev' := by
  intro ev' hev'
  rcases List.mem_append.mp hev' with hev' | hev'
  · exact h ev' hev'
  · obtain rfl := List.mem_singleton.mp hev'
    exact hev

/-- An endpoint neither answers nor is granted tokens. -/
theorem keeps_unanswered : Keeps (Protocol.watched Genuine (Proper env settings submission)) Works
    (Unanswered granted) := by
  intro op hop trace h
  refine ⟨?_, ?_⟩
  · exact ⟨h.notRefused, by cases op <;> trivial⟩
  · rintro r _ ⟨_, rfl⟩
    refine h.snoc ?_ ?_
    · rintro reply rfl
      exact hop
    · cases op <;> first | rfl | exact hop.elim

/-- The end of a request that was not refused. -/
theorem finish_proper {background : Async Service Exc Unit} (h : background.run.Only Works)
    (hnot : NotRefused trace) :
    (finish background).wp (Protocol.watched Genuine (Proper env settings submission))
      (fun _ _ => True) trace := by
  have hkeep : ∀ op r, (∀ reply, op ≠ .respond reply) → ∀ trace, NotRefused trace →
      NotRefused (trace ++ [⟨op, r⟩]) := by
    intro op r hop trace htrace ev hev
    rcases List.mem_append.mp hev with hev | hev
    · exact htrace ev hev
    · obtain rfl := List.mem_singleton.mp hev
      exact fun reply hrespond => absurd hrespond (hop reply)
  have hworks : ∀ op, Works op → ∀ trace, NotRefused trace →
      (Protocol.watched Genuine (Proper env settings submission)).allows trace op ∧
        ∀ r trace',
          (Protocol.watched Genuine (Proper env settings submission)).next trace op r trace' →
          NotRefused trace' := by
    intro op hop trace htrace
    refine ⟨⟨htrace, by cases op <;> trivial⟩, ?_⟩
    rintro r _ ⟨_, rfl⟩
    refine hkeep op r ?_ trace htrace
    rintro reply rfl
    exact hop
  rw [finish, Prog.wp_bind]
  refine Prog.wp_mono ?_ (Prog.wp_of_only h hworks hnot)
  rintro (exc | ⟨⟩) trace₁ h₁
  · exact ⟨⟨h₁, trivial⟩, fun _ _ _ => trivial⟩
  · refine ⟨⟨h₁, trivial⟩, ?_⟩
    rintro (name | ⟨⟩) _ ⟨_, rfl⟩
    · exact ⟨⟨hkeep _ _ (by rintro _ ⟨⟩) trace₁ h₁, trivial⟩, fun _ _ _ => trivial⟩
    · trivial

/-- A failure is answered after a rollback. -/
theorem fail_proper {collected : List (String × String)} {exc : Exc}
    (h : Unanswered granted trace)
    (hreply : ∀ r, ProperReply env.toLibraries submission (trace ++ [⟨.rollback, r⟩])
      (errorReply env.toLibraries collected exc)) :
    (fail env.toLibraries collected exc).wp
      (Protocol.watched Genuine (Proper env settings submission)) (fun _ _ => True) trace := by
  refine ⟨⟨h.notRefused, trivial⟩, ?_⟩
  rintro r _ ⟨_, rfl⟩
  exact ⟨⟨(h.rollback r).notRefused, hreply r⟩, fun _ _ _ => trivial⟩

/-- A failure before anything was granted, of a request that did nothing. -/
theorem ProperReply.of_quiet (h : Unanswered [] trace) (hquiet : ∀ ev ∈ trace, Quiet ev)
    (reply : HttpReply) : ProperReply env.toLibraries submission trace reply where
  first := h.silent
  quiet _ := hquiet
  budget := by
    rw [h.granted]
    exact nofun

/-- Authentication grants nothing, and does nothing. -/
theorem authenticate_proper (rawKey : Option String) :
    Async.awp (Protocol.watched Genuine (Proper env settings submission))
      (authenticate env settings rawKey)
      (fun _ trace => Unanswered [] trace ∧ ∀ ev ∈ trace, Quiet ev)
      (fun _ trace => Unanswered [] trace ∧ ∀ ev ∈ trace, Quiet ev) [] := by
  have hstart : ∀ ev ∈ ([] : List (Event Service)), Quiet ev := by simp
  rw [awp_authenticate]
  cases rawKey.filter (· ≠ "") with
  | none =>
    simp only
    split
    · exact ⟨.start, hstart⟩
    · exact ⟨.start, hstart⟩
  | some key =>
    have hfind : ∀ r, Unanswered [] ([] ++ [⟨.findByHash (env.hashApiKey key), r⟩]) ∧
        ∀ ev ∈ [] ++ [(⟨.findByHash (env.hashApiKey key), r⟩ : Event Service)], Quiet ev :=
      fun r => ⟨Unanswered.start.snoc (by rintro _ ⟨⟩) rfl, quiet_snoc hstart trivial⟩
    refine ⟨⟨Unanswered.start.notRefused, trivial⟩, ?_⟩
    rintro (name | (_ | caller)) _ ⟨_, rfl⟩
    · exact hfind _
    · exact hfind _
    · exact hfind _

/-- What is known once the rate limit has let a request through: the headers it left are those of
the decision, if there was one. -/
def Collected (collected : List (String × String)) (trace : List (Event Service)) : Prop :=
  ∃ granted, Unanswered granted trace ∧ ∀ decision ∈ granted, collected = rateLimitHeaders decision

/-- The rate limit lets a request through, or denies it a token, or breaks. -/
theorem enforceRateLimit_proper (caller : Caller) (h : Unanswered [] trace)
    (hquiet : ∀ ev ∈ trace, Quiet ev) :
    Async.awp (Protocol.watched Genuine (Proper env settings submission))
      (enforceRateLimit settings caller) Collected
      (fun exc trace' => Unanswered [] trace' ∧
        ((∀ ev ∈ trace', Quiet ev) ∨ exc.Ordinary)) trace := by
  rw [awp_enforceRateLimit]
  split
  · next henabled =>
    refine ⟨⟨h.notRefused, henabled⟩, ?_⟩
    rintro (exc | decision) _ ⟨hgenuine, rfl⟩
    · obtain ⟨name, rfl⟩ := hgenuine.2 caller.id exc rfl
      exact ⟨h.snoc (by rintro _ ⟨⟩) rfl, .inr trivial⟩
    · by_cases hallowed : decision.allowed = true
      · have hgrant : grantOf ⟨.check caller.id, .ok decision⟩ = some decision := if_pos hallowed
        simp only [if_pos hallowed]
        refine ⟨[decision], ⟨?_, ?_⟩, by simp⟩
        · intro ev hev
          rcases List.mem_append.mp hev with hev | hev
          · exact h.silent ev hev
          · obtain rfl := List.mem_singleton.mp hev
            rintro _ ⟨⟩
        · rw [List.filterMap_append, h.granted, List.filterMap_cons_some hgrant]
          rfl
      · simp only [if_neg hallowed]
        refine ⟨h.snoc (by rintro _ ⟨⟩) (if_neg hallowed), .inl (quiet_snoc hquiet ?_)⟩
        exact ⟨decision, rfl, Bool.eq_false_iff.mpr hallowed⟩
  · exact ⟨[], h, nofun⟩

/-- A failure of authentication or of the rate limit is answered as it should be. -/
theorem refused_proper {exc : Exc} (h : Unanswered [] trace)
    (hquiet : (∀ ev ∈ trace, Quiet ev) ∨ exc.Ordinary) :
    (fail env.toLibraries [] exc).wp (Protocol.watched Genuine (Proper env settings submission))
      (fun _ _ => True) trace := by
  refine fail_proper h fun r => ?_
  have hrollback := h.rollback r
  rcases hquiet with hquiet | hordinary
  · exact .of_quiet hrollback (quiet_snoc hquiet trivial) _
  · refine ⟨hrollback.silent, fun hrefuses => ?_, ?_⟩
    · exact absurd hrefuses (errorReply_not_refuses _ [] hordinary)
    · rw [hrollback.granted]
      exact nofun

/-- The endpoint and everything after it. -/
theorem serve_proper (route : Route) (caller : Caller) (h : Unanswered [] trace)
    (hquiet : ∀ ev ∈ trace, Quiet ev) :
    (serve env settings route caller).wp
      (Protocol.watched Genuine (Proper env settings (.valid route))) (fun _ _ => True) trace := by
  have hlimit : Async.awp (Protocol.watched Genuine (Proper env settings (.valid route)))
      (if route.limited then enforceRateLimit settings caller else pure []) Collected
      (fun exc trace' => Unanswered [] trace' ∧
        ((∀ ev ∈ trace', Quiet ev) ∨ exc.Ordinary)) trace := by
    split
    · exact enforceRateLimit_proper caller h hquiet
    · exact ⟨[], h, nofun⟩
  rw [serve, Prog.wp_bind]
  refine Prog.wp_mono ?_ hlimit
  rintro (exc | collected) trace₁ h₁
  · exact refused_proper h₁.1 h₁.2
  · obtain ⟨granted, h₁, hcollected⟩ := h₁
    rw [Prog.wp_bind]
    refine Prog.wp_mono ?_ (awp_serialized_of (fun _ _ h => ⟨h.1, trivial⟩)
      (awp_endpoint_ordinary env settings keeps_unanswered (fun _ _ _ hnext => hnext.1.1) route
        caller h₁))
    rintro (exc | answer) trace₂ ⟨h₂, hanswer⟩
    · refine fail_proper h₂ fun r => ⟨(h₂.rollback r).silent, fun hrefuses => ?_, ?_⟩
      · exact absurd hrefuses (errorReply_not_refuses _ collected hanswer)
      · rw [(h₂.rollback r).granted]
        intro decision hdecision
        rw [hcollected decision hdecision]
        exact iff_of_true (errorReply_reports _ hanswer decision) rfl
    · obtain ⟨hstatus, hbackground⟩ := hanswer
      have hserved : ¬ (⟨answer.statusCode, collected, answer.body⟩ : HttpReply).Refuses := by
        simp only [HttpReply.Refuses]
        omega
      refine ⟨⟨h₂.notRefused, h₂.silent, fun hrefuses => absurd hrefuses hserved, ?_⟩, ?_⟩
      · rw [h₂.granted]
        intro decision hdecision
        rw [hcollected decision hdecision]
        exact iff_of_true (lookup_rateLimitHeaders decision) rfl
      · rintro u _ ⟨_, rfl⟩
        refine finish_proper hbackground fun ev hev reply hop => ?_
        rcases List.mem_append.mp hev with hev | hev
        · exact h₂.notRefused ev hev reply hop
        · obtain rfl := List.mem_singleton.mp hev
          cases hop
          exact hserved

/-- A request with an invalid body. -/
theorem turnAway_proper (fields : List Json) (caller : Caller) (h : Unanswered [] trace)
    (hquiet : ∀ ev ∈ trace, Quiet ev) :
    (turnAway env.toLibraries settings fields caller).wp
      (Protocol.watched Genuine (Proper env settings (.invalid fields)))
      (fun _ _ => True) trace := by
  rw [turnAway, Prog.wp_bind]
  refine Prog.wp_mono ?_ (enforceRateLimit_proper caller h hquiet)
  rintro (exc | collected) trace₁ h₁
  · exact refused_proper h₁.1 h₁.2
  · obtain ⟨granted, h₁, hcollected⟩ := h₁
    refine ⟨⟨h₁.notRefused, trivial⟩, ?_⟩
    rintro r _ ⟨_, rfl⟩
    have hrollback := h₁.rollback r
    refine ⟨⟨hrollback.notRefused, hrollback.silent, fun hrefuses => ?_,
      fun decision hdecision => ?_⟩, fun _ _ _ => trivial⟩
    · exact absurd hrefuses (rejectionReply_not_refuses _ collected fields)
    · rw [hrollback.granted] at hdecision
      rw [hcollected decision hdecision]
      exact rejectionReply_reports _ decision fields

/-- **Every step of every request is proper.** -/
theorem receive_proper (request : Submission × Option String) :
    (receive env settings request).wp
      (Protocol.watched Genuine (Proper env settings request.1)) (fun _ _ => True) [] := by
  obtain ⟨submission, credentials⟩ := request
  cases submission with
  | valid route =>
    simp only [receive, handle]
    rw [Prog.wp_bind]
    refine Prog.wp_mono ?_ (authenticate_proper credentials)
    rintro (exc | caller) trace ⟨h, hquiet⟩
    · exact refused_proper h (.inl hquiet)
    · exact serve_proper route caller h hquiet
  | invalid fields =>
    simp only [receive]
    rw [Prog.wp_bind]
    refine Prog.wp_mono ?_ (authenticate_proper credentials)
    rintro (exc | caller) trace ⟨h, hquiet⟩
    · exact refused_proper h (.inl hquiet)
    · exact turnAway_proper fields caller h hquiet
  | undecoded failure =>
    -- nothing has been granted
    refine ⟨⟨Unanswered.start.notRefused, Unanswered.start.silent, fun hrefuses => ?_, by simp⟩,
      fun _ _ _ => trivial⟩
    exact absurd hrefuses (undecodedReply_not_refuses _ failure)

/-! ## Requests in any company -/

/-- In the world, a check is answered by the limiter. -/
theorem chained_genuine {w₀ w : World} {log : List (Entry Service World)}
    (h : Chained world w₀ log w) : ∀ en ∈ log, Genuine en.event := by
  intro en hen
  refine ⟨chained_breakerSays h en hen, fun key exc hevent => ?_⟩
  obtain ⟨earlier, later, hlog⟩ := List.append_of_mem hen
  obtain ⟨_, hstep⟩ := h.split.2 earlier en later hlog
  rcases world_limiter hstep with ⟨hother, _⟩ | ⟨key', created, _, hanswer, _⟩
  · exact absurd (congrArg Event.op hevent) (hother key)
  · rw [hevent] at hanswer
    obtain ⟨hkey, hreply⟩ := Event.mk.inj hanswer
    cases hkey
    exact en.before.limiter.check_error (eq_of_heq hreply).symm

/-- **Every step of every request of a run is proper.** -/
theorem run_proper {w₀ w : World} {log : List (Entry Service World)}
    {tasks : List (Task (Submission × Option String) Service Unit)}
    (h : Run world (receive env settings) w₀ log w tasks) {earlier : List (Entry Service World)}
    {en : Entry Service World} {later : List (Entry Service World)}
    (hsplit : log = earlier ++ en :: later) :
    ∃ task, tasks[en.task]? = some task ∧
      Proper env settings task.label.1 (ownTrace en.task earlier) en.op :=
  h.watch receive_proper (chained_genuine h.chained) hsplit

/-! ## From one attempt to a whole request -/

/-- A whole request keeps what one attempt, and everything that is no part of one, keep. -/
theorem wp_receive_of_attempt {Q : Type} {A : Protocol Service Q} {I : Q → Prop}
    (hothers : Keeps A (¬Attempts ·) I)
    (hattempt : ∀ payload model q, I q →
      Async.awp A ((completionService env settings).guardedCall payload model)
        (fun _ => I) (fun _ => I) q)
    (request : Submission × Option String) {q : Q} (h : I q) :
    (receive env settings request).wp A (fun _ => I) q := by
  obtain ⟨submission, credentials⟩ := request
  have hauthenticate : Async.awp A (authenticate env settings credentials)
      (fun _ => I) (fun _ => I) q := by
    rw [awp_authenticate]
    split
    · split <;> exact h
    · obtain ⟨hallows, hnext⟩ := hothers (.findByHash _) (by rintro ⟨⟩) q h
      refine ⟨hallows, fun r q₁ h₁ => ?_⟩
      have hfound := hnext r q₁ h₁
      rcases r with name | (_ | caller) <;> exact hfound
  have hreply : ∀ reply q, I q → (do
      let _ ← Op.rollback.request
      (Op.respond reply).request : Prog Service Unit).wp A (fun _ => I) q := by
    intro reply q h
    obtain ⟨hallows, hnext⟩ := hothers .rollback (by rintro ⟨⟩) q h
    exact ⟨hallows, fun r q₁ h₁ =>
      hothers (.respond reply) (by rintro ⟨⟩) q₁ (hnext r q₁ h₁)⟩
  cases submission with
  | valid route =>
    simp only [receive, handle]
    rw [Prog.wp_bind]
    refine Prog.wp_mono ?_ hauthenticate
    rintro (exc | caller) q₁ h₁
    · exact hreply _ q₁ h₁
    · exact wp_serve_of_attempt hothers hattempt h₁
  | invalid fields =>
    simp only [receive]
    rw [Prog.wp_bind]
    refine Prog.wp_mono ?_ hauthenticate
    rintro (exc | caller) q₁ h₁
    · exact hreply _ q₁ h₁
    · simp only [turnAway]
      rw [Prog.wp_bind]
      refine Prog.wp_mono ?_ (awp_enforceRateLimit_keeps hothers h₁)
      rintro (exc | collected) q₂ h₂ <;> exact hreply _ q₂ h₂
  | undecoded failure => exact hothers (.respond _) (by rintro ⟨⟩) q h

end PrdApiWrapper
