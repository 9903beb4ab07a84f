import PrdApiWrapper.Replies

/-!
# Conversations

What a client is told of its request, from the first thing the request asks to the end of its
session. Every request goes through a few stages (`Progress`), and each says what may still be asked
for: one answer, a rollback before it if it is an error, a commit after it if it is not. A request
whose body is not decoded never has a session. What the answer says has a cause in what the request
was told before it (`Founded`).
-/

namespace PrdApiWrapper

open Interaction

/-! ## The stages of a request -/

/-- How far a request has come. -/
inductive Progress where
  /-- its body not decoded, about to be told so -/
  | unread
  /-- told so -/
  | told
  /-- not answered yet -/
  | working
  /-- rolled back, about to be told of its failure -/
  | undone
  /-- answered, with its session open -/
  | answered
  /-- answered, and its commit failed -/
  | unsaved
  /-- answered, with its session closed -/
  | closed

/-- An answer with an error envelope, or with what FastAPI says of an error. -/
def HttpReply.isError (reply : HttpReply) : Bool :=
  match reply.body with
  | .error _ _ _ | .detail _ => true
  | _ => false

namespace Progress

/-- The stage after a reply. -/
def after : Progress → Event Service → Progress
  | .unread, ⟨.respond _, _⟩ => .told
  | .working, ⟨.rollback, _⟩ => .undone
  | .working, ⟨.respond _, _⟩ => .answered
  | .undone, ⟨.respond _, _⟩ => .closed
  | .answered, ⟨.commit, .ok _⟩ => .closed
  | .answered, ⟨.commit, .error _⟩ => .unsaved
  | .answered, ⟨.rollback, _⟩ => .closed
  | .unsaved, ⟨.rollback, _⟩ => .closed
  | stage, _ => stage

/-- What may be asked for at a stage. -/
def allows : Progress → Op → Prop
  | .unread, .respond reply => reply.isError = true
  | .unread, _ | .told, _ => False
  | .working, .commit => False
  | .working, .respond reply => reply.isError = false
  | .undone, .respond reply => reply.isError = true
  | .undone, _ => False
  | .answered, .respond _ | .answered, .check _ | .answered, .findByHash _ => False
  | .unsaved, op => op = .rollback
  | .closed, _ => False
  | _, _ => True

/-- A stage without a session. -/
def Outside (stage : Progress) : Prop := stage = .unread ∨ stage = .told

/-- The end of a request. -/
def Over (stage : Progress) : Prop := stage = .told ∨ stage = .closed

/-- A session is not opened later. -/
theorem after_outside (stage : Progress) (ev : Event Service) :
    (stage.after ev).Outside ↔ stage.Outside := by
  obtain ⟨op, r⟩ := ev
  cases stage <;> cases op
  case answered.commit => cases r <;> simp [after, Outside]
  all_goals simp [after, Outside]

end Progress

/-- A body that is not decoded is answered before any dependency runs. -/
def Submission.Decoded (submission : Submission) : Prop :=
  ∀ failure, submission ≠ .undecoded failure

/-- The stage a request begins at. -/
def Submission.stage : Submission → Progress
  | .undecoded _ => .unread
  | _ => .working

theorem Submission.Decoded.stage_eq {submission : Submission} (h : submission.Decoded) :
    submission.stage = .working := by
  cases submission with
  | valid _ | invalid _ => rfl
  | undecoded failure => exact absurd rfl (h failure)

/-- The stage a request has come to. -/
def progressOf (submission : Submission) (trace : List (Event Service)) : Progress :=
  trace.foldl Progress.after submission.stage

@[simp] theorem progressOf_nil (submission : Submission) :
    progressOf submission [] = submission.stage := rfl

@[simp] theorem progressOf_snoc (submission : Submission) (trace : List (Event Service))
    (ev : Event Service) :
    progressOf submission (trace ++ [ev]) = (progressOf submission trace).after ev := by
  simp [progressOf]

/-- Only a request whose body is not decoded has no session. -/
theorem progressOf_outside (submission : Submission) (trace : List (Event Service)) :
    (progressOf submission trace).Outside ↔ ¬ submission.Decoded := by
  induction trace using List.reverseRecOn with
  | nil => cases submission <;> simp [Submission.stage, Progress.Outside, Submission.Decoded]
  | append_singleton trace ev ih => rw [progressOf_snoc, Progress.after_outside, ih]

/-- The work of endpoints and background tasks does not change the stage, and is allowed before the
answer and after it. -/
theorem Progress.after_of_works {op : Op} (h : Works op) (r : Service.Reply op) :
    Progress.working.after ⟨op, r⟩ = .working ∧ Progress.answered.after ⟨op, r⟩ = .answered := by
  cases op <;> first | exact ⟨rfl, rfl⟩ | exact h.elim

theorem Progress.allows_of_works {op : Op} (h : Works op) :
    Progress.working.allows op ∧ Progress.answered.allows op := by
  cases op <;> first | exact ⟨trivial, trivial⟩ | exact h.elim

/-- Neither an answer nor the end of a session. -/
def Neutral (op : Op) : Prop :=
  match op with
  | .respond _ | .commit | .rollback => False
  | _ => True

/-- What an allowed reply does to the stage. -/
inductive Progress.Step : Progress → Event Service → Progress → Prop where
  | turnAway (reply : HttpReply) : reply.isError = true →
    Step .unread ⟨.respond reply, ()⟩ .told
  | work (ev : Event Service) : Neutral ev.op → Step .working ev .working
  | undo (r : Except String Unit) : Step .working ⟨.rollback, r⟩ .undone
  | answer (reply : HttpReply) : reply.isError = false →
    Step .working ⟨.respond reply, ()⟩ .answered
  | tell (reply : HttpReply) : reply.isError = true → Step .undone ⟨.respond reply, ()⟩ .closed
  | workOn (ev : Event Service) : Neutral ev.op → Step .answered ev .answered
  | commit : Step .answered ⟨.commit, .ok ()⟩ .closed
  | spoil (name : String) : Step .answered ⟨.commit, .error name⟩ .unsaved
  | abort (r : Except String Unit) : Step .answered ⟨.rollback, r⟩ .closed
  | close (r : Except String Unit) : Step .unsaved ⟨.rollback, r⟩ .closed

theorem Progress.step_of_allows {stage : Progress} {ev : Event Service} (h : stage.allows ev.op) :
    stage.Step ev (stage.after ev) := by
  obtain ⟨op, r⟩ := ev
  cases stage with
  | unread =>
    cases op with
    | respond reply => exact .turnAway reply h
    | _ => exact h.elim
  | told => exact h.elim
  | working =>
    cases op with
    | respond reply => exact .answer reply h
    | commit => exact h.elim
    | rollback => exact .undo r
    | _ => exact .work _ trivial
  | undone =>
    cases op with
    | respond reply => exact .tell reply h
    | _ => exact h.elim
  | answered =>
    cases op with
    | respond reply => exact h.elim
    | commit =>
      match r with
      | .ok () => exact .commit
      | .error name => exact .spoil name
    | rollback => exact .abort r
    | check key => exact h.elim
    | findByHash keyHash => exact h.elim
    | _ => exact .workOn _ trivial
  | unsaved =>
    obtain rfl := h
    exact .close r
  | closed => exact h.elim

/-! ## Where an answer comes from -/

/-- A statement of the database that raised before the answer. -/
inductive StatementRaised (name : String) : Event Service → Prop where
  | findByHash (keyHash : String) : StatementRaised name ⟨.findByHash keyHash, .error name⟩
  | createJob (job : NewJob) : StatementRaised name ⟨.createJob job, .error name⟩
  | getJob (jobId apiKeyId : String) : StatementRaised name ⟨.getJob jobId apiKeyId, .error name⟩

/-- Where an answer that is no error comes from, by what the request was told before. -/
inductive Earned (env : Environment) (settings : Settings) (trace : List (Event Service)) :
    Submission → HttpReply → Prop where
  /-- the provider's answer, parsed -/
  | completion (payload : CompletionRequest) (outcome : UpstreamOutcome)
    (response : CompletionResponse) (headers : List (String × String)) :
    ⟨.answer, outcome⟩ ∈ trace →
    received env.toLibraries (orElse payload.model settings.upstreamModel) outcome =
      .ok response →
    Earned env settings trace (.valid (.complete payload)) ⟨200, headers, .completion response⟩
  /-- a pending row was stored under a new id -/
  | accepted (payload : JobRequest) (caller : Caller) (id : String)
    (headers : List (String × String)) :
    ⟨.tokenHex, id⟩ ∈ trace →
    ⟨.createJob (JobService.newJob id payload caller
      (orElse payload.model settings.upstreamModel)), .ok ()⟩ ∈ trace →
    Earned env settings trace (.valid (.submit payload)) ⟨202, headers, .accepted ⟨id, .pending⟩⟩
  /-- the row that was found -/
  | view (jobId apiKeyId : String) (view : JobView) (headers : List (String × String)) :
    ⟨.getJob jobId apiKeyId, .ok (some view)⟩ ∈ trace →
    Earned env settings trace (.valid (.show jobId)) ⟨200, headers, .view view⟩

/-- Where an exception that ends a request comes from, by what the request was told before. -/
inductive Caused (env : Environment) (settings : Settings) (submission : Submission)
    (trace : List (Event Service)) : Exc → Prop where
  /-- there is no key, and one is required -/
  | missing : settings.requireApiKey = true →
    Caused env settings submission trace (.app (.new .missingCredentials))
  /-- nobody has this key -/
  | unknown (keyHash : String) : ⟨.findByHash keyHash, .ok none⟩ ∈ trace →
    Caused env settings submission trace (.app (.new .invalidCredentials))
  /-- the limiter said no -/
  | limited (key : String) (decision : RateLimitDecision) :
    (∀ jobId, submission ≠ .valid (.show jobId)) →
    ⟨.check key, .ok decision⟩ ∈ trace → decision.allowed = false →
    Caused env settings submission trace (.app (rateLimitExceeded decision))
  /-- the limiter raised -/
  | limiter (key name : String) : ⟨.check key, .error (.foreign name)⟩ ∈ trace →
    Caused env settings submission trace (.foreign name)
  /-- the breaker refused a call to the provider -/
  | paused (payload : CompletionRequest) : submission = .valid (.complete payload) →
    ⟨.beforeCall, .error CircuitBreaker.circuitOpen⟩ ∈ trace →
    Caused env settings submission trace CircuitBreaker.circuitOpen
  /-- the provider's answer came to this -/
  | provider (payload : CompletionRequest) (outcome : UpstreamOutcome) (exc : Exc) :
    submission = .valid (.complete payload) → ⟨.answer, outcome⟩ ∈ trace →
    received env.toLibraries (orElse payload.model settings.upstreamModel) outcome =
      .error exc →
    Caused env settings submission trace exc
  /-- there is no waiting after a failure worth repeating -/
  | wait (error : AppError) (name : String) : Caused env settings submission trace (.app error) →
    error.retryable = true → Unwaitable (trace.countP isPost) error →
    Caused env settings submission trace (.foreign name)
  /-- the caller has no such job -/
  | absent (jobId apiKeyId : String) : submission = .valid (.show jobId) →
    ⟨.getJob jobId apiKeyId, .ok none⟩ ∈ trace →
    Caused env settings submission trace (.app (.new .jobNotFound))
  /-- the database raised -/
  | database (name : String) (ev : Event Service) : ev ∈ trace → StatementRaised name ev →
    Caused env settings submission trace (.foreign name)
  /-- what was to be answered cannot be rendered -/
  | unrendered (reply : HttpReply) (name : String) :
    Earned env settings trace submission reply → reply.body.renders env.toLibraries = false →
    Caused env settings submission trace (.foreign name)

/-- How an exception is answered, by whether that can be rendered. -/
inductive ToldAs (lib : Libraries) (collected : List (String × String)) :
    Exc → HttpReply → Prop where
  | error (error : AppError) : (appErrorReply collected error).renders lib = true →
    ToldAs lib collected (.app error) (appErrorReply collected error)
  | unrendered (error : AppError) : (appErrorReply collected error).renders lib = false →
    ToldAs lib collected (.app error) (unhandledReply collected)
  | bug (name : String) : ToldAs lib collected (.foreign name) (unhandledReply collected)

theorem errorReply_toldAs (lib : Libraries) (collected : List (String × String)) (exc : Exc) :
    ToldAs lib collected exc (errorReply lib collected exc) := by
  cases exc with
  | foreign name => exact .bug name
  | app error =>
    rw [errorReply]
    split
    · next hrenders => exact .error error hrenders
    · next hrenders => exact .unrendered error (Bool.eq_false_iff.mpr hrenders)

theorem ToldAs.isError {lib : Libraries} {collected : List (String × String)} {exc : Exc}
    {reply : HttpReply} (h : ToldAs lib collected exc reply) : reply.isError = true := by
  cases h <;> rfl

/-- Every answer is earned, or that of an exception with a cause, or that of a body that is invalid
or not decoded. -/
inductive Founded (env : Environment) (settings : Settings) (submission : Submission)
    (trace : List (Event Service)) : HttpReply → Prop where
  | earned (reply : HttpReply) : Earned env settings trace submission reply →
    reply.body.renders env.toLibraries = true → Founded env settings submission trace reply
  | raised (collected : List (String × String)) (exc : Exc) (reply : HttpReply) :
    submission.Decoded → Caused env settings submission trace exc →
    ToldAs env.toLibraries collected exc reply → Founded env settings submission trace reply
  | rejected (collected : List (String × String)) (fields : List Json) :
    submission = .invalid fields →
    Founded env settings submission trace (rejectionReply env.toLibraries collected fields)
  | undecoded (failure : DecodingFailure) : submission = .undecoded failure →
    Founded env settings submission trace (undecodedReply env.toLibraries failure)

variable {env : Environment} {settings : Settings} {submission : Submission}
  {trace : List (Event Service)}

/-- Waiting does not become possible later. -/
theorem Unwaitable.mono {attempt attempt' : ℕ} {error : AppError} (h : Unwaitable attempt error)
    (hle : attempt ≤ attempt') : Unwaitable attempt' error := by
  rcases h with hnan | ⟨hnone, hlarge⟩
  · exact .inl hnan
  · exact .inr ⟨hnone, by omega⟩

theorem Earned.snoc {reply : HttpReply} (h : Earned env settings trace submission reply)
    (ev : Event Service) : Earned env settings (trace ++ [ev]) submission reply := by
  have hmem : ∀ {ev' : Event Service}, ev' ∈ trace → ev' ∈ trace ++ [ev] :=
    List.mem_append_left [ev]
  cases h with
  | completion payload outcome response headers h hreceived =>
    exact .completion payload outcome response headers (hmem h) hreceived
  | accepted payload caller id headers hid h =>
    exact .accepted payload caller id headers (hmem hid) (hmem h)
  | view jobId apiKeyId view headers h => exact .view jobId apiKeyId view headers (hmem h)

/-- A cause stays one. -/
theorem Caused.snoc {exc : Exc} (h : Caused env settings submission trace exc)
    (ev : Event Service) : Caused env settings submission (trace ++ [ev]) exc := by
  have hmem : ∀ {ev' : Event Service}, ev' ∈ trace → ev' ∈ trace ++ [ev] :=
    List.mem_append_left [ev]
  induction h with
  | missing h => exact .missing h
  | unknown keyHash h => exact .unknown keyHash (hmem h)
  | limited key decision hroute h hdenied => exact .limited key decision hroute (hmem h) hdenied
  | limiter key name h => exact .limiter key name (hmem h)
  | paused payload hroute h => exact .paused payload hroute (hmem h)
  | provider payload outcome exc hroute h hreceived =>
    exact .provider payload outcome exc hroute (hmem h) hreceived
  | wait error name _ hretry hwait ih =>
    refine .wait error name ih hretry (hwait.mono ?_)
    rw [List.countP_append]
    exact Nat.le_add_right _ _
  | absent jobId apiKeyId hroute h => exact .absent jobId apiKeyId hroute (hmem h)
  | database name ev' h hraised => exact .database name ev' (hmem h) hraised
  | unrendered reply name h hrenders => exact .unrendered reply name (h.snoc ev) hrenders

/-! ## What a request asks for -/

/-- What a request may ask for: what its stage allows, and an answer only if it is founded. -/
def Conducts (env : Environment) (settings : Settings) (submission : Submission)
    (trace : List (Event Service)) (op : Op) : Prop :=
  (progressOf submission trace).allows op ∧
    ∀ reply, op = .respond reply → Founded env settings submission trace reply

/-- Unless it is an answer, what the stage allows may be asked for. -/
theorem Conducts.of_silent {op : Op} (hallows : (progressOf submission trace).allows op)
    (hop : ∀ reply, op ≠ .respond reply) : Conducts env settings submission trace op :=
  ⟨hallows, fun reply h => absurd h (hop reply)⟩

/-- Not answered yet, and `P` holds. -/
def Working (submission : Submission) (P : List (Event Service) → Prop)
    (trace : List (Event Service)) : Prop :=
  progressOf submission trace = .working ∧ P trace

/-- Work may be asked for before the answer, and leaves a request unanswered. -/
theorem work_conducts {op : Op} (hop : Works op)
    (hstage : progressOf submission trace = .working) :
    Conducts env settings submission trace op ∧
      ∀ r, progressOf submission (trace ++ [⟨op, r⟩]) = .working := by
  refine ⟨.of_silent ?_ (by rintro reply rfl; exact hop), fun r => ?_⟩
  · rw [hstage]
    exact (Progress.allows_of_works hop).1
  · rw [progressOf_snoc, hstage]
    exact (Progress.after_of_works hop r).1

theorem keeps_working {P : List (Event Service) → Prop}
    (hP : ∀ trace ev, P trace → P (trace ++ [ev])) :
    Keeps (Protocol.watched Genuine (Conducts env settings submission)) Works
      (Working submission P) := by
  rintro op hop trace ⟨hstage, h⟩
  obtain ⟨hallows, hsame⟩ := work_conducts hop hstage
  refine ⟨hallows, ?_⟩
  rintro r _ ⟨-, rfl⟩
  exact ⟨hsame r, hP trace _ h⟩

/-- A request that raised for a cause is rolled back and told of it. -/
theorem fail_conducts {collected : List (String × String)} {exc : Exc}
    (hdecoded : submission.Decoded) (hstage : progressOf submission trace = .working)
    (h : Caused env settings submission trace exc) :
    (fail env.toLibraries collected exc).wp
      (Protocol.watched Genuine (Conducts env settings submission))
      (fun _ trace' => progressOf submission trace' = .closed) trace := by
  have htold := errorReply_toldAs env.toLibraries collected exc
  refine ⟨.of_silent (by rw [hstage]; trivial) (by rintro _ ⟨⟩), ?_⟩
  rintro r _ ⟨-, rfl⟩
  have hundone : progressOf submission (trace ++ [⟨.rollback, r⟩]) = .undone := by
    rw [progressOf_snoc, hstage]
    rfl
  refine ⟨⟨?_, ?_⟩, ?_⟩
  · rw [hundone]
    exact htold.isError
  · rintro _ ⟨⟩
    exact .raised collected exc _ hdecoded (h.snoc _) htold
  · rintro u _ ⟨-, rfl⟩
    change progressOf submission (_ ++ [_]) = .closed
    rw [progressOf_snoc, hundone]
    rfl

/-- A request that was answered works on, and closes its session. -/
theorem finish_conducts {background : Async Service Exc Unit} (h : background.run.Only Works)
    (hstage : progressOf submission trace = .answered) :
    (finish background).wp (Protocol.watched Genuine (Conducts env settings submission))
      (fun _ trace' => progressOf submission trace' = .closed) trace := by
  have hworks : ∀ op, Works op → ∀ trace, progressOf submission trace = .answered →
      (Protocol.watched Genuine (Conducts env settings submission)).allows trace op ∧
        ∀ r trace', (Protocol.watched Genuine (Conducts env settings submission)).next
          trace op r trace' → progressOf submission trace' = .answered := by
    intro op hop trace hstage
    refine ⟨.of_silent ?_ (by rintro reply rfl; exact hop), ?_⟩
    · rw [hstage]
      exact (Progress.allows_of_works hop).2
    · rintro r _ ⟨-, rfl⟩
      rw [progressOf_snoc, hstage]
      exact (Progress.after_of_works hop r).2
  have hrollback : ∀ trace,
      progressOf submission trace = .answered ∨ progressOf submission trace = .unsaved →
      (do let _ ← Op.rollback.request : Prog Service Unit).wp
        (Protocol.watched Genuine (Conducts env settings submission))
        (fun _ trace' => progressOf submission trace' = .closed) trace := by
    intro trace hstage
    refine ⟨.of_silent ?_ (by rintro _ ⟨⟩), ?_⟩
    · rcases hstage with hstage | hstage <;> rw [hstage]
      · trivial
      · rfl
    · rintro r _ ⟨-, rfl⟩
      change progressOf submission (_ ++ [_]) = .closed
      rw [progressOf_snoc]
      rcases hstage with hstage | hstage <;> rw [hstage] <;> rfl
  rw [finish, Prog.wp_bind]
  refine Prog.wp_mono ?_ (Prog.wp_of_only h hworks hstage)
  rintro (exc | ⟨⟩) trace₁ h₁
  · exact hrollback trace₁ (.inl h₁)
  · refine ⟨.of_silent (by rw [h₁]; trivial) (by rintro _ ⟨⟩), ?_⟩
    rintro (name | ⟨⟩) _ ⟨-, rfl⟩
    · refine hrollback _ (.inr ?_)
      rw [progressOf_snoc, h₁]
      rfl
    · change progressOf submission (_ ++ [_]) = .closed
      rw [progressOf_snoc, h₁]
      rfl

/-! ## The parts of a request -/

/-- Whatever was raised, it was for a cause, before any answer. -/
def RaisedIn (env : Environment) (settings : Settings) (submission : Submission) (exc : Exc)
    (trace : List (Event Service)) : Prop :=
  Working submission (fun trace => Caused env settings submission trace exc) trace

theorem authenticate_conducts (hdecoded : submission.Decoded) (rawKey : Option String) :
    Async.awp (Protocol.watched Genuine (Conducts env settings submission))
      (authenticate env settings rawKey) (fun _ trace => progressOf submission trace = .working)
      (RaisedIn env settings submission) [] := by
  have hstage : progressOf submission [] = .working := hdecoded.stage_eq
  rw [awp_authenticate]
  cases rawKey.filter (· ≠ "") with
  | none =>
    by_cases hrequired : settings.requireApiKey = true
    · simp only [if_pos hrequired]
      exact ⟨hstage, .missing hrequired⟩
    · simp only [if_neg hrequired]
      exact hstage
  | some key =>
    refine ⟨.of_silent (by rw [hstage]; trivial) (by rintro _ ⟨⟩), ?_⟩
    have hsame : ∀ r, progressOf submission ([] ++ [⟨.findByHash (env.hashApiKey key), r⟩]) =
        .working := by
      intro r
      rw [progressOf_snoc, hstage]
      rfl
    rintro (name | (_ | caller)) _ ⟨-, rfl⟩
    · exact ⟨hsame _, .database name _ List.mem_cons_self (.findByHash _)⟩
    · exact ⟨hsame _, .unknown _ List.mem_cons_self⟩
    · exact hsame _

theorem enforceRateLimit_conducts (caller : Caller)
    (hroute : ∀ jobId, submission ≠ .valid (.show jobId))
    (hstage : progressOf submission trace = .working) :
    Async.awp (Protocol.watched Genuine (Conducts env settings submission))
      (enforceRateLimit settings caller) (fun _ trace => progressOf submission trace = .working)
      (RaisedIn env settings submission) trace := by
  rw [awp_enforceRateLimit]
  split
  · refine ⟨.of_silent (by rw [hstage]; trivial) (by rintro _ ⟨⟩), ?_⟩
    have hsame : ∀ r, progressOf submission (trace ++ [⟨.check caller.id, r⟩]) = .working := by
      intro r
      rw [progressOf_snoc, hstage]
      rfl
    rintro (exc | decision) _ ⟨hgenuine, rfl⟩
    · obtain ⟨name, rfl⟩ := hgenuine.2 caller.id exc rfl
      exact ⟨hsame _, .limiter caller.id name List.mem_concat_self⟩
    · by_cases hallowed : decision.allowed = true
      · simp only [if_pos hallowed]
        exact hsame _
      · simp only [if_neg hallowed]
        exact ⟨hsame _, .limited caller.id decision hroute List.mem_concat_self
          (Bool.eq_false_iff.mpr hallowed)⟩
  · exact hstage

/-- The answer to one of the requests before came to this completion. -/
def Received (env : Environment) (settings : Settings) (payload : CompletionRequest)
    (response : CompletionResponse) (trace : List (Event Service)) : Prop :=
  ∃ outcome, ⟨.answer, outcome⟩ ∈ trace ∧
    received env.toLibraries (orElse payload.model settings.upstreamModel) outcome = .ok response

theorem Received.snoc {payload : CompletionRequest} {response : CompletionResponse}
    (h : Received env settings payload response trace) (ev : Event Service) :
    Received env settings payload response (trace ++ [ev]) := by
  obtain ⟨outcome, hmem, hreceived⟩ := h
  exact ⟨outcome, List.mem_append_left _ hmem, hreceived⟩

/-- An attempt after `k` POSTs failed for a cause; if that is worth repeating, it was a POST. -/
structure Failed (env : Environment) (settings : Settings) (submission : Submission) (k : ℕ)
    (error : AppError) (trace : List (Event Service)) : Prop where
  caused : Caused env settings submission trace (.app error)
  posts : error.retryable = true → k + 1 ≤ trace.countP isPost

theorem Failed.snoc {k : ℕ} {error : AppError} (h : Failed env settings submission k error trace)
    (ev : Event Service) : Failed env settings submission k error (trace ++ [ev]) where
  caused := h.caused.snoc ev
  posts hretry := by
    rw [List.countP_append]
    exact Nat.le_add_right_of_le (h.posts hretry)

theorem countP_snoc {n : ℕ} (h : n ≤ trace.countP isPost) (ev : Event Service) :
    n ≤ (trace ++ [ev]).countP isPost := by
  rw [List.countP_append]
  exact Nat.le_add_right_of_le h

variable (env settings) in
/-- What one answer of the provider leads to. -/
theorem answered_conducts {payload : CompletionRequest} {outcome : UpstreamOutcome} {k : ℕ}
    (hsubmission : submission = .valid (.complete payload))
    (h : Working submission (fun trace' => k + 1 ≤ trace'.countP isPost) trace)
    (hanswer : ⟨.answer, outcome⟩ ∈ trace) :
    match received env.toLibraries (orElse payload.model settings.upstreamModel) outcome with
    | .ok response => Working submission (Received env settings payload response) trace
    | .error (.app error) => Working submission (Failed env settings submission k error) trace
    | .error (.foreign name) => RaisedIn env settings submission (.foreign name) trace := by
  cases hreceived :
      received env.toLibraries (orElse payload.model settings.upstreamModel) outcome with
  | ok response => exact ⟨h.1, outcome, hanswer, hreceived⟩
  | error exc =>
    have hraised : Caused env settings submission trace exc :=
      .provider payload outcome exc hsubmission hanswer hreceived
    cases exc with
    | app error => exact ⟨h.1, hraised, fun _ => h.2⟩
    | foreign name => exact ⟨h.1, hraised⟩

/-- One attempt at a completion. -/
theorem guardedCall_conducts {payload : CompletionRequest} (upstreamPayload : UpstreamPayload)
    {k : ℕ} (hsubmission : submission = .valid (.complete payload))
    (h : Working submission (fun trace' => k ≤ trace'.countP isPost) trace) :
    Async.awp (Protocol.watched Genuine (Conducts env settings submission))
      ((completionService env settings).guardedCall upstreamPayload
        (orElse payload.model settings.upstreamModel))
      (fun response => Working submission (Received env settings payload response))
      (fun exc trace' => match exc with
        | .app error => Working submission (Failed env settings submission k error) trace'
        | .foreign name => RaisedIn env settings submission (.foreign name) trace') trace := by
  rw [awp_guardedCall]
  have hkeeps : Keeps (Protocol.watched Genuine (Conducts env settings submission)) Works
      (Working submission fun trace' => k ≤ trace'.countP isPost) :=
    keeps_working fun _ ev h => countP_snoc h ev
  obtain ⟨hallow, hnext⟩ := hkeeps .beforeCall trivial trace h
  refine ⟨hallow, fun r trace₁ hr => ?_⟩
  have h₁ := hnext r trace₁ hr
  obtain ⟨hgenuine, rfl⟩ := hr
  rcases hgenuine.1 rfl with hr | hr
  · cases hr
    obtain ⟨hallow₁, hnext₁⟩ := hkeeps (.post upstreamPayload) trivial _ h₁
    refine ⟨hallow₁, fun u trace₂ hu => ?_⟩
    have h₂ : Working submission (fun trace' => k + 1 ≤ trace'.countP isPost) trace₂ := by
      refine ⟨(hnext₁ u trace₂ hu).1, ?_⟩
      obtain ⟨-, rfl⟩ := hu
      rw [List.countP_append]
      exact Nat.succ_le_succ h₁.2
    obtain ⟨hallow₂, hnext₂⟩ := keeps_working (fun _ ev h => countP_snoc h ev) .answer trivial
      trace₂ h₂
    refine ⟨hallow₂, fun outcome trace₃ ho => ?_⟩
    have hanswer : ⟨.answer, outcome⟩ ∈ trace₃ := by
      obtain ⟨-, rfl⟩ := ho
      exact List.mem_concat_self
    have h₃ := answered_conducts env settings hsubmission (hnext₂ outcome trace₃ ho) hanswer
    revert h₃
    rcases received env.toLibraries (orElse payload.model settings.upstreamModel) outcome with
      (error | name) | response
    · intro h₃
      simp only
      split
      · exact keeps_working (fun _ ev h => h.snoc ev) .recordFailure trivial trace₃ h₃
      · exact h₃
    · exact id
    · exact keeps_working (fun _ ev h => h.snoc ev) .recordSuccess trivial trace₃
  · cases hr
    refine ⟨h₁.1, .paused payload hsubmission List.mem_concat_self, fun hretry => ?_⟩
    cases hretry

/-- What the attempts at a completion come to has a cause in the answers to them. The number of
POSTs before an attempt bounds how often the backoff was doubled. -/
theorem attempts_conducts (payload : CompletionRequest) (upstreamPayload : UpstreamPayload)
    (hsubmission : submission = .valid (.complete payload))
    (hstage : progressOf submission trace = .working) :
    Async.awp (Protocol.watched Genuine (Conducts env settings submission))
      ((completionService env settings).retry.run
        ((completionService env settings).guardedCall upstreamPayload
          (orElse payload.model settings.upstreamModel)))
      (fun response => Working submission (Received env settings payload response))
      (RaisedIn env settings submission) trace := by
  refine RetryPolicy.awp_run (fun k => Working submission fun trace' => k ≤ trace'.countP isPost)
    (fun k error => Working submission (Failed env settings submission k error)) ?_
    (fun k trace₁ h₁ => guardedCall_conducts upstreamPayload hsubmission h₁)
    (fun k error trace₁ h₁ _ => ⟨h₁.1, h₁.2.caused⟩) fun started k error trace₁ h₁ hretry _ => ?_
  · obtain ⟨hallow, hnext⟩ := keeps_working (P := fun _ => True) (fun _ _ _ => trivial) .monotonic
      trivial trace ⟨hstage, trivial⟩
    exact ⟨hallow, fun started trace₁ h₁ => ⟨(hnext started trace₁ h₁).1, Nat.zero_le _⟩⟩
  · have hwaits : Keeps (Protocol.watched Genuine (Conducts env settings submission)) Waits
        (Working submission (Failed env settings submission k error)) := fun op hop =>
      keeps_working (fun _ ev h => h.snoc ev) op (CallsProvider.works (.waits hop))
    refine awp_servicePause hwaits h₁ (fun _ again trace₂ h₂ => ?_) fun hwait name trace₂ h₂ => ?_
    · cases again with
      | false => exact ⟨h₂.1, h₂.2.caused⟩
      | true => exact ⟨h₂.1, h₂.2.posts hretry⟩
    · exact ⟨h₂.1, .wait error name h₂.2.caused hretry (hwait.mono (h₂.2.posts hretry))⟩

/-- Recording the usage takes no cause away. -/
theorem recordUsage_conducts {P : List (Event Service) → Prop}
    (hP : ∀ trace ev, P trace → P (trace ++ [ev])) (caller : Caller) (model : String)
    (statusCode : ℤ) (started : ℚ) (usage : Option CompletionUsage) (h : Working submission P trace)
    {err : Exc → List (Event Service) → Prop} :
    Async.awp (Protocol.watched Genuine (Conducts env settings submission))
      ((completionService env settings).recordUsage caller model statusCode started usage)
      (fun _ => Working submission P) err trace := by
  rw [awp_recordUsage]
  obtain ⟨hallow, hnext⟩ := keeps_working hP .monotonic trivial trace h
  refine ⟨hallow, fun now trace₁ h₁ => ?_⟩
  exact keeps_working hP (.record _) trivial trace₁ (hnext now trace₁ h₁)

theorem complete_conducts (payload : CompletionRequest) (caller : Caller)
    (hsubmission : submission = .valid (.complete payload))
    (hstage : progressOf submission trace = .working) :
    Async.awp (Protocol.watched Genuine (Conducts env settings submission))
      ((completionService env settings).complete payload caller)
      (fun response => Working submission (Received env settings payload response))
      (RaisedIn env settings submission) trace := by
  rw [awp_complete]
  obtain ⟨hallow, hnext⟩ := keeps_working (P := fun _ => True) (fun _ _ _ => trivial) .monotonic
    trivial trace ⟨hstage, trivial⟩
  refine ⟨hallow, fun started trace₁ h₁ => ?_⟩
  refine Async.awp_mono ?_ ?_ (attempts_conducts payload _ hsubmission (hnext started trace₁ h₁).1)
  · exact fun response trace₂ h₂ => recordUsage_conducts
      (P := Received env settings payload response) (fun _ ev h => h.snoc ev) _ _ _ _ _ h₂
  · rintro (error | name) trace₂ h₂
    · exact recordUsage_conducts (fun _ ev h => h.snoc ev) _ _ _ _ _ h₂
    · exact h₂

/-- **An endpoint** answers what it was told, or raises for a cause. -/
theorem endpoint_conducts (route : Route) (caller : Caller)
    (hstage : progressOf (.valid route) trace = .working) :
    Async.awp (Protocol.watched Genuine (Conducts env settings (.valid route)))
      (endpoint env settings caller route)
      (fun answer trace' => progressOf (.valid route) trace' = .working ∧
        answer.background.run.Only Works ∧
        ∀ headers, Earned env settings trace' (.valid route)
          ⟨answer.statusCode, headers, answer.body⟩)
      (RaisedIn env settings (.valid route)) trace := by
  cases route with
  | complete payload =>
    simp only [endpoint, Async.awp_bind, Async.awp_pure]
    refine Async.awp_mono ?_ (fun _ _ h => h) (complete_conducts payload caller rfl hstage)
    rintro response trace' ⟨hworking, outcome, hmem, hreceived⟩
    exact ⟨hworking, trivial, fun headers => .completion payload outcome response headers hmem
      hreceived⟩
  | submit payload =>
    simp only [endpoint, JobService.accept, jobsOf, stored, Async.awp_bind, Async.awp_lift,
      Async.awp_mk, Async.awp_pure, Prog.wp_map]
    obtain ⟨hallow, hsame⟩ := work_conducts (show Works .tokenHex from trivial) hstage
    refine ⟨hallow, ?_⟩
    rintro id _ ⟨-, rfl⟩
    obtain ⟨hallow₁, hsame₁⟩ := work_conducts (show Works (.createJob (JobService.newJob id
      payload caller (orElse payload.model settings.upstreamModel))) from trivial) (hsame id)
    refine ⟨hallow₁, ?_⟩
    rintro (name | ⟨⟩) _ ⟨-, rfl⟩
    · exact ⟨hsame₁ _, .database name _ List.mem_concat_self (.createJob _)⟩
    · refine ⟨hsame₁ _, run_works env settings _ payload caller, fun headers => ?_⟩
      exact .accepted payload caller id headers
        (List.mem_append_left _ List.mem_concat_self) List.mem_concat_self
  | «show» jobId =>
    simp only [endpoint, JobService.get, jobsOf, stored, Async.awp_bind, Async.awp_mk,
      Async.awp_pure, Prog.wp_map]
    obtain ⟨hallow, hsame⟩ := work_conducts (show Works (.getJob jobId caller.id) from trivial)
      hstage
    refine ⟨hallow, ?_⟩
    rintro (name | (_ | view)) _ ⟨-, rfl⟩
    · exact ⟨hsame _, .database name _ List.mem_concat_self (.getJob _ _)⟩
    · exact ⟨hsame _, .absent jobId caller.id rfl List.mem_concat_self⟩
    · exact ⟨hsame _, trivial, fun headers => .view jobId caller.id view headers
        List.mem_concat_self⟩

/-- So does one whose answer is rendered, or cannot be. -/
theorem serialized_conducts (route : Route) (caller : Caller)
    (hstage : progressOf (.valid route) trace = .working) :
    Async.awp (Protocol.watched Genuine (Conducts env settings (.valid route)))
      (endpoint env settings caller route >>= serialized env.toLibraries)
      (fun answer trace' => progressOf (.valid route) trace' = .working ∧
        answer.background.run.Only Works ∧ answer.body.renders env.toLibraries = true ∧
        ∀ headers, Earned env settings trace' (.valid route)
          ⟨answer.statusCode, headers, answer.body⟩)
      (RaisedIn env settings (.valid route)) trace := by
  refine awp_endpoint_serialized (Async.awp_mono ?_ (fun _ _ h => h)
    (endpoint_conducts route caller hstage))
  rintro answer trace' ⟨hstage', hbackground, hearned⟩
  split
  · next hrenders => exact ⟨hstage', hbackground, hrenders, hearned⟩
  · next hrenders =>
    exact ⟨hstage', .unrendered _ _ (hearned []) (Bool.eq_false_iff.mpr hrenders)⟩

/-! ## A whole request -/

/-- An earned answer is no error. -/
theorem Earned.not_error {reply : HttpReply} (h : Earned env settings trace submission reply) :
    reply.isError = false := by
  cases h <;> rfl

theorem serve_conducts (route : Route) (caller : Caller)
    (hstage : progressOf (.valid route) trace = .working) :
    (serve env settings route caller).wp
      (Protocol.watched Genuine (Conducts env settings (.valid route)))
      (fun _ trace' => progressOf (.valid route) trace' = .closed) trace := by
  have hlimit : Async.awp (Protocol.watched Genuine (Conducts env settings (.valid route)))
      (if route.limited then enforceRateLimit settings caller else pure [])
      (fun _ trace => progressOf (.valid route) trace = .working)
      (RaisedIn env settings (.valid route)) trace := by
    split
    · next hlimited =>
      refine enforceRateLimit_conducts caller ?_ hstage
      rintro jobId ⟨⟩
      cases hlimited
    · exact hstage
  rw [serve, Prog.wp_bind]
  refine Prog.wp_mono ?_ hlimit
  rintro (exc | collected) trace₁ h₁
  · exact fail_conducts (by rintro _ ⟨⟩) h₁.1 h₁.2
  · rw [Prog.wp_bind]
    refine Prog.wp_mono ?_ (serialized_conducts route caller h₁)
    rintro (exc | answer) trace₂ h₂
    · exact fail_conducts (by rintro _ ⟨⟩) h₂.1 h₂.2
    · obtain ⟨hstage₂, hbackground, hrenders, hearned⟩ := h₂
      refine ⟨⟨?_, ?_⟩, ?_⟩
      · rw [hstage₂]
        exact (hearned collected).not_error
      · rintro _ ⟨⟩
        exact .earned _ (hearned collected) hrenders
      · rintro u _ ⟨-, rfl⟩
        refine finish_conducts hbackground ?_
        rw [progressOf_snoc, hstage₂]
        rfl

theorem rejectionReply_isError (lib : Libraries) (collected : List (String × String))
    (fields : List Json) : (rejectionReply lib collected fields).isError = true := by
  unfold rejectionReply
  split <;> rfl

theorem turnAway_conducts (fields : List Json) (caller : Caller)
    (hstage : progressOf (.invalid fields) trace = .working) :
    (turnAway env.toLibraries settings fields caller).wp
      (Protocol.watched Genuine (Conducts env settings (.invalid fields)))
      (fun _ trace' => progressOf (.invalid fields) trace' = .closed) trace := by
  rw [turnAway, Prog.wp_bind]
  refine Prog.wp_mono ?_ (enforceRateLimit_conducts caller (by rintro _ ⟨⟩) hstage)
  rintro (exc | collected) trace₁ h₁
  · exact fail_conducts (by rintro _ ⟨⟩) h₁.1 h₁.2
  · refine ⟨.of_silent (by rw [h₁]; trivial) (by rintro _ ⟨⟩), ?_⟩
    rintro r _ ⟨-, rfl⟩
    have hundone : progressOf (.invalid fields) (trace₁ ++ [⟨.rollback, r⟩]) = .undone := by
      rw [progressOf_snoc, h₁]
      rfl
    refine ⟨⟨?_, ?_⟩, ?_⟩
    · rw [hundone]
      exact rejectionReply_isError _ collected fields
    · rintro _ ⟨⟩
      exact .rejected collected fields rfl
    · rintro u _ ⟨-, rfl⟩
      change progressOf (.invalid fields) (_ ++ [_]) = .closed
      rw [progressOf_snoc, hundone]
      rfl

theorem undecodedReply_isError (lib : Libraries) (failure : DecodingFailure) :
    (undecodedReply lib failure).isError = true := by
  cases failure with
  | noJson position reason => exact rejectionReply_isError lib [] _
  | other => rfl

/-- **Every request keeps to its stages, and gives founded answers.** -/
theorem receive_conducts (request : Submission × Option String) :
    (receive env settings request).wp
      (Protocol.watched Genuine (Conducts env settings request.1))
      (fun _ trace => (progressOf request.1 trace).Over) [] := by
  obtain ⟨submission, credentials⟩ := request
  cases submission with
  | valid route =>
    refine Prog.wp_mono (fun _ _ => Or.inr) ?_
    simp only [receive, handle]
    rw [Prog.wp_bind]
    refine Prog.wp_mono ?_ (authenticate_conducts (by rintro _ ⟨⟩) credentials)
    rintro (exc | caller) trace h
    · exact fail_conducts (by rintro _ ⟨⟩) h.1 h.2
    · exact serve_conducts route caller h
  | invalid fields =>
    refine Prog.wp_mono (fun _ _ => Or.inr) ?_
    simp only [receive]
    rw [Prog.wp_bind]
    refine Prog.wp_mono ?_ (authenticate_conducts (by rintro _ ⟨⟩) credentials)
    rintro (exc | caller) trace h
    · exact fail_conducts (by rintro _ ⟨⟩) h.1 h.2
    · exact turnAway_conducts fields caller h
  | undecoded failure =>
    refine ⟨⟨undecodedReply_isError env.toLibraries failure, ?_⟩, ?_⟩
    · rintro _ ⟨⟩
      exact .undecoded failure rfl
    · rintro u _ ⟨-, rfl⟩
      exact .inl rfl

/-! ## What the stages say of a trace -/

/-- Every reply of the trace was allowed when it came. -/
def Staged (submission : Submission) (trace : List (Event Service)) : Prop :=
  ∀ earlier ev later, trace = earlier ++ ev :: later → (progressOf submission earlier).allows ev.op

theorem Staged.earlier {later : List (Event Service)} (h : Staged submission (trace ++ later)) :
    Staged submission trace := by
  rintro before ev after rfl
  exact h before ev (after ++ later) (by simp)

theorem Staged.last {ev : Event Service} (h : Staged submission (trace ++ [ev])) :
    (progressOf submission trace).Step ev (progressOf submission (trace ++ [ev])) := by
  rw [progressOf_snoc]
  exact Progress.step_of_allows (h trace ev [] rfl)

/-- The answers in a trace. -/
def answersIn (trace : List (Event Service)) : List HttpReply :=
  trace.filterMap fun ev => match ev.op with
    | .respond reply => some reply
    | _ => none

theorem answersIn_snoc (trace : List (Event Service)) (ev : Event Service) :
    answersIn (trace ++ [ev]) = answersIn trace ++ answersIn [ev] :=
  List.filterMap_append ..

/-- What is neutral is no answer. -/
theorem Neutral.no_answer {ev : Event Service} (h : Neutral ev.op) : answersIn [ev] = [] := by
  obtain ⟨op, r⟩ := ev
  cases op <;> first | rfl | exact h.elim

theorem Neutral.ne_commit {op : Op} (h : Neutral op) : op ≠ .commit := by
  rintro rfl
  exact h

/-- The session was ended: by a commit that succeeded, or by a rollback. -/
def SessionEnds (trace : List (Event Service)) : Prop :=
  ∃ ev ∈ trace, ev = ⟨.commit, .ok ()⟩ ∨ ev.op = .rollback

/-- What has happened when a stage is reached. -/
def Progress.Reached (trace : List (Event Service)) : Progress → Prop
  | .unread => trace = []
  | .told => ∃ reply, trace = [⟨.respond reply, ()⟩] ∧ reply.isError = true
  | .working => answersIn trace = [] ∧ ∀ ev ∈ trace, ev.op ≠ .commit
  | .undone => answersIn trace = [] ∧ (∀ ev ∈ trace, ev.op ≠ .commit) ∧
      ∃ before r, trace = before ++ [⟨.rollback, r⟩]
  | .answered | .unsaved => ∃ reply, answersIn trace = [reply] ∧ reply.isError = false
  | .closed => (∃ reply, answersIn trace = [reply]) ∧ SessionEnds trace

/-- What is no answer does not add to the answers. -/
theorem answersIn_silent {ev : Event Service} {answers : List HttpReply}
    (h : answersIn trace = answers) (hsilent : answersIn [ev] = []) :
    answersIn (trace ++ [ev]) = answers := by
  rw [answersIn_snoc, h, hsilent, List.append_nil]

theorem no_commit_snoc {ev : Event Service} (h : ∀ ev' ∈ trace, ev'.op ≠ .commit)
    (hev : ev.op ≠ .commit) : ∀ ev' ∈ trace ++ [ev], ev'.op ≠ .commit := by
  intro ev' hev'
  rcases List.mem_append.mp hev' with hev' | hev'
  · exact h ev' hev'
  · rwa [List.mem_singleton.mp hev']

/-- What has happened before a step, and the step, is what has happened after it. -/
theorem Progress.Step.reached {stage stage' : Progress} {ev : Event Service}
    (h : stage.Step ev stage') (hbefore : stage.Reached trace) :
    stage'.Reached (trace ++ [ev]) := by
  cases h with
  | turnAway reply hreply =>
    cases hbefore
    exact ⟨reply, rfl, hreply⟩
  | work _ hneutral =>
    exact ⟨answersIn_silent hbefore.1 hneutral.no_answer,
      no_commit_snoc hbefore.2 hneutral.ne_commit⟩
  | undo r =>
    exact ⟨answersIn_silent hbefore.1 rfl, no_commit_snoc hbefore.2 (by rintro ⟨⟩), trace, r, rfl⟩
  | answer reply hreply =>
    refine ⟨reply, ?_, hreply⟩
    rw [answersIn_snoc, hbefore.1]
    rfl
  | tell reply hreply =>
    obtain ⟨hnone, -, before, r, rfl⟩ := hbefore
    refine ⟨⟨reply, ?_⟩, ⟨.rollback, r⟩, by simp, .inr rfl⟩
    rw [answersIn_snoc, hnone]
    rfl
  | workOn _ hneutral =>
    obtain ⟨reply, honly, hreply⟩ := hbefore
    exact ⟨reply, answersIn_silent honly hneutral.no_answer, hreply⟩
  | commit =>
    obtain ⟨reply, honly, -⟩ := hbefore
    exact ⟨⟨reply, answersIn_silent honly rfl⟩, _, List.mem_concat_self, .inl rfl⟩
  | spoil name =>
    obtain ⟨reply, honly, hreply⟩ := hbefore
    exact ⟨reply, answersIn_silent honly rfl, hreply⟩
  | abort r | close r =>
    obtain ⟨reply, honly, -⟩ := hbefore
    exact ⟨⟨reply, answersIn_silent honly rfl⟩, _, List.mem_concat_self, .inr rfl⟩

/-- **A staged trace has done what its stage says.** -/
theorem Staged.reached (h : Staged submission trace) :
    (progressOf submission trace).Reached trace := by
  induction trace using List.reverseRecOn with
  | nil =>
    cases submission with
    | valid _ | invalid _ => exact ⟨rfl, fun _ hev => absurd hev List.not_mem_nil⟩
    | undecoded failure => rfl
  | append_singleton trace ev ih => exact h.last.reached (ih h.earlier)

/-- Nothing happens once the session is closed. -/
theorem Staged.nothing_after {later : List (Event Service)}
    (h : Staged submission (trace ++ later))
    (hclosed : progressOf submission trace = .closed) : later = [] := by
  cases later with
  | nil => rfl
  | cons ev later =>
    have := h trace ev later rfl
    rw [hclosed] at this
    exact this.elim

/-- At most one answer. -/
theorem Staged.one_answer (h : Staged submission trace) : (answersIn trace).length ≤ 1 := by
  have hreached := h.reached
  generalize progressOf submission trace = stage at hreached
  cases stage with
  | unread =>
    cases hreached
    exact Nat.zero_le 1
  | told =>
    obtain ⟨reply, rfl, -⟩ := hreached
    exact le_rfl
  | working | undone => simp [hreached.1]
  | answered | unsaved =>
    obtain ⟨reply, honly, -⟩ := hreached
    simp [honly]
  | closed =>
    obtain ⟨⟨reply, honly⟩, -⟩ := hreached
    simp [honly]

/-- An error is told after a rollback, nothing was committed, and nothing comes after it. -/
theorem Staged.error {later : List (Event Service)} {reply : HttpReply}
    (hdecoded : submission.Decoded)
    (h : Staged submission (trace ++ ⟨.respond reply, ()⟩ :: later))
    (herror : reply.isError = true) :
    (∃ before r, trace = before ++ [⟨.rollback, r⟩]) ∧ (∀ ev ∈ trace, ev.op ≠ .commit) ∧
      later = [] := by
  rw [List.append_cons] at h
  have hreached := h.earlier.earlier.reached
  have hstep := h.earlier.last
  have hclosed : progressOf submission (trace ++ [⟨.respond reply, ()⟩]) = .closed →
      later = [] := h.nothing_after
  have hsession : ¬ (progressOf submission trace).Outside :=
    mt (progressOf_outside submission trace).mp (not_not.mpr hdecoded)
  generalize progressOf submission trace = stage at hreached hstep hsession
  generalize progressOf submission (trace ++ [⟨.respond reply, ()⟩]) = stage' at hstep hclosed
  cases hstep with
  | turnAway _ _ => exact absurd (.inl rfl) hsession
  | work _ hneutral | workOn _ hneutral => exact hneutral.elim
  | answer _ hreply => exact absurd (hreply.symm.trans herror) Bool.false_ne_true
  | tell _ _ => exact ⟨hreached.2.2, hreached.2.1, hclosed rfl⟩

/-- A commit is asked for after the one answer, which is no error; if it succeeds nothing comes
after it, and if it fails a rollback at most. -/
theorem Staged.commit {later : List (Event Service)} {r : Except String Unit}
    (h : Staged submission (trace ++ ⟨.commit, r⟩ :: later)) :
    (∃ reply, answersIn trace = [reply] ∧ reply.isError = false) ∧
      (later = [] ∨ (∃ name, r = .error name) ∧ ∃ r', later = [⟨.rollback, r'⟩]) := by
  rw [List.append_cons] at h
  have hreached := h.earlier.earlier.reached
  have hstep := h.earlier.last
  generalize progressOf submission trace = stage at hreached hstep
  generalize hto : progressOf submission (trace ++ [⟨.commit, r⟩]) = stage' at hstep
  cases hstep with
  | work _ hneutral | workOn _ hneutral => exact hneutral.elim
  | commit => exact ⟨hreached, .inl (h.nothing_after hto)⟩
  | spoil name =>
    refine ⟨hreached, ?_⟩
    cases later with
    | nil => exact .inl rfl
    | cons ev later =>
      rw [List.append_cons] at h
      have hnext := h.earlier.last
      rw [hto] at hnext
      generalize hend :
        progressOf submission (trace ++ [⟨.commit, .error name⟩] ++ [ev]) = last at hnext
      cases hnext with
      | close r' => exact .inr ⟨⟨name, rfl⟩, r', by rw [h.nothing_after hend]⟩

/-- What a request whose body is not decoded has done: nothing, or it was told so. -/
theorem Staged.undecoded (h : Staged submission trace) (hdecoded : ¬ submission.Decoded) :
    (progressOf submission trace = .unread ∧ trace = []) ∨ progressOf submission trace = .told ∧
      ∃ reply, trace = [⟨.respond reply, ()⟩] ∧ reply.isError = true := by
  have hreached := h.reached
  rcases (progressOf_outside submission trace).mpr hdecoded with hstage | hstage
  · rw [hstage] at hreached
    exact .inl ⟨hstage, hreached⟩
  · rw [hstage] at hreached
    exact .inr ⟨hstage, hreached⟩

/-! ## The errors of each route -/

/-- The errors that `_call_upstream` makes of the provider's answers. -/
def providerErrors : List ErrorClass :=
  [.modelNotFound, .upstreamRejectedRequest, .upstreamRateLimited, .upstreamError,
    .upstreamUnavailable, .upstreamTimeout, .upstreamAuthFailed, .invalidUpstreamResponse]

/-- The errors a request can be answered with. -/
def Submission.errors : Submission → List ErrorClass
  | .valid (.complete _) => [.missingCredentials, .invalidCredentials, .rateLimitExceeded,
      .upstreamCircuitOpen, .appError] ++ providerErrors
  | .valid (.submit _) => [.missingCredentials, .invalidCredentials, .rateLimitExceeded, .appError]
  | .valid (.show _) => [.missingCredentials, .invalidCredentials, .jobNotFound, .appError]
  | .invalid _ => [.missingCredentials, .invalidCredentials, .rateLimitExceeded,
      .validationFailed, .appError]
  | .undecoded (.noJson _ _) => [.validationFailed, .appError]
  -- FastAPI's own 400 has none of our codes
  | .undecoded .other => []

/-- An answer with the status and the code of an error. -/
def HttpReply.IsOf (reply : HttpReply) (cls : ErrorClass) : Prop :=
  reply.statusCode = cls.statusCode ∧ reply.body.code = some cls.code

theorem unhandledReply_isOf (collected : List (String × String)) :
    (unhandledReply collected).IsOf .appError :=
  ⟨rfl, rfl⟩

theorem appError_mem_errors {submission : Submission} (h : submission.Decoded) :
    .appError ∈ submission.errors := by
  rcases submission with (_ | _ | _) | _ | failure
  case undecoded => exact absurd rfl (h failure)
  all_goals simp [Submission.errors]

theorem appErrorOf_cls (lib : Libraries) (response : HttpResponse) (model : String)
    (message : Option String) : (appErrorOf lib response model message).cls ∈ providerErrors := by
  rw [appErrorOf]
  simp only
  split
  · simp [providerErrors, AppError.new]
  · split
    · simp [providerErrors, AppError.new]
    · split
      · simp [providerErrors, AppError.new]
      · split
        · simp [providerErrors, AppError.new]
        · simp [providerErrors, AppError.new]

/-- The provider is answered for by its own errors. -/
theorem received_cls {lib : Libraries} {model : String} {outcome : UpstreamOutcome}
    {error : AppError} (h : received lib model outcome = .error (.app error)) :
    error.cls ∈ providerErrors := by
  cases outcome with
  | timeout | requestError =>
    cases h
    simp [providerErrors, AppError.new]
  | foreign name => cases h
  | response response =>
    by_cases hreadable : response.Readable
    · by_cases herror : response.isError = true
      · obtain ⟨message, hmessage⟩ := upstreamMessage_readable hreadable
        cases h.symm.trans (received_error lib model herror hmessage)
        exact appErrorOf_cls lib response model message
      · rcases received_response_cases lib model herror hreadable with ⟨completion, hok⟩ | hinvalid
        · cases h.symm.trans hok
        · cases h.symm.trans hinvalid
          simp [providerErrors, AppError.new]
    · obtain ⟨name, hname⟩ := received_unreadable lib model hreadable
      cases h.symm.trans hname

/-- The errors a request raises, its route lists. -/
theorem Caused.cls {error : AppError} (h : Caused env settings submission trace (.app error))
    (hdecoded : submission.Decoded) : error.cls ∈ submission.errors := by
  cases h with
  | missing _ | unknown _ _ =>
    rcases submission with (_ | _ | _) | _ | failure
    case undecoded => exact absurd rfl (hdecoded failure)
    all_goals simp [Submission.errors, AppError.new]
  | limited key decision hroute _ _ =>
    rcases submission with (_ | _ | jobId) | _ | failure
    case valid.show => exact absurd rfl (hroute jobId)
    case undecoded => exact absurd rfl (hdecoded failure)
    all_goals simp [Submission.errors, rateLimitExceeded, AppError.new]
  | paused payload hroute _ =>
    subst hroute
    simp [Submission.errors, AppError.new]
  | provider payload outcome exc hroute _ hreceived =>
    subst hroute
    exact List.mem_append_right _ (received_cls hreceived)
  | absent jobId apiKeyId hroute _ =>
    subst hroute
    simp [Submission.errors, AppError.new]

/-- A rejected body is answered with 422, or not at all. -/
theorem rejectionReply_listed (lib : Libraries) (collected : List (String × String))
    (fields : List Json) {errors : List ErrorClass} (hfailed : .validationFailed ∈ errors)
    (hbug : .appError ∈ errors) :
    ∃ cls ∈ errors, (rejectionReply lib collected fields).IsOf cls := by
  unfold rejectionReply
  split
  · exact ⟨_, hfailed, rfl, rfl⟩
  · exact ⟨_, hbug, unhandledReply_isOf collected⟩

/-- So is every answer that is an error, but FastAPI's own; every other is earned. -/
theorem Founded.listed {reply : HttpReply} (h : Founded env settings submission trace reply) :
    (reply.isError = true → (∃ cls ∈ submission.errors, reply.IsOf cls) ∨
      submission = .undecoded .other ∧ reply = undecodedReply env.toLibraries .other) ∧
      (reply.isError = false → Earned env settings trace submission reply) := by
  cases h with
  | earned _ hearned _ =>
    exact ⟨fun herror => absurd (hearned.not_error.symm.trans herror) Bool.false_ne_true,
      fun _ => hearned⟩
  | raised collected exc _ hdecoded hraised htold =>
    refine ⟨fun _ => .inl ?_, fun hnot => absurd (hnot.symm.trans htold.isError) (by simp)⟩
    cases htold with
    | error error hrenders => exact ⟨error.cls, hraised.cls hdecoded, rfl, rfl⟩
    | unrendered error hrenders =>
      exact ⟨.appError, appError_mem_errors hdecoded, unhandledReply_isOf collected⟩
    | bug name => exact ⟨.appError, appError_mem_errors hdecoded, unhandledReply_isOf collected⟩
  | rejected collected fields hsubmission =>
    subst hsubmission
    refine ⟨fun _ => .inl ?_, fun hnot =>
      absurd (hnot.symm.trans (rejectionReply_isError _ collected fields)) (by simp)⟩
    exact rejectionReply_listed _ collected fields (by simp [Submission.errors])
      (by simp [Submission.errors])
  | undecoded failure hsubmission =>
    subst hsubmission
    refine ⟨fun _ => ?_, fun hnot =>
      absurd (hnot.symm.trans (undecodedReply_isError _ failure)) (by simp)⟩
    cases failure with
    | noJson position reason =>
      exact .inl (rejectionReply_listed _ [] _ (by simp [Submission.errors])
        (by simp [Submission.errors]))
    | other => exact .inr ⟨rfl, rfl⟩

/-! ## Requests in any company -/

section

variable {w₀ w : World} {log : List (Entry Service World)}
  {tasks : List (Task (Submission × Option String) Service Unit)} {t : ℕ}
  {task : Task (Submission × Option String) Service Unit}

/-- Every request of a run keeps to its stages, and is at the last when it has ended. -/
theorem run_conducts (h : Run world (receive env settings) w₀ log w tasks)
    (ht : tasks[t]? = some task) :
    (∀ earlier ev later, ownTrace t log = earlier ++ ev :: later →
      Conducts env settings task.label.1 earlier ev.op) ∧
    (task.Ended → (progressOf task.label.1 (ownTrace t log)).Over) := by
  obtain ⟨hallows, hpost⟩ := h.follows receive_conducts (chained_genuine h.chained) ht
  exact ⟨hallows, fun ⟨a, ha⟩ => hpost a ha⟩

theorem run_staged (h : Run world (receive env settings) w₀ log w tasks)
    (ht : tasks[t]? = some task) : Staged task.label.1 (ownTrace t log) :=
  fun earlier ev later hsplit => ((run_conducts h ht).1 earlier ev later hsplit).1

/-- **One request, one answer, one transaction.** In every run of any number of requests side by
side, stopped wherever they may be: a request is answered at most once, and exactly once if it has
ended. If its body is not decoded, that answer is an error, and all that happens. Otherwise its
session is committed or rolled back when it has ended; an error is answered right after a rollback,
is the last thing that happens, and nothing was committed; a commit is asked for only after an
answer that is no error, and nothing follows it but, if it fails, a rollback. -/
theorem one_answer_one_transaction (h : Run world (receive env settings) w₀ log w tasks)
    (ht : tasks[t]? = some task) :
    (answersIn (ownTrace t log)).length ≤ 1 ∧
    (task.Ended → ∃ reply, answersIn (ownTrace t log) = [reply]) ∧
    (¬ task.label.1.Decoded → ownTrace t log = [] ∨
      ∃ reply, ownTrace t log = [⟨.respond reply, ()⟩] ∧ reply.isError = true) ∧
    (task.label.1.Decoded →
      (task.Ended → SessionEnds (ownTrace t log)) ∧
      (∀ earlier reply later, ownTrace t log = earlier ++ ⟨.respond reply, ()⟩ :: later →
        reply.isError = true →
        (∃ before r, earlier = before ++ [⟨.rollback, r⟩]) ∧ (∀ ev ∈ earlier, ev.op ≠ .commit) ∧
          later = []) ∧
      ∀ earlier r later, ownTrace t log = earlier ++ ⟨.commit, r⟩ :: later →
        (∃ reply, answersIn earlier = [reply] ∧ reply.isError = false) ∧
          (later = [] ∨ (∃ name, r = .error name) ∧ ∃ r', later = [⟨.rollback, r'⟩])) := by
  have hstaged := run_staged h ht
  have hreached := hstaged.reached
  refine ⟨hstaged.one_answer, fun hended => ?_, fun hundecoded => ?_, fun hdecoded => ⟨fun hended =>
    ?_, fun earlier reply later hsplit herror => ?_, fun earlier r later hsplit => ?_⟩⟩
  · rcases (run_conducts h ht).2 hended with hover | hover <;> rw [hover] at hreached
    · obtain ⟨reply, honly, -⟩ := hreached
      exact ⟨reply, by rw [honly]; rfl⟩
    · exact hreached.1
  · exact (hstaged.undecoded hundecoded).imp And.right And.right
  · rcases (run_conducts h ht).2 hended with hover | hover
    · exact absurd hdecoded ((progressOf_outside _ _).mp (.inr hover))
    · rw [hover] at hreached
      exact hreached.2
  · rw [hsplit] at hstaged
    exact hstaged.error hdecoded herror
  · rw [hsplit] at hstaged
    exact hstaged.commit

/-- A request without a key. -/
def keyless : Submission × Option String := (.valid (.show "j"), none)

/-- What becomes of it. -/
def keylessLog : List (Entry Service World) :=
  [⟨0, dayOne, .rollback, .ok (), dayOne⟩,
    ⟨0, dayOne, .respond (appErrorReply [] (.new .missingCredentials)), (), dayOne⟩]

theorem run_keyless :
    Run world (receive .sample .defaults) dayOne keylessLog dayOne [⟨keyless, .ret ()⟩] := by
  have hstart : Run world (receive .sample .defaults) dayOne [] dayOne
      [⟨keyless, receive .sample .defaults keyless⟩] := .spawn keyless .start
  have hrollback := hstart.reply 0 rfl (.ok () : Except String Unit) dayOne ⟨0, le_rfl, rfl⟩
  have hanswered := hrollback.reply 0 rfl () dayOne ⟨0, le_rfl, rfl⟩
  exact hanswered

/-- It is answered once, after a rollback. -/
theorem one_answer_one_transaction_keyless :
    (answersIn (ownTrace 0 keylessLog)).length ≤ 1 ∧ SessionEnds (ownTrace 0 keylessLog) := by
  obtain ⟨hone, -, -, hdecoded⟩ := one_answer_one_transaction run_keyless (t := 0) rfl
  exact ⟨hone, (hdecoded (by rintro _ ⟨⟩)).1 ⟨(), rfl⟩⟩

/-- **Every answer has a cause.** In every run of any number of requests side by side, an answer
that is no error is made of what its own request was told before it: the provider's answer as
parsed, the row it stored, or the row it found. An answer that is an error is that of an exception
with a cause among the replies before it, of an answer or an error that cannot be rendered, or of a
body that is invalid or not decoded, and has the status and the code of one of the errors of its
route, but for FastAPI's own 400. So no route answers with a failed webhook, only a completion
answers with an error of the provider, and only what is listed as an internal error is answered as
one. -/
theorem answers_founded (h : Run world (receive env settings) w₀ log w tasks)
    (ht : tasks[t]? = some task) {earlier : List (Event Service)} {reply : HttpReply}
    {later : List (Event Service)}
    (hsplit : ownTrace t log = earlier ++ ⟨.respond reply, ()⟩ :: later) :
    Founded env settings task.label.1 earlier reply ∧
    (reply.isError = true → (∃ cls ∈ task.label.1.errors, reply.IsOf cls) ∨
      task.label.1 = .undecoded .other ∧ reply = undecodedReply env.toLibraries .other) ∧
    (reply.isError = false → Earned env settings earlier task.label.1 reply) := by
  have hfounded := ((run_conducts h ht).1 earlier _ later hsplit).2 reply rfl
  exact ⟨hfounded, hfounded.listed⟩

/-- A request without a key is told so, and that is in the list of its route. -/
theorem answers_founded_keyless :
    Founded .sample .defaults keyless.1 [⟨.rollback, .ok ()⟩]
      (appErrorReply [] (.new .missingCredentials)) ∧
    ∃ cls ∈ keyless.1.errors, (appErrorReply [] (.new .missingCredentials)).IsOf cls := by
  have hsplit : ownTrace 0 keylessLog = [⟨.rollback, .ok ()⟩] ++
      ⟨.respond (appErrorReply [] (.new .missingCredentials)), ()⟩ :: [] := rfl
  obtain ⟨hfounded, hlisted, -⟩ := answers_founded run_keyless rfl hsplit
  refine ⟨hfounded, (hlisted rfl).resolve_right ?_⟩
  rintro ⟨⟨⟩, -⟩

end

end PrdApiWrapper
