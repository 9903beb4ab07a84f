import PrdApiWrapper.Jobs
import PrdApiWrapper.RateLimiter

/-!
# The service

What the process asks of everything outside its coroutines, as one interface (`Service`), and the
wiring of `factory.py` and `dependencies/` over it: the retry policies, the services, and a request
from its dependencies to the end of its background task.

Between two requests of this interface a coroutine runs without interruption. Some of them are not
awaits in the source (the clock, the breaker, the limiter), so more interleavings are possible here
than on one event loop. A POST to the provider is two requests, its sending and its answer.
-/

namespace PrdApiWrapper

open Interaction

/-! ## The interface -/

/-- The body of an answer. -/
inductive ReplyBody where
  | completion (response : CompletionResponse)
  | accepted (accepted : JobAccepted)
  | view (view : JobView)
  | error (code message : String) (details : List (String × Json))
  /-- FastAPI's own, to an `HTTPException` -/
  | detail (text : String)

/-- An answer to an HTTP request. -/
structure HttpReply where
  statusCode : ℤ
  headers : List (String × String)
  body : ReplyBody

/-- Whether a body can be rendered: as JSON, in UTF-8. The id of a job is hexadecimal. -/
def ReplyBody.renders (lib : Libraries) : ReplyBody → Bool
  | .completion response =>
    lib.encodes response.id && lib.encodes response.model && lib.encodes response.content
  | .accepted _ | .detail _ => true
  | .view job =>
    lib.encodes job.id && lib.encodes job.model && job.content.all lib.encodes &&
      job.errorCode.all lib.encodes && job.errorMessage.all lib.encodes
  | .error _ message details =>
    lib.encodes message &&
      details.all fun entry => lib.encodes entry.1 && lib.renders entry.2

/-- Whether headers can be sent. -/
def encodable (headers : List (String × String)) : Bool :=
  headers.all fun entry => isLatin1 entry.1 && isLatin1 entry.2

/-- Whether `JSONResponse` can be built: its headers are encoded, too. -/
def HttpReply.renders (lib : Libraries) (reply : HttpReply) : Bool :=
  reply.body.renders lib && encodable reply.headers

/-- What the process asks of its surroundings. -/
inductive Op where
  /-- `time.monotonic()` -/
  | monotonic
  /-- `random.random()` -/
  | jitter
  /-- `asyncio.sleep(seconds)`, not a NaN -/
  | sleep (seconds : PyFloat)
  | beforeCall
  | recordSuccess
  | recordFailure
  /-- a POST leaves for the provider -/
  | post (payload : UpstreamPayload)
  /-- and ends -/
  | answer
  /-- `UsageRepository.record` -/
  | record (entry : UsageEntry)
  /-- `RateLimiter.check` -/
  | check (key : String)
  /-- `secrets.token_hex(16)` -/
  | tokenHex
  | createJob (job : NewJob)
  | updateJob (jobId : String) (fields : List JobField)
  | getJob (jobId apiKeyId : String)
  /-- `time.time()` -/
  | time
  /-- `datetime.now(UTC)` -/
  | utcNow
  /-- a POST to a callback -/
  | callback (post : CallbackPost)
  /-- `ApiKeyRepository.find_by_hash`, in the request's session -/
  | findByHash (keyHash : String)
  /-- the request's session commits and is closed -/
  | commit
  /-- the request's session rolls back and is closed -/
  | rollback
  /-- the client is answered -/
  | respond (reply : HttpReply)

/-- The interface of the process. What a database raises is known by its class name: it is never
an `AppError`. -/
abbrev Service : Effects where
  Op := Op
  Reply
    | .monotonic | .jitter | .time | .utcNow => ℚ
    | .sleep _ | .recordSuccess | .recordFailure | .post _ | .respond _ => Unit
    | .beforeCall => Except Exc Unit
    | .answer => UpstreamOutcome
    | .record _ | .createJob _ | .updateJob _ _ | .commit | .rollback => Except String Unit
    | .check _ => Except Exc RateLimitDecision
    | .tokenHex => String
    | .getJob _ _ => Except String (Option JobView)
    | .callback _ => CallbackOutcome
    | .findByHash _ => Except String (Option Caller)

/-- Make one request. -/
def Op.request (op : Op) : Prog Service (Service.Reply op) := @Prog.perform Service op

/-- Make a request of the database, and raise what it raises. -/
def stored {α : Type} (p : Prog Service (Except String α)) : Async Service Exc α :=
  ExceptT.mk (Except.mapError Exc.foreign <$> p)

/-- `asyncio.sleep`: it refuses a NaN. -/
def asyncioSleep (seconds : PyFloat) : Async Service Exc Unit :=
  if seconds = .nan then throw (.foreign "ValueError")
  else ExceptT.lift (Op.sleep seconds).request

/-! ## The wiring -/

/-- The libraries the process uses. -/
structure Environment extends Libraries where
  /-- `hmac.new(key, message, sha256).hexdigest()` -/
  hexdigest : List UInt8 → List UInt8 → String
  /-- `payload.model_dump_json()` -/
  dumpJson : WebhookPayload → String
  /-- `hash_api_key`: the SHA-256 of a key, in hexadecimal -/
  hashApiKey : String → String

/-- A retry policy of the process: the configuration, and the real clock, sleep and jitter. -/
def retryPolicy (settings : Settings) (maxAttempts : ℤ) : RetryPolicy Service where
  maxAttempts := maxAttempts
  initialBackoff := settings.retryInitialBackoffSeconds
  maxBackoff := settings.retryMaxBackoffSeconds
  budget := settings.retryBudgetSeconds
  sleep := asyncioSleep
  jitter := Op.jitter.request
  clock := Op.monotonic.request

/-- `get_completion_service`. -/
def completionService (env : Environment) (settings : Settings) : CompletionService Service where
  lib := env.toLibraries
  post := fun payload => do
    (Op.post payload).request
    Op.answer.request
  upstreamModel := settings.upstreamModel
  retry := retryPolicy settings settings.retryMaxAttempts
  breaker := {
    beforeCall := ExceptT.mk Op.beforeCall.request
    recordSuccess := Op.recordSuccess.request
    recordFailure := Op.recordFailure.request }
  record := fun entry => stored (Op.record entry).request
  monotonic := Op.monotonic.request

/-- One completion, for a request and its caller. -/
def completing (env : Environment) (settings : Settings) (call : CompletionRequest × Caller) :
    Prog Service (Except Exc CompletionResponse) :=
  ((completionService env settings).complete call.1 call.2).run

/-- `get_webhook_service`. -/
def webhookService (env : Environment) (settings : Settings) : WebhookService Service where
  post := fun post => (Op.callback post).request
  retry := retryPolicy settings settings.webhookMaxAttempts
  secret := settings.webhookSigningSecret
  timeout := settings.webhookTimeoutSeconds
  time := Op.time.request
  hexdigest := env.hexdigest
  dumpJson := env.dumpJson

/-- `get_job_service`. -/
def jobsOf (env : Environment) (settings : Settings) : JobService Service where
  jobs := {
    create := fun job => stored (Op.createJob job).request
    update := fun jobId fields => stored (Op.updateJob jobId fields).request
    get := fun jobId apiKeyId => stored (Op.getJob jobId apiKeyId).request }
  complete := (completionService env settings).complete
  deliver := (webhookService env settings).deliver
  tokenHex := Op.tokenHex.request
  utcNow := Op.utcNow.request

/-! ## Dependencies -/

/-- `ANONYMOUS`. -/
def anonymous : Caller := ⟨"anonymous", "anonymous"⟩

/-- `authenticate(raw_key)`. -/
def authenticate (env : Environment) (settings : Settings) (rawKey : Option String) :
    Async Service Exc Caller :=
  match rawKey.filter (· ≠ "") with
  | none =>
    if settings.requireApiKey then throw (.app (.new .missingCredentials)) else pure anonymous
  | some key => do
    match ← stored (Op.findByHash (env.hashApiKey key)).request with
    | some caller => pure caller
    | none => throw (.app (.new .invalidCredentials))

/-- `_headers(decision)`. -/
def rateLimitHeaders (decision : RateLimitDecision) : List (String × String) :=
  [("X-RateLimit-Limit", toString decision.limit),
    ("X-RateLimit-Remaining", toString decision.remaining),
    ("X-RateLimit-Reset", toString ⌈decision.resetAfter⌉)]

/-- What `enforce_rate_limit` raises. -/
def rateLimitExceeded (decision : RateLimitDecision) : AppError :=
  { AppError.new .rateLimitExceeded with
    headers := rateLimitHeaders decision ++ [("Retry-After", toString ⌈decision.retryAfter⌉)]
    details := [("limit", .int decision.limit), ("window", .str "minute")] }

/-- `enforce_rate_limit`: returns the headers it leaves for the answer. -/
def enforceRateLimit (settings : Settings) (caller : Caller) :
    Async Service Exc (List (String × String)) := do
  if settings.rateLimitEnabled then
    let decision ← ExceptT.mk (Op.check caller.id).request
    if decision.allowed then pure (rateLimitHeaders decision)
    else throw (.app (rateLimitExceeded decision))
  else pure []

/-! ## Endpoints -/

/-- The routes that need a caller, with their validated input. -/
inductive Route where
  /-- `POST /v1/complete` -/
  | complete (payload : CompletionRequest)
  /-- `POST /v1/jobs` -/
  | submit (payload : JobRequest)
  /-- `GET /v1/jobs/{job_id}` -/
  | «show» (jobId : String)

/-- The routes declared with the rate limit. -/
def Route.limited : Route → Bool
  | .complete _ | .submit _ => true
  | .show _ => false

/-- An endpoint's answer, and the task it queues for after the answer. -/
structure Answer where
  statusCode : ℤ
  body : ReplyBody
  background : Async Service Exc Unit

/-- The endpoint bodies `complete`, `submit` and `show`. -/
def endpoint (env : Environment) (settings : Settings) (caller : Caller) :
    Route → Async Service Exc Answer
  | .complete payload => do
    let response ← (completionService env settings).complete payload caller
    pure { statusCode := 200, body := .completion response, background := pure () }
  | .submit payload => do
    let accepted ← (jobsOf env settings).accept payload caller
      (orElse payload.model settings.upstreamModel)
    pure {
      statusCode := 202
      body := .accepted accepted
      background := (jobsOf env settings).run accepted.id payload caller }
  | .show jobId => do
    let view ← (jobsOf env settings).get jobId caller
    pure { statusCode := 200, body := .view view, background := pure () }

/-- `serialize_response`: FastAPI renders what an endpoint returns before it leaves the
dependencies. -/
def serialized (lib : Libraries) (answer : Answer) : Async Service Exc Answer :=
  if answer.body.renders lib then pure answer else throw (.foreign "UnicodeEncodeError")

theorem serialized_cases (lib : Libraries) (answer : Answer) :
    serialized lib answer = pure answer ∨
      serialized lib answer = throw (.foreign "UnicodeEncodeError") :=
  ite_eq_or_eq ..

/-- `d | e`: the entries of `d` that `e` does not override, then those of `e`. -/
def mergeHeaders (d e : List (String × String)) : List (String × String) :=
  (d.filter fun entry => !e.any fun entry' => entry'.1 == entry.1) ++ e

/-- `unhandled_error_handler`, when not debugging: the answer to a bug. -/
def unhandledReply (collected : List (String × String)) : HttpReply :=
  let generic := AppError.new .appError
  { statusCode := generic.statusCode
    headers := collected
    body := .error generic.code generic.message generic.details }

/-- What `app_error_handler` sets out to answer. -/
def appErrorReply (collected : List (String × String)) (error : AppError) : HttpReply where
  statusCode := error.statusCode
  headers := mergeHeaders collected error.headers
  body := .error error.code error.message error.details

/-- The answer to an exception, with the headers a dependency left for it: `app_error_handler`'s,
and `unhandled_error_handler`'s if it is no `AppError` or cannot be rendered. -/
def errorReply (lib : Libraries) (collected : List (String × String)) : Exc → HttpReply
  | .app error =>
    if (appErrorReply collected error).renders lib then appErrorReply collected error
    else unhandledReply collected
  | .foreign _ => unhandledReply collected

/-- The answer to an `AppError` is its own unless it cannot be rendered. -/
theorem errorReply_cases (lib : Libraries) (collected : List (String × String)) (exc : Exc) :
    (∃ error, exc = .app error ∧ errorReply lib collected exc = appErrorReply collected error) ∨
      errorReply lib collected exc = unhandledReply collected := by
  cases exc with
  | foreign name => exact .inr rfl
  | app error =>
    rw [errorReply]
    split
    · exact .inl ⟨error, rfl, rfl⟩
    · exact .inr rfl

theorem errorReply_body (lib : Libraries) (collected : List (String × String)) (exc : Exc) :
    ∃ code message details, (errorReply lib collected exc).body = .error code message details := by
  rcases errorReply_cases lib collected exc with ⟨error, -, h⟩ | h <;> rw [h] <;>
    exact ⟨_, _, _, rfl⟩

/-- The status a caller is answered with when a completion ends so. -/
def answeredStatus (lib : Libraries) : Except Exc CompletionResponse → ℤ
  | .ok response =>
    if (ReplyBody.completion response).renders lib then 200
    else (unhandledReply []).statusCode
  | .error exc => (errorReply lib [] exc).statusCode

/-! ## A request -/

/-- A request that raised: `get_session` rolls back, then the client is answered. -/
def fail (lib : Libraries) (collected : List (String × String)) (exc : Exc) :
    Prog Service Unit := do
  let _ ← Op.rollback.request
  (Op.respond (errorReply lib collected exc)).request

/-- How a request ends that was answered: the background task, then `get_session` commits, or
rolls back if the task or the commit raised. FastAPI leaves a dependency with `yield` only after
the response and its background task. -/
def finish (background : Async Service Exc Unit) : Prog Service Unit := do
  match ← background.run with
  | .ok () =>
    match ← Op.commit.request with
    | .ok () => pure ()
    | .error _ => do
      let _ ← Op.rollback.request
  | .error _ => do
    let _ ← Op.rollback.request

/-- A request once its caller is known: the rate limit where the route has it, the endpoint, the
answer, and what comes after it. -/
def serve (env : Environment) (settings : Settings) (route : Route) (caller : Caller) :
    Prog Service Unit := do
  match ← (if route.limited then enforceRateLimit settings caller else pure []).run with
  -- a refused request gets its headers from the error
  | .error exc => fail env.toLibraries [] exc
  | .ok collected =>
    match ← (endpoint env settings caller route >>= serialized env.toLibraries).run with
    | .error exc => fail env.toLibraries collected exc
    | .ok answer => do
      (Op.respond ⟨answer.statusCode, collected, answer.body⟩).request
      finish answer.background

/-- A whole request: `get_caller` first, since everything else depends on it. -/
def handle (env : Environment) (settings : Settings) (route : Route)
    (credentials : Option String) : Prog Service Unit := do
  match ← (authenticate env settings credentials).run with
  | .error exc => fail env.toLibraries [] exc
  | .ok caller => serve env settings route caller

/-! ## A sample exchange -/

/-- Libraries for examples: of the floats only NaN is spelt, of the integers only integers; the
replacement character stands for a lone surrogate. -/
def Environment.sample : Environment where
  float := fun text => if text = "nan" then some .nan else none
  intField := fun
    | .int n => some n
    | _ => none
  repr := fun text => "'" ++ text ++ "'"
  encodes := fun text => text.toList.all (· ≠ '\uFFFD')
  encodes_ascii := fun text h => by
    simp only [isAscii, List.all_eq_true, decide_eq_true_eq] at h ⊢
    rintro c hc rfl
    exact absurd (h _ hc) (by decide)
  nesting := 8
  hexdigest := fun _ _ => ""
  dumpJson := fun _ => "\x7b\x7d"
  hashApiKey := id

/-- What the provider answers to `helloRequest`. -/
def helloResponse : HttpResponse where
  statusCode := 200
  header := fun _ => none
  json := .ok (.obj [("id", .str "1"), ("model", .str "llama3.2:3b"),
    ("choices", .arr [.obj [("message", .obj [("content", .str "Hello.")])]])])

example : received Environment.sample.toLibraries "llama3.2:3b" (.response helloResponse) =
    .ok ⟨"1", "llama3.2:3b", "Hello.", ⟨0, 0⟩⟩ := rfl

end PrdApiWrapper
