import PrdApiWrapper.Errors
import Mathlib.Data.Rat.Floor

/-!
# Data

`models/`: the request and response schemas with the bounds they check, the rows of the job
table, and the value objects of the limiter and the breaker. A schema's bounds are fields of its
structure, so only values that pass validation can be written down.
-/

namespace PrdApiWrapper

/-! ## Requests and responses -/

/-- `Caller`: who is making the request, once their key has been recognised. -/
structure Caller where
  id : String
  name : String
  deriving DecidableEq

/-- The bounds a completion and a job request share. -/
structure PromptBounds (prompt : String) (temperature : ℚ) (maxTokens : Option ℤ) : Prop where
  /-- `min_length=1, max_length=8000` -/
  prompt_length : 1 ≤ prompt.length ∧ prompt.length ≤ 8000
  /-- `ge=0.0, le=2.0` -/
  temperature_range : 0 ≤ temperature ∧ temperature ≤ 2
  /-- `ge=1, le=4096` -/
  maxTokens_range : ∀ n ∈ maxTokens, 1 ≤ n ∧ n ≤ 4096

/-- `CompletionRequest`. -/
structure CompletionRequest where
  prompt : String
  model : Option String
  temperature : ℚ
  maxTokens : Option ℤ
  /-- the schema's checks -/
  bounds : PromptBounds prompt temperature maxTokens

/-- `CompletionUsage`. -/
structure CompletionUsage where
  promptTokens : ℤ
  completionTokens : ℤ
  deriving DecidableEq

/-- `CompletionResponse`. -/
structure CompletionResponse where
  id : String
  model : String
  content : String
  usage : CompletionUsage
  deriving DecidableEq

/-- The schemes `HttpUrl` accepts. -/
inductive Scheme where
  | http
  | https
  deriving DecidableEq

/-- The text of a scheme. -/
def Scheme.text : Scheme → String
  | .http => "http://"
  | .https => "https://"

/-- A value of pydantic's `HttpUrl`: an http(s) URL, normalised. What was sent has at most 2083
characters; what it is normalised to may have more. -/
structure HttpUrl where
  scheme : Scheme
  /-- what follows the scheme -/
  rest : String

/-- `str(url)`. -/
def HttpUrl.text (url : HttpUrl) : String := url.scheme.text ++ url.rest

/-- `JobRequest`: a completion request and where to send the answer. -/
structure JobRequest where
  prompt : String
  model : Option String
  temperature : ℚ
  maxTokens : Option ℤ
  callbackUrl : HttpUrl
  /-- the schema's checks -/
  bounds : PromptBounds prompt temperature maxTokens

/-- The completion request `JobService._execute` builds from a job request. Its schema checks the
same bounds, so it always validates. -/
def JobRequest.completionRequest (request : JobRequest) : CompletionRequest where
  prompt := request.prompt
  model := request.model
  temperature := request.temperature
  maxTokens := request.maxTokens
  bounds := request.bounds

/-- A request. -/
def helloRequest : CompletionRequest where
  prompt := "Say hello."
  model := none
  temperature := 7 / 10
  maxTokens := none
  bounds := ⟨by decide, by decide +kernel, by simp⟩

/-- The same, to be answered at a callback. -/
def hookRequest : JobRequest where
  prompt := "Say hello."
  model := none
  temperature := 7 / 10
  maxTokens := none
  callbackUrl := ⟨.https, "example.com/hook"⟩
  bounds := ⟨by decide, by decide +kernel, by simp⟩

/-- `UsageEntry`: what one request cost. -/
structure UsageEntry where
  apiKeyId : String
  model : String
  statusCode : ℤ
  durationMs : ℤ
  promptTokens : ℤ
  completionTokens : ℤ
  deriving DecidableEq

/-! ## Jobs -/

/-- `JobStatus`. -/
inductive JobStatus where
  | pending
  | running
  | succeeded
  | failed
  deriving DecidableEq

/-- `JobStatus.is_final`. -/
def JobStatus.isFinal : JobStatus → Bool
  | .succeeded | .failed => true
  | _ => false

/-- A `Job` as `JobService.accept` builds it, before it is inserted. -/
structure NewJob where
  id : String
  apiKeyId : String
  status : JobStatus
  model : String
  prompt : String
  callbackUrl : String

/-- A row of the job table. -/
structure Job where
  id : String
  apiKeyId : String
  status : JobStatus
  model : String
  prompt : String
  callbackUrl : String
  content : Option String
  errorCode : Option String
  errorMessage : Option String
  promptTokens : ℤ
  completionTokens : ℤ
  deliveryAttempts : ℤ
  /-- when the callback was delivered, in seconds -/
  deliveredAt : Option ℚ
  /-- when the row was inserted, in seconds -/
  createdAt : ℚ
  deriving DecidableEq

/-- The row an insert at time `now` makes: the table's defaults for every column not given. -/
def NewJob.row (job : NewJob) (now : ℚ) : Job where
  id := job.id
  apiKeyId := job.apiKeyId
  status := job.status
  model := job.model
  prompt := job.prompt
  callbackUrl := job.callbackUrl
  content := none
  errorCode := none
  errorMessage := none
  promptTokens := 0
  completionTokens := 0
  deliveryAttempts := 0
  deliveredAt := none
  createdAt := now

/-- One keyword argument of `update(job_id, **fields)`. -/
inductive JobField where
  | status (value : JobStatus)
  | model (value : String)
  | content (value : String)
  | errorCode (value : String)
  | errorMessage (value : String)
  | promptTokens (value : ℤ)
  | completionTokens (value : ℤ)
  | deliveryAttempts (value : ℤ)
  | deliveredAt (value : ℚ)
  deriving DecidableEq

/-- `setattr(job, field, value)`. -/
def Job.setattr (job : Job) : JobField → Job
  | .status value => { job with status := value }
  | .model value => { job with model := value }
  | .content value => { job with content := some value }
  | .errorCode value => { job with errorCode := some value }
  | .errorMessage value => { job with errorMessage := some value }
  | .promptTokens value => { job with promptTokens := value }
  | .completionTokens value => { job with completionTokens := value }
  | .deliveryAttempts value => { job with deliveryAttempts := value }
  | .deliveredAt value => { job with deliveredAt := some value }

/-- `for field, value in fields.items(): setattr(job, field, value)`. -/
def Job.update (job : Job) (fields : List JobField) : Job := fields.foldl Job.setattr job

/-- `JobView`: what `GET /v1/jobs/{id}` returns. -/
structure JobView where
  id : String
  status : JobStatus
  model : String
  content : Option String
  errorCode : Option String
  errorMessage : Option String
  deliveryAttempts : ℤ
  deliveredAt : Option ℚ
  createdAt : ℚ
  deriving DecidableEq

/-- `to_view`. -/
def Job.toView (job : Job) : JobView where
  id := job.id
  status := job.status
  model := job.model
  content := job.content
  errorCode := job.errorCode
  errorMessage := job.errorMessage
  deliveryAttempts := job.deliveryAttempts
  deliveredAt := job.deliveredAt
  createdAt := job.createdAt

/-- `JobAccepted`: the 202 body. -/
structure JobAccepted where
  id : String
  status : JobStatus
  deriving DecidableEq

/-- `WebhookPayload`: the body signed and posted to the caller. -/
structure WebhookPayload where
  jobId : String
  status : JobStatus
  model : String
  content : Option String
  errorCode : Option String
  errorMessage : Option String
  deriving DecidableEq

/-! ## The limiter and the breaker -/

/-- `RateLimitDecision`: the outcome of charging a caller's bucket for one request. -/
structure RateLimitDecision where
  allowed : Bool
  limit : ℤ
  remaining : ℤ
  /-- seconds until the bucket is full again -/
  resetAfter : ℚ
  /-- seconds until one token is available; 0 when allowed -/
  retryAfter : ℚ
  deriving DecidableEq

/-- `CircuitState`. -/
inductive CircuitState where
  /-- everything through -/
  | closed
  /-- provider is down; fail immediately -/
  | «open»
  /-- let a trial request decide -/
  | halfOpen
  deriving DecidableEq

/-! ## Settings -/

/-- The settings the modelled code reads. -/
structure Settings where
  upstreamModel : String
  requireApiKey : Bool
  rateLimitEnabled : Bool
  rateLimitRequestsPerMinute : ℤ
  rateLimitBurst : ℤ
  retryMaxAttempts : ℤ
  retryInitialBackoffSeconds : ℚ
  retryMaxBackoffSeconds : ℚ
  retryBudgetSeconds : ℚ
  circuitBreakerFailureThreshold : ℤ
  circuitBreakerResetSeconds : ℚ
  webhookMaxAttempts : ℤ
  webhookSigningSecret : String
  webhookTimeoutSeconds : ℚ

/-- The defaults of `configuration.py`. -/
def Settings.defaults : Settings where
  upstreamModel := "llama3.2:3b"
  requireApiKey := true
  rateLimitEnabled := true
  rateLimitRequestsPerMinute := 60
  rateLimitBurst := 10
  retryMaxAttempts := 3
  retryInitialBackoffSeconds := 1 / 2
  retryMaxBackoffSeconds := 8
  retryBudgetSeconds := 30
  circuitBreakerFailureThreshold := 5
  circuitBreakerResetSeconds := 30
  webhookMaxAttempts := 4
  webhookSigningSecret := ""
  webhookTimeoutSeconds := 10

end PrdApiWrapper
