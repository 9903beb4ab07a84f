import PrdApiWrapper.Values

/-!
# The error taxonomy

`errors/exceptions.py`: each failure the service returns on purpose is a class that pins the HTTP
status, a machine-readable code, a default message and whether repeating the request could help;
each instance carries its own message, details, headers and retry advice. Whatever else is raised
is a bug and has no class here.
-/

namespace PrdApiWrapper

/-- The subclasses of `AppError` that are raised, and `AppError` itself. -/
inductive ErrorClass where
  | appError
  | missingCredentials
  | invalidCredentials
  | validationFailed
  | modelNotFound
  | upstreamRejectedRequest
  | rateLimitExceeded
  | upstreamRateLimited
  | upstreamError
  | upstreamUnavailable
  | upstreamTimeout
  | upstreamCircuitOpen
  | upstreamAuthFailed
  | webhookDeliveryFailed
  | jobNotFound
  | invalidUpstreamResponse
  deriving DecidableEq

namespace ErrorClass

/-- The class attribute `status_code`. -/
def statusCode : ErrorClass → ℤ
  | .appError => 500
  | .missingCredentials | .invalidCredentials => 401
  | .validationFailed => 422
  | .modelNotFound | .upstreamRejectedRequest => 400
  | .rateLimitExceeded | .upstreamRateLimited => 429
  | .upstreamError => 502
  | .upstreamUnavailable => 503
  | .upstreamTimeout => 504
  | .upstreamCircuitOpen => 503
  | .upstreamAuthFailed => 502
  | .webhookDeliveryFailed => 502
  | .jobNotFound => 404
  | .invalidUpstreamResponse => 502

/-- The class attribute `code`. -/
def code : ErrorClass → String
  | .appError => "internal_error"
  | .missingCredentials => "missing_credentials"
  | .invalidCredentials => "invalid_credentials"
  | .validationFailed => "validation_error"
  | .modelNotFound => "model_not_found"
  | .upstreamRejectedRequest => "upstream_rejected_request"
  | .rateLimitExceeded => "rate_limit_exceeded"
  | .upstreamRateLimited => "upstream_rate_limited"
  | .upstreamError => "upstream_error"
  | .upstreamUnavailable => "upstream_unavailable"
  | .upstreamTimeout => "upstream_timeout"
  | .upstreamCircuitOpen => "upstream_circuit_open"
  | .upstreamAuthFailed => "upstream_auth_failed"
  | .webhookDeliveryFailed => "webhook_delivery_failed"
  | .jobNotFound => "job_not_found"
  | .invalidUpstreamResponse => "invalid_upstream_response"

/-- The class attribute `message`. -/
def message : ErrorClass → String
  | .appError => "Something went wrong on our side."
  | .missingCredentials => "Provide an API key as 'Authorization: Bearer <key>'."
  | .invalidCredentials => "The provided API key is not valid."
  | .validationFailed => "The request body is invalid."
  | .modelNotFound => "The requested model is not available."
  | .upstreamRejectedRequest => "The provider rejected the request."
  | .rateLimitExceeded => "Rate limit exceeded. Slow down."
  | .upstreamRateLimited => "Rate limited by the provider. Retry shortly."
  | .upstreamError => "The provider returned an unexpected error."
  | .upstreamUnavailable => "The provider could not be reached."
  | .upstreamTimeout => "The provider did not respond in time."
  | .upstreamCircuitOpen => "The provider is failing; calls are paused. Retry shortly."
  | .upstreamAuthFailed => "The provider rejected our credentials."
  | .webhookDeliveryFailed => "The callback could not be delivered."
  | .jobNotFound => "No such job."
  | .invalidUpstreamResponse => "The provider returned a response we could not parse."

/-- Whether an instance raised without saying so is retryable. `WebhookDeliveryFailed` sets the
flag per instance and defaults to true. -/
def retryable : ErrorClass → Bool
  | .upstreamRateLimited | .upstreamError | .upstreamUnavailable | .upstreamTimeout
  | .webhookDeliveryFailed => true
  | _ => false

/-- The headers of an instance raised without saying so: `Unauthenticated` says how to
authenticate. -/
def headers : ErrorClass → List (String × String)
  | .missingCredentials | .invalidCredentials => [("WWW-Authenticate", "Bearer")]
  | _ => []

end ErrorClass

/-- An `AppError` instance. -/
structure AppError where
  /-- its class -/
  cls : ErrorClass
  /-- the message for humans -/
  message : String
  /-- the details of the error envelope -/
  details : List (String × Json)
  /-- headers the answer carries -/
  headers : List (String × String)
  /-- seconds the provider asked us to wait -/
  retryAfter : Option PyFloat
  /-- whether repeating the request could succeed -/
  retryable : Bool

namespace AppError

/-- `cls()`: an instance with every argument left out. -/
def new (cls : ErrorClass) : AppError where
  cls := cls
  message := cls.message
  details := []
  headers := cls.headers
  retryAfter := none
  retryable := cls.retryable

/-- The `message` argument: `message or type(self).message`. -/
def withMessage (error : AppError) : Option String → AppError
  | some message => if message = "" then error else { error with message := message }
  | none => error

/-- The class attribute `status_code`, seen from an instance. -/
def statusCode (error : AppError) : ℤ := error.cls.statusCode

/-- The class attribute `code`, seen from an instance. -/
def code (error : AppError) : String := error.cls.code

@[simp] theorem withMessage_retryAfter (error : AppError) (message : Option String) :
    (error.withMessage message).retryAfter = error.retryAfter := by
  unfold withMessage
  split
  · split <;> rfl
  · rfl

@[simp] theorem withMessage_cls (error : AppError) (message : Option String) :
    (error.withMessage message).cls = error.cls := by
  unfold withMessage
  split
  · split <;> rfl
  · rfl

@[simp] theorem withMessage_retryable (error : AppError) (message : Option String) :
    (error.withMessage message).retryable = error.retryable := by
  unfold withMessage
  split
  · split <;> rfl
  · rfl

@[simp] theorem withMessage_headers (error : AppError) (message : Option String) :
    (error.withMessage message).headers = error.headers := by
  unfold withMessage
  split
  · split <;> rfl
  · rfl

end AppError

/-- What Python code can raise: an `AppError`, or any other `Exception`, known by its class name.
Cancellation is not among them: a coroutine that is cancelled is one that is not resumed. -/
inductive Exc where
  /-- a failure the service returns on purpose -/
  | app : AppError → Exc
  /-- anything else -/
  | foreign : String → Exc

/-- A sequence of steps succeeds if each of them does. -/
theorem bind_eq_ok {ε α β : Type} {x : Except ε α} {f : α → Except ε β} {b : β} :
    x >>= f = .ok b ↔ ∃ a, x = .ok a ∧ f a = .ok b := by
  cases x with
  | ok a =>
    refine ⟨?_, ?_⟩
    · exact fun h => ⟨a, rfl, h⟩
    · rintro ⟨_, ha, h⟩
      cases ha
      exact h
  | error exc =>
    refine ⟨?_, ?_⟩
    · exact nofun
    · rintro ⟨_, h, _⟩
      cases h

end PrdApiWrapper
