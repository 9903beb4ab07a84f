import PrdApiWrapper.Retry
import PrdApiWrapper.CircuitBreaker

/-!
# Completions

`services/completion.py`: one completion is a retried sequence of attempts, each a call of the
provider watched by the circuit breaker, with its outcome mapped into the error taxonomy and the
whole of it metered.

Everything the service is handed (client, breaker, usage repository, clock) is a program over any
interface. Of the libraries it calls, the parsing of a float and of an integer field, the `repr` of
a string and what can be rendered are parameters, `Libraries`.
-/

namespace PrdApiWrapper

open Interaction

/-! ## What the provider says -/

/-- Library functions whose exact rules the service does not depend on. -/
structure Libraries where
  /-- `float(text)`; `none` for a `ValueError` -/
  float : String → Option PyFloat
  /-- what pydantic makes of a value for an `int` field; `none` if it refuses -/
  intField : Json → Option ℤ
  /-- `repr(text)` -/
  repr : String → String
  /-- whether `text.encode("utf-8")` succeeds: not for a text with a lone surrogate, which JSON can
  spell; a string that is none of Unicode's has to stand for it here -/
  encodes : String → Bool
  encodes_ascii : ∀ text, isAscii text = true → encodes text = true
  /-- how deep the recursion limit lets a value be rendered -/
  nesting : ℕ

/-- Whether an answer can hold the value. -/
def Libraries.renders (lib : Libraries) (value : Json) : Bool :=
  value.renders lib.encodes lib.nesting

/-- The exceptions that decoding a body and reading it raise. -/
inductive BodyError where
  | attributeError
  | indexError
  | keyError
  | recursionError
  | typeError
  | validationError
  | valueError
  deriving DecidableEq

/-- The name of the class. -/
def BodyError.name : BodyError → String
  | .attributeError => "AttributeError"
  | .indexError => "IndexError"
  | .keyError => "KeyError"
  | .recursionError => "RecursionError"
  | .typeError => "TypeError"
  | .validationError => "ValidationError"
  | .valueError => "ValueError"

/-- An `httpx.Response`, as far as it is looked at. -/
structure HttpResponse where
  statusCode : ℤ
  /-- `headers.get(name)`, for a name in lower case -/
  header : String → Option String
  /-- `json()`: it raises a `ValueError` if the body is no JSON, and a `RecursionError` if it is
  nested too deeply -/
  json : Except BodyError Json

/-- httpx's `is_error`. -/
def HttpResponse.isError (response : HttpResponse) : Bool :=
  decide (400 ≤ response.statusCode ∧ response.statusCode ≤ 599)

/-- How a POST to the provider can end. -/
inductive UpstreamOutcome where
  | response (response : HttpResponse)
  /-- `httpx.TimeoutException` -/
  | timeout
  /-- any other `httpx.RequestError` -/
  | requestError
  /-- an exception httpx does not document for a request -/
  | foreign (name : String)

/-- The JSON the provider is sent. -/
structure UpstreamPayload where
  model : String
  /-- the content of the only message, of the user -/
  prompt : String
  temperature : ℚ
  /-- left out of the JSON if absent -/
  maxTokens : Option ℤ

/-! ## Error mapping -/

/-- `_upstream_message`: a human message in an error body, if there is one. -/
def upstreamMessage (response : HttpResponse) : Except BodyError (Option String) :=
  match response.json with
  | .ok (.obj body) =>
    match lookup "error" body with
    | some (.obj error) => .ok ((lookup "message" error).bind Json.asStr)
    | some error => .ok error.asStr
    | none => .ok none
  | .ok _ => .ok none
  -- nothing else is caught
  | .error raised => if raised = .valueError then .ok none else .error raised

/-- `_retry_after_seconds`: the delay-seconds form of Retry-After. -/
def retryAfterSeconds (lib : Libraries) (header : Option String) : Option PyFloat :=
  (header.bind lib.float).map fun seconds => seconds.pyMax (.fin 0)

/-- `a or b` on optional strings. -/
def orElse (a : Option String) (b : String) : String :=
  match a with
  | some text => if text = "" then b else text
  | none => b

/-- `{"Retry-After": retry_after} if retry_after else None`. -/
def retryAfterHeaders : Option String → List (String × String)
  | some value => if value = "" then [] else [("Retry-After", value)]
  | none => []

/-- `_as_app_error`, once it has the message. -/
def appErrorOf (lib : Libraries) (response : HttpResponse) (model : String)
    (message : Option String) : AppError :=
  let status := response.statusCode
  let details := [("upstream_status", Json.int status)]
  if status = 404 then
    { (AppError.new .modelNotFound).withMessage
        (some (orElse message s!"Model {lib.repr model} is not available.")) with
      details := [("model", .str model)] }
  else if status = 429 then
    let retryAfter := response.header "retry-after"
    { AppError.new .upstreamRateLimited with
      headers := retryAfterHeaders retryAfter
      details := details
      retryAfter := retryAfterSeconds lib retryAfter }
  else if status = 401 ∨ status = 403 then
    { AppError.new .upstreamAuthFailed with details := details }
  else if 400 ≤ status ∧ status < 500 then
    { (AppError.new .upstreamRejectedRequest).withMessage message with details := details }
  else
    { AppError.new .upstreamError with details := details }

/-- `_as_app_error`. -/
def asAppError (lib : Libraries) (response : HttpResponse) (model : String) :
    Except BodyError AppError :=
  (upstreamMessage response).map (appErrorOf lib response model)

theorem asAppError_eq_ok {lib : Libraries} {response : HttpResponse} {model : String}
    {error : AppError} : asAppError lib response model = .ok error ↔
      ∃ message, upstreamMessage response = .ok message ∧
        appErrorOf lib response model message = error := by
  rw [asAppError]
  cases upstreamMessage response with
  | ok message => simp [Except.map]
  | error raised => simp [Except.map]

theorem appErrorOf_retryAfter (lib : Libraries) (response : HttpResponse) (model : String)
    (message : Option String) :
    (appErrorOf lib response model message).retryAfter =
      if response.statusCode = 429 then retryAfterSeconds lib (response.header "retry-after")
      else none := by
  rw [appErrorOf]
  by_cases h404 : response.statusCode = 404
  · simp [h404, AppError.new]
  · by_cases h429 : response.statusCode = 429
    · simp [h429]
    · simp only [if_neg h404, if_neg h429]
      split
      · rfl
      · split
        · simp [AppError.new]
        · rfl

theorem appErrorOf_retryable (lib : Libraries) (response : HttpResponse) (model : String)
    (message : Option String) :
    (appErrorOf lib response model message).retryable = true ↔
      response.statusCode = 429 ∨ ¬ (400 ≤ response.statusCode ∧ response.statusCode < 500) := by
  rw [appErrorOf]
  by_cases h404 : response.statusCode = 404
  · simp [h404, AppError.new, ErrorClass.retryable]
  · by_cases h429 : response.statusCode = 429
    · simp [h429, AppError.new, ErrorClass.retryable]
    · simp only [if_neg h404, h429, false_or]
      by_cases hauth : response.statusCode = 401 ∨ response.statusCode = 403
      · simp only [if_pos hauth, AppError.new, ErrorClass.retryable]
        exact iff_of_false Bool.false_ne_true (by omega)
      · rw [if_neg hauth]
        by_cases hclient : 400 ≤ response.statusCode ∧ response.statusCode < 500
        · simp [hclient, AppError.new, ErrorClass.retryable]
        · simp [hclient, AppError.new, ErrorClass.retryable]

theorem retryAfterSeconds_eq_nan (lib : Libraries) (header : Option String) :
    retryAfterSeconds lib header = some .nan ↔ header.bind lib.float = some .nan := by
  rw [retryAfterSeconds]
  cases header.bind lib.float with
  | none => simp
  | some seconds => simp [PyFloat.pyMax_eq_nan]

theorem retryAfterSeconds_eq_none (lib : Libraries) (header : Option String) :
    retryAfterSeconds lib header = none ↔ header.bind lib.float = none :=
  Option.map_eq_none_iff

/-! ## Response mapping -/

/-- `data[key]`, for a string key. -/
def Json.item (data : Json) (key : String) : Except BodyError Json :=
  match data with
  | .obj fields =>
    match lookup key fields with
    | some value => .ok value
    | none => .error .keyError
  | _ => .error .typeError

/-- `data[0]`. The keys of a decoded object are strings, so it has no item 0. -/
def Json.first : Json → Except BodyError Json
  | .arr [] => .error .indexError
  | .arr (item :: _) => .ok item
  | .str text =>
    match text.toList with
    | [] => .error .indexError
    | char :: _ => .ok (.str (String.singleton char))
  | .obj _ => .error .keyError
  | _ => .error .typeError

/-- `data.get(key, default)`: only a `dict` has the method. -/
def Json.get (data : Json) (key : String) (default : Json) : Except BodyError Json :=
  match data with
  | .obj fields => .ok ((lookup key fields).getD default)
  | _ => .error .attributeError

/-- `CompletionUsage(prompt_tokens=…, completion_tokens=…)`. -/
def CompletionUsage.validate (lib : Libraries) (promptTokens completionTokens : Json) :
    Except BodyError CompletionUsage :=
  match lib.intField promptTokens, lib.intField completionTokens with
  | some promptTokens, some completionTokens => .ok { promptTokens, completionTokens }
  | _, _ => .error .validationError

/-- `CompletionResponse(id=…, model=…, content=…, usage=…)`. -/
def CompletionResponse.validate (id model content : Json) (usage : CompletionUsage) :
    Except BodyError CompletionResponse :=
  match id.asStr, model.asStr, content.asStr with
  | some id, some model, some content => .ok { id, model, content, usage }
  | _, _, _ => .error .validationError

/-- `try` with one handler, `except (classes): raise InvalidUpstreamResponse()`. -/
def orInvalid {α : Type} (classes : List BodyError) : Except BodyError α → Except Exc α
  | .ok a => .ok a
  | .error raised =>
    if raised ∈ classes then .error (.app (.new .invalidUpstreamResponse))
    else .error (.foreign raised.name)

/-- `data.get("usage") or {}`. -/
def usageOf (body : List (String × Json)) : Json :=
  let usage := (lookup "usage" body).getD .null
  if usage.truthy then usage else .obj []

/-- What the `try` of `_to_response` does, for an object. -/
def readBody (lib : Libraries) (body : List (String × Json)) :
    Except BodyError CompletionResponse := do
  let usage := usageOf body
  let id ← (Json.obj body).item "id"
  let model ← (Json.obj body).item "model"
  let choices ← (Json.obj body).item "choices"
  let choice ← choices.first
  let message ← choice.item "message"
  let content ← message.item "content"
  let promptTokens ← usage.get "prompt_tokens" (.int 0)
  let completionTokens ← usage.get "completion_tokens" (.int 0)
  let usage ← CompletionUsage.validate lib promptTokens completionTokens
  CompletionResponse.validate id model content usage

/-- The classes `_to_response` catches. -/
def readErrors : List BodyError :=
  [.attributeError, .indexError, .keyError, .typeError, .validationError]

/-- `_to_response`. -/
def toResponse (lib : Libraries) (data : Json) : Except Exc CompletionResponse :=
  match data with
  | .obj body => orInvalid readErrors (readBody lib body)
  | _ => .error (.app (.new .invalidUpstreamResponse))

/-! ## What reading a body can raise -/

section Caught

variable {α β : Type} {classes : List BodyError}

/-- Whatever is raised is of one of the classes. -/
def Caught (classes : List BodyError) (x : Except BodyError α) : Prop :=
  ∀ raised, x = .error raised → raised ∈ classes

theorem Caught.mono {classes' : List BodyError} {x : Except BodyError α} (hx : Caught classes x)
    (h : classes ⊆ classes') : Caught classes' x :=
  fun raised hraised => h (hx raised hraised)

theorem Caught.bind {x : Except BodyError α} {f : α → Except BodyError β} (hx : Caught classes x)
    (hf : ∀ a, Caught classes (f a)) : Caught classes (x >>= f) := by
  cases x with
  | ok a => exact hf a
  | error raised =>
    intro raised' h
    cases h
    exact hx raised rfl

theorem orInvalid_cases {x : Except BodyError α} (hx : Caught classes x) :
    (∃ a, orInvalid classes x = .ok a) ∨
      orInvalid classes x = .error (.app (.new .invalidUpstreamResponse)) := by
  cases x with
  | ok a => exact .inl ⟨a, rfl⟩
  | error raised => exact .inr (if_pos (hx raised rfl))

theorem orInvalid_eq_ok {x : Except BodyError α} {a : α} :
    orInvalid classes x = .ok a ↔ x = .ok a := by
  cases x with
  | ok b => simp [orInvalid]
  | error raised => by_cases h : raised ∈ classes <;> simp [orInvalid, h]

end Caught

theorem Json.item_caught (data : Json) (key : String) :
    Caught [.keyError, .typeError] (data.item key) := by
  intro raised h
  unfold Json.item at h
  split at h
  · split at h
    · cases h
    · cases h
      decide
  · cases h
    decide

theorem Json.first_caught (data : Json) :
    Caught [.indexError, .keyError, .typeError] data.first := by
  intro raised h
  unfold Json.first at h
  split at h
  · cases h
    decide
  · cases h
  · split at h
    · cases h
      decide
    · cases h
  · cases h
    decide
  · cases h
    decide

theorem Json.get_caught (data : Json) (key : String) (default : Json) :
    Caught [.attributeError] (data.get key default) := by
  intro raised h
  unfold Json.get at h
  split at h
  · cases h
  · cases h
    decide

theorem CompletionUsage.validate_caught (lib : Libraries) (promptTokens completionTokens : Json) :
    Caught [.validationError] (CompletionUsage.validate lib promptTokens completionTokens) := by
  intro raised h
  rw [CompletionUsage.validate] at h
  split at h
  · cases h
  · cases h
    decide

theorem CompletionResponse.validate_caught (id model content : Json) (usage : CompletionUsage) :
    Caught [.validationError] (CompletionResponse.validate id model content usage) := by
  intro raised h
  rw [CompletionResponse.validate] at h
  split at h
  · cases h
  · cases h
    decide

/-- No step of `_to_response` raises what it does not catch. -/
theorem readBody_caught (lib : Libraries) (body : List (String × Json)) :
    Caught readErrors (readBody lib body) := by
  have hitem : ∀ (data : Json) (key : String), Caught readErrors (data.item key) :=
    fun data key => (data.item_caught key).mono (by decide)
  have hget : ∀ (data : Json) (key : String) (default : Json),
      Caught readErrors (data.get key default) :=
    fun data key default => (data.get_caught key default).mono (by decide)
  refine (hitem _ _).bind fun id => (hitem _ _).bind fun model => (hitem _ _).bind fun choices => ?_
  refine (choices.first_caught.mono (by decide)).bind fun choice => ?_
  refine (hitem _ _).bind fun message => (hitem _ _).bind fun content => ?_
  refine (hget _ _ _).bind fun promptTokens => (hget _ _ _).bind fun completionTokens => ?_
  refine ((CompletionUsage.validate_caught lib _ _).mono (by decide)).bind fun usage => ?_
  exact (CompletionResponse.validate_caught id model content usage).mono (by decide)

theorem toResponse_cases (lib : Libraries) (data : Json) :
    (∃ response, toResponse lib data = .ok response) ∨
      toResponse lib data = .error (.app (.new .invalidUpstreamResponse)) := by
  cases data with
  | obj body => exact orInvalid_cases (readBody_caught lib body)
  | _ => exact .inr rfl

/-- What `_call_upstream` makes of the outcome of its POST. -/
def received (lib : Libraries) (model : String) : UpstreamOutcome → Except Exc CompletionResponse
  | .timeout => .error (.app (.new .upstreamTimeout))
  | .requestError => .error (.app (.new .upstreamUnavailable))
  | .foreign name => .error (.foreign name)
  | .response response =>
    if response.isError then
      match asAppError lib response model with
      | .ok error => .error (.app error)
      | .error raised => .error (.foreign raised.name)
    else do
      let body ← orInvalid [.valueError] response.json
      toResponse lib body

/-! ## What an answer of the provider becomes -/

/-- Decoding the body raises nothing but a `ValueError`. -/
def HttpResponse.Readable (response : HttpResponse) : Prop :=
  ∀ raised, response.json = .error raised → raised = .valueError

theorem upstreamMessage_readable {response : HttpResponse} (h : response.Readable) :
    ∃ message, upstreamMessage response = .ok message := by
  rw [upstreamMessage]
  split
  · split <;> exact ⟨_, rfl⟩
  · exact ⟨_, rfl⟩
  · next raised hjson => exact ⟨none, if_pos (h raised hjson)⟩

theorem received_error (lib : Libraries) (model : String) {response : HttpResponse}
    {message : Option String} (herror : response.isError = true)
    (hmessage : upstreamMessage response = .ok message) :
    received lib model (.response response) =
      .error (.app (appErrorOf lib response model message)) := by
  simp only [received, if_pos herror, asAppError, hmessage, Except.map]

theorem received_response {lib : Libraries} {model : String} {response : HttpResponse}
    (herror : ¬ response.isError = true) (hreadable : response.Readable) :
    received lib model (.response response) =
      response.json.toOption.elim (.error (.app (.new .invalidUpstreamResponse)))
        (toResponse lib) := by
  simp only [received, if_neg herror]
  cases hjson : response.json with
  | ok body => rfl
  | error raised =>
    rw [hreadable raised hjson]
    rfl

/-- A response that is no error is a completion or cannot be parsed. -/
theorem received_response_cases (lib : Libraries) (model : String) {response : HttpResponse}
    (herror : ¬ response.isError = true) (hreadable : response.Readable) :
    (∃ completion, received lib model (.response response) = .ok completion) ∨
      received lib model (.response response) =
        .error (.app (.new .invalidUpstreamResponse)) := by
  rw [received_response herror hreadable]
  cases response.json with
  | error raised => exact .inr rfl
  | ok body => exact toResponse_cases lib body

/-- What is raised in decoding a body, and is no `ValueError`, is not caught. -/
theorem received_unreadable (lib : Libraries) (model : String) {response : HttpResponse}
    (hreadable : ¬ response.Readable) :
    ∃ name, received lib model (.response response) = .error (.foreign name) := by
  obtain ⟨raised, hjson, hraised⟩ : ∃ raised, response.json = .error raised ∧
      raised ≠ .valueError := by
    simpa [HttpResponse.Readable] using hreadable
  refine ⟨raised.name, ?_⟩
  by_cases herror : response.isError = true
  · have hmessage : upstreamMessage response = .error raised := by
      simp only [upstreamMessage, hjson, if_neg hraised]
    simp only [received, if_pos herror, asAppError, hmessage, Except.map]
  · have hnone : raised ∉ [BodyError.valueError] := by simpa using hraised
    simp only [received, if_neg herror, hjson, orInvalid, if_neg hnone]
    rfl

/-! ## The service -/

/-- The methods of the shared breaker. -/
structure BreakerHandle (S : Effects) where
  beforeCall : Async S Exc Unit
  recordSuccess : Prog S Unit
  recordFailure : Prog S Unit

/-- The attributes of a `CompletionService`. -/
structure CompletionService (S : Effects) where
  lib : Libraries
  /-- `self._client.post("/chat/completions", json=payload)` -/
  post : UpstreamPayload → Prog S UpstreamOutcome
  /-- `self._settings.UPSTREAM_MODEL` -/
  upstreamModel : String
  retry : RetryPolicy S
  breaker : BreakerHandle S
  /-- `self._usage.record(entry)` -/
  record : UsageEntry → Async S Exc Unit
  /-- `time.monotonic()` -/
  monotonic : Prog S ℚ

namespace CompletionService

variable {S : Effects}

/-- `_call_upstream`. -/
def callUpstream (service : CompletionService S) (payload : UpstreamPayload) (model : String) :
    Async S Exc CompletionResponse :=
  ExceptT.mk (received service.lib model <$> service.post payload)

/-- `_guarded_call`: one attempt, with the circuit breaker watching the outcome. -/
def guardedCall (service : CompletionService S) (payload : UpstreamPayload) (model : String) :
    Async S Exc CompletionResponse := do
  service.breaker.beforeCall
  let result ← tryCatch (service.callUpstream payload model) fun
    | .app error => do
      -- only infrastructure failures say anything about the provider's health
      if error.retryable then ExceptT.lift service.breaker.recordFailure
      throw (.app error)
    | exc => throw exc
  ExceptT.lift service.breaker.recordSuccess
  pure result

/-- The entry `_record` writes. -/
def entry (caller : Caller) (model : String) (statusCode : ℤ) (started now : ℚ)
    (usage : Option CompletionUsage) : UsageEntry where
  apiKeyId := caller.id
  model := model
  statusCode := statusCode
  durationMs := truncate ((now - started) * 1000)
  promptTokens := usage.elim 0 CompletionUsage.promptTokens
  completionTokens := usage.elim 0 CompletionUsage.completionTokens

/-- `_record`: whatever the repository raises is swallowed. -/
def recordUsage (service : CompletionService S) (caller : Caller) (model : String)
    (statusCode : ℤ) (started : ℚ) (usage : Option CompletionUsage) : Async S Exc Unit := do
  let now ← ExceptT.lift service.monotonic
  -- `except Exception`
  tryCatch (service.record (entry caller model statusCode started now usage)) fun _ => pure ()

/-- The model a request is for: `request.model or UPSTREAM_MODEL`. -/
def modelFor (service : CompletionService S) (request : CompletionRequest) : String :=
  orElse request.model service.upstreamModel

/-- The payload `complete` sends. -/
def payloadFor (service : CompletionService S) (request : CompletionRequest) : UpstreamPayload where
  model := service.modelFor request
  prompt := request.prompt
  temperature := request.temperature
  maxTokens := request.maxTokens

/-- `complete(request, caller)`. -/
def complete (service : CompletionService S) (request : CompletionRequest) (caller : Caller) :
    Async S Exc CompletionResponse := do
  let model := service.modelFor request
  let started ← ExceptT.lift service.monotonic
  let response ←
    tryCatch (service.retry.run (service.guardedCall (service.payloadFor request) model)) fun
      | .app error => do
        service.recordUsage caller model error.statusCode started none
        throw (.app error)
      -- no record is made of anything else that is raised
      | exc => throw exc
  service.recordUsage caller model 200 started (some response.usage)
  pure response

end CompletionService

end PrdApiWrapper
