import PrdApiWrapper.Contextual
import PrdApiWrapper.Rendering
import PrdApiWrapper.Replies

/-!
# Request ids

The layers of `factory.py` around the routes: Starlette's own layer for what nothing else handles,
the middleware, and the layer that calls the handlers of the other exceptions. The id of a request
is assigned in one of them, and put into an error envelope, a response header and the log lines in
others, so what a client can quote depends on the order of the layers.

Starlette makes the middleware that was added last the outermost, and calls the handler registered
for `Exception` outside all of it.
-/

namespace PrdApiWrapper

open Interaction

/-! ## Headers -/

/-- The name of a header, as it is kept. -/
def lowerCase (name : String) : String := String.ofList (name.toList.map Char.toLower)

/-- `headers.get(name)`. -/
def getHeader (name : String) (headers : List (String × String)) : Option String :=
  lookup (lowerCase name) headers

/-- `headers[name] = value`: the first entry of the name is replaced and any others are removed. -/
def setHeader (name value : String) : List (String × String) → List (String × String)
  | [] => [(lowerCase name, value)]
  | entry :: rest =>
    if entry.1 = lowerCase name then
      (lowerCase name, value) :: rest.filter fun other => other.1 ≠ lowerCase name
    else entry :: setHeader name value rest

/-- `headers.update(others)`. -/
def updateHeaders (headers others : List (String × String)) : List (String × String) :=
  others.foldl (fun headers entry => setHeader entry.1 entry.2 headers) headers

/-- The headers an answer is constructed with. -/
def rawHeaders (headers : List (String × String)) : List (String × String) :=
  headers.map fun entry => (lowerCase entry.1, entry.2)

theorem getHeader_setHeader (name value : String) (headers : List (String × String)) :
    getHeader name (setHeader name value headers) = some value := by
  induction headers with
  | nil => simp [getHeader, setHeader, lookup]
  | cons entry rest ih =>
    rw [setHeader]
    split
    · simp [getHeader, lookup]
    · next hname =>
      have hname' : (entry.1 == lowerCase name) = false := by simpa using hname
      simpa [getHeader, lookup, List.find?_cons, hname'] using ih

theorem getHeader_setHeader_of_ne {name other : String} (h : lowerCase other ≠ lowerCase name)
    (value : String) (headers : List (String × String)) :
    getHeader name (setHeader other value headers) = getHeader name headers := by
  have hother : (lowerCase other == lowerCase name) = false := by simpa using h
  induction headers with
  | nil => simp [getHeader, setHeader, lookup, hother]
  | cons entry rest ih =>
    rw [setHeader]
    split
    · next hname =>
      have hentry : (entry.1 == lowerCase name) = false := by rw [hname]; exact hother
      simp only [getHeader, lookup, List.find?_cons, hother, hentry, List.find?_filter]
      congr 2
      funext entry'
      by_cases hname' : entry'.1 = lowerCase other
      · simp [hname', h]
      · simp [hname', beq_eq_decide]
    · simp only [getHeader, lookup, List.find?_cons] at ih ⊢
      split
      · rfl
      · exact ih

theorem getHeader_updateHeaders {name : String} {others : List (String × String)}
    (h : ∀ entry ∈ others, lowerCase entry.1 ≠ lowerCase name) (headers : List (String × String)) :
    getHeader name (updateHeaders headers others) = getHeader name headers := by
  induction others generalizing headers with
  | nil => rfl
  | cons entry rest ih =>
    have hrest := ih (fun entry' hentry' => h entry' (List.mem_cons_of_mem _ hentry'))
      (setHeader entry.1 entry.2 headers)
    exact hrest.trans (getHeader_setHeader_of_ne (h entry List.mem_cons_self) _ _)

/-- A header that is not there. -/
theorem getHeader_eq_none {name : String} {headers : List (String × String)}
    (h : ∀ entry ∈ headers, entry.1 ≠ lowerCase name) : getHeader name headers = none := by
  rw [getHeader, lookup, Option.map_eq_none_iff, List.find?_eq_none]
  exact fun entry hentry => by simpa using h entry hentry

/-! ## Requests and answers -/

/-- An HTTP request; the names of its headers are in lower case. -/
structure HttpRequest where
  method : String
  path : String
  headers : List (String × String)

/-- An error envelope, as `to_payload` fills it in; what is empty is left out. -/
structure Envelope where
  code : String
  message : String
  details : List (String × Json)
  requestId : Option String

/-- An answer, with its body if that is an error envelope. The headers that every answer has, of
its length and type, are left out. -/
structure Response where
  statusCode : ℤ
  headers : List (String × String)
  envelope : Option Envelope

/-- An answer whose body is anything else. -/
abbrev PlainResponse := { response : Response // response.envelope = none }

/-- What is raised on the way to an answer. -/
inductive Raised where
  /-- an `AppError`, or what has no handler of its own -/
  | exc (exc : Exc)
  /-- `RequestValidationError` -/
  | invalid (fields : List Json)
  /-- an `HTTPException`, with the answer FastAPI's own handler gives to it -/
  | http (response : PlainResponse)

/-- A line in the logs: the text, and the `request_id` it is bound to. -/
structure LogLine where
  message : String
  requestId : Option String
  deriving DecidableEq

/-- What is kept of a request outside the coroutines that serve it: `request.state`, and the lines
logged until it is answered. -/
structure Scope where
  requestId : Option String
  responseHeaders : List (String × String)
  log : List LogLine

/-- Code inside the layers. It sees the id that `logger.contextualize` has bound, if any. -/
abbrev Layered := Contextual (Option String) Raised Scope

/-- An ASGI application, for one request. -/
abbrev App := HttpRequest → Layered Response

/-! ## Inside the layers -/

/-- A line is logged. -/
def logLine (message : String) : Layered Unit := do
  let requestId ← read
  modify fun scope => { scope with log := scope.log ++ [⟨message, requestId⟩] }

/-- `to_payload(request_id)` of the error in the body of an answer. -/
def ReplyBody.toPayload (requestId : Option String) : ReplyBody → Option Envelope
  | .error code message details =>
    some ⟨code, message, details, requestId.filter (· ≠ "")⟩
  | _ => none

/-- `JSONResponse`, which renders the body and encodes the headers at once. -/
def jsonResponse (lib : Libraries) (reply : HttpReply) (requestId : Option String) :
    Layered Response :=
  if reply.renders lib && requestId.all lib.encodes then
    pure ⟨reply.statusCode, rawHeaders reply.headers, reply.body.toPayload requestId⟩
  -- or whatever else it is, which has no handler either
  else throw (.exc (.foreign "ValueError"))

/-- `app_error_handler`. -/
def appErrorHandler (lib : Libraries) (request : HttpRequest) (error : AppError) :
    Layered Response := do
  logLine s!"{request.method} {request.path} -> {error.statusCode} {error.code}"
  let scope ← get
  jsonResponse lib (appErrorReply scope.responseHeaders error) scope.requestId

/-- `validation_error_handler`. -/
def validationErrorHandler (lib : Libraries) (fields : List Json) : Layered Response := do
  let scope ← get
  jsonResponse lib (validationErrorReply fields) scope.requestId

/-- `unhandled_error_handler`. -/
def unhandledErrorHandler (lib : Libraries) (request : HttpRequest) : Layered Response := do
  logLine s!"unhandled error on {request.method} {request.path}"
  let scope ← get
  jsonResponse lib (unhandledReply scope.responseHeaders) scope.requestId

/-! ## The layers -/

/-- How the routes end a request: what they log, the decision `enforce_rate_limit` has stashed if
it let the request through, and what is answered or raised, a route that is not there
included. -/
structure Ending where
  log : List String
  decision : Option RateLimitDecision
  outcome : Except Raised PlainResponse

/-- The headers in `request.state.response_headers`. -/
def Ending.collected (ending : Ending) : List (String × String) :=
  match ending.decision with
  | some decision => rateLimitHeaders decision
  | none => []

/-- The router. -/
def routing (routes : HttpRequest → Ending) : App := fun request => do
  let ending := routes request
  ending.log.forM logLine
  modify fun scope => { scope with responseHeaders := ending.collected }
  match ending.outcome with
  | .ok response => pure response.1
  | .error raised => throw raised

/-- Starlette's `ExceptionMiddleware`, with the handlers of `register_error_handlers`. -/
def exceptionMiddleware (lib : Libraries) (app : App) : App := fun request =>
  tryCatch (app request) fun raised =>
    match raised with
    | .exc (.app error) => appErrorHandler lib request error
    | .exc (.foreign _) => throw raised
    | .invalid fields => validationErrorHandler lib fields
    | .http response => pure response.1

/-- The class of characters in `SAFE_REQUEST_ID`. -/
def safeCharacter (c : Char) : Bool := c.isAlphanum || c == '.' || c == '_' || c == '-'

/-- `SAFE_REQUEST_ID.match(candidate)`: up to 64 characters, and `$` at the end or at a last line
break. -/
def safeRequestId (candidate : String) : Bool :=
  let matched := candidate.toList.takeWhile safeCharacter
  let rest := candidate.toList.dropWhile safeCharacter
  1 ≤ matched.length && matched.length ≤ 64 && (rest == [] || rest == ['\n'])

/-- `_incoming_id`. -/
def incomingId (request : HttpRequest) : Option String :=
  (getHeader "X-Request-ID" request.headers).filter fun candidate =>
    candidate ≠ "" && safeRequestId candidate

/-- The 32 hexadecimal digits of a `uuid4()`. -/
structure Uuid where
  hex : String
  length_hex : hex.length = 32
  digits : (hex.toList.all fun c => "0123456789abcdef".toList.contains c) = true

/-- `RequestIdMiddleware.dispatch`; `fresh` is the id it generates if it has to. The duration in the
line it logs is left out. -/
def requestIdMiddleware (fresh : Uuid) (callNext : App) : App := fun request => do
  let requestId := orElse (incomingId request) fresh.hex
  modify fun scope => { scope with requestId := some requestId }
  withReader (fun _ => some requestId) do
    let response ← callNext request
    logLine s!"{request.method} {request.path} -> {response.statusCode}"
    return { response with headers := setHeader "X-Request-ID" requestId response.headers }

/-- The headers CORS is about. -/
def corsHeaders : List String :=
  ["access-control-allow-origin", "access-control-allow-credentials",
    "access-control-allow-methods", "access-control-allow-headers", "access-control-max-age",
    "access-control-expose-headers", "vary"]

/-- Starlette's `CORSMiddleware`, configured: how it answers a preflight itself, and the headers it
adds to the answers to other requests from another origin. They are those of CORS. -/
structure CorsMiddleware where
  preflightResponse : HttpRequest → PlainResponse
  simpleHeaders : HttpRequest → Response → List (String × String)
  preflight_cors : ∀ request, ∀ entry ∈ (preflightResponse request).1.headers,
    entry.1 ∈ corsHeaders
  simple_cors : ∀ request response, ∀ entry ∈ simpleHeaders request response,
    lowerCase entry.1 ∈ corsHeaders

/-- A CORS preflight. -/
def HttpRequest.IsPreflight (request : HttpRequest) : Prop :=
  (getHeader "Origin" request.headers).isSome ∧ request.method = "OPTIONS" ∧
    (getHeader "Access-Control-Request-Method" request.headers).isSome

instance (request : HttpRequest) : Decidable request.IsPreflight :=
  inferInstanceAs (Decidable (_ ∧ _ ∧ _))

/-- `CORSMiddleware.__call__`. -/
def CorsMiddleware.wrap (cors : CorsMiddleware) (app : App) : App := fun request =>
  if (getHeader "Origin" request.headers).isNone then app request
  else if request.IsPreflight then pure (cors.preflightResponse request).1
  else do
    let response ← app request
    return { response with
      headers := updateHeaders response.headers (cors.simpleHeaders request response) }

/-- Starlette's `ServerErrorMiddleware`: a page with the traceback when debugging, the handler of
last resort otherwise. -/
def serverErrorMiddleware (lib : Libraries) (debug : Bool) (app : App) : App := fun request =>
  tryCatch (app request) fun _ =>
    if debug then pure ⟨500, [], none⟩ else unhandledErrorHandler lib request

/-- The middleware of `create_app`, in the order in which it is added. -/
def middleware (fresh : Uuid) (cors : CorsMiddleware) : List (App → App) :=
  [requestIdMiddleware fresh, cors.wrap]

/-- `create_app`: each middleware goes around those added before it. -/
def createApp (lib : Libraries) (debug : Bool) (fresh : Uuid) (cors : CorsMiddleware)
    (routes : HttpRequest → Ending) : App :=
  serverErrorMiddleware lib debug
    ((middleware fresh cors).foldl (fun app layer => layer app)
      (exceptionMiddleware lib (routing routes)))

/-- What was added last is outermost, but for the layer that is always there. -/
theorem createApp_layers (lib : Libraries) (debug : Bool) (fresh : Uuid) (cors : CorsMiddleware)
    (routes : HttpRequest → Ending) : createApp lib debug fresh cors routes =
      serverErrorMiddleware lib debug
        (cors.wrap (requestIdMiddleware fresh (exceptionMiddleware lib (routing routes)))) := rfl

/-! ## Handlers -/

section

variable {lib : Libraries} {Q : Response → Scope → Prop} {E : Raised → Scope → Prop}
  {context : Option String} {scope : Scope}

@[simp] theorem wp_logLine (message : String) {Q : PUnit → Scope → Prop} :
    (logLine message).wp Q E context scope ↔
      Q ⟨⟩ { scope with log := scope.log ++ [⟨message, context⟩] } := Iff.rfl

/-- Lines are logged under the id that is bound. -/
theorem wp_logLines (lines : List String) {Q : PUnit → Scope → Prop} :
    (lines.forM logLine).wp Q E context scope ↔
      Q ⟨⟩ { scope with log := scope.log ++ lines.map fun message => ⟨message, context⟩ } := by
  induction lines generalizing scope with
  | nil =>
    rw [List.map_nil, List.append_nil]
    exact Iff.rfl
  | cons message lines ih =>
    have hcons : (message :: lines).forM logLine =
        (do logLine message; lines.forM logLine : Layered PUnit) := rfl
    rw [hcons, Contextual.wp_bind, wp_logLine, ih, List.append_assoc]
    exact Iff.rfl

/-- A reply that can be rendered is sent with the id it is handed. -/
theorem wp_jsonResponse {reply : HttpReply} {requestId : Option String}
    (hid : requestId.all lib.encodes = true)
    (hsent : reply.renders lib = true →
      Q ⟨reply.statusCode, rawHeaders reply.headers, reply.body.toPayload requestId⟩ scope)
    (hbroken : ¬ reply.renders lib = true → E (.exc (.foreign "ValueError")) scope) :
    (jsonResponse lib reply requestId).wp Q E context scope := by
  rw [jsonResponse, hid, Bool.and_true]
  split
  · next h => exact hsent h
  · next h => exact hbroken h

/-- The handler of last resort does not fail if the headers left for it can be sent. -/
theorem wp_unhandledErrorHandler (request : HttpRequest)
    (hheaders : encodable scope.responseHeaders = true)
    (hid : scope.requestId.all lib.encodes = true) :
    (unhandledErrorHandler lib request).wp Q E context scope ↔
      Q ⟨500, rawHeaders scope.responseHeaders,
          (ReplyBody.error ErrorClass.appError.code ErrorClass.appError.message []).toPayload
            scope.requestId⟩
        { scope with log := scope.log ++
          [⟨s!"unhandled error on {request.method} {request.path}", context⟩] } := by
  have hrenders : (unhandledReply scope.responseHeaders).renders lib = true := by
    simp [HttpReply.renders, unhandledReply, AppError.new, ReplyBody.renders, hheaders,
      ErrorClass.message_encodes]
  have hsent : jsonResponse lib (unhandledReply scope.responseHeaders) scope.requestId =
      pure ⟨500, rawHeaders scope.responseHeaders,
        (ReplyBody.error ErrorClass.appError.code ErrorClass.appError.message []).toPayload
          scope.requestId⟩ :=
    if_pos (by rw [hrenders, hid]; rfl)
  rw [unhandledErrorHandler, Contextual.wp_bind, wp_logLine, Contextual.wp_bind]
  change (jsonResponse lib (unhandledReply scope.responseHeaders) scope.requestId).wp Q E context
    _ ↔ _
  rw [hsent]
  exact Iff.rfl

end

/-! ## What is said of a request -/

/-- The request has been assigned this id, and is logged under it. -/
structure Bound (id : String) (scope : Scope) : Prop where
  requestId : scope.requestId = some id
  log : ∀ line ∈ scope.log, line.requestId = some id

/-- If the body is an error envelope, it quotes the id. -/
def Response.Quotes (response : Response) (id : String) : Prop :=
  ∀ envelope, response.envelope = some envelope → envelope.requestId = some id

/-- The answer leads to what was logged: it carries the id of every line, and quotes no other. -/
structure Traced (id : String) (response : Response) (scope : Scope) : Prop where
  header : getHeader "X-Request-ID" response.headers = some id
  logged : scope.log ≠ []
  log : ∀ line ∈ scope.log, line.requestId = some id
  quotes : response.Quotes id

/-- A request is traceable if it is answered, and its answer leads to what was logged. -/
def Traceable (result : Except Raised Response × Scope) : Prop :=
  ∃ response id, result.1 = .ok response ∧ Traced id response result.2

/-- A handler answers what the routes end in, and does not itself fail to render it. -/
def Ending.Handled (lib : Libraries) (ending : Ending) : Prop :=
  match ending.outcome with
  | .ok _ | .error (.http _) => True
  | .error (.exc (.app error)) => (appErrorReply ending.collected error).renders lib = true
  | .error (.exc (.foreign _)) => False
  | .error (.invalid fields) => (validationErrorReply fields).renders lib = true

theorem Bound.append {id : String} {scope : Scope} (h : Bound id scope) (messages : List String) :
    Bound id { scope with log := scope.log ++ messages.map fun message => ⟨message, some id⟩ } where
  requestId := h.requestId
  log line hline := by
    rcases List.mem_append.mp hline with hline | hline
    · exact h.log line hline
    · obtain ⟨message, _, rfl⟩ := List.mem_map.mp hline
      rfl

theorem toPayload_quotes {id : String} (hid : id ≠ "") (body : ReplyBody) (statusCode : ℤ)
    (headers : List (String × String)) :
    (⟨statusCode, headers, body.toPayload (some id)⟩ : Response).Quotes id := by
  intro envelope henvelope
  cases body with
  | error code message details =>
    cases henvelope
    simp [hid]
  | _ => cases henvelope

/-- What the rate limit has left for the answer can be sent. -/
theorem Ending.encodable_collected (ending : Ending) : encodable ending.collected = true := by
  rw [collected]
  split
  · exact encodable_rateLimitHeaders _
  · rfl

variable {lib : Libraries} {routes : HttpRequest → Ending} {request : HttpRequest} {id : String}
  {scope : Scope}

/-- **Inside the middleware**, what is handled is answered with the id, and the rest passes. -/
theorem wp_exceptionMiddleware (hbound : Bound id scope) (hid : id ≠ "")
    (hencodes : lib.encodes id = true) :
    (exceptionMiddleware lib (routing routes) request).wp
      (fun response scope' => (routes request).Handled lib ∧ Bound id scope' ∧ response.Quotes id)
      (fun _ scope' => ¬ (routes request).Handled lib ∧ Bound id scope' ∧
        scope'.responseHeaders = (routes request).collected) (some id) scope := by
  have hrouted : Bound id { scope with
      responseHeaders := (routes request).collected
      log := scope.log ++ (routes request).log.map fun message => ⟨message, some id⟩ } :=
    ⟨hbound.requestId, (hbound.append (routes request).log).log⟩
  have hassigned : scope.requestId.all lib.encodes = true := by
    rw [hbound.requestId]
    exact hencodes
  simp only [exceptionMiddleware, routing, Contextual.wp_tryCatch, Contextual.wp_bind,
    wp_logLines, Contextual.wp_modify]
  rw [Ending.Handled]
  cases houtcome : (routes request).outcome with
  | ok response =>
    exact ⟨trivial, hrouted, by simp [Response.Quotes, response.2]⟩
  | error raised =>
    cases raised with
    | exc failure =>
      cases failure with
      | app error =>
        have hlogged := hrouted.append
          [s!"{request.method} {request.path} -> {error.statusCode} {error.code}"]
        refine wp_jsonResponse hassigned (fun hrenders => ⟨hrenders, hlogged, ?_⟩)
          fun hbroken => ⟨hbroken, hlogged, rfl⟩
        rw [hrouted.requestId]
        exact toPayload_quotes hid _ _ _
      | foreign name => exact ⟨not_false, hrouted, rfl⟩
    | invalid fields =>
      refine wp_jsonResponse hassigned (fun hrenders => ⟨hrenders, hrouted, ?_⟩)
        fun hbroken => ⟨hbroken, hrouted, rfl⟩
      rw [hrouted.requestId]
      exact toPayload_quotes hid _ _ _
    | http response => exact ⟨trivial, hrouted, by simp [Response.Quotes, response.2]⟩

/-- The id of a request: the one that came in, or a new one. -/
def assignedId (fresh : Uuid) (request : HttpRequest) : String :=
  orElse (incomingId request) fresh.hex

/-- The pattern lets through ASCII only. -/
theorem safeRequestId_isAscii {candidate : String} (h : safeRequestId candidate = true) :
    isAscii candidate = true := by
  have hsafe : ∀ c, safeCharacter c = true → c.toNat < 128 := by
    intro c hc
    simp only [safeCharacter, Bool.or_eq_true, beq_iff_eq] at hc
    rcases hc with ((hc | rfl) | rfl) | rfl
    · have hbelow : ∀ bound : UInt32, c.val ≤ bound → bound.toNat < 128 → c.toNat < 128 :=
        fun bound h => lt_of_le_of_lt (UInt32.le_iff_toNat_le.mp h)
      delta Char.isAlphanum Char.isAlpha Char.isUpper Char.isLower Char.isDigit at hc
      simp only [Bool.or_eq_true, Bool.and_eq_true, decide_eq_true_eq] at hc
      rcases hc with (⟨-, h⟩ | ⟨-, h⟩) | ⟨-, h⟩ <;> exact hbelow _ h (by decide)
    all_goals decide
  simp only [safeRequestId, Bool.and_eq_true, Bool.or_eq_true, beq_iff_eq] at h
  refine List.all_eq_true.mpr fun c hc => decide_eq_true ?_
  rw [← List.takeWhile_append_dropWhile (p := safeCharacter) (l := candidate.toList)] at hc
  rcases List.mem_append.mp hc with hc | hc
  · exact hsafe c (List.all_eq_true.mp List.all_takeWhile c hc)
  · rcases h.2 with hrest | hrest <;> rw [hrest] at hc
    · cases hc
    · obtain rfl := List.mem_singleton.mp hc
      decide

theorem assignedId_ne_empty (fresh : Uuid) (request : HttpRequest) :
    assignedId fresh request ≠ "" := by
  have hfresh : fresh.hex ≠ "" := by
    intro hempty
    have hlength := fresh.length_hex
    rw [hempty] at hlength
    cases hlength
  unfold assignedId orElse
  cases incomingId request with
  | none => exact hfresh
  | some candidate =>
    simp only
    split
    · exact hfresh
    · assumption

/-- An id that is assigned is in ASCII, so it can be quoted. -/
theorem assignedId_encodes (lib : Libraries) (fresh : Uuid) (request : HttpRequest) :
    lib.encodes (assignedId fresh request) = true := by
  have hfresh : lib.encodes fresh.hex = true := by
    refine lib.encodes_ascii _ (List.all_eq_true.mpr fun c hc => ?_)
    have hdigit : c ∈ "0123456789abcdef".toList :=
      List.contains_iff_mem.mp (List.all_eq_true.mp fresh.digits c hc)
    exact List.all_eq_true.mp (by decide : isAscii "0123456789abcdef" = true) c hdigit
  unfold assignedId orElse
  cases hcandidate : incomingId request with
  | none => exact hfresh
  | some candidate =>
    simp only
    split
    · exact hfresh
    · have hsafe := (Option.filter_eq_some_iff.mp hcandidate).2
      simp only [Bool.and_eq_true] at hsafe
      exact lib.encodes_ascii _ (safeRequestId_isAscii hsafe.2)

/-- The scope of a request that comes in: nothing is kept of it or logged. -/
def Scope.start : Scope := ⟨none, [], []⟩

/-- **With the middleware that assigns the id** around them, what is handled is traced, and the rest
passes. -/
theorem wp_requestIdMiddleware (fresh : Uuid) (routes : HttpRequest → Ending)
    (request : HttpRequest) :
    (requestIdMiddleware fresh (exceptionMiddleware lib (routing routes)) request).wp
      (fun response scope' =>
        (routes request).Handled lib ∧ Traced (assignedId fresh request) response scope')
      (fun _ scope' => ¬ (routes request).Handled lib ∧ Bound (assignedId fresh request) scope' ∧
        scope'.responseHeaders = (routes request).collected) none .start := by
  have hassigned : Bound (assignedId fresh request)
      { Scope.start with requestId := some (assignedId fresh request) } :=
    ⟨rfl, by simp [Scope.start]⟩
  simp only [requestIdMiddleware, Contextual.wp_bind, Contextual.wp_modify,
    Contextual.wp_withReader, wp_logLine, Contextual.wp_pure]
  refine Contextual.wp_mono ?_ (fun _ _ h => h)
    (wp_exceptionMiddleware hassigned (assignedId_ne_empty fresh request)
      (assignedId_encodes lib fresh request))
  rintro response scope' ⟨hhandled, hbound, hquotes⟩
  refine ⟨hhandled, getHeader_setHeader _ _ _, ?_, ?_, hquotes⟩
  · simp
  · exact (hbound.append [_]).log

/-- The headers CORS adds leave a traced answer traced. -/
theorem Traced.updateHeaders {response : Response} (h : Traced id response scope)
    {others : List (String × String)}
    (hothers : ∀ entry ∈ others, lowerCase entry.1 ∈ corsHeaders) :
    Traced id { response with headers := updateHeaders response.headers others } scope where
  header := by
    rw [getHeader_updateHeaders, h.header]
    intro entry hentry hname
    have hcors := hothers entry hentry
    rw [hname] at hcors
    exact absurd hcors (by decide)
  logged := h.logged
  log := h.log
  quotes := h.quotes

/-- An answer without the header leads nowhere. -/
theorem not_traced {response : Response}
    (h : getHeader "X-Request-ID" response.headers = none) : ¬ ∃ id, Traced id response scope := by
  rintro ⟨id, htraced⟩
  rw [htraced.header] at h
  cases h

/-- A preflight is answered before there is an id. -/
theorem getHeader_preflight (cors : CorsMiddleware) (request : HttpRequest) :
    getHeader "X-Request-ID" (cors.preflightResponse request).1.headers = none := by
  refine getHeader_eq_none fun entry hentry hname => ?_
  have hcors := cors.preflight_cors request entry hentry
  rw [hname] at hcors
  exact absurd hcors (by decide)

/-- The headers left for the handler of last resort do not say which request it was. -/
theorem getHeader_collected (ending : Ending) :
    getHeader "X-Request-ID" (rawHeaders ending.collected) = none := by
  refine getHeader_eq_none fun entry hentry => ?_
  rw [Ending.collected] at hentry
  cases hdecision : ending.decision with
  | none =>
    rw [hdecision] at hentry
    cases hentry
  | some decision =>
    rw [hdecision] at hentry
    simp only [rawHeaders, rateLimitHeaders, List.map_cons, List.map_nil, List.mem_cons,
      List.not_mem_nil, or_false] at hentry
    rcases hentry with rfl | rfl | rfl
    all_goals
      simp only
      decide

/-- The layer for what nothing else handles: it answers without the header. -/
theorem wp_serverErrorMiddleware {app : App} {Q : Response → Scope → Prop} (debug : Bool)
    (ending : Ending)
    (h : (app request).wp Q (fun _ scope' => scope'.responseHeaders = ending.collected ∧
      scope'.requestId.all lib.encodes = true ∧
      ∀ response, getHeader "X-Request-ID" response.headers = none → ∀ line,
        Q response { scope' with log := scope'.log ++ line }) none scope) :
    (serverErrorMiddleware lib debug app request).wp Q (fun _ _ => False) none scope := by
  rw [serverErrorMiddleware, Contextual.wp_tryCatch]
  refine Contextual.wp_mono (fun _ _ hQ => hQ) ?_ h
  rintro raised scope' ⟨hcollected, hid, hQ⟩
  split
  · have hpage := hQ ⟨500, [], none⟩ rfl []
    rwa [List.append_nil] at hpage
  · have hheaders : getHeader "X-Request-ID" (rawHeaders scope'.responseHeaders) = none := by
      rw [hcollected]
      exact getHeader_collected ending
    exact (wp_unhandledErrorHandler request (hcollected ▸ ending.encodable_collected) hid).mpr
      (hQ _ hheaders _)

/-- CORS passes on every request but a preflight. -/
theorem wp_wrap (cors : CorsMiddleware) {app : App} {Q : Response → Scope → Prop}
    {E : Raised → Scope → Prop} {context : Option String} (hpreflight : ¬ request.IsPreflight)
    (hupdate : ∀ response scope', Q response scope' → Q { response with
      headers := updateHeaders response.headers (cors.simpleHeaders request response) } scope')
    (h : (app request).wp Q E context scope) : (cors.wrap app request).wp Q E context scope := by
  rw [CorsMiddleware.wrap]
  rw [if_neg hpreflight]
  split
  · exact h
  · rw [Contextual.wp_bind]
    exact Contextual.wp_mono hupdate (fun _ _ hE => hE) h

/-- **Around all of it**: every request is answered, and its answer is traced if and only if it was
no preflight and is handled. -/
theorem wp_createApp (lib : Libraries) (debug : Bool) (fresh : Uuid) (cors : CorsMiddleware)
    (routes : HttpRequest → Ending) (request : HttpRequest) :
    (createApp lib debug fresh cors routes request).wp
      (fun response scope' => (∃ id, Traced id response scope') ↔
        ¬ request.IsPreflight ∧ (routes request).Handled lib)
      (fun _ _ => False) none .start := by
  rw [createApp_layers]
  by_cases hpreflight : request.IsPreflight
  · have horigin : (getHeader "Origin" request.headers).isNone = false := by
      simpa using hpreflight.1
    rw [serverErrorMiddleware, CorsMiddleware.wrap, horigin, if_neg Bool.false_ne_true,
      if_pos hpreflight]
    exact iff_of_false (not_traced (getHeader_preflight cors request)) fun h => h.1 hpreflight
  · have hassigned := @wp_requestIdMiddleware lib fresh routes request
    have hwrapped := wp_wrap cors hpreflight
      (fun response scope' ⟨hhandled, htraced⟩ =>
        ⟨hhandled, htraced.updateHeaders (cors.simple_cors request response)⟩) hassigned
    refine wp_serverErrorMiddleware debug (routes request) (Contextual.wp_mono ?_ ?_ hwrapped)
    · exact fun _ _ h => iff_of_true ⟨_, h.2⟩ ⟨hpreflight, h.1⟩
    · intro _ scope' ⟨hunhandled, hbound, hcollected⟩
      refine ⟨hcollected, ?_, fun _ hnone _ =>
        iff_of_false (not_traced hnone) fun hboth => hunhandled hboth.2⟩
      rw [hbound.requestId]
      exact assignedId_encodes lib fresh request

/-- **Which requests are traceable.** -/
theorem traceable_iff (lib : Libraries) (debug : Bool) (fresh : Uuid) (cors : CorsMiddleware)
    (routes : HttpRequest → Ending) (request : HttpRequest) :
    Traceable ((createApp lib debug fresh cors routes request).exec none .start) ↔
      ¬ request.IsPreflight ∧ (routes request).Handled lib := by
  obtain ⟨response, scope, hexec, hwp⟩ :=
    Contextual.exec_of_wp (wp_createApp lib debug fresh cors routes request)
  rw [hexec, ← hwp]
  refine ⟨?_, ?_⟩
  · rintro ⟨_, id, hresponse, htraced⟩
    cases hresponse
    exact ⟨id, htraced⟩
  · rintro ⟨id, htraced⟩
    exact ⟨response, id, rfl, htraced⟩

/-! ## Two answers that lead nowhere -/

/-- `CORSMiddleware` as `create_app` configures it: everything is allowed, with credentials. -/
def CorsMiddleware.allowAll : CorsMiddleware where
  preflightResponse request :=
    let origin := (getHeader "Origin" request.headers).toList
    let requested := (getHeader "Access-Control-Request-Headers" request.headers).toList
    ⟨⟨200,
      [("vary", "Origin"), ("access-control-max-age", "600"),
        ("access-control-allow-methods", "DELETE, GET, HEAD, OPTIONS, PATCH, POST, PUT"),
        ("access-control-allow-credentials", "true")] ++
      origin.map (fun value => ("access-control-allow-origin", value)) ++
      requested.map (fun value => ("access-control-allow-headers", value)), none⟩, rfl⟩
  simpleHeaders _ _ :=
    [("Access-Control-Allow-Origin", "*"), ("Access-Control-Allow-Credentials", "true")]
  preflight_cors request entry hentry := by
    simp only [List.mem_append, List.mem_map] at hentry
    rcases hentry with (hentry | ⟨_, _, rfl⟩) | ⟨_, _, rfl⟩
    · simp only [List.mem_cons, List.not_mem_nil, or_false] at hentry
      rcases hentry with rfl | rfl | rfl | rfl
      all_goals simp [corsHeaders]
    · simp [corsHeaders]
    · simp [corsHeaders]
  simple_cors _ _ entry hentry := by
    simp only [List.mem_cons, List.not_mem_nil, or_false] at hentry
    rcases hentry with rfl | rfl
    all_goals
      simp only
      decide

/-- An id that `uuid4()` can give. -/
def Uuid.sample : Uuid := ⟨"7c9e6679742540de944be07fc1f90ae7", by decide, by decide⟩

/-- Routes with a bug. -/
def crashing : HttpRequest → Ending :=
  fun _ => ⟨[], none, .error (.exc (.foreign "RuntimeError"))⟩

/-- A crash is answered without the header and logged without the id, which only the envelope still
quotes; a preflight is answered without the header and not logged at all. -/
theorem crash_untraceable :
    ∃ crash preflight : Except Raised Response × Scope,
      (createApp Environment.sample.toLibraries false .sample .allowAll crashing
        ⟨"GET", "/health", []⟩).exec none .start = crash ∧
      crash.1 = .ok ⟨500, [], some ⟨"internal_error", "Something went wrong on our side.", [],
        some "7c9e6679742540de944be07fc1f90ae7"⟩⟩ ∧
      crash.2.log = [⟨"unhandled error on GET /health", none⟩] ∧ ¬ Traceable crash ∧
      (createApp Environment.sample.toLibraries false .sample .allowAll crashing
        ⟨"OPTIONS", "/v1/complete", [("origin", "https://app.example"),
          ("access-control-request-method", "POST")]⟩).exec none .start = preflight ∧
      preflight.2.log = [] ∧ ¬ Traceable preflight := by
  refine ⟨_, _, rfl, rfl, rfl, ?_, rfl, rfl, ?_⟩
  · rintro ⟨_, id, hresponse, htraced⟩
    cases hresponse
    cases htraced.header
  · rintro ⟨_, id, hresponse, htraced⟩
    exact htraced.logged rfl

/-! ## The answers of the service -/

/-- The answer is this reply of ours, sent with whatever id and whatever CORS adds. -/
structure Conveys (reply : HttpReply) (response : Response) : Prop where
  statusCode : response.statusCode = reply.statusCode
  header : ∀ name, lowerCase name ≠ lowerCase "X-Request-ID" → lowerCase name ∉ corsHeaders →
    getHeader name response.headers = getHeader name (rawHeaders reply.headers)
  envelope : ∃ requestId, response.envelope = reply.body.toPayload requestId

theorem Conveys.sent (reply : HttpReply) (requestId : Option String) : Conveys reply
    ⟨reply.statusCode, rawHeaders reply.headers, reply.body.toPayload requestId⟩ :=
  ⟨rfl, fun _ _ _ => rfl, requestId, rfl⟩

theorem Conveys.setHeader {reply : HttpReply} {response : Response} (h : Conveys reply response)
    (id : String) :
    Conveys reply { response with headers := setHeader "X-Request-ID" id response.headers } where
  statusCode := h.statusCode
  header name hname hcors :=
    (getHeader_setHeader_of_ne hname.symm _ _).trans (h.header name hname hcors)
  envelope := h.envelope

theorem Conveys.updateHeaders {reply : HttpReply} {response : Response} (h : Conveys reply response)
    {others : List (String × String)}
    (hothers : ∀ entry ∈ others, lowerCase entry.1 ∈ corsHeaders) :
    Conveys reply { response with headers := updateHeaders response.headers others } where
  statusCode := h.statusCode
  header name hname hcors := by
    rw [getHeader_updateHeaders, h.header name hname hcors]
    intro entry hentry heq
    exact hcors (heq ▸ hothers entry hentry)
  envelope := h.envelope

/-- What the model of the service answers to what is raised, unless the framework answers. -/
def Raised.reply (lib : Libraries) (collected : List (String × String)) :
    Raised → Option HttpReply
  | .exc failure => some (errorReply lib collected failure)
  | .invalid fields => some (rejectionReply lib collected fields)
  | .http _ => none

/-- Inside the middleware, what is raised is answered with that reply, or passes if the reply is
that of the last resort. -/
theorem wp_exceptionMiddleware_conveys {raised : Raised} {reply : HttpReply}
    (houtcome : (routes request).outcome = .error raised)
    (hreply : raised.reply lib (routes request).collected = some reply)
    (hid : scope.requestId.all lib.encodes = true) {context : Option String} :
    (exceptionMiddleware lib (routing routes) request).wp
      (fun response _ => Conveys reply response)
      (fun _ scope' => reply = unhandledReply scope'.responseHeaders ∧
        scope'.responseHeaders = (routes request).collected ∧
        scope'.requestId.all lib.encodes = true) context scope := by
  simp only [exceptionMiddleware, routing, Contextual.wp_tryCatch, Contextual.wp_bind,
    wp_logLines, Contextual.wp_modify, houtcome, Contextual.wp_throw]
  cases raised with
  | exc failure =>
    cases hreply
    cases failure with
    | app error =>
      refine wp_jsonResponse hid (fun hrenders => ?_) fun hbroken => ⟨if_neg hbroken, rfl, hid⟩
      rw [errorReply, if_pos hrenders]
      exact .sent _ _
    | foreign name => exact ⟨rfl, rfl, hid⟩
  | invalid fields =>
    cases hreply
    refine wp_jsonResponse hid (fun hrenders => ?_) fun hbroken => ⟨if_neg hbroken, rfl, hid⟩
    rw [rejectionReply, if_pos hrenders]
    exact .sent _ _
  | http response => cases hreply

/-- **The layers convey the answers of the service**: what its routes raise is answered, when not
debugging, as the model of the service answers it. -/
theorem wp_createApp_conveys (fresh : Uuid) (cors : CorsMiddleware)
    (hpreflight : ¬ request.IsPreflight) {raised : Raised} {reply : HttpReply}
    (houtcome : (routes request).outcome = .error raised)
    (hreply : raised.reply lib (routes request).collected = some reply) :
    (createApp lib false fresh cors routes request).wp (fun response _ => Conveys reply response)
      (fun _ _ => False) none .start := by
  have hassigned :
      (requestIdMiddleware fresh (exceptionMiddleware lib (routing routes)) request).wp
        (fun response _ => Conveys reply response)
        (fun _ scope' => reply = unhandledReply scope'.responseHeaders ∧
          scope'.responseHeaders = (routes request).collected ∧
          scope'.requestId.all lib.encodes = true) none .start := by
    simp only [requestIdMiddleware, Contextual.wp_bind, Contextual.wp_modify,
      Contextual.wp_withReader, wp_logLine, Contextual.wp_pure]
    refine Contextual.wp_mono (fun _ _ h => h.setHeader _) (fun _ _ h => h)
      (wp_exceptionMiddleware_conveys houtcome hreply ?_)
    exact assignedId_encodes lib fresh request
  have hwrapped := wp_wrap cors hpreflight
    (fun response _ h => h.updateHeaders (cors.simple_cors request response)) hassigned
  rw [createApp_layers, serverErrorMiddleware, Contextual.wp_tryCatch]
  refine Contextual.wp_mono (fun _ _ h => h) ?_ hwrapped
  rintro _ scope' ⟨hlast, hcollected, hid⟩
  have hheaders : encodable scope'.responseHeaders = true := by
    rw [hcollected]
    exact (routes request).encodable_collected
  rw [if_neg Bool.false_ne_true, wp_unhandledErrorHandler request hheaders hid, hlast]
  exact .sent _ _

end PrdApiWrapper
