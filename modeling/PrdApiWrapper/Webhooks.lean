import PrdApiWrapper.Retry

/-!
# Webhooks

`services/webhooks.py`: signing a body and delivering it, with retries. `hmac` and pydantic's
JSON are parameters; bytes are lists of bytes.
-/

namespace PrdApiWrapper

open Interaction

/-- `text.encode()`. -/
def encode (text : String) : List UInt8 := text.toUTF8.toList

/-- `f"{timestamp}.".encode() + body`, what a signature is over. -/
def signedMessage (timestamp : ℤ) (body : List UInt8) : List UInt8 :=
  encode (toString timestamp ++ ".") ++ body

/-- `sign(secret, timestamp, body)`, given `hmac.new(key, message, sha256).hexdigest()`. -/
def sign (hexdigest : List UInt8 → List UInt8 → String) (secret : String) (timestamp : ℤ)
    (body : List UInt8) : String :=
  "sha256=" ++ hexdigest (encode secret) (signedMessage timestamp body)

/-- A POST to a callback. -/
structure CallbackPost where
  url : String
  content : List UInt8
  headers : List (String × String)
  timeout : ℚ

/-- How a POST to a callback can end. -/
inductive CallbackOutcome where
  /-- an answer with this status code -/
  | response (statusCode : ℤ)
  /-- any `httpx.RequestError` -/
  | requestError
  /-- an exception httpx does not document for a request -/
  | foreign (name : String)

/-- The attributes of a `WebhookService`. -/
structure WebhookService (S : Effects) where
  /-- `self._client.post(...)` -/
  post : CallbackPost → Prog S CallbackOutcome
  retry : RetryPolicy S
  secret : String
  timeout : ℚ
  /-- `time.time()` -/
  time : Prog S ℚ
  /-- `hmac.new(key, message, sha256).hexdigest()` -/
  hexdigest : List UInt8 → List UInt8 → String
  /-- `payload.model_dump_json()` -/
  dumpJson : WebhookPayload → String

/-- `details[key] = value`. -/
def setItem (key : String) (value : Json) (details : List (String × Json)) :
    List (String × Json) :=
  details.filter (fun entry => entry.1 != key) ++ [(key, value)]

theorem lookup_setItem (key : String) (value : Json) (details : List (String × Json)) :
    lookup key (setItem key value details) = some value := by
  have hnone : (details.filter fun entry => entry.1 != key).find? (fun entry => entry.1 == key) =
      none := by
    rw [List.find?_eq_none]
    intro entry hentry
    have := (List.mem_filter.mp hentry).2
    simpa using this
  simp [lookup, setItem, hnone]

/-- What `_post` makes of the outcome of its POST. A 4xx is the receiver's bug and not worth
repeating, except 429. -/
def posted : CallbackOutcome → Except Exc Unit
  | .requestError =>
    .error (.app ((AppError.new .webhookDeliveryFailed).withMessage
      (some "Could not reach the callback URL.")))
  | .foreign name => .error (.foreign name)
  | .response status =>
    if 400 ≤ status ∧ status ≤ 599 then
      .error (.app { (AppError.new .webhookDeliveryFailed).withMessage
          (some s!"Callback returned {status}.") with
        retryable := decide (500 ≤ status ∨ status = 429)
        details := [("callback_status", .int status)] })
    else .ok ()

namespace WebhookService

variable {S : Effects}

/-- The POST of `_post`, made when the time is `timestamp`. -/
def postFor (service : WebhookService S) (url : String) (body : List UInt8) (timestamp : ℤ) :
    CallbackPost where
  url := url
  content := body
  headers := [("Content-Type", "application/json"),
    ("X-Signature-Timestamp", toString timestamp),
    ("X-Signature", sign service.hexdigest service.secret timestamp body)]
  timeout := service.timeout

/-- `_post(url, body)`. -/
def postOnce (service : WebhookService S) (url : String) (body : List UInt8) :
    Prog S (Except Exc Unit) := do
  let time ← service.time
  posted <$> service.post (service.postFor url body (truncate time))

/-- `attempt()`, the closure of `deliver` that counts its calls. -/
def attempt (service : WebhookService S) (url : String) (body : List UInt8) (attempts : ℕ) :
    Prog S (Except Exc Unit × ℕ) := do
  let outcome ← service.postOnce url body
  pure (outcome, attempts + 1)

/-- How `deliver` ends: a failed delivery carries the number of attempts in its details. -/
def delivered : Except Exc Unit × ℕ → Except Exc ℤ
  | (.ok (), attempts) => .ok attempts
  | (.error (.app error), attempts) =>
    if error.cls = .webhookDeliveryFailed then
      .error (.app { error with details := setItem "attempts" (.int attempts) error.details })
    else .error (.app error)
  | (.error exc, _) => .error exc

/-- `deliver(url, payload)`: returns the attempts made. -/
def deliver (service : WebhookService S) (url : String) (payload : WebhookPayload) :
    Async S Exc ℤ :=
  ExceptT.mk (delivered <$>
    service.retry.runWith (service.attempt url (encode (service.dumpJson payload))) 0)

end WebhookService

end PrdApiWrapper
