import PrdApiWrapper.Service

/-!
# What can be rendered

A response is JSON in UTF-8 with headers in latin-1. What the service says itself is ASCII, so its
own errors can always be sent. What it passes on may not be: the provider's texts and its
Retry-After, and the name of the model. An answer of the provider is `Unsendable` if what it becomes
is of this kind, and then its caller is answered 500.
-/

namespace PrdApiWrapper

/-! ## Headers -/

theorem encodable_append (d e : List (String × String)) :
    encodable (d ++ e) = (encodable d && encodable e) := List.all_append

theorem encodable_filter {d : List (String × String)} (h : encodable d = true)
    (p : String × String → Bool) : encodable (d.filter p) = true := by
  simp only [encodable, List.all_eq_true] at h ⊢
  exact fun entry hentry => h entry (List.mem_of_mem_filter hentry)

/-- Headers that can be sent do not keep others from being sent. -/
theorem encodable_mergeHeaders {d : List (String × String)} (h : encodable d = true)
    (e : List (String × String)) : encodable (mergeHeaders d e) = encodable e := by
  rw [mergeHeaders, encodable_append, encodable_filter h, Bool.true_and]

theorem encodable_rateLimitHeaders (decision : RateLimitDecision) :
    encodable (rateLimitHeaders decision) = true := by
  have hvalue : ∀ n : ℤ, isLatin1 (toString n) = true := fun n =>
    isLatin1_of_isAscii (isAscii_toString n)
  simp only [encodable, rateLimitHeaders, List.all_cons, List.all_nil, hvalue, Bool.and_true]
  decide

/-! ## Errors -/

variable {lib : Libraries} {collected : List (String × String)}

/-- Whether an error can be sent does not depend on the headers it is sent with. -/
theorem appErrorReply_renders (hcollected : encodable collected = true) (error : AppError) :
    (appErrorReply collected error).renders lib =
      ((ReplyBody.error error.code error.message error.details).renders lib &&
        encodable error.headers) := by
  rw [HttpReply.renders, appErrorReply, encodable_mergeHeaders hcollected]

theorem ErrorClass.message_encodes (lib : Libraries) (cls : ErrorClass) :
    lib.encodes cls.message = true :=
  lib.encodes_ascii _ (by cases cls <;> decide)

theorem ErrorClass.headers_encodable (cls : ErrorClass) : encodable cls.headers = true := by
  cases cls <;> decide

/-- The errors of the service itself can be sent. -/
theorem appErrorReply_new_renders (hcollected : encodable collected = true) (cls : ErrorClass) :
    (appErrorReply collected (.new cls)).renders lib = true := by
  rw [appErrorReply_renders hcollected]
  simp [AppError.new, ReplyBody.renders, cls.message_encodes, cls.headers_encodable]

theorem errorReply_new (hcollected : encodable collected = true) (cls : ErrorClass) :
    errorReply lib collected (.app (.new cls)) = appErrorReply collected (.new cls) :=
  if_pos (appErrorReply_new_renders hcollected cls)

/-- So can the refusal of a caller who is over the limit. -/
theorem errorReply_rateLimitExceeded (lib : Libraries) (decision : RateLimitDecision) :
    errorReply lib [] (.app (rateLimitExceeded decision)) =
      appErrorReply [] (rateLimitExceeded decision) := by
  have hheaders : encodable (rateLimitExceeded decision).headers = true := by
    rw [rateLimitExceeded, encodable_append, encodable_rateLimitHeaders, Bool.true_and]
    simp only [encodable, List.all_cons, List.all_nil, Bool.and_true,
      isLatin1_of_isAscii (isAscii_toString _)]
    decide
  have hnames : lib.encodes "limit" = true ∧ lib.encodes "window" = true ∧
      lib.encodes "minute" = true :=
    ⟨lib.encodes_ascii _ (by decide), lib.encodes_ascii _ (by decide),
      lib.encodes_ascii _ (by decide)⟩
  refine if_pos ?_
  rw [appErrorReply_renders rfl, hheaders, Bool.and_true]
  simp [rateLimitExceeded, ReplyBody.renders, AppError.new, ErrorClass.message_encodes,
    Libraries.renders, Json.renders, hnames]

/-! ## What the provider's answers become -/

/-- An answer of the provider that becomes what no response can carry. -/
inductive Unsendable (lib : Libraries) (model : String) : UpstreamOutcome → Prop where
  /-- a completion with a text that is not encoded -/
  | completion {response : HttpResponse} {body : Json} {completion : CompletionResponse} :
    ¬ response.isError = true → response.json = .ok body →
    toResponse lib body = .ok completion →
    (ReplyBody.completion completion).renders lib = false →
    Unsendable lib model (.response response)
  /-- a 404 with a message that is not encoded, or for such a model -/
  | notFound {response : HttpResponse} {message : Option String} :
    response.statusCode = 404 → upstreamMessage response = .ok message →
    ¬ (lib.encodes (orElse message s!"Model {lib.repr model} is not available.") = true ∧
      lib.encodes model = true) → Unsendable lib model (.response response)
  /-- a 429 with a Retry-After that latin-1 does not encode -/
  | limited {response : HttpResponse} {value : String} :
    response.statusCode = 429 → response.header "retry-after" = some value →
    isLatin1 value = false → Unsendable lib model (.response response)
  /-- another rejection of the request, with a message that is not encoded -/
  | rejected {response : HttpResponse} {message : String} :
    400 ≤ response.statusCode ∧ response.statusCode < 500 →
    response.statusCode ∉ [401, 403, 404, 429] →
    upstreamMessage response = .ok (some message) → lib.encodes message = false →
    Unsendable lib model (.response response)

/-- An empty message is replaced. -/
theorem withMessage_encodes (lib : Libraries) (cls : ErrorClass) (message : Option String) :
    lib.encodes ((AppError.new cls).withMessage message).message = message.all lib.encodes := by
  cases message with
  | none => exact cls.message_encodes lib
  | some text =>
    by_cases hempty : text = ""
    · rw [AppError.withMessage, if_pos hempty, hempty]
      exact (cls.message_encodes lib).trans (lib.encodes_ascii "" (by decide)).symm
    · rw [AppError.withMessage, if_neg hempty]
      rfl

theorem encodable_retryAfter (header : Option String) :
    encodable (retryAfterHeaders header) = header.all isLatin1 := by
  have hname : isLatin1 "Retry-After" = true := by decide
  cases header with
  | none => rfl
  | some value =>
    by_cases hempty : value = ""
    · simp [retryAfterHeaders, encodable, hempty, isLatin1]
    · simp [retryAfterHeaders, encodable, hempty, hname]

/-- What of an error answer has to be encoded. -/
theorem appErrorOf_renders (lib : Libraries) (response : HttpResponse) (model : String)
    (message : Option String) :
    (appErrorReply [] (appErrorOf lib response model message)).renders lib =
      if response.statusCode = 404 then
        lib.encodes (orElse message s!"Model {lib.repr model} is not available.") &&
          lib.encodes model
      else if response.statusCode = 429 then (response.header "retry-after").all isLatin1
      else if response.statusCode = 401 ∨ response.statusCode = 403 then true
      else if 400 ≤ response.statusCode ∧ response.statusCode < 500 then message.all lib.encodes
      else true := by
  have hnames : lib.encodes "upstream_status" = true ∧ lib.encodes "model" = true :=
    ⟨lib.encodes_ascii _ (by decide), lib.encodes_ascii _ (by decide)⟩
  have hnew : ∀ cls : ErrorClass, lib.encodes (AppError.new cls).message = true ∧
      encodable (AppError.new cls).headers = true := fun cls =>
    ⟨cls.message_encodes lib, cls.headers_encodable⟩
  rw [appErrorReply_renders rfl, appErrorOf]
  split
  · simp [ReplyBody.renders, Libraries.renders, Json.renders, withMessage_encodes, hnames, hnew]
  · split
    · simp [ReplyBody.renders, Libraries.renders, Json.renders, encodable_retryAfter, hnames, hnew]
    · split
      · simp [ReplyBody.renders, Libraries.renders, Json.renders, hnames, hnew]
      · split
        · simp [ReplyBody.renders, Libraries.renders, Json.renders, withMessage_encodes, hnames,
            hnew]
        · simp [ReplyBody.renders, Libraries.renders, Json.renders, hnames, hnew]

/-- **What an error answer becomes**, and whether that can be sent. -/
theorem appErrorOf_unsendable_iff {response : HttpResponse} {message : Option String}
    (model : String) (herror : response.isError = true)
    (hmessage : upstreamMessage response = .ok message) :
    Unsendable lib model (.response response) ↔
      ¬ (appErrorReply [] (appErrorOf lib response model message)).renders lib = true := by
  rw [appErrorOf_renders]
  refine ⟨?_, fun h => ?_⟩
  · rintro (⟨hnot, -⟩ | ⟨h404, hmessage', htexts⟩ | ⟨h429, hheader, hvalue⟩ |
      ⟨hclient, hother, hmessage', htext⟩)
    · exact absurd herror hnot
    · cases hmessage.symm.trans hmessage'
      simpa [h404] using htexts
    · simp [h429, hheader, hvalue]
    · cases hmessage.symm.trans hmessage'
      simp only [List.mem_cons, List.not_mem_nil, or_false, not_or] at hother
      simp [hother, hclient, htext]
  · split at h
    · next h404 => exact .notFound h404 hmessage (by simpa using h)
    · next h404 =>
      split at h
      · next h429 =>
        cases hheader : response.header "retry-after" with
        | none => simp [hheader] at h
        | some value => exact .limited h429 hheader (by simpa [hheader] using h)
      · next h429 =>
        split at h
        · exact absurd rfl h
        · next hauth =>
          split at h
          · next hclient =>
            cases message with
            | none => simp at h
            | some text =>
              refine .rejected hclient ?_ hmessage (by simpa using h)
              simp only [List.mem_cons, List.not_mem_nil, or_false, not_or]
              exact ⟨fun h => hauth (.inl h), fun h => hauth (.inr h), h404, h429⟩
          · exact absurd rfl h

/-- Of the answers that are no errors, only completions can be unsendable. -/
theorem Unsendable.received {model : String} {response : HttpResponse}
    (herror : ¬ response.isError = true) (h : Unsendable lib model (.response response)) :
    ∃ completion, received lib model (.response response) = .ok completion ∧
      (ReplyBody.completion completion).renders lib = false := by
  have hrange : ¬ (400 ≤ response.statusCode ∧ response.statusCode ≤ 599) :=
    fun h => herror (decide_eq_true h)
  rcases h with ⟨-, hjson, hread, hrenders⟩ | ⟨h404, -, -⟩ | ⟨h429, -, -⟩ | ⟨hclient, -, -, -⟩
  · refine ⟨_, ?_, hrenders⟩
    simp only [PrdApiWrapper.received, if_neg herror, hjson]
    exact hread
  all_goals omega

theorem appErrorOf_statusCode_ne (lib : Libraries) (response : HttpResponse) (model : String)
    (message : Option String) : (appErrorOf lib response model message).statusCode ≠ 500 := by
  rw [appErrorOf, AppError.statusCode]
  split
  · simp [AppError.new, ErrorClass.statusCode]
  · split
    · simp [AppError.new, ErrorClass.statusCode]
    · split
      · simp [AppError.new, ErrorClass.statusCode]
      · split <;> simp [AppError.new, ErrorClass.statusCode]

theorem answeredStatus_new (lib : Libraries) (cls : ErrorClass) :
    answeredStatus lib (.error (.app (.new cls))) = cls.statusCode :=
  congrArg HttpReply.statusCode (errorReply_new rfl cls)

/-- **The status of a completion**: it is answered with 200 unless what the provider said cannot be
sent. -/
theorem answeredStatus_ok_iff {model : String} {outcome : UpstreamOutcome}
    {completion : CompletionResponse} (h : received lib model outcome = .ok completion) :
    200 = answeredStatus lib (.ok completion) ↔ ¬ Unsendable lib model outcome := by
  have hstatus : 200 = answeredStatus lib (.ok completion) ↔
      (ReplyBody.completion completion).renders lib = true := by
    rw [answeredStatus]
    split
    · next hrenders => exact iff_of_true rfl hrenders
    · next hrenders => exact iff_of_false (by decide) hrenders
  rw [hstatus]
  cases outcome with
  | timeout | requestError | foreign name => cases h
  | response response =>
    by_cases herror : response.isError = true
    · simp only [received, if_pos herror] at h
      split at h <;> cases h
    · refine ⟨fun hrenders hunsendable => ?_, fun hsendable => ?_⟩
      · obtain ⟨completion', h', hrenders'⟩ := hunsendable.received herror
        cases h.symm.trans h'
        exact Bool.false_ne_true (hrenders'.symm.trans hrenders)
      · by_contra hrenders
        refine hsendable ?_
        simp only [received, if_neg herror] at h
        cases hjson : response.json with
        | error raised =>
          rw [hjson, orInvalid] at h
          split at h <;> cases h
        | ok body =>
          rw [hjson] at h
          exact .completion herror hjson h (Bool.eq_false_iff.mpr hrenders)

/-- **The status of a failed completion**: it is answered with that of its error unless what the
provider said cannot be sent. -/
theorem answeredStatus_error_iff {model : String} {outcome : UpstreamOutcome} {error : AppError}
    (h : received lib model outcome = .error (.app error)) :
    error.statusCode = answeredStatus lib (.error (.app error)) ↔
      ¬ Unsendable lib model outcome := by
  cases outcome with
  | timeout | requestError =>
    cases h
    exact iff_of_true (answeredStatus_new lib _).symm nofun
  | foreign name => cases h
  | response response =>
    by_cases herror : response.isError = true
    · have hmapped : asAppError lib response model = .ok error := by
        simp only [received, if_pos herror] at h
        split at h
        · next hmapped =>
          cases h
          exact hmapped
        · cases h
      obtain ⟨message, hmessage, rfl⟩ := asAppError_eq_ok.mp hmapped
      rw [appErrorOf_unsendable_iff model herror hmessage, not_not, answeredStatus, errorReply]
      split
      · next hrenders => exact iff_of_true rfl hrenders
      · next hrenders =>
        exact iff_of_false (appErrorOf_statusCode_ne lib response model message) hrenders
    · refine iff_of_true ?_ fun hunsendable => ?_
      · by_cases hreadable : response.Readable
        · rcases received_response_cases lib model herror hreadable with ⟨completion, h'⟩ | h'
          · cases h.symm.trans h'
          · cases h.symm.trans h'
            exact (answeredStatus_new lib _).symm
        · obtain ⟨name, h'⟩ := received_unreadable lib model hreadable
          cases h.symm.trans h'
      · obtain ⟨completion, h', -⟩ := hunsendable.received herror
        cases h.symm.trans h'

end PrdApiWrapper
