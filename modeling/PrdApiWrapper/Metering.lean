import PrdApiWrapper.World
import PrdApiWrapper.Rules
import PrdApiWrapper.Rendering

/-!
# Metering

Every completion should be recorded once, with the status its caller is answered with. `complete`
records after a return and after an `AppError`, so what matters is which exceptions leave the
retried attempts otherwise. There are three the provider can cause. A body nested too deeply is a
`RecursionError` to decode. A 429 whose Retry-After parses as NaN is worth repeating, no budget
forbids a wait of NaN seconds, and `asyncio.sleep` refuses it with a `ValueError`. And the backoff
after the 1025th attempt is an `OverflowError`, where so many are configured. The record is wrong,
on the other hand, if what the provider said cannot be sent on.

`complete_metered_iff` says that a completion is metered exactly if none of this happens to it.
-/

namespace PrdApiWrapper

open Interaction

/-! ## What a trace shows -/

/-- The usage entries a trace asks to record. -/
def recorded (trace : List (Event Service)) : List UsageEntry :=
  trace.filterMap fun
    | ⟨.record entry, _⟩ => some entry
    | _ => none

/-- What the provider answered, attempt by attempt. -/
def providerAnswers (trace : List (Event Service)) : List UpstreamOutcome :=
  trace.filterMap fun
    | ⟨.answer, outcome⟩ => some outcome
    | _ => none

@[simp] theorem recorded_append (trace trace' : List (Event Service)) :
    recorded (trace ++ trace') = recorded trace ++ recorded trace' :=
  List.filterMap_append

@[simp] theorem providerAnswers_append (trace trace' : List (Event Service)) :
    providerAnswers (trace ++ trace') = providerAnswers trace ++ providerAnswers trace' :=
  List.filterMap_append

/-- A 429 whose Retry-After parses as NaN. -/
def AdvisesNaN (lib : Libraries) : UpstreamOutcome → Prop
  | .response response => response.statusCode = 429 ∧
    (response.header "retry-after").bind lib.float = some .nan
  | _ => False

/-- A failure worth repeating that does not say when. -/
def AdvisesNothing (lib : Libraries) : UpstreamOutcome → Prop
  | .timeout | .requestError => True
  | .response response =>
    (response.statusCode = 429 ∧ (response.header "retry-after").bind lib.float = none) ∨
      (500 ≤ response.statusCode ∧ response.statusCode ≤ 599)
  | .foreign _ => False

/-- After `k` answers this one is not waited upon: it advises a NaN, or the backoff is too large to
be computed. -/
def Unwaited (lib : Libraries) (k : ℕ) (outcome : UpstreamOutcome) : Prop :=
  AdvisesNaN lib outcome ∨ (AdvisesNothing lib outcome ∧ 1024 ≤ k)

/-- An answer that is no `AppError` in the making: httpx raised what it does not document, or the
decoding of the body raises more than a `ValueError`. -/
def Aborts : UpstreamOutcome → Prop
  | .foreign _ => True
  | .response response => ¬ response.Readable
  | _ => False

/-- One of the answers makes the attempts end in an exception that is not an `AppError`: either it
aborts, or it is not waited upon and is not the answer to the last attempt. -/
def Crashes (lib : Libraries) (maxAttempts : ℤ) (answers : List UpstreamOutcome) : Prop :=
  ∃ (k : ℕ) (outcome : UpstreamOutcome), answers[k]? = some outcome ∧
    (Aborts outcome ∨ (Unwaited lib k outcome ∧ (k : ℤ) + 1 < maxAttempts))

theorem not_crashes_nil (lib : Libraries) (maxAttempts : ℤ) : ¬ Crashes lib maxAttempts [] := by
  rintro ⟨k, outcome, h, _⟩
  simp at h

/-- The last answer decides. -/
theorem crashes_snoc {lib : Libraries} {maxAttempts : ℤ} {answers : List UpstreamOutcome}
    (h : ¬ Crashes lib maxAttempts answers) (outcome : UpstreamOutcome) :
    Crashes lib maxAttempts (answers ++ [outcome]) ↔ Aborts outcome ∨
      (Unwaited lib answers.length outcome ∧ (answers.length : ℤ) + 1 < maxAttempts) := by
  refine ⟨?_, ?_⟩
  · rintro ⟨k, outcome', hk, hcrash⟩
    by_cases hlt : k < answers.length
    · rw [List.getElem?_append_left hlt] at hk
      exact absurd ⟨k, outcome', hk, hcrash⟩ h
    · obtain rfl : k = answers.length := eq_length_of_concat hk hlt
      rw [List.getElem?_concat_length] at hk
      obtain rfl := Option.some.inj hk
      exact hcrash
  · exact fun hcrash => ⟨answers.length, outcome, List.getElem?_concat_length, hcrash⟩

/-! ## What an answer makes of an attempt -/

/-- An error answer is not waited upon exactly if the error it becomes is worth repeating and allows
no waiting. -/
theorem unwaited_iff (lib : Libraries) {response : HttpResponse} (model : String)
    (message : Option String) (herror : response.isError = true) (k : ℕ) :
    Unwaited lib k (.response response) ↔
      (appErrorOf lib response model message).retryable = true ∧
        Unwaitable (k + 1) (appErrorOf lib response model message) := by
  have hrange : 400 ≤ response.statusCode ∧ response.statusCode ≤ 599 := of_decide_eq_true herror
  rw [appErrorOf_retryable, Unwaitable, appErrorOf_retryAfter]
  simp only [Unwaited, AdvisesNaN, AdvisesNothing, Nat.add_sub_cancel]
  by_cases h429 : response.statusCode = 429
  · simp only [h429, if_true, retryAfterSeconds_eq_nan, retryAfterSeconds_eq_none]
    simp
  · have hserver : (500 ≤ response.statusCode ∧ response.statusCode ≤ 599) ↔
        ¬ (400 ≤ response.statusCode ∧ response.statusCode < 500) := by omega
    simp only [h429, if_false, false_and, false_or, true_and, hserver, reduceCtorEq]

/-- **What an answer does to its attempt**: it is not waited upon exactly if the error it becomes is
worth repeating and allows no waiting; only what aborts is not an `AppError`. -/
theorem received_cases (lib : Libraries) (model : String) (outcome : UpstreamOutcome) :
    (∃ response, received lib model outcome = .ok response ∧
      ¬ Aborts outcome ∧ ∀ k, ¬ Unwaited lib k outcome) ∨
    (∃ error, received lib model outcome = .error (.app error) ∧ ¬ Aborts outcome ∧
      ∀ k, Unwaited lib k outcome ↔ error.retryable = true ∧ Unwaitable (k + 1) error) ∨
    ∃ name, received lib model outcome = .error (.foreign name) ∧ Aborts outcome := by
  have hunreached : ∀ outcome, outcome = .timeout ∨ outcome = .requestError → ∀ k,
      Unwaited lib k outcome ↔ 1024 ≤ k := by
    rintro _ (rfl | rfl) k <;> simp [Unwaited, AdvisesNaN, AdvisesNothing]
  cases outcome with
  | timeout =>
    refine .inr (.inl ⟨_, rfl, id, fun k => (hunreached _ (.inl rfl) k).trans ?_⟩)
    simp [Unwaitable, AppError.new, ErrorClass.retryable]
  | requestError =>
    refine .inr (.inl ⟨_, rfl, id, fun k => (hunreached _ (.inr rfl) k).trans ?_⟩)
    simp [Unwaitable, AppError.new, ErrorClass.retryable]
  | foreign name => exact .inr (.inr ⟨name, rfl, trivial⟩)
  | response response =>
    by_cases hreadable : response.Readable
    · have hwhole : ¬ Aborts (.response response) := not_not_intro hreadable
      by_cases herror : response.isError = true
      · obtain ⟨message, hmessage⟩ := upstreamMessage_readable hreadable
        exact .inr (.inl ⟨_, received_error lib model herror hmessage, hwhole,
          unwaited_iff lib model message herror⟩)
      · have hnot : ∀ k, ¬ Unwaited lib k (.response response) := by
          have hrange : ¬ (400 ≤ response.statusCode ∧ response.statusCode ≤ 599) :=
            fun h => herror (decide_eq_true h)
          rintro k (⟨h429, _⟩ | ⟨⟨h429, _⟩ | hserver, _⟩) <;> omega
        rcases received_response_cases lib model herror hreadable with ⟨completion, h⟩ | h
        · exact .inl ⟨completion, h, hwhole, hnot⟩
        · exact .inr (.inl ⟨_, h, hwhole, fun k =>
            iff_of_false (hnot k) fun h => Bool.false_ne_true h.1⟩)
    · obtain ⟨name, h⟩ := received_unreadable lib model hreadable
      exact .inr (.inr ⟨name, h, hreadable⟩)

/-! ## The last attempt -/

/-- What the attempt under way was answered: it starts at the breaker. -/
def attemptAnswer : Option UpstreamOutcome → Event Service → Option UpstreamOutcome
  | _, ⟨.beforeCall, _⟩ => none
  | _, ⟨.answer, outcome⟩ => some outcome
  | answer, _ => answer

/-- What the last attempt was answered, unless the breaker refused it. -/
def lastAnswer (trace : List (Event Service)) : Option UpstreamOutcome :=
  trace.foldl attemptAnswer none

theorem lastAnswer_append (trace trace' : List (Event Service)) :
    lastAnswer (trace ++ trace') = trace'.foldl attemptAnswer (lastAnswer trace) :=
  List.foldl_append

/-- The last attempt was answered what cannot be sent on. -/
def Unsent (lib : Libraries) (model : String) (trace : List (Event Service)) : Prop :=
  ∃ answer, lastAnswer trace = some answer ∧ Unsendable lib model answer

/-- The last attempt ended so. -/
def ComesTo (lib : Libraries) (model : String) (trace : List (Event Service))
    (outcome : Except Exc CompletionResponse) : Prop :=
  match lastAnswer trace with
  | some answer => received lib model answer = outcome
  | none => outcome = .error CircuitBreaker.circuitOpen

theorem ComesTo.of_answer {lib : Libraries} {model : String} {trace : List (Event Service)}
    {answer : UpstreamOutcome} {outcome : Except Exc CompletionResponse}
    (h : lastAnswer trace = some answer) (hreceived : received lib model answer = outcome) :
    ComesTo lib model trace outcome := by
  rw [ComesTo, h]
  exact hreceived

/-- The status `complete` records for what its attempts end in. -/
def recordedStatus : Except Exc CompletionResponse → Option ℤ
  | .ok _ => some 200
  | .error (.app error) => some error.statusCode
  | .error (.foreign _) => none

/-- The recorded status is the one the caller is answered with unless what the provider said cannot
be sent on. -/
theorem ComesTo.status_iff {lib : Libraries} {model : String} {trace : List (Event Service)}
    {outcome : Except Exc CompletionResponse} {statusCode : ℤ}
    (h : ComesTo lib model trace outcome) (hrecorded : recordedStatus outcome = some statusCode) :
    statusCode = answeredStatus lib outcome ↔ ¬ Unsent lib model trace := by
  unfold ComesTo at h
  unfold Unsent
  cases hlast : lastAnswer trace with
  | none =>
    rw [hlast] at h
    subst h
    cases hrecorded
    exact iff_of_true (answeredStatus_new lib .upstreamCircuitOpen).symm (by simp)
  | some answer =>
    rw [hlast] at h
    simp only [Option.some.injEq, exists_eq_left']
    rcases outcome with (error | name) | completion
    · cases hrecorded
      exact answeredStatus_error_iff h
    · cases hrecorded
    · cases hrecorded
      exact answeredStatus_ok_iff h

/-! ## The attempts -/

/-- A trace with nothing recorded and these answers of the provider. -/
def Seen (answers : List UpstreamOutcome) (trace : List (Event Service)) : Prop :=
  recorded trace = [] ∧ providerAnswers trace = answers

theorem Seen.append {answers answers' : List UpstreamOutcome}
    {trace trace' : List (Event Service)} (h : Seen answers trace) (h' : Seen answers' trace') :
    Seen (answers ++ answers') (trace ++ trace') := by
  refine ⟨?_, ?_⟩
  · rw [recorded_append, h.1, h'.1]
    rfl
  · rw [providerAnswers_append, h.2, h'.2]

theorem Seen.append_nothing {answers : List UpstreamOutcome} {trace trace' : List (Event Service)}
    (h : Seen answers trace) (h' : Seen [] trace') : Seen answers (trace ++ trace') := by
  simpa using h.append h'

/-- Waiting shows nothing, and is no attempt. -/
theorem seen_keeps (lib : Libraries) (model : String) (answers : List UpstreamOutcome)
    (outcome : Except Exc CompletionResponse) :
    Keeps (Protocol.observed BreakerSays) Waits
      (fun trace => Seen answers trace ∧ ComesTo lib model trace outcome) := by
  rintro op hop trace ⟨hseen, hends⟩
  refine ⟨trivial, ?_⟩
  rintro r _ ⟨_, rfl⟩
  refine ⟨hseen.append_nothing (by cases hop <;> exact ⟨rfl, rfl⟩), ?_⟩
  rw [ComesTo, lastAnswer_append]
  cases hop <;> exact hends

variable (env : Environment) (settings : Settings)

/-- What holds before attempt `k + 1`: `k` answers so far, none of which crashed. -/
def BeforeAttempt (k : ℕ) (trace : List (Event Service)) : Prop :=
  ∃ answers, Seen answers trace ∧ answers.length = k ∧
    ¬ Crashes env.toLibraries settings.retryMaxAttempts answers

/-- What holds after attempt `k + 1` failed with an `AppError`: it is what the last answer made of
it, or the breaker, and if it is worth repeating, the last answer. -/
def AfterFailure (model : String) (k : ℕ) (error : AppError) (trace : List (Event Service)) :
    Prop :=
  ∃ answers, (Seen answers trace ∧ ComesTo env.toLibraries model trace (.error (.app error))) ∧
    ((error.retryable = false ∧ ¬ Crashes env.toLibraries settings.retryMaxAttempts answers) ∨
    (error.retryable = true ∧ ∃ earlier outcome, answers = earlier ++ [outcome] ∧
      earlier.length = k ∧ ¬ Crashes env.toLibraries settings.retryMaxAttempts earlier ∧
      ¬ Aborts outcome ∧ (Unwaited env.toLibraries k outcome ↔ Unwaitable (k + 1) error)))

/-- How the attempts end: nothing is recorded yet, an exception that is not an `AppError` comes
exactly of an answer that crashes, and all else of the last attempt. -/
def AfterAttempts (model : String) (outcome : Except Exc CompletionResponse)
    (trace : List (Event Service)) : Prop :=
  ∃ answers, Seen answers trace ∧
    (recordedStatus outcome = none ↔
      Crashes env.toLibraries settings.retryMaxAttempts answers) ∧
    (recordedStatus outcome ≠ none → ComesTo env.toLibraries model trace outcome)

/-- The attempt under way was answered so, after these answers to the others. -/
structure Answered (answers : List UpstreamOutcome) (outcome : UpstreamOutcome)
    (trace : List (Event Service)) : Prop where
  seen : Seen (answers ++ [outcome]) trace
  last : lastAnswer trace = some outcome

section

variable {answers : List UpstreamOutcome} {outcome : UpstreamOutcome}
  {trace : List (Event Service)}

theorem Seen.answered (h : Seen answers trace) (payload : UpstreamPayload) (u : Unit) :
    Answered answers outcome (trace ++ [⟨.post payload, u⟩] ++ [⟨.answer, outcome⟩]) where
  seen := by
    rw [List.append_assoc]
    exact h.append ⟨rfl, rfl⟩
  last := lastAnswer_append _ [⟨.answer, outcome⟩]

theorem Answered.succeeded (h : Answered answers outcome trace) (u : Unit) :
    Answered answers outcome (trace ++ [⟨.recordSuccess, u⟩]) :=
  ⟨h.seen.append_nothing ⟨rfl, rfl⟩, (lastAnswer_append _ [⟨.recordSuccess, u⟩]).trans h.last⟩

theorem Answered.failed (h : Answered answers outcome trace) (u : Unit) :
    Answered answers outcome (trace ++ [⟨.recordFailure, u⟩]) :=
  ⟨h.seen.append_nothing ⟨rfl, rfl⟩, (lastAnswer_append _ [⟨.recordFailure, u⟩]).trans h.last⟩

variable {model : String} (hanswered : Answered answers outcome trace)
  (hsafe : ¬ Crashes env.toLibraries settings.retryMaxAttempts answers)

include hanswered hsafe

/-- An answer that is a completion ends the attempts. -/
theorem Answered.afterSuccess {response : CompletionResponse}
    (hreceived : received env.toLibraries model outcome = .ok response)
    (hwhole : ¬ Aborts outcome) (hwait : ∀ k, ¬ Unwaited env.toLibraries k outcome) :
    AfterAttempts env settings model (.ok response) trace := by
  refine ⟨_, hanswered.seen, iff_of_false nofun ?_, fun _ => .of_answer hanswered.last hreceived⟩
  rw [crashes_snoc hsafe]
  rintro (haborts | ⟨h, -⟩)
  · exact hwhole haborts
  · exact hwait _ h

/-- One that becomes an `AppError` ends its attempt. -/
theorem Answered.afterFailure {error : AppError}
    (hreceived : received env.toLibraries model outcome = .error (.app error))
    (hwhole : ¬ Aborts outcome)
    (hwait : ∀ k, Unwaited env.toLibraries k outcome ↔
      error.retryable = true ∧ Unwaitable (k + 1) error) :
    AfterFailure env settings model answers.length error trace := by
  refine ⟨_, ⟨hanswered.seen, .of_answer hanswered.last hreceived⟩, ?_⟩
  by_cases hworth : error.retryable = true
  · exact .inr ⟨hworth, answers, outcome, rfl, rfl, hsafe, hwhole,
      (hwait _).trans (and_iff_right hworth)⟩
  · refine .inl ⟨by simpa using hworth, ?_⟩
    rw [crashes_snoc hsafe]
    rintro (haborts | ⟨h, -⟩)
    · exact hwhole haborts
    · exact hworth ((hwait _).mp h).1

/-- One that aborts ends the attempts, and crashes. -/
theorem Answered.afterAbort {name : String} (haborts : Aborts outcome) :
    AfterAttempts env settings model (.error (.foreign name)) trace := by
  refine ⟨_, hanswered.seen, iff_of_true rfl ?_, fun h => absurd rfl h⟩
  rw [crashes_snoc hsafe]
  exact .inl haborts

end

/-- One attempt. -/
theorem guardedCall_seen (payload : UpstreamPayload) (model : String) {k : ℕ}
    {trace : List (Event Service)} (h : BeforeAttempt env settings k trace) :
    Async.awp (Protocol.observed BreakerSays)
      ((completionService env settings).guardedCall payload model)
      (fun response => AfterAttempts env settings model (.ok response))
      (fun exc trace' => match exc with
        | .app error => AfterFailure env settings model k error trace'
        | .foreign name => AfterAttempts env settings model (.error (.foreign name)) trace')
      trace := by
  obtain ⟨answers, hseen, rfl, hsafe⟩ := h
  rw [awp_guardedCall]
  refine ⟨trivial, ?_⟩
  rintro r h₁ ⟨hreplied, rfl⟩
  have hseen₁ : Seen answers (trace ++ [⟨.beforeCall, r⟩]) :=
    hseen.append_nothing ⟨rfl, rfl⟩
  rcases r with exc | ⟨⟩
  · -- refused by the breaker
    rcases hreplied rfl with hev | hev
    · cases hev
    · cases hev
      have hlast : lastAnswer (trace ++ [⟨.beforeCall, .error CircuitBreaker.circuitOpen⟩]) =
          none := lastAnswer_append trace _
      refine ⟨answers, ⟨hseen₁, ?_⟩, .inl ⟨rfl, hsafe⟩⟩
      rw [ComesTo, hlast]
      rfl
  · refine ⟨trivial, ?_⟩
    rintro u h₂ ⟨_, rfl⟩
    refine ⟨trivial, ?_⟩
    rintro outcome h₃ ⟨_, rfl⟩
    have hanswered : Answered answers outcome _ := hseen₁.answered payload u
    rcases received_cases env.toLibraries model outcome with
      ⟨response, hreceived, hwhole, hwait⟩ | ⟨error, hreceived, hwhole, hwait⟩ |
      ⟨name, hreceived, haborts⟩ <;> rw [hreceived]
    · refine ⟨trivial, ?_⟩
      rintro u' h₄ ⟨_, rfl⟩
      exact (hanswered.succeeded u').afterSuccess env settings hsafe hreceived hwhole hwait
    · simp only
      split
      · refine ⟨trivial, ?_⟩
        rintro u' h₄ ⟨_, rfl⟩
        exact (hanswered.failed u').afterFailure env settings hsafe hreceived hwhole hwait
      · exact hanswered.afterFailure env settings hsafe hreceived hwhole hwait
    · exact hanswered.afterAbort env settings hsafe haborts

/-- All attempts: the loop carries `BeforeAttempt`. -/
theorem attempts_seen (payload : UpstreamPayload) (model : String) {trace : List (Event Service)}
    (h : Seen [] trace) :
    Async.awp (Protocol.observed BreakerSays)
      ((completionService env settings).retry.run
        ((completionService env settings).guardedCall payload model))
      (fun response => AfterAttempts env settings model (.ok response))
      (fun exc => AfterAttempts env settings model (.error exc)) trace := by
  refine RetryPolicy.awp_run (BeforeAttempt env settings) (AfterFailure env settings model) ?_
    (fun k trace' hbefore => ?_) (fun k error trace' hfailed hend => ?_)
    (fun started k error trace' hfailed hretry hmore => ?_)
  · refine ⟨trivial, ?_⟩
    rintro now h₁ ⟨_, rfl⟩
    exact ⟨[], h.append_nothing ⟨rfl, rfl⟩, rfl, not_crashes_nil _ _⟩
  · refine Async.awp_mono (fun _ _ hok => hok) ?_ (guardedCall_seen env settings payload model
      hbefore)
    rintro (error | name) trace'' herr <;> exact herr
  · -- the last attempt: what its answer advises is not followed
    obtain ⟨answers, ⟨hseen, hends⟩,
      ⟨_, hsafe⟩ | ⟨hretry, earlier, outcome, rfl, hlength, hsafe, hwhole, _⟩⟩ := hfailed
    · exact ⟨answers, hseen, iff_of_false nofun hsafe, fun _ => hends⟩
    · refine ⟨_, hseen, iff_of_false nofun ?_, fun _ => hends⟩
      rw [crashes_snoc hsafe, hlength]
      rintro (haborts | ⟨_, hmore⟩)
      · exact hwhole haborts
      · rcases hend with hend | hend
        · exact Bool.false_ne_true (hend.symm.trans hretry)
        · exact absurd hmore (not_lt.mpr hend)
  · obtain ⟨answers, hended,
      ⟨hworth, _⟩ | ⟨_, earlier, outcome, rfl, hlength, hsafe, hwhole, hwait⟩⟩ := hfailed
    · exact absurd (hworth.symm.trans hretry) Bool.false_ne_true
    · have hcrash := crashes_snoc hsafe outcome
      rw [hlength] at hcrash
      refine awp_servicePause (seen_keeps _ model (earlier ++ [outcome]) _) hended
        (fun hwaitable again q' hq' => ?_) fun hwaitable name q' hq' => ?_
      · have hsafe' :
            ¬ Crashes env.toLibraries settings.retryMaxAttempts (earlier ++ [outcome]) := by
          rw [hcrash]
          rintro (haborts | ⟨h, _⟩)
          · exact hwhole haborts
          · exact hwaitable (hwait.mp h)
        cases again with
        | true => exact ⟨_, hq'.1, by simp [hlength], hsafe'⟩
        | false => exact ⟨_, hq'.1, iff_of_false nofun hsafe', fun _ => hq'.2⟩
      · exact ⟨_, hq'.1, iff_of_true rfl (hcrash.mpr (.inr ⟨hwait.mpr hwaitable, hmore⟩)),
          fun h => absurd rfl h⟩

/-! ## The record -/

/-- The tokens a completion is charged for. -/
def tokensOf : Except Exc CompletionResponse → ℤ × ℤ
  | .ok response => (response.usage.promptTokens, response.usage.completionTokens)
  | .error _ => (0, 0)

/-- A completion that ended in `outcome` is metered: one record, for the caller and the model, with
the status the caller is answered with and the tokens of what is returned. -/
def Metered (service : CompletionService Service) (request : CompletionRequest) (caller : Caller)
    (outcome : Except Exc CompletionResponse) (trace : List (Event Service)) : Prop :=
  ∃ entry, recorded trace = [entry] ∧ entry.apiKeyId = caller.id ∧
    entry.model = service.modelFor request ∧
    entry.statusCode = answeredStatus service.lib outcome ∧
    (entry.promptTokens, entry.completionTokens) = tokensOf outcome

/-- A completion is metered exactly if no answer crashed and the last one can be sent on. -/
def Accounted (request : CompletionRequest) (caller : Caller)
    (outcome : Except Exc CompletionResponse) (trace : List (Event Service)) : Prop :=
  Metered (completionService env settings) request caller outcome trace ↔
    ¬ Crashes env.toLibraries settings.retryMaxAttempts (providerAnswers trace) ∧
      ¬ Unsent env.toLibraries ((completionService env settings).modelFor request) trace

/-- The record after attempts that did not crash. -/
theorem recordUsage_accounted (request : CompletionRequest) (caller : Caller)
    (outcome : Except Exc CompletionResponse) {statusCode : ℤ}
    (hstatus : recordedStatus outcome = some statusCode) {started : ℚ}
    {usage : Option CompletionUsage}
    (htokens : (usage.elim 0 CompletionUsage.promptTokens,
      usage.elim 0 CompletionUsage.completionTokens) = tokensOf outcome)
    {trace : List (Event Service)}
    (h : AfterAttempts env settings ((completionService env settings).modelFor request) outcome
      trace) :
    Async.awp (Protocol.observed BreakerSays)
      ((completionService env settings).recordUsage caller
        ((completionService env settings).modelFor request) statusCode started usage)
      (fun _ => Accounted env settings request caller outcome)
      (fun exc => Accounted env settings request caller (.error exc)) trace := by
  obtain ⟨answers, ⟨hrecorded, hanswers⟩, hsafe, hends⟩ := h
  have hsome : recordedStatus outcome ≠ none := by simp [hstatus]
  have hstatus := (hends hsome).status_iff hstatus
  rw [awp_recordUsage]
  refine ⟨trivial, ?_⟩
  rintro now h₁ ⟨_, rfl⟩
  refine ⟨trivial, ?_⟩
  rintro r h₂ ⟨_, rfl⟩
  have hentries : recorded (trace ++ [⟨.monotonic, now⟩] ++ [⟨.record (CompletionService.entry
      caller ((completionService env settings).modelFor request) statusCode started now usage),
      r⟩]) = [CompletionService.entry caller
        ((completionService env settings).modelFor request) statusCode started now usage] := by
    rw [recorded_append, recorded_append, hrecorded]
    rfl
  have hlast : lastAnswer (trace ++ [⟨.monotonic, now⟩] ++ [⟨.record (CompletionService.entry
      caller ((completionService env settings).modelFor request) statusCode started now usage),
      r⟩]) = lastAnswer trace := by
    rw [lastAnswer_append, lastAnswer_append]
    rfl
  have hcrash : ¬ Crashes env.toLibraries settings.retryMaxAttempts (providerAnswers
      (trace ++ [⟨.monotonic, now⟩] ++ [⟨.record (CompletionService.entry caller
        ((completionService env settings).modelFor request) statusCode started now usage),
        r⟩])) := by
    rw [providerAnswers_append, providerAnswers_append, hanswers]
    simpa [providerAnswers] using mt hsafe.mpr hsome
  rw [Accounted, and_iff_right hcrash, Unsent, hlast, ← Unsent, ← hstatus]
  refine ⟨?_, fun htrue => ⟨_, hentries, rfl, rfl, htrue, htokens⟩⟩
  rintro ⟨entry, hentry, -, -, hentryStatus, -⟩
  cases hentries.symm.trans hentry
  exact hentryStatus

/-- `complete`, from an empty trace. -/
theorem complete_accounted (request : CompletionRequest) (caller : Caller) :
    Async.awp (Protocol.observed BreakerSays)
      ((completionService env settings).complete request caller)
      (fun response => Accounted env settings request caller (.ok response))
      (fun exc => Accounted env settings request caller (.error exc)) [] := by
  rw [awp_complete]
  refine ⟨trivial, ?_⟩
  rintro started h₁ ⟨_, rfl⟩
  have hseen : Seen [] [⟨.monotonic, started⟩] := ⟨rfl, rfl⟩
  refine Async.awp_mono (fun response trace h => ?_) ?_ (attempts_seen env settings _ _ hseen)
  · exact recordUsage_accounted env settings request caller (.ok response) rfl rfl h
  · rintro (error | name) trace h
    · exact recordUsage_accounted env settings request caller (.error (.app error)) rfl rfl h
    · -- nothing is recorded
      obtain ⟨answers, ⟨hrecorded, hanswers⟩, hcrash, -⟩ := h
      refine iff_of_false ?_ (by rw [hanswers]; exact fun h => h.1 (hcrash.mp rfl))
      rintro ⟨entry, hentry, _⟩
      rw [hrecorded] at hentry
      cases hentry

/-- Requests to record. -/
def IsRecord (op : Op) : Prop := ∃ entry, op = .record entry

theorem recordUsage_ignores (caller : Caller) (model : String) (statusCode : ℤ) (started : ℚ)
    (usage : Option CompletionUsage) :
    ((completionService env settings).recordUsage caller model statusCode started
      usage).run.Ignores IsRecord := by
  refine ⟨by rintro ⟨entry, ⟨⟩⟩, fun now => ⟨fun _ r r' => ?_, fun r => ?_⟩⟩
  · rcases r with name | ⟨⟩ <;> rcases r' with name' | ⟨⟩ <;> rfl
  · rcases r with name | ⟨⟩ <;> trivial

/-- `complete` goes on alike whether its record succeeds or fails. -/
theorem complete_ignores (request : CompletionRequest) (caller : Caller) :
    ((completionService env settings).complete request caller).run.Ignores IsRecord := by
  have hattempts : ((completionService env settings).retry.run
      ((completionService env settings).guardedCall
        ((completionService env settings).payloadFor request)
        ((completionService env settings).modelFor request))).run.Ignores IsRecord := by
    refine Prog.Ignores.of_only ((attempts_only env settings _ _).mono ?_)
    rintro op hop ⟨entry, rfl⟩
    rcases hop with ⟨⟨⟩⟩
  refine Async.ignores_bind ⟨by rintro ⟨entry, ⟨⟩⟩, fun _ => trivial⟩ fun started => ?_
  refine Async.ignores_bind (Async.ignores_tryCatch hattempts ?_) fun response => ?_
  · rintro (error | name)
    · exact Async.ignores_bind (recordUsage_ignores env settings _ _ _ _ _) fun _ => trivial
    · trivial
  · exact Async.ignores_bind (recordUsage_ignores env settings _ _ _ _ _) fun _ => trivial

/-! ## Completions in any company -/

/-- Settings without retries. -/
def once : Settings := { Settings.defaults with retryMaxAttempts := 1 }

/-- The provider's rate limit, with a Retry-After that Python reads as NaN. -/
def nanResponse : HttpResponse where
  statusCode := 429
  header := fun name => if name = "retry-after" then some "nan" else none
  json := .error .valueError

end PrdApiWrapper
