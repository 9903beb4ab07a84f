import PrdApiWrapper.Service

/-!
# Rules for the service

What the parts of the service do, as weakest preconditions over any protocol. Callers cite these
and do not unfold the parts again.
-/

namespace PrdApiWrapper

open Interaction

variable {Q : Type} {A : Protocol Service Q}

/-- A POST to the provider. -/
def isPost (ev : Event Service) : Bool :=
  match ev with
  | ⟨.post _, _⟩ => true
  | _ => false

/-- **One attempt**: nothing if the breaker refuses; else one POST, and the breaker is told of a
success or of a retryable failure, and of nothing else. -/
theorem awp_guardedCall (env : Environment) (settings : Settings) (payload : UpstreamPayload)
    (model : String) (ok : CompletionResponse → Q → Prop) (err : Exc → Q → Prop) (q : Q) :
    Async.awp A ((completionService env settings).guardedCall payload model) ok err q ↔
      A.allows q .beforeCall ∧ ∀ r q₁, A.next q .beforeCall r q₁ → match r with
        | .error exc => err exc q₁
        | .ok () => A.allows q₁ (.post payload) ∧ ∀ u q₂, A.next q₁ (.post payload) u q₂ →
          A.allows q₂ .answer ∧ ∀ outcome q₃, A.next q₂ .answer outcome q₃ →
            match received env.toLibraries model outcome with
            | .ok response => A.allows q₃ .recordSuccess ∧
                ∀ u q₄, A.next q₃ .recordSuccess u q₄ → ok response q₄
            | .error (.app error) =>
              if error.retryable then A.allows q₃ .recordFailure ∧
                ∀ u q₄, A.next q₃ .recordFailure u q₄ → err (.app error) q₄
              else err (.app error) q₃
            | .error (.foreign name) => err (.foreign name) q₃ := by
  simp only [CompletionService.guardedCall, completionService, CompletionService.callUpstream,
    Async.awp_bind, Async.awp_mk, Async.awp_tryCatch, Async.awp_lift, Async.awp_pure, Prog.wp_bind,
    Prog.wp_map]
  refine and_congr_right fun _ => forall_congr' fun r => forall_congr' fun q₁ =>
    imp_congr_right fun _ => ?_
  rcases r with exc | ⟨⟩
  · rfl
  · refine and_congr_right fun _ => forall_congr' fun u => forall_congr' fun q₂ =>
      imp_congr_right fun _ => ?_
    refine and_congr_right fun _ => forall_congr' fun outcome => forall_congr' fun q₃ =>
      imp_congr_right fun _ => ?_
    simp only [Prog.wp_ret]
    rcases received env.toLibraries model outcome with (error | name) | response
    · simp only
      by_cases hretry : error.retryable = true
      · rw [if_pos hretry, if_pos hretry]
        rfl
      · rw [if_neg hretry, if_neg hretry]
        rfl
    · rfl
    · rfl

/-! ## Waiting -/

/-- The requests a retry policy makes between two attempts. -/
inductive Waits : Op → Prop where
  | monotonic : Waits .monotonic
  | jitter : Waits .jitter
  | sleep (seconds : PyFloat) : Waits (.sleep seconds)

/-- `p` keeps a property of protocol states that every request in `P` keeps. -/
def Keeps (A : Protocol Service Q) (P : Op → Prop) (I : Q → Prop) : Prop :=
  ∀ op, P op → ∀ q, I q → A.allows q op ∧ ∀ r q', A.next q op r q' → I q'

/-- **A pause** reads the clock and sleeps, or gives up. It raises if its delay cannot be computed,
or is a NaN, which no budget forbids and `asyncio.sleep` refuses; and only then. -/
theorem awp_servicePause {settings : Settings} {maxAttempts : ℤ} {started : ℚ} {attempt : ℕ}
    {error : AppError} {I : Q → Prop} (hkeeps : Keeps A Waits I)
    {ok : Bool → Q → Prop} {err : Exc → Q → Prop} {q : Q} (hI : I q)
    (hok : ¬ Unwaitable attempt error → ∀ again q', I q' → ok again q')
    (herr : Unwaitable attempt error → ∀ name q', I q' → err (.foreign name) q') :
    Async.awp A ((retryPolicy settings maxAttempts).pause started attempt error) ok err q := by
  have hdelay : Async.awp A
      ((retryPolicy settings maxAttempts).delayFor attempt error.retryAfter)
      (fun delay q' => I q' ∧ (delay = .nan ↔ Unwaitable attempt error)) err q := by
    cases hadvice : error.retryAfter with
    | none =>
      simp only [RetryPolicy.delayFor]
      by_cases hlarge : 1024 ≤ attempt - 1
      · rw [if_pos hlarge]
        exact herr (.inr ⟨hadvice, hlarge⟩) _ q hI
      · rw [if_neg hlarge]
        obtain ⟨hallow, hnext⟩ := hkeeps .jitter .jitter q hI
        refine ⟨hallow, fun pick q' hq' => ⟨hnext pick q' hq', iff_of_false nofun ?_⟩⟩
        rintro (hnan | ⟨-, hlarge'⟩)
        · rw [hadvice] at hnan
          cases hnan
        · exact hlarge hlarge'
    | some seconds =>
      refine ⟨hI, (PyFloat.pyMin_eq_nan seconds _).trans ?_⟩
      simp [Unwaitable, hadvice]
  simp only [RetryPolicy.pause, Async.awp_bind, Async.awp_lift]
  refine Async.awp_mono ?_ (fun _ _ herr => herr) hdelay
  rintro delay q₁ ⟨h₁, hnan⟩
  obtain ⟨hallow, hnext⟩ := hkeeps .monotonic .monotonic q₁ h₁
  refine ⟨hallow, fun now q₂ hq₂ => ?_⟩
  have h₂ : I q₂ := hnext now q₂ hq₂
  rw [Prog.wp_ret]
  by_cases hdelaynan : delay = .nan
  · -- the sum is a NaN, and no NaN exceeds the budget
    subst hdelaynan
    simp only [PyFloat.add_nan, PyFloat.lt_nan, Bool.false_eq_true, if_false]
    exact herr (hnan.mp rfl) _ q₂ h₂
  · have hadvice := mt hnan.mpr hdelaynan
    split
    · exact hok hadvice false q₂ h₂
    · obtain ⟨hallow', hnext'⟩ := hkeeps (.sleep delay) (.sleep delay) q₂ h₂
      simp only [retryPolicy, asyncioSleep, if_neg hdelaynan, Async.awp_bind, Async.awp_lift]
      exact ⟨hallow', fun u q₃ hq₃ => hok hadvice true q₃ (hnext' u q₃ hq₃)⟩

/-- The requests of the attempts at a completion. -/
inductive CallsProvider : Op → Prop where
  | waits {op : Op} : Waits op → CallsProvider op
  | beforeCall : CallsProvider .beforeCall
  | post (payload : UpstreamPayload) : CallsProvider (.post payload)
  | answer : CallsProvider .answer
  | recordSuccess : CallsProvider .recordSuccess
  | recordFailure : CallsProvider .recordFailure

theorem attempts_only (env : Environment) (settings : Settings) (payload : UpstreamPayload)
    (model : String) :
    ((completionService env settings).retry.run
      ((completionService env settings).guardedCall payload model)).run.Only CallsProvider := by
  apply Async.only_of_awp
  refine RetryPolicy.awp_run (fun _ _ => True) (fun _ _ _ => True)
    ⟨.waits .monotonic, fun _ _ _ => trivial⟩ (fun k q _ => ?_) (fun _ _ _ _ _ => trivial)
    (fun started k error q _ _ _ => ?_)
  · rw [awp_guardedCall]
    refine ⟨.beforeCall, ?_⟩
    rintro (exc | ⟨⟩) q₁ _
    · rcases exc with error | name <;> trivial
    · refine ⟨.post payload, fun u q₂ _ => ⟨.answer, fun outcome q₃ _ => ?_⟩⟩
      rcases received env.toLibraries model outcome with (error | name) | response
      · simp only
        split
        · exact ⟨.recordFailure, fun _ _ _ => trivial⟩
        · trivial
      · trivial
      · exact ⟨.recordSuccess, fun _ _ _ => trivial⟩
  · have hkeeps : Keeps (Protocol.permits CallsProvider) Waits fun _ => True :=
      fun op hop _ _ => ⟨.waits hop, fun _ _ _ => trivial⟩
    refine awp_servicePause hkeeps trivial (fun _ again _ _ => ?_) fun _ _ _ _ => trivial
    split <;> trivial

/-- **What attempts end in** holds of what answers become, of a refusal by the breaker and of every
bug, if something does. -/
theorem awp_attempts_outcome {env : Environment} {settings : Settings} {I : Q → Prop}
    {R : Except Exc CompletionResponse → Prop} (hkeeps : Keeps A CallsProvider I)
    (payload : UpstreamPayload) (model : String)
    (hrefused : ∀ q exc q', A.next q .beforeCall (.error exc) q' → R (.error exc))
    (hanswered : ∀ q outcome q', A.next q .answer outcome q' →
      R (received env.toLibraries model outcome))
    (hforeign : ∀ name, R (.error (.foreign name))) {q : Q} (h : I q) :
    Async.awp A ((completionService env settings).retry.run
        ((completionService env settings).guardedCall payload model))
      (fun response q' => I q' ∧ R (.ok response)) (fun exc q' => I q' ∧ R (.error exc)) q := by
  have hwaits : Keeps A Waits I := fun op hop => hkeeps op (.waits hop)
  refine RetryPolicy.awp_run (fun _ => I) (fun _ error q' => I q' ∧ R (.error (.app error)))
    (hkeeps _ (.waits .monotonic) q h) (fun k q hI => ?_) (fun _ _ _ hF _ => hF)
    fun started k error q hF _ _ => ?_
  · rw [awp_guardedCall]
    obtain ⟨hallow, hnext⟩ := hkeeps _ .beforeCall q hI
    refine ⟨hallow, fun r q₁ h₁ => ?_⟩
    have hI₁ := hnext r q₁ h₁
    rcases r with (error | name) | ⟨⟩
    · exact ⟨hI₁, hrefused q _ q₁ h₁⟩
    · exact ⟨hI₁, hforeign name⟩
    · obtain ⟨hallow₁, hnext₁⟩ := hkeeps _ (.post payload) q₁ hI₁
      refine ⟨hallow₁, fun u q₂ h₂ => ?_⟩
      obtain ⟨hallow₂, hnext₂⟩ := hkeeps _ .answer q₂ (hnext₁ u q₂ h₂)
      refine ⟨hallow₂, fun outcome q₃ h₃ => ?_⟩
      have hI₃ := hnext₂ outcome q₃ h₃
      have hR := hanswered q₂ outcome q₃ h₃
      generalize received env.toLibraries model outcome = result at hR ⊢
      rcases result with (error | name) | response
      · simp only
        split
        · obtain ⟨hallow₃, hnext₃⟩ := hkeeps _ .recordFailure q₃ hI₃
          exact ⟨hallow₃, fun u q₄ h₄ => ⟨hnext₃ u q₄ h₄, hR⟩⟩
        · exact ⟨hI₃, hR⟩
      · exact ⟨hI₃, hforeign name⟩
      · obtain ⟨hallow₃, hnext₃⟩ := hkeeps _ .recordSuccess q₃ hI₃
        exact ⟨hallow₃, fun u q₄ h₄ => ⟨hnext₃ u q₄ h₄, hR⟩⟩
  · refine awp_servicePause hwaits hF.1 (fun _ again q' hI' => ?_)
      fun _ name q' hI' => ⟨hI', hforeign name⟩
    cases again with
    | false => exact ⟨hI', hF.2⟩
    | true => exact hI'

/-! ## A completion -/

/-- `_record` makes one record, and does not raise. -/
theorem awp_recordUsage (env : Environment) (settings : Settings) (caller : Caller)
    (model : String) (statusCode : ℤ) (started : ℚ) (usage : Option CompletionUsage)
    (ok : Unit → Q → Prop) (err : Exc → Q → Prop) (q : Q) :
    Async.awp A ((completionService env settings).recordUsage caller model statusCode started usage)
        ok err q ↔
      A.allows q .monotonic ∧ ∀ (now : ℚ) q₁, A.next q .monotonic now q₁ →
        A.allows q₁ (.record (CompletionService.entry caller model statusCode started now usage)) ∧
        ∀ r q₂, A.next q₁
          (.record (CompletionService.entry caller model statusCode started now usage)) r q₂ →
          ok () q₂ := by
  simp only [CompletionService.recordUsage, completionService, stored, Async.awp_bind,
    Async.awp_lift, Async.awp_tryCatch, Async.awp_mk, Async.awp_pure, Prog.wp_map]
  refine and_congr_right fun _ => forall_congr' fun now => forall_congr' fun q₁ =>
    imp_congr_right fun _ => ?_
  refine and_congr_right fun _ => forall_congr' fun r => forall_congr' fun q₂ =>
    imp_congr_right fun _ => ?_
  rcases r with name | ⟨⟩
  · rfl
  · rfl

/-- `complete`, from its retried attempts. -/
theorem awp_complete (env : Environment) (settings : Settings) (request : CompletionRequest)
    (caller : Caller) (ok : CompletionResponse → Q → Prop) (err : Exc → Q → Prop) (q : Q) :
    Async.awp A ((completionService env settings).complete request caller) ok err q ↔
      A.allows q .monotonic ∧ ∀ (started : ℚ) q₁, A.next q .monotonic started q₁ →
        Async.awp A
          ((completionService env settings).retry.run
            ((completionService env settings).guardedCall
              ((completionService env settings).payloadFor request)
              ((completionService env settings).modelFor request)))
          (fun response q₂ => Async.awp A
            ((completionService env settings).recordUsage caller
              ((completionService env settings).modelFor request) 200 started
              (some response.usage))
            (fun _ q₃ => ok response q₃) err q₂)
          (fun exc q₂ => match exc with
            | .app error => Async.awp A
              ((completionService env settings).recordUsage caller
                ((completionService env settings).modelFor request) error.statusCode started none)
              (fun _ q₃ => err (.app error) q₃) err q₂
            | .foreign name => err (.foreign name) q₂) q₁ := by
  simp only [CompletionService.complete, Async.awp_bind, Async.awp_lift, Async.awp_tryCatch,
    Async.awp_pure]
  refine and_congr_right fun _ => forall_congr' fun started => forall_congr' fun q₁ =>
    imp_congr_right fun _ => ?_
  rw [Prog.wp_ret]
  refine iff_of_eq (congrArg (fun err' => Async.awp A _ _ err' q₁) ?_)
  funext exc q₂
  rcases exc with error | name
  · simp only [Async.awp_bind, Async.awp_throw]
  · rfl

/-- The requests of a completion. -/
inductive Completes : Op → Prop where
  | calls {op : Op} : CallsProvider op → Completes op
  | record (entry : UsageEntry) : Completes (.record entry)

/-- The requests of the completion of `request` for `caller`. -/
inductive CompletesFor (settings : Settings) (request : CompletionRequest) (caller : Caller) :
    Op → Prop where
  | calls {op : Op} : CallsProvider op → CompletesFor settings request caller op
  | record (statusCode : ℤ) (started now : ℚ) (usage : Option CompletionUsage) :
    CompletesFor settings request caller (.record (CompletionService.entry caller
      (orElse request.model settings.upstreamModel) statusCode started now usage))

theorem CompletesFor.completes {settings : Settings} {request : CompletionRequest}
    {caller : Caller} {op : Op} (h : CompletesFor settings request caller op) : Completes op := by
  cases h with
  | calls h => exact .calls h
  | record => exact .record _

/-- A completion records its caller and the model it asked for. -/
theorem complete_for (env : Environment) (settings : Settings) (request : CompletionRequest)
    (caller : Caller) :
    ((completionService env settings).complete request caller).run.Only
      (CompletesFor settings request caller) := by
  have hrecord : ∀ statusCode started usage,
      Async.awp (Protocol.permits (CompletesFor settings request caller))
        ((completionService env settings).recordUsage caller
          ((completionService env settings).modelFor request) statusCode started usage)
        (fun _ _ => True) (fun _ _ => True) () := by
    intro statusCode started usage
    rw [awp_recordUsage]
    exact ⟨.calls (.waits .monotonic), fun now _ _ =>
      ⟨.record statusCode started now usage, fun _ _ _ => trivial⟩⟩
  have hattempts : Async.awp (Protocol.permits (CompletesFor settings request caller))
      ((completionService env settings).retry.run ((completionService env settings).guardedCall
        ((completionService env settings).payloadFor request)
        ((completionService env settings).modelFor request)))
      (fun _ _ => True) (fun _ _ => True) () :=
    Async.awp_of_only (attempts_only env settings _ _)
      (fun _ hop _ _ => ⟨.calls hop, fun _ _ _ => trivial⟩) trivial
  apply Async.only_of_awp
  rw [awp_complete]
  refine ⟨.calls (.waits .monotonic), fun started _ _ => ?_⟩
  refine Async.awp_mono (fun response _ _ => hrecord _ _ _) ?_ hattempts
  rintro (error | name) _ _
  · exact hrecord _ _ _
  · trivial

theorem complete_only (env : Environment) (settings : Settings) (request : CompletionRequest)
    (caller : Caller) :
    ((completionService env settings).complete request caller).run.Only Completes :=
  (complete_for env settings request caller).mono fun _ => CompletesFor.completes

/-! ## A delivery -/

/-- The requests of a delivery. -/
inductive Delivers : Op → Prop where
  | waits {op : Op} : Waits op → Delivers op
  | time : Delivers .time
  | callback (post : CallbackPost) : Delivers (.callback post)

/-- The requests of a delivery of `payload` to `url`: all its POSTs are of one body. -/
inductive DeliversTo (env : Environment) (settings : Settings) (url : String)
    (payload : WebhookPayload) : Op → Prop where
  | waits {op : Op} : Waits op → DeliversTo env settings url payload op
  | time : DeliversTo env settings url payload .time
  | callback (timestamp : ℤ) : DeliversTo env settings url payload
      (.callback ((webhookService env settings).postFor url (encode (env.dumpJson payload))
        timestamp))

theorem DeliversTo.delivers {env : Environment} {settings : Settings} {url : String}
    {payload : WebhookPayload} {op : Op} (h : DeliversTo env settings url payload op) :
    Delivers op := by
  cases h with
  | waits h => exact .waits h
  | time => exact .time
  | callback timestamp => exact .callback _

/-- An answer that is worth another attempt. -/
def CallbackOutcome.Retried (outcome : CallbackOutcome) : Prop :=
  ∃ error, posted outcome = .error (.app error) ∧ error.retryable = true

/-- `_post` raises one kind of error, without advice on when to come back. -/
theorem posted_eq_app {outcome : CallbackOutcome} {error : AppError}
    (h : posted outcome = .error (.app error)) :
    error.cls = .webhookDeliveryFailed ∧ error.retryAfter = none := by
  cases outcome with
  | requestError =>
    cases h
    exact ⟨rfl, rfl⟩
  | foreign name => cases h
  | response status =>
    rw [posted] at h
    split at h
    · cases h
      exact ⟨rfl, rfl⟩
    · cases h

/-- A POST that failed in a way worth repeating, with attempts left, after which the wait cannot be
computed any more. -/
def Overflows (settings : Settings) (attempts : ℕ) (last : CallbackOutcome) : Prop :=
  last.Retried ∧ 1024 ≤ attempts - 1 ∧ (attempts : ℤ) < settings.webhookMaxAttempts

/-- What the attempts at a delivery end in, of the answer to the last of them. -/
def Ends (settings : Settings) (attempts : ℕ) (last : CallbackOutcome)
    (outcome : Except Exc Unit) : Prop :=
  (¬ Overflows settings attempts last ∧ outcome = posted last) ∨
    (Overflows settings attempts last ∧ ∃ name, outcome = .error (.foreign name))

/-- An overflow is no success either. -/
theorem Ends.eq_ok_iff {settings : Settings} {attempts : ℕ} {last : CallbackOutcome}
    {outcome : Except Exc Unit} (h : Ends settings attempts last outcome) :
    outcome = .ok () ↔ posted last = .ok () := by
  rcases h with ⟨-, rfl⟩ | ⟨⟨⟨error, hposted, -⟩, -⟩, name, rfl⟩
  · exact Iff.rfl
  · rw [hposted]
    exact iff_of_false nofun nofun

/-- What it raises of its own is one kind of error. -/
theorem Ends.cls_eq {settings : Settings} {attempts : ℕ} {last : CallbackOutcome}
    {error : AppError} (h : Ends settings attempts last (.error (.app error))) :
    error.cls = .webhookDeliveryFailed := by
  rcases h with ⟨-, hposted⟩ | ⟨-, name, ⟨⟩⟩
  exact (posted_eq_app hposted.symm).1

/-- Only an error of `_post` can overflow the wait after it. -/
theorem not_overflows {settings : Settings} {attempts : ℕ} {last : CallbackOutcome}
    (h : ∀ error, posted last ≠ .error (.app error)) : ¬ Overflows settings attempts last := by
  rintro ⟨⟨error, herror, -⟩, -⟩
  exact h error herror

/-- The answers before another attempt: all of them were worth it, and fewer than configured. -/
structure Repeats (settings : Settings) (answers : List CallbackOutcome) : Prop where
  retried : ∀ answer ∈ answers, answer.Retried
  bound : (answers.length : ℤ) < max 1 settings.webhookMaxAttempts

theorem repeats_nil (settings : Settings) : Repeats settings [] :=
  ⟨nofun, lt_max_of_lt_left one_pos⟩

theorem Repeats.snoc {settings : Settings} {answers : List CallbackOutcome}
    {last : CallbackOutcome} (h : Repeats settings answers) (hlast : last.Retried)
    (hmore : (answers.length : ℤ) + 1 < settings.webhookMaxAttempts) :
    Repeats settings (answers ++ [last]) where
  retried := by
    intro answer hanswer
    simp only [List.mem_append, List.mem_singleton] at hanswer
    rcases hanswer with hanswer | rfl
    · exact h.retried answer hanswer
    · exact hlast
  bound := by
    simp only [List.length_append, List.length_singleton, Nat.cast_add, Nat.cast_one]
    exact lt_max_of_lt_right hmore

section

variable {env : Environment} {settings : Settings} {url : String} {payload : WebhookPayload}
  {I : List CallbackOutcome → Q → Prop}

/-- What the attempts come to, of the answers to all of them. -/
def Concludes (settings : Settings) (I : List CallbackOutcome → Q → Prop)
    (r : Except Exc Unit × ℕ) (q : Q) : Prop :=
  ∃ answers last outcome, I (answers ++ [last]) q ∧ Repeats settings answers ∧
    Ends settings (answers.length + 1) last outcome ∧ r = (outcome, answers.length + 1)

/-- An answer whose wait does not overflow can be the last one. -/
theorem Concludes.posted {answers : List CallbackOutcome} {last : CallbackOutcome}
    {outcome : Except Exc Unit} {q : Q} (hI : I (answers ++ [last]) q)
    (hrepeats : Repeats settings answers) (hposted : posted last = outcome)
    (h : ¬ Overflows settings (answers.length + 1) last) :
    Concludes settings I (outcome, answers.length + 1) q :=
  ⟨answers, last, outcome, hI, hrepeats, .inl ⟨h, hposted.symm⟩, rfl⟩

/-- One attempt: the time, then the POST. -/
theorem wp_attempt (htime : ∀ answers, Keeps A (· = .time) (I answers))
    (hcallback : ∀ answers q timestamp, I answers q →
      A.allows q (.callback ((webhookService env settings).postFor url
        (encode (env.dumpJson payload)) timestamp)) ∧
      ∀ outcome q', A.next q (.callback ((webhookService env settings).postFor url
        (encode (env.dumpJson payload)) timestamp)) outcome q' → I (answers ++ [outcome]) q')
    {answers : List CallbackOutcome} {q : Q} (hI : I answers q) (attempts : ℕ)
    {Post : Except Exc Unit × ℕ → Q → Prop}
    (hPost : ∀ outcome q', I (answers ++ [outcome]) q' → Post (posted outcome, attempts + 1) q') :
    ((webhookService env settings).attempt url (encode (env.dumpJson payload)) attempts).wp A
      Post q := by
  obtain ⟨hclock, hnext⟩ := htime answers .time rfl q hI
  simp only [WebhookService.attempt, WebhookService.postOnce, Prog.wp_bind, Prog.wp_map,
    Prog.pure_eq, Prog.wp_ret]
  refine ⟨hclock, fun time q₁ hq₁ => ?_⟩
  obtain ⟨hpost, hanswer⟩ := hcallback answers q₁ _ (hnext time q₁ hq₁)
  refine ⟨hpost, fun outcome q₂ hq₂ => ?_⟩
  rw [Prog.wp_ret]
  exact hPost outcome q₂ (hanswer outcome q₂ hq₂)

/-- **A delivery** makes at least one POST, another after each answer that is worth it, and never
more than configured. Its outcome is that of the last answer, with the number of POSTs, unless the
wait after it overflows. The invariant is told the answers so far. -/
theorem wp_deliver (hwaits : ∀ answers, Keeps A Waits (I answers))
    (htime : ∀ answers, Keeps A (· = .time) (I answers))
    (hcallback : ∀ answers q timestamp, I answers q →
      A.allows q (.callback ((webhookService env settings).postFor url
        (encode (env.dumpJson payload)) timestamp)) ∧
      ∀ outcome q', A.next q (.callback ((webhookService env settings).postFor url
        (encode (env.dumpJson payload)) timestamp)) outcome q' → I (answers ++ [outcome]) q')
    {q : Q} (hI : I [] q) :
    ((webhookService env settings).deliver url payload).run.wp A (fun r q' =>
      ∃ answers last outcome, I (answers ++ [last]) q' ∧
        Ends settings (answers.length + 1) last outcome ∧
        r = WebhookService.delivered (outcome, answers.length + 1) ∧
        (∀ answer ∈ answers, answer.Retried) ∧
        (answers.length : ℤ) < max 1 settings.webhookMaxAttempts) q := by
  rw [WebhookService.deliver, ExceptT.run_mk, Prog.wp_map]
  suffices hrun : ((webhookService env settings).retry.runWith
      ((webhookService env settings).attempt url (encode (env.dumpJson payload))) 0).wp A
      (Concludes settings I) q by
    refine Prog.wp_mono ?_ hrun
    rintro r q' ⟨answers, last, outcome, h, hrepeats, hends, rfl⟩
    exact ⟨answers, last, outcome, h, hends, rfl, hrepeats.retried, hrepeats.bound⟩
  obtain ⟨hclock, hnext⟩ := hwaits [] .monotonic .monotonic q hI
  refine ⟨hclock, fun started q₁ hq₁ => ?_⟩
  refine RetryPolicy.wp_loop
    (fun k attempts q' => attempts = k ∧ ∃ answers, answers.length = k ∧ I answers q' ∧
      Repeats settings answers)
    (fun k error attempts q' => attempts = k + 1 ∧ ∃ answers last, answers.length = k ∧
      I (answers ++ [last]) q' ∧ posted last = .error (.app error) ∧ Repeats settings answers)
    ?_ ?_ ?_ 0 0 q₁ ⟨rfl, [], rfl, hnext started q₁ hq₁, repeats_nil settings⟩
  · rintro k attempts q₂ ⟨rfl, answers, rfl, h₂, hrepeats⟩
    refine wp_attempt htime hcallback h₂ _ fun outcome q₃ h₃ => ?_
    cases hposted : posted outcome with
    | ok u => exact .posted h₃ hrepeats hposted (not_overflows (by simp [hposted]))
    | error exc =>
      cases exc with
      | app error => exact ⟨rfl, answers, outcome, rfl, h₃, hposted, hrepeats⟩
      | foreign name => exact .posted h₃ hrepeats hposted (not_overflows (by simp [hposted]))
  · -- the last one: not worth repeating, or no attempts left
    rintro k error attempts q₂ ⟨rfl, answers, last, rfl, h₂, hposted, hrepeats⟩ hend
    refine .posted h₂ hrepeats hposted ?_
    rintro ⟨⟨error', herror, hretry⟩, -, hmore⟩
    cases hposted.symm.trans herror
    rcases hend with hend | hend
    · exact Bool.false_ne_true (hend.symm.trans hretry)
    · exact absurd hmore (not_lt.mpr (by exact_mod_cast hend))
  · -- the wait before another: it is told the error, which brings no advice
    rintro k error attempts q₂ ⟨rfl, answers, last, rfl, h₂, hposted, hrepeats⟩ hretry hmore
    have hnone := (posted_eq_app hposted).2
    have hlast : last.Retried := ⟨error, hposted, hretry⟩
    refine awp_servicePause (hwaits _) h₂ (fun hwait again q₃ h₃ => ?_) fun hwait name q₃ h₃ => ?_
    · cases again with
      | false =>
        exact .posted h₃ hrepeats hposted fun hover => hwait (.inr ⟨hnone, hover.2.1⟩)
      | true => exact ⟨rfl, answers ++ [last], List.length_append, h₃, hrepeats.snoc hlast hmore⟩
    · rcases hwait with hnan | ⟨-, hlarge⟩
      · cases hnone.symm.trans hnan
      · exact ⟨answers, last, _, h₃, hrepeats,
          .inr ⟨⟨hlast, hlarge, by exact_mod_cast hmore⟩, name, rfl⟩, rfl⟩

end

/-- The same for an invariant that does not depend on the answers: the number of attempts is
returned, or in the details of what is raised. -/
theorem awp_deliver {env : Environment} {settings : Settings} {url : String}
    {payload : WebhookPayload} {I : Q → Prop}
    (hkeeps : Keeps A (DeliversTo env settings url payload) I) {q : Q} (hI : I q) :
    Async.awp A ((webhookService env settings).deliver url payload)
      (fun attempts q' => I q' ∧ 1 ≤ attempts)
      (fun exc q' => I q' ∧ ∀ error, exc = .app error → error.cls = .webhookDeliveryFailed →
        1 ≤ attemptsIn error.details) q := by
  refine Prog.wp_mono ?_ (wp_deliver (I := fun _ => I) (fun _ op hop => hkeeps op (.waits hop))
    (fun _ op hop => hop ▸ hkeeps .time .time)
    (fun _ q₁ timestamp => hkeeps _ (.callback timestamp) q₁) hI)
  rintro r q' ⟨answers, last, outcome, h', hends, rfl, -, -⟩
  have hpos : (1 : ℤ) ≤ (answers.length + 1 : ℕ) := Int.ofNat_le.mpr (Nat.succ_pos _)
  cases outcome with
  | ok u => exact ⟨h', hpos⟩
  | error exc =>
    cases exc with
    | foreign name => exact ⟨h', by rintro _ ⟨⟩⟩
    | app error =>
      -- the number of attempts is put into the details
      simp only [WebhookService.delivered, if_pos hends.cls_eq]
      refine ⟨h', ?_⟩
      rintro _ ⟨⟩ _
      simp only [attemptsIn, lookup_setItem]
      exact hpos

theorem deliver_only (env : Environment) (settings : Settings) (url : String)
    (payload : WebhookPayload) : ((webhookService env settings).deliver url payload).run.Only
      (DeliversTo env settings url payload) := by
  have hkeeps : Keeps (Protocol.permits (DeliversTo env settings url payload))
      (DeliversTo env settings url payload) fun _ => True :=
    fun op hop _ _ => ⟨hop, fun _ _ _ => trivial⟩
  exact Async.only_of_awp
    (Async.awp_mono (fun _ _ _ => trivial) (fun _ _ _ => trivial) (awp_deliver hkeeps trivial))

/-- The requests of `_deliver`. -/
inductive Reports : Op → Prop where
  | delivers {op : Op} : Delivers op → Reports op
  | utcNow : Reports .utcNow
  | updateJob (jobId : String) (fields : List JobField) : Reports (.updateJob jobId fields)

theorem update_only (env : Environment) (settings : Settings) (jobId : String)
    (fields : List JobField) :
    ((jobsOf env settings).jobs.update jobId fields).run.Only Reports :=
  Prog.Only.map _ ⟨Reports.updateJob jobId fields, fun _ => trivial⟩

theorem deliverResult_only (env : Environment) (settings : Settings) (jobId url : String)
    (payload : WebhookPayload) :
    ((jobsOf env settings).deliverResult jobId url payload).run.Only Reports := by
  refine JobService.only_deliverResult ?_ ⟨.utcNow, fun _ => trivial⟩
    (update_only env settings jobId)
  exact (deliver_only env settings url payload).mono fun _ h => .delivers h.delivers

/-- What `_deliver` writes to the row. -/
inductive DeliveryFields : List JobField → Prop where
  | delivered (attempts : ℤ) (now : ℚ) :
    DeliveryFields [.deliveryAttempts attempts, .deliveredAt now]
  | gaveUp (attempts : ℤ) : DeliveryFields [.deliveryAttempts attempts]

/-- **The delivery of a result**, for a property that it keeps: nothing that happens to it is a
setback. -/
theorem awp_deliverResult_keeps {env : Environment} {settings : Settings} {jobId url : String}
    {payload : WebhookPayload} {I : Q → Prop} {q : Q}
    (hdeliver : Async.awp A ((webhookService env settings).deliver url payload)
      (fun _ => I) (fun _ => I) q)
    (hutcNow : Keeps A (· = .utcNow) I)
    (hupdate : ∀ fields, DeliveryFields fields → ∀ q, I q →
      Async.awp A ((jobsOf env settings).jobs.update jobId fields) (fun _ => I) (fun _ => I) q) :
    Async.awp A ((jobsOf env settings).deliverResult jobId url payload)
      (fun _ => I) (fun _ => I) q := by
  simp only [JobService.deliverResult, Async.awp_tryCatch, Async.awp_bind, Async.awp_lift]
  refine Async.awp_mono (fun attempts q₁ h₁ => ?_) ?_ hdeliver
  · obtain ⟨hallows, hnext⟩ := hutcNow _ rfl q₁ h₁
    refine ⟨hallows, fun now q₂ h₂ => ?_⟩
    refine Async.awp_mono (fun _ _ h => h) ?_
      (hupdate _ (.delivered attempts now) q₂ (hnext now q₂ h₂))
    rintro (error | name) q₃ h₃
    · simp only
      split
      · exact hupdate _ (.gaveUp _) q₃ h₃
      · exact h₃
    · exact h₃
  · rintro (error | name) q₁ h₁
    · simp only
      split
      · exact hupdate _ (.gaveUp _) q₁ h₁
      · exact h₁
    · exact h₁

/-! ## Authentication and the rate limit -/

theorem awp_authenticate (env : Environment) (settings : Settings) (rawKey : Option String)
    (ok : Caller → Q → Prop) (err : Exc → Q → Prop) (q : Q) :
    Async.awp A (authenticate env settings rawKey) ok err q ↔
      match rawKey.filter (· ≠ "") with
      | none =>
        if settings.requireApiKey then err (.app (.new .missingCredentials)) q
        else ok anonymous q
      | some key =>
        A.allows q (.findByHash (env.hashApiKey key)) ∧
          ∀ r q₁, A.next q (.findByHash (env.hashApiKey key)) r q₁ → match r with
            | .ok (some caller) => ok caller q₁
            | .ok none => err (.app (.new .invalidCredentials)) q₁
            | .error name => err (.foreign name) q₁ := by
  rw [authenticate]
  cases rawKey.filter (· ≠ "") with
  | none =>
    by_cases hrequired : settings.requireApiKey = true
    · simp only [if_pos hrequired, Async.awp_throw]
    · simp only [if_neg hrequired, Async.awp_pure]
  | some key =>
    simp only [stored, Async.awp_bind, Async.awp_mk, Prog.wp_map]
    refine and_congr_right fun _ => forall_congr' fun r => forall_congr' fun q₁ =>
      imp_congr_right fun _ => ?_
    rcases r with name | (_ | caller) <;> rfl

theorem awp_enforceRateLimit (settings : Settings) (caller : Caller)
    (ok : List (String × String) → Q → Prop) (err : Exc → Q → Prop) (q : Q) :
    Async.awp A (enforceRateLimit settings caller) ok err q ↔
      if settings.rateLimitEnabled then
        A.allows q (.check caller.id) ∧ ∀ r q₁, A.next q (.check caller.id) r q₁ → match r with
          | .ok decision =>
            if decision.allowed then ok (rateLimitHeaders decision) q₁
            else err (.app (rateLimitExceeded decision)) q₁
          | .error exc => err exc q₁
      else ok [] q := by
  rw [enforceRateLimit]
  by_cases henabled : settings.rateLimitEnabled = true
  · simp only [if_pos henabled, Async.awp_bind, Async.awp_mk]
    refine and_congr_right fun _ => forall_congr' fun r => forall_congr' fun q₁ =>
      imp_congr_right fun _ => ?_
    rcases r with exc | decision
    · rfl
    · simp only [Prog.wp_ret]
      by_cases hallowed : decision.allowed = true
      · rw [if_pos hallowed, if_pos hallowed]
        rfl
      · rw [if_neg hallowed, if_neg hallowed]
        rfl
  · rw [if_neg henabled, if_neg henabled]
    rfl

/-- **The gate** of a route keeps what a check keeps, whether it opens or not. -/
theorem awp_gate {settings : Settings} {route : Route} {caller : Caller} {I : Q → Prop}
    (hcheck : Keeps A (· = .check caller.id) I) {q : Q} (h : I q) :
    Async.awp A (if route.limited then enforceRateLimit settings caller else pure [])
      (fun _ => I) (fun _ => I) q := by
  split
  · rw [awp_enforceRateLimit]
    split
    · obtain ⟨hallows, hnext⟩ := hcheck (.check caller.id) rfl q h
      refine ⟨hallows, fun r q₁ h₁ => ?_⟩
      have hchecked := hnext r q₁ h₁
      rcases r with exc | decision
      · exact hchecked
      · simp only
        split <;> exact hchecked
    · exact h
  · exact h

/-! ## A request -/

/-- What a protocol says of how a request ends: after a commit that succeeded, after any rollback,
and after the answer to an error, it is `Done`. -/
structure Closes (A : Protocol Service Q) (Done : Q → Prop) : Prop where
  commit : ∀ q, A.allows q .commit ∧ ∀ q', A.next q .commit (.ok ()) q' → Done q'
  rollback : ∀ q, A.allows q .rollback ∧ ∀ r q', A.next q .rollback r q' → Done q'
  answer : ∀ lib collected exc q, Done q → A.allows q (.respond (errorReply lib collected exc)) ∧
    ∀ u q', A.next q (.respond (errorReply lib collected exc)) u q' → Done q'

variable {Done : Q → Prop}

/-- The end of a request that was answered. -/
theorem wp_finish {background : Async Service Exc Unit} (hcloses : Closes A Done) {q : Q}
    (hbackground : Async.awp A background (fun _ _ => True) (fun _ _ => True) q) :
    (finish background).wp A (fun _ => Done) q := by
  have hrollback : ∀ q', (do let _ ← Op.rollback.request : Prog Service Unit).wp A
      (fun _ => Done) q' := fun q' => hcloses.rollback q'
  rw [finish, Prog.wp_bind]
  refine Prog.wp_mono ?_ hbackground
  rintro (exc | ⟨⟩) q' _
  · exact hrollback q'
  · obtain ⟨hallows, hnext⟩ := hcloses.commit q'
    refine ⟨hallows, ?_⟩
    rintro (name | ⟨⟩) q'' hq''
    · exact hrollback q''
    · exact hnext q'' hq''

/-- The end of a request that raised. -/
theorem wp_fail (hcloses : Closes A Done) (lib : Libraries) (collected : List (String × String))
    (exc : Exc) (q : Q) : (fail lib collected exc).wp A (fun _ => Done) q := by
  obtain ⟨hallows, hnext⟩ := hcloses.rollback q
  exact ⟨hallows, fun r q' hq' => hcloses.answer lib collected exc q' (hnext r q' hq')⟩

theorem awp_serialized (lib : Libraries) (answer : Answer) (ok : Answer → Q → Prop)
    (err : Exc → Q → Prop) (q : Q) :
    Async.awp A (serialized lib answer) ok err q ↔
      if answer.body.renders lib then ok answer q else err (.foreign "UnicodeEncodeError") q := by
  rw [serialized]
  by_cases h : answer.body.renders lib = true
  · rw [if_pos h, if_pos h, Async.awp_pure]
  · rw [if_neg h, if_neg h, Async.awp_throw]

/-- What an endpoint returns is rendered, or is a bug. -/
theorem awp_endpoint_serialized {env : Environment} {settings : Settings} {caller : Caller}
    {route : Route} {ok : Answer → Q → Prop} {err : Exc → Q → Prop} {q : Q}
    (h : Async.awp A (endpoint env settings caller route)
      (fun answer q' => if answer.body.renders env.toLibraries then ok answer q'
        else err (.foreign "UnicodeEncodeError") q') err q) :
    Async.awp A (endpoint env settings caller route >>= serialized env.toLibraries) ok err q := by
  rw [Async.awp_bind]
  exact Async.awp_mono (fun answer q' h' => (awp_serialized ..).mpr h') (fun _ _ h => h) h

/-- Rendering makes no difference where a bug is no worse than an answer. -/
theorem awp_serialized_of {env : Environment} {settings : Settings} {caller : Caller}
    {route : Route} {ok : Answer → Q → Prop} {err : Exc → Q → Prop} {q : Q}
    (hbug : ∀ answer q', ok answer q' → err (.foreign "UnicodeEncodeError") q')
    (h : Async.awp A (endpoint env settings caller route) ok err q) :
    Async.awp A (endpoint env settings caller route >>= serialized env.toLibraries) ok err q := by
  refine awp_endpoint_serialized (Async.awp_mono (fun answer q' h' => ?_) (fun _ _ h => h) h)
  split
  · exact h'
  · exact hbug answer q' h'

/-- **A request**: the rate limit, the endpoint, the answer, the background task. -/
theorem wp_serve {env : Environment} {settings : Settings} {route : Route} {caller : Caller}
    (hcloses : Closes A Done) {Limited : Q → Prop} {q : Q}
    (hlimit : Async.awp A (if route.limited then enforceRateLimit settings caller else pure [])
      (fun _ q' => Limited q') (fun _ _ => True) q)
    (hendpoint : ∀ q₁, Limited q₁ → Async.awp A (endpoint env settings caller route)
      (fun answer q₂ => ∀ collected,
        A.allows q₂ (.respond ⟨answer.statusCode, collected, answer.body⟩) ∧
        ∀ u q₃, A.next q₂ (.respond ⟨answer.statusCode, collected, answer.body⟩) u q₃ →
          Async.awp A answer.background (fun _ _ => True) (fun _ _ => True) q₃)
      (fun _ _ => True) q₁) :
    (serve env settings route caller).wp A (fun _ => Done) q := by
  have hserialized : ∀ q₁, Limited q₁ → Async.awp A
      (endpoint env settings caller route >>= serialized env.toLibraries)
      (fun answer q₂ => ∀ collected,
        A.allows q₂ (.respond ⟨answer.statusCode, collected, answer.body⟩) ∧
        ∀ u q₃, A.next q₂ (.respond ⟨answer.statusCode, collected, answer.body⟩) u q₃ →
          Async.awp A answer.background (fun _ _ => True) (fun _ _ => True) q₃)
      (fun _ _ => True) q₁ := by
    intro q₁ h₁
    refine awp_endpoint_serialized
      (Async.awp_mono (fun answer q₂ h₂ => ?_) (fun _ _ h => h) (hendpoint q₁ h₁))
    split
    · exact h₂
    · trivial
  rw [serve, Prog.wp_bind]
  refine Prog.wp_mono ?_ hlimit
  rintro (exc | collected) q₁ h₁
  · exact wp_fail hcloses _ [] exc q₁
  · rw [Prog.wp_bind]
    refine Prog.wp_mono ?_ (hserialized q₁ h₁)
    rintro (exc | answer) q₂ h₂
    · exact wp_fail hcloses _ collected exc q₂
    · obtain ⟨hrespond, hnext⟩ := h₂ collected
      exact ⟨hrespond, fun u q₃ h₃ => wp_finish hcloses (hnext u q₃ h₃)⟩

/-- What a request still does once its work is done, or has failed. -/
inductive Concluding : Op → Prop where
  | commit : Concluding .commit
  | rollback : Concluding .rollback
  | answer (lib : Libraries) (collected : List (String × String)) (exc : Exc) :
    Concluding (.respond (errorReply lib collected exc))

/-- **A request, for a property that its end keeps**: it holds at the end if it holds wherever the
rate limit, the endpoint or the background task stops. What the endpoint returns may turn out not
to be renderable. -/
theorem wp_serve_keeps {env : Environment} {settings : Settings} {route : Route} {caller : Caller}
    {I Limited : Q → Prop} (hends : Keeps A Concluding I) {q : Q}
    (hlimit : Async.awp A (if route.limited then enforceRateLimit settings caller else pure [])
      (fun _ => Limited) (fun _ => I) q)
    (hendpoint : ∀ q₁, Limited q₁ → Async.awp A (endpoint env settings caller route)
      (fun answer q₂ => (∀ collected,
        A.allows q₂ (.respond ⟨answer.statusCode, collected, answer.body⟩) ∧
        ∀ u q₃, A.next q₂ (.respond ⟨answer.statusCode, collected, answer.body⟩) u q₃ →
          Async.awp A answer.background (fun _ => I) (fun _ => I) q₃) ∧
        (answer.body.renders env.toLibraries = false → I q₂))
      (fun _ => I) q₁) :
    (serve env settings route caller).wp A (fun _ => I) q := by
  have hrollback : ∀ q', I q' → (do let _ ← Op.rollback.request : Prog Service Unit).wp A
      (fun _ => I) q' := fun q' => hends .rollback .rollback q'
  have hfail : ∀ lib collected exc q', I q' →
      (fail lib collected exc).wp A (fun _ => I) q' := by
    intro lib collected exc q' h'
    obtain ⟨hallows, hnext⟩ := hends .rollback .rollback q' h'
    exact ⟨hallows, fun r q₁ h₁ => hends _ (.answer lib collected exc) q₁ (hnext r q₁ h₁)⟩
  have hfinish : ∀ {background q'}, Async.awp A background (fun _ => I) (fun _ => I) q' →
      (finish background).wp A (fun _ => I) q' := by
    intro background q' hbackground
    rw [finish, Prog.wp_bind]
    refine Prog.wp_mono ?_ hbackground
    rintro (exc | ⟨⟩) q₁ h₁
    · exact hrollback q₁ h₁
    · obtain ⟨hcommit, hnext⟩ := hends .commit .commit q₁ h₁
      refine ⟨hcommit, ?_⟩
      rintro (name | ⟨⟩) q₂ h₂
      · exact hrollback q₂ (hnext _ q₂ h₂)
      · exact hnext _ q₂ h₂
  have hserialized : ∀ q₁, Limited q₁ → Async.awp A
      (endpoint env settings caller route >>= serialized env.toLibraries)
      (fun answer q₂ => ∀ collected,
        A.allows q₂ (.respond ⟨answer.statusCode, collected, answer.body⟩) ∧
        ∀ u q₃, A.next q₂ (.respond ⟨answer.statusCode, collected, answer.body⟩) u q₃ →
          Async.awp A answer.background (fun _ => I) (fun _ => I) q₃)
      (fun _ => I) q₁ := by
    intro q₁ h₁
    refine awp_endpoint_serialized
      (Async.awp_mono (fun answer q₂ h₂ => ?_) (fun _ _ h => h) (hendpoint q₁ h₁))
    split
    · exact h₂.1
    · next hrenders => exact h₂.2 (Bool.eq_false_iff.mpr hrenders)
  rw [serve, Prog.wp_bind]
  refine Prog.wp_mono ?_ hlimit
  rintro (exc | collected) q₁ h₁
  · exact hfail _ [] exc q₁ h₁
  · rw [Prog.wp_bind]
    refine Prog.wp_mono ?_ (hserialized q₁ h₁)
    rintro (exc | answer) q₂ h₂
    · exact hfail _ collected exc q₂ h₂
    · obtain ⟨hrespond, hnext⟩ := h₂ collected
      exact ⟨hrespond, fun u q₃ h₃ => hfinish (hnext u q₃ h₃)⟩

/-! ## From one attempt to a request -/

/-- The requests of one attempt. -/
inductive Attempts : Op → Prop where
  | beforeCall : Attempts .beforeCall
  | recordSuccess : Attempts .recordSuccess
  | recordFailure : Attempts .recordFailure
  | post (payload : UpstreamPayload) : Attempts (.post payload)
  | answer : Attempts .answer

section

variable {env : Environment} {settings : Settings} {I : Q → Prop}
  (hothers : Keeps A (¬Attempts ·) I)

include hothers

/-- The rate limit keeps what is kept by everything that is no part of an attempt. -/
theorem awp_enforceRateLimit_keeps {caller : Caller} {q : Q} (h : I q) :
    Async.awp A (enforceRateLimit settings caller) (fun _ => I) (fun _ => I) q := by
  rw [awp_enforceRateLimit]
  split
  · obtain ⟨hallows, hnext⟩ := hothers (.check caller.id) (by rintro ⟨⟩) q h
    refine ⟨hallows, fun r q₁ h₁ => ?_⟩
    have hchecked := hnext r q₁ h₁
    rcases r with exc | decision
    · exact hchecked
    · simp only
      split <;> exact hchecked
  · exact h

variable
  (hattempt : ∀ payload model q, I q →
    Async.awp A ((completionService env settings).guardedCall payload model)
      (fun _ => I) (fun _ => I) q)

include hattempt

/-- A completion keeps what an attempt and everything that is no part of one keep. -/
theorem awp_complete_keeps {request : CompletionRequest} {caller : Caller} {q : Q} (h : I q) :
    Async.awp A ((completionService env settings).complete request caller)
      (fun _ => I) (fun _ => I) q := by
  have hwaits : Keeps A Waits I := fun op hop => hothers op (by cases hop <;> rintro ⟨⟩)
  have hrecord : ∀ model statusCode started usage q, I q → Async.awp A
      ((completionService env settings).recordUsage caller model statusCode started usage)
      (fun _ => I) (fun _ => I) q := by
    intro model statusCode started usage q h
    rw [awp_recordUsage]
    obtain ⟨hallows, hnext⟩ := hwaits _ .monotonic q h
    refine ⟨hallows, fun now q₁ h₁ => ?_⟩
    exact hothers (.record _) (by rintro ⟨⟩) q₁ (hnext now q₁ h₁)
  have hattempts : ∀ q, I q → Async.awp A ((completionService env settings).retry.run
      ((completionService env settings).guardedCall
        ((completionService env settings).payloadFor request)
        ((completionService env settings).modelFor request))) (fun _ => I) (fun _ => I) q := by
    intro q h
    refine RetryPolicy.awp_run (fun _ => I) (fun _ _ => I) (hwaits _ .monotonic q h)
      (fun k q h => ?_) (fun _ _ _ h _ => h) (fun started k error q h _ _ => ?_)
    · refine Async.awp_mono (fun _ _ h => h) ?_ (hattempt _ _ q h)
      rintro (error | name) q' h' <;> exact h'
    · refine awp_servicePause hwaits h (fun _ again q' h' => ?_) fun _ _ q' h' => h'
      cases again <;> exact h'
  rw [awp_complete]
  obtain ⟨hallows, hnext⟩ := hwaits _ .monotonic q h
  refine ⟨hallows, fun started q₁ h₁ => ?_⟩
  refine Async.awp_mono (fun response q₂ h₂ => hrecord _ _ _ _ q₂ h₂) ?_
    (hattempts q₁ (hnext started q₁ h₁))
  rintro (error | name) q₂ h₂
  · exact hrecord _ _ _ _ q₂ h₂
  · exact h₂

/-- So does the background half of a job. -/
theorem awp_run_keeps {id : String} {request : JobRequest} {caller : Caller} {q : Q} (h : I q) :
    Async.awp A ((jobsOf env settings).run id request caller) (fun _ => I) (fun _ => I) q := by
  have hreports : ∀ op, Reports op → ¬Attempts op := by
    rintro op (⟨⟨⟨⟩⟩⟩ | _ | _) ⟨⟩
  have hupdate : ∀ fields q, I q → Async.awp A ((jobsOf env settings).jobs.update id fields)
      (fun _ => I) (fun _ => I) q := fun fields q h =>
    Async.awp_of_only (update_only env settings id fields)
      (fun op hop => hothers op (hreports op hop)) h
  have hexecute : ∀ q, I q → Async.awp A ((jobsOf env settings).execute id request caller)
      (fun _ => I) (fun _ => I) q := by
    intro q h
    simp only [JobService.execute, JobService.catchAppError, Async.awp_bind, Async.awp_tryCatch,
      Async.awp_map]
    refine Async.awp_mono (fun completion q₁ h₁ => ?_) ?_ (awp_complete_keeps hothers hattempt h)
    · exact Async.awp_mono (fun _ _ h => h) (fun _ _ h => h) (hupdate _ q₁ h₁)
    · rintro (error | name) q₁ h₁
      · simp only [Async.awp_pure, Async.awp_bind]
        exact Async.awp_mono (fun _ _ h => h) (fun _ _ h => h) (hupdate _ q₁ h₁)
      · exact h₁
  simp only [JobService.run, Async.awp_bind]
  refine Async.awp_mono (fun _ q₁ h₁ => ?_) (fun _ _ h => h) (hupdate _ q h)
  refine Async.awp_mono (fun payload q₂ h₂ => ?_) (fun _ _ h => h) (hexecute q₁ h₁)
  exact Async.awp_of_only (deliverResult_only env settings id _ payload)
    (fun op hop => hothers op (hreports op hop)) h₂

/-- **So does a request.** -/
theorem wp_serve_of_attempt {route : Route} {caller : Caller} {q : Q} (h : I q) :
    (serve env settings route caller).wp A (fun _ => I) q := by
  have hlimit : Async.awp A (if route.limited then enforceRateLimit settings caller else pure [])
      (fun _ => I) (fun _ => I) q :=
    awp_gate (fun op hop => hothers op (hop ▸ by rintro ⟨⟩)) h
  have hrespond : ∀ reply q, I q → A.allows q (.respond reply) ∧
      ∀ u q', A.next q (.respond reply) u q' → I q' := fun reply =>
    hothers (.respond reply) (by rintro ⟨⟩)
  refine wp_serve_keeps (fun op hop => hothers op (by cases hop <;> rintro ⟨⟩)) hlimit
    fun q₁ h₁ => ?_
  cases route with
  | complete payload =>
    simp only [endpoint, Async.awp_bind, Async.awp_pure]
    refine Async.awp_mono ?_ (fun _ _ h => h) (awp_complete_keeps hothers hattempt h₁)
    exact fun completion q₂ h₂ => ⟨fun collected => hrespond _ q₂ h₂, fun _ => h₂⟩
  | submit payload =>
    simp only [endpoint, JobService.accept, jobsOf, stored, Async.awp_bind, Async.awp_lift,
      Async.awp_mk, Async.awp_pure, Prog.wp_map]
    obtain ⟨hallows, hnext⟩ := hothers .tokenHex (by rintro ⟨⟩) q₁ h₁
    refine ⟨hallows, fun id q₂ h₂ => ?_⟩
    obtain ⟨hallows', hnext'⟩ := hothers (.createJob _) (by rintro ⟨⟩) q₂ (hnext id q₂ h₂)
    refine ⟨hallows', fun r q₃ h₃ => ?_⟩
    have hcreated := hnext' r q₃ h₃
    rcases r with name | ⟨⟩
    · exact hcreated
    · refine ⟨fun collected => ?_, fun _ => hcreated⟩
      obtain ⟨hanswer, hthen⟩ := hrespond _ q₃ hcreated
      exact ⟨hanswer, fun u q₄ h₄ => awp_run_keeps hothers hattempt (hthen u q₄ h₄)⟩
  | «show» jobId =>
    simp only [endpoint, JobService.get, jobsOf, stored, Async.awp_bind, Async.awp_mk,
      Async.awp_pure, Prog.wp_map]
    obtain ⟨hallows, hnext⟩ := hothers (.getJob jobId caller.id) (by rintro ⟨⟩) q₁ h₁
    refine ⟨hallows, fun r q₂ h₂ => ?_⟩
    have hread := hnext r q₂ h₂
    rcases r with name | (_ | view)
    · exact hread
    · exact hread
    · refine ⟨fun collected => ?_, fun _ => hread⟩
      obtain ⟨hanswer, hthen⟩ := hrespond _ q₂ hread
      exact ⟨hanswer, fun u q₃ h₃ => hthen u q₃ h₃⟩

end

end PrdApiWrapper
