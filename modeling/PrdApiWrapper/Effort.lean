import PrdApiWrapper.Cost
import PrdApiWrapper.Replies

/-!
# What a request can cost

A bound on everything a request asks of its surroundings, whatever the provider, the callback and
the database answer. A `Tariff` prices the kinds of requests of the interface; the bounds are stated
for every tariff, so with one price at one and the rest at nothing they count one kind. How often
the provider and the callback are asked depends on the attempts configured; how often the database
is asked does not.
-/

namespace PrdApiWrapper

open Interaction

/-! ## Prices -/

/-- What each kind of request costs. -/
structure Tariff where
  /-- reading a clock, drawing a jitter, sleeping -/
  wait : ℕ
  /-- a call of the breaker -/
  breaker : ℕ
  /-- either half of a POST to the provider -/
  provider : ℕ
  /-- a statement of a repository -/
  storage : ℕ
  /-- the end of a request's session -/
  session : ℕ
  limiter : ℕ
  callback : ℕ
  id : ℕ
  answer : ℕ

/-- The price of a request. -/
def Tariff.price (tariff : Tariff) : Op → ℕ
  | .monotonic | .jitter | .sleep _ | .time | .utcNow => tariff.wait
  | .beforeCall | .recordSuccess | .recordFailure => tariff.breaker
  | .post _ | .answer => tariff.provider
  | .record _ | .createJob _ | .updateJob _ _ | .getJob _ _ | .findByHash _ => tariff.storage
  | .commit | .rollback => tariff.session
  | .check _ => tariff.limiter
  | .callback _ => tariff.callback
  | .tokenHex => tariff.id
  | .respond _ => tariff.answer

/-- Everything costs one. -/
def Tariff.steps : Tariff := ⟨1, 1, 1, 1, 1, 1, 1, 1, 1⟩

/-- Only the statements of repositories cost. -/
def Tariff.statements : Tariff := ⟨0, 0, 0, 1, 0, 0, 0, 0, 0⟩

/-- The attempts a policy makes at most: it makes one whatever is configured. -/
def attemptsOf (maxAttempts : ℤ) : ℕ := (max 1 maxAttempts).toNat

/-- What a completion costs at most. -/
def completionCost (tariff : Tariff) (settings : Settings) : ℕ :=
  attemptsOf settings.retryMaxAttempts *
    (2 * tariff.breaker + 2 * tariff.provider + 3 * tariff.wait) + tariff.storage

/-- What the delivery of a result costs at most, the update of its row included. -/
def deliveryCost (tariff : Tariff) (settings : Settings) : ℕ :=
  attemptsOf settings.webhookMaxAttempts * (tariff.callback + 4 * tariff.wait) + tariff.storage

/-- What an endpoint costs at most. -/
def endpointCost (tariff : Tariff) (settings : Settings) : Route → ℕ
  | .complete _ => completionCost tariff settings
  | .submit _ => tariff.id + tariff.storage
  | .show _ => tariff.storage

/-- What its background task costs at most. -/
def backgroundCost (tariff : Tariff) (settings : Settings) : Route → ℕ
  | .submit _ =>
    2 * tariff.storage + completionCost tariff settings + deliveryCost tariff settings
  | _ => 0

/-- What a request costs at most. -/
def requestCost (tariff : Tariff) (settings : Settings) : Submission → ℕ
  | .valid route => tariff.storage + (if route.limited then tariff.limiter else 0) +
      endpointCost tariff settings route +
      (tariff.answer + backgroundCost tariff settings route + 2 * tariff.session)
  | .invalid _ => tariff.storage + tariff.limiter + (tariff.answer + tariff.session)
  | .undecoded _ => tariff.answer

/-! ## Retries -/

namespace RetryPolicy

variable {S : Effects} {weight : S.Op → ℕ} {α σ : Type} {policy : RetryPolicy S} {a b c : ℕ}

/-- `n` attempts, and a pause between each two. -/
def costOf (a b n : ℕ) : ℕ := n * a + (n - 1) * b

theorem costOf_succ (a b n : ℕ) (hn : 0 < n) : costOf a b (n + 1) = a + (b + costOf a b n) := by
  obtain ⟨n, rfl⟩ := Nat.exists_eq_succ_of_ne_zero hn.ne'
  simp only [costOf, Nat.succ_eq_add_one, Nat.add_sub_cancel]
  ring

/-- With a pause after the last attempt as well, every attempt has one. -/
theorem costOf_add (a b n : ℕ) (hn : 0 < n) : costOf a b n + b = n * (a + b) := by
  obtain ⟨n, rfl⟩ := Nat.exists_eq_succ_of_ne_zero hn.ne'
  simp only [costOf, Nat.succ_eq_add_one, Nat.add_sub_cancel]
  ring

theorem attemptsOf_pos (maxAttempts : ℤ) : 0 < attemptsOf maxAttempts := by
  unfold attemptsOf
  omega

/-- A loop makes the attempts that are left, with a pause between each two. -/
theorem within_loop {operation : σ → Prog S (Except Exc α × σ)} {started : ℚ}
    (hoperation : ∀ vars, (operation vars).Within weight a)
    (hpause : ∀ attempt error, (policy.pause started attempt error).run.Within weight b) :
    ∀ (k : ℕ) vars, (policy.loop operation started k vars).Within weight
      (costOf a b (attemptsOf (policy.maxAttempts - k))) := by
  intro k
  -- the attempts left decrease
  induction hleft : (policy.maxAttempts - k).toNat using Nat.strong_induction_on generalizing k with
  | _ left ih =>
    intro vars
    by_cases hlast : policy.maxAttempts ≤ k + 1
    · have hone : attemptsOf (policy.maxAttempts - k) = 1 := by
        unfold attemptsOf
        omega
      rw [hone, loop, costOf, Nat.one_mul, Nat.sub_self, Nat.zero_mul]
      refine (hoperation vars).bind ?_
      rintro ⟨(error | name) | result, vars'⟩
      · simp only [dif_pos (Or.inr hlast : error.retryable = false ∨ _)]
        trivial
      · trivial
      · trivial
    · have hsucc : attemptsOf (policy.maxAttempts - k) =
          attemptsOf (policy.maxAttempts - (k + 1 : ℕ)) + 1 := by
        unfold attemptsOf
        push_cast
        omega
      rw [hsucc, costOf_succ a b _ (attemptsOf_pos _), loop]
      refine (hoperation vars).bind ?_
      rintro ⟨(error | name) | result, vars'⟩
      · by_cases hend : error.retryable = false ∨ policy.maxAttempts ≤ k + 1
        · simp only [dif_pos hend]
          trivial
        · simp only [dif_neg hend]
          refine (hpause (k + 1) error).bind ?_
          rintro (exc | _ | _)
          · trivial
          · trivial
          · exact ih _ (by omega) (k + 1) rfl vars'
      · trivial
      · trivial

/-- A run reads the clock and loops. -/
theorem within_runWith {operation : σ → Prog S (Except Exc α × σ)} (vars : σ)
    (hclock : policy.clock.Within weight c) (hoperation : ∀ vars, (operation vars).Within weight a)
    (hpause : ∀ started attempt error,
      (policy.pause started attempt error).run.Within weight b) :
    (policy.runWith operation vars).Within weight
      (c + costOf a b (attemptsOf policy.maxAttempts)) := by
  refine hclock.bind fun started => ?_
  have hloop := within_loop hoperation (hpause started) 0 vars
  rwa [Nat.cast_zero, sub_zero] at hloop

end RetryPolicy

/-! ## The parts of a request -/

section

variable (env : Environment) (settings : Settings) (tariff : Tariff)

/-- A pause draws a jitter, reads the clock and sleeps. -/
theorem pause_within (maxAttempts : ℤ) (started : ℚ) (attempt : ℕ) (error : AppError) :
    ((retryPolicy settings maxAttempts).pause started attempt error).run.Within tariff.price
      (3 * tariff.wait) := by
  have hsleep : ∀ delay, (asyncioSleep delay).run.Within tariff.price tariff.wait := by
    intro delay
    unfold asyncioSleep
    split
    · trivial
    · exact (Prog.within_perform (S := Service) (Op.sleep delay)).map _
  have hdelay : ((retryPolicy settings maxAttempts).delayFor attempt error.retryAfter).run.Within
      tariff.price tariff.wait := by
    cases error.retryAfter with
    | some seconds => trivial
    | none =>
      simp only [RetryPolicy.delayFor]
      split
      · trivial
      · exact ⟨le_rfl, fun _ => trivial⟩
  have hthree : 3 * tariff.wait = tariff.wait + (tariff.wait + tariff.wait) := by ring
  rw [hthree]
  refine Async.within_bind hdelay fun delay => ?_
  refine Async.within_bind ((Prog.within_perform (S := Service) Op.monotonic).map _) fun now => ?_
  split
  · trivial
  · have hdone : ∀ again : Bool, (pure again : Async Service Exc Bool).run.Within tariff.price 0 :=
      fun _ => trivial
    exact Async.within_bind (hsleep delay) fun _ => hdone true

/-- An attempt at a completion asks the breaker, makes a POST, and tells the breaker. -/
theorem guardedCall_within (payload : UpstreamPayload) (model : String) :
    ((completionService env settings).guardedCall payload model).run.Within tariff.price
      (2 * tariff.breaker + 2 * tariff.provider) := by
  refine Async.within_of_awp ((awp_guardedCall env settings payload model (fun _ _ => True)
    (fun _ _ => True) _).mpr ⟨?_, ?_⟩)
  · change tariff.breaker ≤ _
    omega
  · rintro (exc | ⟨⟩) q₁ hq₁
    · trivial
    · change q₁ = _ - tariff.breaker at hq₁
      refine ⟨?_, ?_⟩
      · change tariff.provider ≤ _
        omega
      · intro u q₂ hq₂
        change q₂ = _ - tariff.provider at hq₂
        refine ⟨?_, ?_⟩
        · change tariff.provider ≤ _
          omega
        · intro outcome q₃ hq₃
          change q₃ = _ - tariff.provider at hq₃
          have hlast : tariff.breaker ≤ q₃ := by omega
          rcases received env.toLibraries model outcome with (error | name) | response
          · simp only
            split
            · exact ⟨hlast, fun _ _ _ => trivial⟩
            · trivial
          · trivial
          · exact ⟨hlast, fun _ _ _ => trivial⟩

/-- A record is made at a time. -/
theorem recordUsage_within (caller : Caller) (model : String) (statusCode : ℤ) (started : ℚ)
    (usage : Option CompletionUsage) :
    ((completionService env settings).recordUsage caller model statusCode started
      usage).run.Within tariff.price (tariff.wait + tariff.storage) := by
  refine Async.within_of_awp ((awp_recordUsage env settings caller model statusCode started usage
    (fun _ _ => True) (fun _ _ => True) _).mpr ⟨Nat.le_add_right _ _, ?_⟩)
  rintro now _ rfl
  refine ⟨?_, fun _ _ _ => trivial⟩
  change tariff.storage ≤ tariff.wait + tariff.storage - tariff.wait
  omega

/-- A completion: its attempts, and one record. -/
theorem complete_within (request : CompletionRequest) (caller : Caller) :
    ((completionService env settings).complete request caller).run.Within tariff.price
      (completionCost tariff settings) := by
  have hattempts : ∀ payload model, ((completionService env settings).retry.run
      ((completionService env settings).guardedCall payload model)).run.Within tariff.price
      (tariff.wait + RetryPolicy.costOf (2 * tariff.breaker + 2 * tariff.provider)
        (3 * tariff.wait) (attemptsOf settings.retryMaxAttempts)) := fun payload model =>
    .map _ (RetryPolicy.within_runWith () (Prog.within_perform (S := Service) Op.monotonic)
      (fun _ => .map _ (guardedCall_within env settings tariff payload model))
      (pause_within settings tariff settings.retryMaxAttempts))
  have htotal := RetryPolicy.costOf_add (2 * tariff.breaker + 2 * tariff.provider)
    (3 * tariff.wait) _ (RetryPolicy.attemptsOf_pos settings.retryMaxAttempts)
  refine Async.within_of_awp ((awp_complete env settings request caller (fun _ _ => True)
    (fun _ _ => True) _).mpr ⟨?_, ?_⟩)
  · change tariff.wait ≤ completionCost tariff settings
    unfold completionCost
    omega
  · rintro started _ rfl
    change Async.awp _ _ _ _ (completionCost tariff settings - tariff.wait)
    have hrecord : ∀ model statusCode usage q, tariff.wait + tariff.storage ≤ q →
        Async.awp (Protocol.budget tariff.price) ((completionService env settings).recordUsage
          caller model statusCode started usage) (fun _ _ => True) (fun _ _ => True) q :=
      fun model statusCode usage q hq =>
        Async.awp_mono (fun _ _ _ => trivial) (fun _ _ _ => trivial)
          (Async.awp_of_within (n := 0)
            (recordUsage_within env settings tariff caller model statusCode started usage) hq)
    refine Async.awp_mono (fun response q hq => hrecord _ _ _ q hq) ?_
      (Async.awp_of_within (n := tariff.wait + tariff.storage) (hattempts _ _) ?_)
    · rintro (error | name) q hq
      · exact hrecord _ _ _ q hq
      · trivial
    · unfold completionCost
      omega

/-- A delivery: the time and a POST at each attempt. -/
theorem deliver_within (url : String) (payload : WebhookPayload) :
    ((webhookService env settings).deliver url payload).run.Within tariff.price
      (tariff.wait + RetryPolicy.costOf (tariff.wait + tariff.callback) (3 * tariff.wait)
        (attemptsOf settings.webhookMaxAttempts)) := by
  refine .map _ (RetryPolicy.within_runWith 0 (Prog.within_perform (S := Service) Op.monotonic)
    (fun attempts => ?_) (pause_within settings tariff settings.webhookMaxAttempts))
  have hpost : ((webhookService env settings).postOnce url
      (encode (env.dumpJson payload))).Within tariff.price (tariff.wait + tariff.callback) :=
    (Prog.within_perform (S := Service) Op.time).bind fun time =>
      .map _ (Prog.within_perform (S := Service) (Op.callback _))
  exact .map _ hpost

theorem update_within (jobId : String) (fields : List JobField) :
    ((jobsOf env settings).jobs.update jobId fields).run.Within tariff.price tariff.storage :=
  .map _ (.map _ (Prog.within_perform (S := Service) (Op.updateJob jobId fields)))

/-- The delivery of a result: the delivery, and one update of the row however it ends. -/
theorem deliverResult_within (jobId url : String) (payload : WebhookPayload) :
    ((jobsOf env settings).deliverResult jobId url payload).run.Within tariff.price
      (deliveryCost tariff settings) := by
  have htotal := RetryPolicy.costOf_add (tariff.wait + tariff.callback) (3 * tariff.wait) _
    (RetryPolicy.attemptsOf_pos settings.webhookMaxAttempts)
  have hcost : tariff.wait + RetryPolicy.costOf (tariff.wait + tariff.callback) (3 * tariff.wait)
      (attemptsOf settings.webhookMaxAttempts) + (tariff.wait + tariff.storage) ≤
      deliveryCost tariff settings := by
    have hprice : tariff.wait + tariff.callback + 3 * tariff.wait =
        tariff.callback + 4 * tariff.wait := by ring
    rw [hprice] at htotal
    unfold deliveryCost
    omega
  -- a repository raises nothing that is caught by name
  have hupdate : ∀ fields q (err : Exc → ℕ → Prop), tariff.storage ≤ q →
      (∀ name q', err (.foreign name) q') → Async.awp (Protocol.budget tariff.price)
        ((jobsOf env settings).jobs.update jobId fields) (fun _ _ => True) err q := by
    intro fields q err hq herr
    refine ⟨hq, ?_⟩
    rintro (name | ⟨⟩) _ _
    · exact herr name _
    · trivial
  refine Async.within_of_awp ?_
  simp only [JobService.deliverResult, Async.awp_tryCatch, Async.awp_bind, Async.awp_lift]
  refine Async.awp_mono ?_ ?_ (Async.awp_of_within
    (deliver_within env settings tariff url payload) hcost)
  · rintro attempts q hq
    refine ⟨(Nat.le_add_right _ _).trans hq, ?_⟩
    rintro now _ rfl
    exact hupdate _ _ _ (Nat.le_sub_of_add_le' hq) fun _ _ => trivial
  · rintro (error | name) q hq
    · by_cases hcls : error.cls = .webhookDeliveryFailed
      · simp only [if_pos hcls]
        exact hupdate _ _ _ ((Nat.le_add_left _ _).trans hq) fun _ _ => trivial
      · simp only [if_neg hcls]
        trivial
    · trivial

/-- The background half of a job: two updates of its row, the completion and the delivery. -/
theorem run_within (jobId : String) (request : JobRequest) (caller : Caller) :
    ((jobsOf env settings).run jobId request caller).run.Within tariff.price
      (2 * tariff.storage + completionCost tariff settings + deliveryCost tariff settings) := by
  have hexecute : ((jobsOf env settings).execute jobId request caller).run.Within tariff.price
      (completionCost tariff settings + tariff.storage) := by
    have hpayload : ∀ fields (payload : WebhookPayload),
        ((jobsOf env settings).jobs.update jobId fields >>= fun _ =>
          pure payload).run.Within tariff.price tariff.storage := fun fields payload =>
      Async.within_bind (n := 0) (update_within env settings tariff jobId fields) fun _ =>
        (trivial : Prog.Within _ (.ret _) 0)
    refine Async.within_bind (m := completionCost tariff settings) ?_ ?_
    · refine Async.within_tryCatch (n := 0) (Async.within_map _
        (complete_within env settings tariff request.completionRequest caller)) ?_
      rintro (error | name) <;> trivial
    · rintro (error | completion)
      · exact hpayload _ _
      · exact hpayload _ _
  have hsum : 2 * tariff.storage + completionCost tariff settings + deliveryCost tariff settings =
      tariff.storage + (completionCost tariff settings + tariff.storage +
        deliveryCost tariff settings) := by ring
  rw [hsum]
  refine Async.within_bind (update_within env settings tariff jobId _) fun _ => ?_
  exact Async.within_bind hexecute fun payload =>
    deliverResult_within env settings tariff jobId _ payload

theorem authenticate_within (rawKey : Option String) :
    (authenticate env settings rawKey).run.Within tariff.price tariff.storage := by
  refine Async.within_of_awp ((awp_authenticate env settings rawKey (fun _ _ => True)
    (fun _ _ => True) _).mpr ?_)
  cases rawKey.filter (· ≠ "") with
  | none =>
    simp only
    split <;> trivial
  | some key =>
    refine ⟨le_rfl, ?_⟩
    rintro (name | (_ | caller)) _ _ <;> trivial

theorem enforceRateLimit_within (caller : Caller) :
    (enforceRateLimit settings caller).run.Within tariff.price tariff.limiter := by
  refine Async.within_of_awp ((awp_enforceRateLimit settings caller (fun _ _ => True)
    (fun _ _ => True) _).mpr ?_)
  split
  · refine ⟨le_rfl, ?_⟩
    rintro (exc | decision) _ _
    · trivial
    · simp only
      split <;> trivial
  · trivial

/-- An endpoint, and what it leaves for after the answer. -/
theorem awp_endpoint_within (route : Route) (caller : Caller) {n q : ℕ}
    (hq : endpointCost tariff settings route + n ≤ q) :
    Async.awp (Protocol.budget tariff.price) (endpoint env settings caller route)
      (fun answer q' => n ≤ q' ∧
        answer.background.run.Within tariff.price (backgroundCost tariff settings route))
      (fun _ q' => n ≤ q') q := by
  have hnothing : (pure () : Async Service Exc Unit).run.Within tariff.price 0 := trivial
  cases route with
  | complete payload =>
    simp only [endpoint, Async.awp_bind, Async.awp_pure]
    exact Async.awp_mono (fun _ _ hq' => ⟨hq', hnothing⟩) (fun _ _ hq' => hq')
      (Async.awp_of_within (complete_within env settings tariff payload caller) hq)
  | submit payload =>
    have haccept : ((jobsOf env settings).accept payload caller
        (orElse payload.model settings.upstreamModel)).run.Within tariff.price
        (tariff.id + tariff.storage) := by
      refine Async.within_bind (.map _ (Prog.within_perform (S := Service) Op.tokenHex))
        fun id => Async.within_bind (n := 0) (.map _ (.map _
          (Prog.within_perform (S := Service) (Op.createJob _)))) fun _ => ?_
      trivial
    simp only [endpoint, Async.awp_bind, Async.awp_pure]
    exact Async.awp_mono (fun accepted _ hq' =>
        ⟨hq', run_within env settings tariff accepted.id payload caller⟩) (fun _ _ hq' => hq')
      (Async.awp_of_within haccept hq)
  | «show» jobId =>
    have hget : ((jobsOf env settings).get jobId caller).run.Within tariff.price
        tariff.storage := by
      refine Async.within_bind (n := 0) (.map _ (.map _
        (Prog.within_perform (S := Service) (Op.getJob jobId caller.id)))) ?_
      rintro (_ | view) <;> trivial
    simp only [endpoint, Async.awp_bind, Async.awp_pure]
    exact Async.awp_mono (fun _ _ hq' => ⟨hq', hnothing⟩) (fun _ _ hq' => hq')
      (Async.awp_of_within hget hq)

/-- A request that raised: a rollback and the answer. -/
theorem fail_within (lib : Libraries) (collected : List (String × String)) (exc : Exc) :
    (fail lib collected exc).Within tariff.price (tariff.session + tariff.answer) :=
  (Prog.within_perform (S := Service) Op.rollback).bind fun _ =>
    Prog.within_perform (S := Service) (Op.respond (errorReply lib collected exc))

/-- The end of a request: its background task, and at most a commit and a rollback. -/
theorem finish_within {background : Async Service Exc Unit} {n : ℕ}
    (h : background.run.Within tariff.price n) :
    (finish background).Within tariff.price (n + 2 * tariff.session) := by
  have hrollback : (do let _ ← Op.rollback.request : Prog Service Unit).Within tariff.price
      tariff.session := ⟨le_rfl, fun _ => trivial⟩
  refine h.bind ?_
  rintro (exc | ⟨⟩)
  · exact hrollback.mono (by omega)
  · rw [Nat.two_mul]
    refine (Prog.within_perform (S := Service) Op.commit).bind ?_
    rintro (name | ⟨⟩)
    · exact hrollback
    · trivial

/-- A request once its caller is known. -/
theorem serve_within (route : Route) (caller : Caller) :
    (serve env settings route caller).Within tariff.price
      ((if route.limited then tariff.limiter else 0) + (endpointCost tariff settings route +
        (tariff.answer + backgroundCost tariff settings route + 2 * tariff.session))) := by
  have hlimit : (if route.limited then enforceRateLimit settings caller
      else pure []).run.Within tariff.price (if route.limited then tariff.limiter else 0) := by
    split
    · exact enforceRateLimit_within settings tariff caller
    · trivial
  have hfail : ∀ collected exc q, tariff.answer + backgroundCost tariff settings route +
      2 * tariff.session ≤ q → (fail env.toLibraries collected exc).Within tariff.price q :=
    fun collected exc q hq => (fail_within tariff _ collected exc).mono (by omega)
  refine hlimit.bind ?_
  rintro (exc | collected)
  · exact hfail [] exc _ (Nat.le_add_left _ _)
  · refine Prog.within_iff_wp.mpr ?_
    rw [Prog.wp_bind]
    refine Prog.wp_mono ?_ (awp_serialized_of (fun _ _ h => h.1)
      (awp_endpoint_within env settings tariff route caller le_rfl))
    rintro (exc | answer) q hq
    · exact Prog.within_iff_wp.mp (hfail collected exc q hq)
    · obtain ⟨hq, hbackground⟩ := hq
      have hrespond : (Op.respond ⟨answer.statusCode, collected, answer.body⟩).request.Within
          tariff.price tariff.answer := Prog.within_perform (S := Service) _
      have hanswer := hrespond.bind fun _ => finish_within tariff hbackground
      rw [← Nat.add_assoc] at hanswer
      exact Prog.within_iff_wp.mp (hanswer.mono hq)

/-- **A request costs no more than its price list says**, however everything it asks is answered. -/
theorem receive_within (request : Submission × Option String) :
    (receive env settings request).Within tariff.price
      (requestCost tariff settings request.1) := by
  obtain ⟨submission, credentials⟩ := request
  have hauthenticate := authenticate_within env settings tariff credentials
  cases submission with
  | valid route =>
    simp only [receive, handle, requestCost]
    rw [Nat.add_assoc, Nat.add_assoc]
    refine hauthenticate.bind ?_
    rintro (exc | caller)
    · exact (fail_within tariff _ [] exc).mono (by omega)
    · exact serve_within env settings tariff route caller
  | invalid fields =>
    simp only [receive, requestCost]
    rw [Nat.add_assoc]
    refine hauthenticate.bind ?_
    rintro (exc | caller)
    · exact (fail_within tariff _ [] exc).mono (by omega)
    · refine (enforceRateLimit_within settings tariff caller).bind ?_
      rintro (exc | collected)
      · exact (fail_within tariff _ [] exc).mono (by omega)
      · rw [Nat.add_comm]
        exact (Prog.within_perform (S := Service) Op.rollback).bind fun _ =>
          Prog.within_perform (S := Service)
            (Op.respond (rejectionReply env.toLibraries collected fields))
  | undecoded failure => exact Prog.within_perform (S := Service) _

end

/-! ## All requests together -/

/-- **What the requests cost together.** In every run of any number of requests side by side, all
that was asked of the clock, the breaker, the provider, the database, the limiter and the callbacks
costs at most what the requests started so far may cost, in every tariff and however they
interleave and are answered. And they all come to an end: if no more are started, the run goes on to
where every one of them has ended. -/
theorem run_cost {env : Environment} {settings : Settings} {w₀ w : World}
    {log : List (Entry Service World)}
    {tasks : List (Task (Submission × Option String) Service Unit)}
    (h : Run world (receive env settings) w₀ log w tasks) :
    (∀ tariff : Tariff, (log.map fun en => tariff.price en.op).sum ≤
      ((tasks.map Task.label).map fun request => requestCost tariff settings request.1).sum) ∧
    ∃ more w' tasks', Run world (receive env settings) w₀ (log ++ more) w' tasks' ∧
      tasks'.map Task.label = tasks.map Task.label ∧ ∀ task ∈ tasks', task.Ended :=
  ⟨fun tariff => h.within (receive_within env settings tariff), h.drain world_total⟩

/-- Where everything costs one, the tariff counts the entries. -/
theorem sum_steps (log : List (Entry Service World)) :
    (log.map fun en => Tariff.steps.price en.op).sum = log.length := by
  have hone : ∀ op, Tariff.steps.price op = 1 := by
    intro op
    cases op <;> rfl
  simp [hone]

/-- Six statements at most, however often the provider and the callback are tried again. -/
theorem statements_le_six (settings : Settings) (submission : Submission) :
    requestCost .statements settings submission ≤ 6 := by
  rcases submission with (payload | payload | jobId) | fields | failure <;>
    simp [requestCost, endpointCost, backgroundCost, completionCost, deliveryCost,
      Tariff.statements]

/-- One job under the default settings is over after at most 52 requests to the surroundings. -/
theorem run_cost_one_job :
    ∃ log w tasks, Run world (receive .sample .defaults) dayOne log w tasks ∧
      tasks.map Task.label = [(.valid (.submit hookRequest), none)] ∧
      (∀ task ∈ tasks, task.Ended) ∧ log.length ≤ 52 := by
  have hstart : Run world (receive .sample .defaults) dayOne [] dayOne
      ([] ++ [⟨_, receive .sample .defaults (.valid (.submit hookRequest), none)⟩]) :=
    .spawn _ .start
  obtain ⟨-, log, w, tasks, hrun, hlabels, hended⟩ := run_cost hstart
  refine ⟨_, w, tasks, hrun, hlabels, hended, ?_⟩
  have hcost := (run_cost hrun).1 .steps
  rw [hlabels, sum_steps] at hcost
  exact hcost

end PrdApiWrapper
