import PrdApiWrapper.World
import PrdApiWrapper.Rules

/-!
# The quota of a caller

Four pieces stand between a caller and the provider: a bucket that grants requests over time, one
check a request, the retries of a completion, and the background tasks that complete long after
they were let in. Together they bound how often the provider is called on behalf of a caller.

The bound is put together from three facts. A request makes at most as many POSTs a granted check
as a completion makes attempts (`wp_serve_quota`, on the trace of one request). What holds of each
request holds of all (`countP_le_of_each`). And a bucket grants no more than it held and was
refilled with since its first check (`Charged`, an invariant of the world alone).
-/

namespace PrdApiWrapper

open Interaction

/-! ## Counting -/

/-- A check that let its request through. -/
def isGrant (ev : Event Service) : Bool :=
  match ev with
  | ⟨.check _, decision⟩ => granted decision
  | _ => false

/-- The POSTs of a trace. -/
def posts (trace : List (Event Service)) : ℕ := trace.countP isPost

/-- The granted checks of a trace. -/
def grants (trace : List (Event Service)) : ℕ := trace.countP isGrant

@[simp] theorem posts_snoc (trace : List (Event Service)) (ev : Event Service) :
    posts (trace ++ [ev]) = posts trace + if isPost ev then 1 else 0 := by
  rw [posts, posts, List.countP_append, List.countP_singleton]

@[simp] theorem grants_snoc (trace : List (Event Service)) (ev : Event Service) :
    grants (trace ++ [ev]) = grants trace + if isGrant ev then 1 else 0 := by
  rw [grants, grants, List.countP_append, List.countP_singleton]

/-! ## One request -/

/-- A request may check its own caller only, and call the provider only while it has called it less
than `perGrant` times for each granted check. -/
def withinQuota (perGrant : ℤ) (key : String) (trace : List (Event Service)) : Op → Prop
  | .post _ => (posts trace : ℤ) < perGrant * grants trace
  | .check key' => key' = key
  | _ => True

/-- Neither a POST nor a check. -/
inductive Uncounted : Op → Prop where
  | waits {op : Op} : Waits op → Uncounted op
  | beforeCall : Uncounted .beforeCall
  | answer : Uncounted .answer
  | recordSuccess : Uncounted .recordSuccess
  | recordFailure : Uncounted .recordFailure
  | record (entry : UsageEntry) : Uncounted (.record entry)
  | tokenHex : Uncounted .tokenHex
  | createJob (job : NewJob) : Uncounted (.createJob job)
  | updateJob (jobId : String) (fields : List JobField) : Uncounted (.updateJob jobId fields)
  | getJob (jobId apiKeyId : String) : Uncounted (.getJob jobId apiKeyId)
  | delivers {op : Op} : Delivers op → Uncounted op
  | utcNow : Uncounted .utcNow
  | commit : Uncounted .commit
  | rollback : Uncounted .rollback
  | respond (reply : HttpReply) : Uncounted (.respond reply)

/-- What is not counted counts as nothing, and is always within the quota. -/
theorem Uncounted.spec {op : Op} (h : Uncounted op) :
    (∀ r, isPost ⟨op, r⟩ = false ∧ isGrant ⟨op, r⟩ = false) ∧
      ∀ perGrant key trace, withinQuota perGrant key trace op := by
  cases h with
  | waits h => cases h <;> exact ⟨fun _ => ⟨rfl, rfl⟩, fun _ _ _ => trivial⟩
  | delivers h =>
    cases h with
    | waits h => cases h <;> exact ⟨fun _ => ⟨rfl, rfl⟩, fun _ _ _ => trivial⟩
    | _ => exact ⟨fun _ => ⟨rfl, rfl⟩, fun _ _ _ => trivial⟩
  | _ => exact ⟨fun _ => ⟨rfl, rfl⟩, fun _ _ _ => trivial⟩

section

variable {env : Environment} {settings : Settings} {perGrant : ℤ} {key : String}

/-- What holds of the numbers of POSTs and grants so far is kept by everything that is not
counted. -/
theorem keeps_counts (P : ℕ → ℕ → Prop) :
    Keeps (Protocol.guarded (withinQuota perGrant key)) Uncounted
      fun trace => P (posts trace) (grants trace) := by
  intro op hop trace hP
  obtain ⟨huncounted, hquota⟩ := hop.spec
  refine ⟨hquota perGrant key trace, ?_⟩
  rintro r _ rfl
  obtain ⟨hpost, hgrant⟩ := huncounted r
  rw [posts_snoc, grants_snoc, hpost, hgrant]
  exact hP

/-- The trace leaves room for all the POSTs of a completion, less the `k` it has made. -/
def Room (perGrant : ℤ) (k : ℕ) (trace : List (Event Service)) : Prop :=
  (posts trace : ℤ) + perGrant ≤ perGrant * grants trace + k

theorem Room.succ {k : ℕ} {trace : List (Event Service)} (h : Room perGrant k trace) :
    Room perGrant (k + 1) trace := by
  simp only [Room, Nat.cast_add, Nat.cast_one] at h ⊢
  omega

theorem keeps_room (k : ℕ) :
    Keeps (Protocol.guarded (withinQuota perGrant key)) Uncounted (Room perGrant k) :=
  keeps_counts fun made given => (made : ℤ) + perGrant ≤ perGrant * given + k

/-- One attempt makes at most one POST, which there is room for. -/
theorem awp_guardedCall_quota {payload : UpstreamPayload} {model : String} {k : ℕ}
    {trace : List (Event Service)} (hk : (k : ℤ) < perGrant) (hroom : Room perGrant k trace) :
    Async.awp (Protocol.guarded (withinQuota perGrant key))
      ((completionService env settings).guardedCall payload model)
      (fun _ _ => True) (fun _ trace' => Room perGrant (k + 1) trace') trace := by
  rw [awp_guardedCall]
  obtain ⟨hallows, hnext⟩ := keeps_room k _ .beforeCall trace hroom
  refine ⟨hallows, ?_⟩
  rintro (exc | ⟨⟩) trace₁ h₁
  · exact (hnext _ trace₁ h₁).succ
  · have hroom₁ := hnext _ trace₁ h₁
    refine ⟨?_, ?_⟩
    -- fewer POSTs than attempts so far, so there is room for this one
    · simp only [Protocol.guarded_allows, withinQuota]
      simp only [Room] at hroom₁
      omega
    rintro ⟨⟩ _ rfl
    have hroom₂ : Room perGrant (k + 1) (trace₁ ++ [⟨.post payload, ()⟩]) := by
      simp only [Room, posts_snoc, grants_snoc, isPost, isGrant, Nat.cast_add] at hroom₁ ⊢
      simp only [if_true, Bool.false_eq_true, if_false, Nat.cast_one,
        Nat.cast_zero, add_zero]
      omega
    obtain ⟨hanswer, hnext₂⟩ := keeps_room (k + 1) _ .answer _ hroom₂
    refine ⟨hanswer, fun outcome trace₃ h₃ => ?_⟩
    have hroom₃ := hnext₂ outcome trace₃ h₃
    rcases received env.toLibraries model outcome with (error | name) | response
    · simp only
      split
      · exact keeps_room (k + 1) _ .recordFailure trace₃ hroom₃
      · exact hroom₃
    · exact hroom₃
    · exact ⟨trivial, fun _ _ _ => trivial⟩

/-- The attempts at a completion: at most `max(1, RETRY_MAX_ATTEMPTS)` POSTs. -/
theorem awp_attempts_quota {payload : UpstreamPayload} {model : String}
    {trace : List (Event Service)} (hroom : Room (max 1 settings.retryMaxAttempts) 0 trace) :
    Async.awp (Protocol.guarded (withinQuota (max 1 settings.retryMaxAttempts) key))
      ((completionService env settings).retry.run
        ((completionService env settings).guardedCall payload model))
      (fun _ _ => True) (fun _ _ => True) trace := by
  refine RetryPolicy.awp_run
    (fun k trace' => (k : ℤ) < max 1 settings.retryMaxAttempts ∧
      Room (max 1 settings.retryMaxAttempts) k trace')
    (fun k _ trace' => Room (max 1 settings.retryMaxAttempts) (k + 1) trace') ?_ ?_
    (fun _ _ _ _ _ => trivial) ?_
  · obtain ⟨hallows, hnext⟩ := keeps_room 0 _ (.waits .monotonic) trace hroom
    exact ⟨hallows, fun started trace₁ h₁ => ⟨lt_max_of_lt_left one_pos, hnext started trace₁ h₁⟩⟩
  · rintro k trace' ⟨hk, hroom'⟩
    refine Async.awp_mono (fun _ _ h => h) ?_ (awp_guardedCall_quota hk hroom')
    rintro (error | name) _ h
    · exact h
    · trivial
  · intro started k error trace' hroom' _ hmore
    refine awp_servicePause (fun op hop => keeps_room (k + 1) op (.waits hop)) hroom'
      (fun _ again trace₁ h₁ => ?_) fun _ _ _ _ => trivial
    cases again with
    | false => trivial
    | true => exact ⟨lt_max_of_lt_right (by exact_mod_cast hmore), h₁⟩

/-- A completion. -/
theorem awp_complete_quota {request : CompletionRequest} {caller : Caller}
    {trace : List (Event Service)} (hroom : Room (max 1 settings.retryMaxAttempts) 0 trace) :
    Async.awp (Protocol.guarded (withinQuota (max 1 settings.retryMaxAttempts) key))
      ((completionService env settings).complete request caller)
      (fun _ _ => True) (fun _ _ => True) trace := by
  have hrecord : ∀ model statusCode started usage trace',
      Async.awp (Protocol.guarded (withinQuota (max 1 settings.retryMaxAttempts) key))
        ((completionService env settings).recordUsage caller model statusCode started usage)
        (fun _ _ => True) (fun _ _ => True) trace' := by
    intro model statusCode started usage trace'
    rw [awp_recordUsage]
    exact ⟨trivial, fun _ _ _ => ⟨trivial, fun _ _ _ => trivial⟩⟩
  obtain ⟨hallows, hnext⟩ := keeps_room 0 _ (.waits .monotonic) trace hroom
  rw [awp_complete]
  refine ⟨hallows, fun started trace₁ h₁ => ?_⟩
  refine Async.awp_mono (fun response trace₂ _ => hrecord _ _ _ _ trace₂) ?_
    (awp_attempts_quota (hnext started trace₁ h₁))
  rintro (error | name) trace₂ _
  · exact hrecord _ _ _ _ trace₂
  · trivial

/-- What is not counted is always allowed. -/
theorem awp_uncounted {α : Type} {x : Async Service Exc α} (hx : x.run.Only Uncounted)
    {trace : List (Event Service)} :
    Async.awp (Protocol.guarded (withinQuota perGrant key)) x (fun _ _ => True) (fun _ _ => True)
      trace :=
  Async.awp_of_only hx (keeps_counts fun _ _ => True) trivial

theorem Reports.uncounted {op : Op} (h : Reports op) : Uncounted op := by
  cases h with
  | delivers h => exact .delivers h
  | utcNow => exact .utcNow
  | updateJob jobId fields => exact .updateJob jobId fields

/-- A run of a job: one completion, with updates and a delivery around it. -/
theorem awp_runJob_quota {jobId : String} {request : JobRequest} {caller : Caller}
    {trace : List (Event Service)} (hroom : Room (max 1 settings.retryMaxAttempts) 0 trace) :
    Async.awp (Protocol.guarded (withinQuota (max 1 settings.retryMaxAttempts) key))
      ((jobsOf env settings).run jobId request caller)
      (fun _ _ => True) (fun _ _ => True) trace := by
  have hupdate : ∀ fields, ((jobsOf env settings).jobs.update jobId fields).run.Only Uncounted :=
    fun fields => (update_only env settings jobId fields).mono fun _ => Reports.uncounted
  have hdeliver : ∀ payload trace',
      Async.awp (Protocol.guarded (withinQuota (max 1 settings.retryMaxAttempts) key))
        ((jobsOf env settings).deliverResult jobId request.callbackUrl.text payload)
        (fun _ _ => True) (fun _ _ => True) trace' := fun payload trace' =>
    awp_uncounted ((deliverResult_only env settings jobId _ payload).mono fun _ =>
      Reports.uncounted)
  simp only [JobService.run, JobService.execute, JobService.catchAppError, Async.awp_bind,
    Async.awp_tryCatch, Async.awp_map]
  refine Async.awp_mono (fun _ trace₁ hroom₁ => ?_) (fun _ _ _ => trivial)
    (Async.awp_of_only (hupdate _) (keeps_room 0) hroom)
  refine Async.awp_mono (fun completion trace₂ _ => ?_) ?_ (awp_complete_quota hroom₁)
  · simp only [Async.awp_pure]
    exact Async.awp_mono (fun _ _ _ => hdeliver _ _) (fun _ _ _ => trivial)
      (awp_uncounted (hupdate _))
  · rintro (error | name) trace₂ _
    · simp only [Async.awp_bind, Async.awp_pure]
      exact Async.awp_mono (fun _ _ _ => hdeliver _ _) (fun _ _ _ => trivial)
        (awp_uncounted (hupdate _))
    · trivial

theorem accept_uncounted (request : JobRequest) (caller : Caller) (model : String) :
    ((jobsOf env settings).accept request caller model).run.Only Uncounted :=
  Async.only_bind ⟨.tokenHex, fun _ => trivial⟩ fun _ =>
    Async.only_bind (Prog.Only.map _ ⟨.createJob _, fun _ => trivial⟩) fun _ => trivial

theorem get_uncounted (jobId : String) (caller : Caller) :
    ((jobsOf env settings).get jobId caller).run.Only Uncounted := by
  refine Async.only_bind (Prog.Only.map _ ⟨.getJob _ _, fun _ => trivial⟩) ?_
  rintro (_ | view) <;> trivial

/-- A granted check makes room for one completion. -/
theorem awp_limit_quota (henabled : settings.rateLimitEnabled = true)
    {caller : Caller} :
    Async.awp (Protocol.guarded (withinQuota perGrant caller.id)) (enforceRateLimit settings caller)
      (fun _ trace => Room perGrant 0 trace) (fun _ _ => True) [] := by
  rw [awp_enforceRateLimit, if_pos henabled]
  refine ⟨rfl, ?_⟩
  rintro (exc | decision) _ rfl
  · trivial
  · simp only
    split
    · rename_i hallowed
      simp only [Room, posts_snoc, grants_snoc, isPost, isGrant, granted, hallowed]
      simp [posts, grants]
    · trivial

/-- **A request stays within its quota.** -/
theorem wp_serve_quota (env : Environment) (henabled : settings.rateLimitEnabled = true)
    (route : Route) (caller : Caller) :
    (serve env settings route caller).wp
      (Protocol.guarded (withinQuota (max 1 settings.retryMaxAttempts) caller.id))
      (fun _ _ => True) [] := by
  have hlimit : Async.awp
      (Protocol.guarded (withinQuota (max 1 settings.retryMaxAttempts) caller.id))
      (if route.limited then enforceRateLimit settings caller else pure [])
      (fun _ trace => route.limited = true → Room (max 1 settings.retryMaxAttempts) 0 trace)
      (fun _ _ => True) [] := by
    by_cases hlimited : route.limited = true
    · rw [if_pos hlimited]
      exact Async.awp_mono (fun _ _ h _ => h) (fun _ _ h => h) (awp_limit_quota henabled)
    · rw [if_neg hlimited]
      exact fun h => absurd h hlimited
  have hcloses : Closes (Protocol.guarded (withinQuota (max 1 settings.retryMaxAttempts) caller.id))
      fun _ => True :=
    ⟨fun _ => ⟨trivial, fun _ _ => trivial⟩, fun _ => ⟨trivial, fun _ _ _ => trivial⟩,
      fun _ _ _ _ _ => ⟨trivial, fun _ _ _ => trivial⟩⟩
  apply wp_serve hcloses hlimit
  intro trace hroom
  cases route with
  | complete payload =>
    simp only [endpoint, Async.awp_bind]
    exact Async.awp_mono (fun response _ _ _ => ⟨trivial, fun _ _ _ => trivial⟩)
      (fun _ _ h => h) (awp_complete_quota (hroom rfl))
  | submit payload =>
    -- the completion is left to the background task
    simp only [endpoint, Async.awp_bind]
    refine Async.awp_mono (fun accepted trace₁ hroom₁ => ?_) (fun _ _ _ => trivial)
      (Async.awp_of_only (accept_uncounted payload caller _) (keeps_room 0) (hroom rfl))
    refine fun collected => ⟨trivial, fun u trace₂ h₂ => awp_runJob_quota ?_⟩
    exact (keeps_room 0 _ (.respond _) trace₁ hroom₁).2 u trace₂ h₂
  | «show» jobId =>
    simp only [endpoint, Async.awp_bind]
    refine Async.awp_mono (fun view _ _ _ => ⟨trivial, fun _ _ _ => trivial⟩)
      (fun _ _ _ => trivial) (awp_uncounted (get_uncounted jobId caller))

end

/-! ## The bucket of a caller -/

/-- A check of the caller with the id `key`. -/
def checks (key : String) (en : Entry Service World) : Bool :=
  match en.op with
  | .check key' => key' = key
  | _ => false

/-- How many requests of the caller were let through. -/
def grantsTo (key : String) (log : List (Entry Service World)) : ℕ :=
  log.countP fun en => checks key en && isGrant en.event

/-- The tokens of a caller's bucket and the requests let through add up to at most its capacity and
the refill since the caller's first check. -/
structure Charged (capacity : ℤ) (refillRate : ℚ) (key : String) (log : List (Entry Service World))
    (w : World) : Prop where
  sameCapacity : w.limiter.capacity = capacity
  sameRate : w.limiter.refillRate = refillRate
  fresh : w.limiter.buckets key = none → log.find? (checks key) = none
  bucket : ∀ bucket, w.limiter.buckets key = some bucket →
    bucket.capacity = capacity ∧ bucket.refillRate = refillRate ∧ 0 ≤ bucket.tokens ∧
    bucket.updatedAt ≤ w.now ∧ ∃ first, log.find? (checks key) = some first ∧
      bucket.tokens + grantsTo key log ≤
        capacity + refillRate * (bucket.updatedAt - first.after.now)

theorem grantsTo_snoc (key : String) (log : List (Entry Service World))
    (en : Entry Service World) :
    grantsTo key (log ++ [en]) =
      grantsTo key log + if checks key en && isGrant en.event then 1 else 0 := by
  rw [grantsTo, grantsTo, List.countP_append, List.countP_singleton]

/-- Whom nobody checked nobody let through. -/
theorem grantsTo_eq_zero {key : String} {log : List (Entry Service World)}
    (h : log.find? (checks key) = none) : grantsTo key log = 0 := by
  rw [grantsTo, List.countP_eq_zero]
  intro en hen
  have := List.find?_eq_none.mp h en hen
  simp [this]

namespace Charged

variable {capacity : ℤ} {refillRate : ℚ} {key : String} {log : List (Entry Service World)}
  {en : Entry Service World}

/-- A limiter just created. -/
theorem start {w : World} (h : w.limiter = .create capacity refillRate) :
    Charged capacity refillRate key [] w := by
  refine ⟨by rw [h]; rfl, by rw [h]; rfl, fun _ => rfl, fun bucket hbucket => ?_⟩
  rw [h] at hbucket
  cases hbucket

/-- A step that is not a check of the caller. -/
theorem other (h : Charged capacity refillRate key log en.before) (hcheck : checks key en = false)
    (hnow : en.before.now ≤ en.after.now)
    (hcapacity : en.after.limiter.capacity = en.before.limiter.capacity)
    (hrate : en.after.limiter.refillRate = en.before.limiter.refillRate)
    (hbucket : en.after.limiter.buckets key = en.before.limiter.buckets key) :
    Charged capacity refillRate key (log ++ [en]) en.after where
  sameCapacity := hcapacity.trans h.sameCapacity
  sameRate := hrate.trans h.sameRate
  fresh hnone := by
    rw [hbucket] at hnone
    simp [h.fresh hnone, hcheck]
  bucket bucket hsome := by
    rw [hbucket] at hsome
    obtain ⟨hcap, hrefill, htokens, hupdated, first, hfirst, hbound⟩ := h.bucket bucket hsome
    refine ⟨hcap, hrefill, htokens, hupdated.trans hnow, first, ?_, ?_⟩
    · rw [List.find?_append, hfirst]
      rfl
    · rw [grantsTo_snoc, hcheck]
      simpa using hbound

/-- The bucket a check of the caller charges, as if it had been created only now. -/
theorem charges (h : Charged capacity refillRate key log en.before) (hcapacity : 0 ≤ capacity)
    (hrefill : 0 < refillRate) (hcheck : checks key en = true)
    (hnow : en.before.now ≤ en.after.now) {created : ℚ} (hcreated : created ≤ en.after.now) :
    ∃ bucket : TokenBucket,
      (en.before.limiter.bucketFor key created).take 1 en.after.now =
        bucket.take 1 en.after.now ∧
      bucket.capacity = capacity ∧ bucket.refillRate = refillRate ∧ 0 ≤ bucket.tokens ∧
      bucket.updatedAt ≤ en.after.now ∧
      ∃ first, (log ++ [en]).find? (checks key) = some first ∧
        bucket.tokens + grantsTo key log ≤
          capacity + refillRate * (bucket.updatedAt - first.after.now) := by
  cases hbucket : en.before.limiter.buckets key with
  | none =>
    -- the first check: a full bucket
    refine ⟨.create capacity refillRate en.after.now, ?_, rfl, rfl, ?_, le_rfl, en, ?_, ?_⟩
    · rw [InMemoryRateLimiter.bucketFor, hbucket, Option.getD_none, h.sameCapacity, h.sameRate]
      exact TokenBucket.take_create capacity hrefill.le hcreated 1
    · exact Int.cast_nonneg hcapacity
    · simp [h.fresh hbucket, hcheck]
    · rw [grantsTo_eq_zero (h.fresh hbucket)]
      simp [TokenBucket.create]
  | some bucket =>
    obtain ⟨hcap, hrate, htokens, hupdated, first, hfirst, hbound⟩ := h.bucket bucket hbucket
    refine ⟨bucket, ?_, hcap, hrate, htokens, hupdated.trans hnow, first, ?_, hbound⟩
    · rw [InMemoryRateLimiter.bucketFor, hbucket, Option.getD_some]
    · rw [List.find?_append, hfirst]
      rfl

/-- A check of the caller. -/
theorem check (h : Charged capacity refillRate key log en.before) (hcapacity : 0 ≤ capacity)
    (hrefill : 0 < refillRate) (hnow : en.before.now ≤ en.after.now) {created : ℚ}
    (hcreated : created ≤ en.after.now)
    (hevent : en.event = ⟨.check key, (en.before.limiter.check key created en.after.now).1⟩)
    (hafter : en.after.limiter = (en.before.limiter.check key created en.after.now).2) :
    Charged capacity refillRate key (log ++ [en]) en.after := by
  have hcheck : checks key en = true := by
    have hop : en.op = .check key := congrArg Event.op hevent
    simp [checks, hop]
  obtain ⟨charged, htake, hcap, hrate, htokens, hupdated, first, hfirst, hbound⟩ :=
    h.charges hcapacity hrefill hcheck hnow hcreated
  have hself := en.before.limiter.check_self key created en.after.now
  rw [← hafter, htake] at hself
  have hgrant : isGrant en.event = granted (charged.take 1 en.after.now).1 := by
    rw [hevent, ← htake]
    rfl
  obtain ⟨hleft, hspent⟩ := charged.take_bound (by rw [hrate]; exact hrefill)
    (by rw [hcap]; exact hcapacity) htokens hupdated
  refine ⟨?_, ?_, fun hnone => ?_, fun bucket hbucket => ?_⟩
  · rw [hafter]
    exact h.sameCapacity
  · rw [hafter]
    exact h.sameRate
  · rw [hself] at hnone
    cases hnone
  · obtain rfl := Option.some.inj (hself.symm.trans hbucket)
    refine ⟨?_, ?_, hleft, ?_, first, hfirst, ?_⟩
    · rw [TokenBucket.take_capacity, hcap]
    · rw [TokenBucket.take_refillRate, hrate]
    · rw [TokenBucket.take_updatedAt]
    · rw [TokenBucket.take_updatedAt, grantsTo_snoc, hcheck, hgrant, Bool.true_and]
      rw [hrate] at hspent
      push_cast
      linarith

/-- A step of the world. -/
theorem snoc (h : Charged capacity refillRate key log en.before) (hcapacity : 0 ≤ capacity)
    (hrefill : 0 < refillRate)
    (hstep : world.step en.before en.task en.op en.reply en.after) :
    Charged capacity refillRate key (log ++ [en]) en.after := by
  have hnow := world_now hstep
  rcases world_limiter hstep with ⟨hcheck, hsame⟩ | ⟨key', created, hcreated, hevent, hafter⟩
  · refine h.other ?_ hnow ?_ ?_ ?_
    · rw [checks]
      split
      · rename_i key' hop
        exact absurd hop (hcheck key')
      · rfl
    all_goals rw [hsame]
  · by_cases hkey : key' = key
    · subst hkey
      exact h.check hcapacity hrefill hnow hcreated hevent hafter
    · refine h.other ?_ hnow ?_ ?_ ?_
      · have hop : en.op = .check key' := congrArg Event.op hevent
        simp [checks, hop, hkey]
      · rw [hafter]
        rfl
      · rw [hafter]
        rfl
      · rw [hafter]
        exact en.before.limiter.check_of_ne (Ne.symm hkey) created en.after.now

/-- Time that passes changes nothing of it. -/
theorem later {w w' : World} (h : Charged capacity refillRate key log w)
    (hlimiter : w'.limiter = w.limiter) (hnow : w.now ≤ w'.now) :
    Charged capacity refillRate key log w' where
  sameCapacity := by rw [hlimiter, h.sameCapacity]
  sameRate := by rw [hlimiter, h.sameRate]
  fresh hnone := h.fresh (by rwa [hlimiter] at hnone)
  bucket bucket hbucket := by
    rw [hlimiter] at hbucket
    obtain ⟨hcap, hrate, htokens, hupdated, hbound⟩ := h.bucket bucket hbucket
    exact ⟨hcap, hrate, htokens, hupdated.trans hnow, hbound⟩

end Charged

/-- The requests let through, at any time from the last step on. -/
theorem Charged.grantsTo_le {capacity : ℤ} {refillRate : ℚ} {key : String}
    {log : List (Entry Service World)} {w : World} (h : Charged capacity refillRate key log w)
    (hrefill : 0 < refillRate) {first : Entry Service World}
    (hfirst : log.find? (checks key) = some first) {t : ℚ} (ht : w.now ≤ t) :
    (grantsTo key log : ℚ) ≤ capacity + refillRate * (t - first.after.now) := by
  cases hbucket : w.limiter.buckets key with
  | none =>
    rw [h.fresh hbucket] at hfirst
    cases hfirst
  | some bucket =>
    obtain ⟨_, _, htokens, hupdated, first', hfirst', hbound⟩ := h.bucket bucket hbucket
    obtain rfl := Option.some.inj (hfirst.symm.trans hfirst')
    have hlater : refillRate * (bucket.updatedAt - first.after.now) ≤
        refillRate * (t - first.after.now) :=
      mul_le_mul_of_nonneg_left (sub_le_sub_right (hupdated.trans ht) _) hrefill.le
    linarith

/-- **The bucket of a caller over a whole run.** -/
theorem chained_charged {capacity : ℤ} {refillRate : ℚ} (hcapacity : 0 ≤ capacity)
    (hrefill : 0 < refillRate) (key : String) {w₀ w : World}
    (hstart : w₀.limiter = .create capacity refillRate) {log : List (Entry Service World)}
    (h : Chained world w₀ log w) : Charged capacity refillRate key log w := by
  induction h with
  | nil => exact .start hstart
  | snoc _ hbefore hstep ih =>
    subst hbefore
    exact ih.snoc hcapacity hrefill hstep

/-! ## All requests together -/

/-- The caller a request was made by. -/
def callerOf (tasks : List (Task (Route × Caller) Service Unit)) (t : ℕ) : Option String :=
  tasks[t]?.map fun task => task.label.2.id

/-- The POSTs to the provider on behalf of a caller. -/
def postsFor (key : String) (tasks : List (Task (Route × Caller) Service Unit))
    (log : List (Entry Service World)) : ℕ :=
  log.countP fun en => isPost en.event && decide (callerOf tasks en.task = some key)

/-- Every request of a log is within the quota of the program that made it. -/
def WithinQuotas (perGrant : ℤ) (log : List (Entry Service World))
    (tasks : List (Task (Route × Caller) Service Unit)) : Prop :=
  ∀ {earlier : List (Entry Service World)} {en : Entry Service World}
    {later : List (Entry Service World)}, log = earlier ++ en :: later →
    ∃ task, tasks[en.task]? = some task ∧
      withinQuota perGrant task.label.2.id (ownTrace en.task earlier) en.op

section

variable {perGrant : ℤ} {log : List (Entry Service World)}
  {tasks : List (Task (Route × Caller) Service Unit)} (h : WithinQuotas perGrant log tasks)

include h

/-- One request makes at most `perGrant` POSTs for each of its granted checks. -/
theorem ownTrace_within (hpositive : 0 ≤ perGrant) (t : ℕ) :
    (posts (ownTrace t log) : ℤ) ≤ perGrant * grants (ownTrace t log) := by
  suffices hall : ∀ earlier later, log = earlier ++ later →
      (posts (ownTrace t earlier) : ℤ) ≤ perGrant * grants (ownTrace t earlier) from
    hall log [] (List.append_nil log).symm
  intro earlier
  induction earlier using List.reverseRecOn with
  | nil => intro later _; simp [posts, grants]
  | append_singleton earlier en ih =>
    intro later hsplit
    rw [List.append_assoc] at hsplit
    have hbefore := ih _ hsplit
    by_cases ht : en.task = t
    · subst ht
      obtain ⟨task, _, hallowed⟩ := h hsplit
      rw [ownTrace_snoc_self, posts_snoc, grants_snoc]
      by_cases hpost : isPost en.event = true
      · -- a POST is made only with room for it
        obtain ⟨t, w, op, r, w'⟩ := en
        cases op with
        | post payload =>
          simp only [withinQuota] at hallowed
          simp only [Entry.event, isPost, isGrant, if_true, Bool.false_eq_true, if_false]
          push_cast
          simpa using Int.add_one_le_iff.mpr hallowed
        | _ => cases hpost
      · rw [if_neg hpost]
        push_cast
        split <;> nlinarith [hpositive]
    · rw [ownTrace_snoc_ne _ _ ht]
      exact hbefore

/-- A request checks its own caller. -/
theorem checks_own {key : String} {en : Entry Service World} (hen : en ∈ log)
    (hcaller : callerOf tasks en.task = some key) (hgrant : isGrant en.event = true) :
    checks key en = true := by
  obtain ⟨earlier, later, hsplit⟩ := List.append_of_mem hen
  obtain ⟨task, htask, hallowed⟩ := h hsplit
  simp only [callerOf, htask, Option.map_some, Option.some.injEq] at hcaller
  obtain ⟨t, w, op, r, w'⟩ := en
  cases op with
  | check key' =>
    obtain rfl : key' = task.label.2.id := hallowed
    simp [checks, hcaller]
  | _ => cases hgrant

/-- All requests of a caller together keep the ratio of one. -/
theorem WithinQuotas.postsFor_le (hpositive : 0 ≤ perGrant) (key : String) :
    (postsFor key tasks log : ℤ) ≤ perGrant * grantsTo key log := by
  apply countP_le_of_each
  intro t
  by_cases hcaller : callerOf tasks t = some key
  · have hposts : (log.filter fun en => en.task = t).countP (fun en =>
        isPost en.event && decide (callerOf tasks en.task = some key)) ≤
        posts (ownTrace t log) := by
      rw [posts, ownTrace, List.countP_map]
      exact List.countP_mono_left fun en _ h => (Bool.and_eq_true _ _ ▸ h).1
    have hgrants : grants (ownTrace t log) ≤ (log.filter fun en => en.task = t).countP
        (fun en => checks key en && isGrant en.event) := by
      rw [grants, ownTrace, List.countP_map]
      apply List.countP_mono_left
      intro en hen hgrant
      obtain ⟨hmem, htask⟩ := List.mem_filter.mp hen
      have hown : callerOf tasks en.task = some key := by
        rw [of_decide_eq_true htask]
        exact hcaller
      exact Bool.and_eq_true _ _ ▸ ⟨checks_own h hmem hown hgrant, hgrant⟩
    calc _ ≤ (posts (ownTrace t log) : ℤ) := by exact_mod_cast hposts
      _ ≤ perGrant * grants (ownTrace t log) := ownTrace_within h hpositive t
      _ ≤ _ := mul_le_mul_of_nonneg_left (by exact_mod_cast hgrants) hpositive
  · have hnone : (log.filter fun en => en.task = t).countP (fun en =>
        isPost en.event && decide (callerOf tasks en.task = some key)) = 0 := by
      rw [List.countP_eq_zero]
      intro en hen
      have htask := of_decide_eq_true (List.mem_filter.mp hen).2
      rw [htask]
      simp [hcaller]
    rw [hnone]
    exact mul_nonneg hpositive (Nat.cast_nonneg _)

end

/-- All requests of a caller together, in a run of the world. -/
theorem postsFor_le {env : Environment} {settings : Settings} {w₀ w : World}
    {log : List (Entry Service World)} {tasks : List (Task (Route × Caller) Service Unit)}
    (hrun : Run world (fun request => serve env settings request.1 request.2) w₀ log w tasks)
    (henabled : settings.rateLimitEnabled = true) (key : String) :
    (postsFor key tasks log : ℤ) ≤ max 1 settings.retryMaxAttempts * grantsTo key log :=
  WithinQuotas.postsFor_le (Run.guard (fun request : Route × Caller =>
    wp_serve_quota env henabled request.1 request.2) hrun)
    (le_max_of_le_left (by norm_num)) key

/-- **The provider quota of a caller.** With the rate limit on, in every run of any requests side by
side with their background tasks, whatever the provider does: at every moment `t`, the POSTs made
so far on behalf of a caller are at most `max(1, RETRY_MAX_ATTEMPTS)` times what their bucket held
and was refilled with since their first check; and none were made before it. -/
theorem provider_quota {env : Environment} {settings : Settings} {w₀ w : World}
    {log : List (Entry Service World)} {tasks : List (Task (Route × Caller) Service Unit)}
    (hrun : Run world (fun request => serve env settings request.1 request.2) w₀ log w tasks)
    (henabled : settings.rateLimitEnabled = true) {burst : ℤ} (hburst : 0 ≤ burst)
    {refillRate : ℚ} (hrefill : 0 < refillRate) (hstart : w₀.limiter = .create burst refillRate)
    (key : String) :
    (log.find? (checks key) = none → postsFor key tasks log = 0) ∧
    ∀ first, log.find? (checks key) = some first → ∀ t, w.now ≤ t →
      (postsFor key tasks log : ℚ) ≤ (max 1 settings.retryMaxAttempts : ℤ) *
        (burst + refillRate * (t - first.after.now)) := by
  have hposts := postsFor_le hrun henabled key
  have hcharged := chained_charged hburst hrefill key hstart hrun.chained
  refine ⟨fun hnone => ?_, fun first hfirst t ht => ?_⟩
  · rw [grantsTo_eq_zero hnone] at hposts
    simp only [Nat.cast_zero, mul_zero] at hposts
    exact_mod_cast le_antisymm hposts (Nat.cast_nonneg _)
  · have hpositive : (0 : ℚ) ≤ (max 1 settings.retryMaxAttempts : ℤ) := by
      exact_mod_cast le_max_of_le_left (by norm_num : (0 : ℤ) ≤ 1)
    calc (postsFor key tasks log : ℚ)
        ≤ (max 1 settings.retryMaxAttempts : ℤ) * grantsTo key log := by exact_mod_cast hposts
      _ ≤ _ := mul_le_mul_of_nonneg_left (hcharged.grantsTo_le hrefill hfirst ht) hpositive

/-- Settings with which a caller has one request and it has two attempts. -/
def tight : Settings := { Settings.defaults with rateLimitBurst := 1, retryMaxAttempts := 2 }

/-- The limiter after the first check. -/
def spent : InMemoryRateLimiter := ((World.start tight 0).limiter.check "k" 0 0).2

theorem tight_grants :
    ((World.start tight 0).limiter.check "k" 0 0).1 = .ok ⟨true, 1, 0, 1, 0⟩ := by
  have hbucket : (World.start tight 0).limiter.bucketFor "k" 0 = .create 1 1 0 := by
    simp [InMemoryRateLimiter.bucketFor, World.start, InMemoryRateLimiter.create, tight,
      Settings.defaults]
  rw [InMemoryRateLimiter.check_fst, hbucket]
  norm_num [TokenBucket.take, TokenBucket.refill, TokenBucket.create, TokenBucket.decision, divide]

theorem tight_refuses : (spent.check "k" 0 0).1 = .ok ⟨false, 1, 0, 1, 1⟩ := by
  have hbucket : (World.start tight 0).limiter.bucketFor "k" 0 = .create 1 1 0 := by
    simp [InMemoryRateLimiter.bucketFor, World.start, InMemoryRateLimiter.create, tight,
      Settings.defaults]
  rw [InMemoryRateLimiter.check_fst, spent, InMemoryRateLimiter.bucketFor_check_self, hbucket]
  norm_num [TokenBucket.take, TokenBucket.refill, TokenBucket.create, TokenBucket.decision, divide]
  rfl

unseal RetryPolicy.loop Rat.add Rat.sub Rat.mul Rat.inv in
/-- A caller with two completions at once: the first makes both POSTs there are, as its first one
times out, and the second is refused. -/
theorem provider_quota_two :
    ∃ log w tasks,
      Run world (fun request : Route × Caller => serve .sample tight request.1 request.2)
        (World.start tight 0) log w tasks ∧
      (∃ en ∈ log, en.task = 1 ∧ en.event = ⟨.check "k", .ok ⟨false, 1, 0, 1, 1⟩⟩) ∧
      postsFor "k" tasks log = 2 ∧ (postsFor "k" tasks log : ℚ) ≤ 2 * 1 := by
  let checked : World := { World.start tight 0 with limiter := spent }
  let failed : World := { checked with breaker := checked.breaker.recordFailure 0 }
  let refused : World := { failed with limiter := (failed.limiter.check "k" 0 0).2 }
  have h₀ : Run world (fun request : Route × Caller => serve .sample tight request.1 request.2)
      (World.start tight 0) _ _ _ := .spawn (.complete helloRequest, ⟨"k", "k"⟩) .start
  have h₁ := h₀.reply 0 rfl (.ok ⟨true, 1, 0, 1, 0⟩) checked
    ⟨0, le_rfl, 0, le_rfl, le_rfl, tight_grants.symm, rfl⟩
  have h₂ := h₁.reply 0 rfl (0 : ℚ) checked ⟨0, le_rfl, rfl, rfl⟩
  have h₃ := h₂.reply 0 rfl (0 : ℚ) checked ⟨0, le_rfl, rfl, rfl⟩
  have h₄ := h₃.reply 0 rfl (.ok ()) checked ⟨0, le_rfl, rfl, rfl⟩
  have h₅ := h₄.reply 0 rfl () checked ⟨0, le_rfl, rfl⟩
  have h₆ := h₅.reply 0 rfl .timeout checked ⟨0, le_rfl, rfl⟩
  have h₇ := h₆.reply 0 rfl () failed ⟨0, le_rfl, rfl⟩
  have h₈ := h₇.reply 0 rfl (0 : ℚ) failed ⟨0, le_rfl, le_rfl, by norm_num, rfl⟩
  have h₉ := h₈.reply 0 rfl (0 : ℚ) failed ⟨0, le_rfl, rfl, rfl⟩
  have h₁₀ := h₉.reply 0 rfl () failed ⟨0, le_rfl, rfl⟩
  have h₁₁ := h₁₀.reply 0 rfl (.ok ()) failed ⟨0, le_rfl, rfl, rfl⟩
  have h₁₂ := h₁₁.spawn (.complete helloRequest, ⟨"k", "k"⟩)
  have h₁₃ := h₁₂.reply 1 rfl (.ok ⟨false, 1, 0, 1, 1⟩) refused
    ⟨0, le_rfl, 0, le_rfl, le_rfl, tight_refuses.symm, rfl⟩
  have h₁₄ := h₁₃.reply 0 rfl () refused ⟨0, le_rfl, rfl⟩
  refine ⟨_, _, _, h₁₄, ⟨_, List.mem_append_left _ List.mem_concat_self, rfl, rfl⟩, rfl, ?_⟩
  have hrate : (0 : ℚ) < tight.rateLimitRequestsPerMinute / 60 := by
    norm_num [tight, Settings.defaults]
  have hquota := (provider_quota h₁₄ rfl (by decide) hrate rfl "k").2 _ rfl 0 le_rfl
  have hnow : checked.now = 0 := rfl
  apply hquota.trans
  norm_num [tight, Settings.defaults, hnow]

end PrdApiWrapper
