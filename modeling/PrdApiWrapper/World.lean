import PrdApiWrapper.Service
import PrdApiWrapper.Pool

/-!
# The world the process runs in

The state that is shared by all requests: the clock, the breaker, the limiter, the job table, the
usage table and the ids handed out. `world` says how each request of the interface can be answered
and what it does to that state. A repository may fail at any time, and what it was asked to write
may then have been written or not; the provider, the callbacks and the wall clock may say anything.
That the schema refuses some rows is not said here: a world may refuse any.
-/

namespace PrdApiWrapper

open Interaction

/-- What all requests share. -/
structure World where
  /-- the monotonic clock -/
  now : ℚ
  breaker : CircuitBreaker
  limiter : InMemoryRateLimiter
  jobs : JobTable
  usage : List UsageEntry
  /-- the ids `secrets.token_hex` has produced -/
  issued : List String

namespace World

/-- The process as `lifespan_provider` starts it, with nothing stored. -/
def start (settings : Settings) (now : ℚ) : World where
  now := now
  breaker := .create settings.circuitBreakerFailureThreshold settings.circuitBreakerResetSeconds
  limiter := .create settings.rateLimitBurst (settings.rateLimitRequestsPerMinute / 60)
  jobs := fun _ => none
  usage := []
  issued := []

/-- A write that was asked for: done if it is reported as done, else done or not. -/
def Writes (r : Except String Unit) (w written w' : World) : Prop :=
  w' = written ∨ r ≠ .ok () ∧ w' = w

/-- `w.answers before op r w'`: at the time `w.now`, `before` being the time of the previous
answer, `op` can be answered with `r`, which leaves `w'`. -/
def answers (w : World) (before : ℚ) : (op : Op) → Service.Reply op → World → Prop
  | .monotonic, r, w' => r = w.now ∧ w' = w
  | .jitter, (r : ℚ), w' => 0 ≤ r ∧ r < 1 ∧ w' = w
  | .beforeCall, r, w' =>
    r = (w.breaker.beforeCall w.now).1 ∧
      w' = { w with breaker := (w.breaker.beforeCall w.now).2 }
  | .recordSuccess, _, w' => w' = { w with breaker := w.breaker.recordSuccess }
  | .recordFailure, _, w' => w' = { w with breaker := w.breaker.recordFailure w.now }
  | .record entry, r, w' => Writes r w { w with usage := w.usage ++ [entry] } w'
  | .check key, r, w' =>
    -- a new bucket reads the clock once more, a moment earlier
    ∃ created, before ≤ created ∧ created ≤ w.now ∧
      r = (w.limiter.check key created w.now).1 ∧
      w' = { w with limiter := (w.limiter.check key created w.now).2 }
  -- 128 random bits do not come twice
  | .tokenHex, r, w' => r ∉ w.issued ∧ w' = { w with issued := r :: w.issued }
  | .createJob job, r, w' =>
    -- `created_at` is the database's time
    ∃ createdAt, Writes r w { w with jobs := w.jobs.create job createdAt } w'
  | .updateJob jobId fields, r, w' =>
    Writes r w { w with jobs := w.jobs.update jobId fields } w'
  | .getJob jobId apiKeyId, r, w' =>
    (∀ view, r = .ok view → view = w.jobs.get jobId apiKeyId) ∧ w' = w
  | .sleep _, _, w' | .post _, _, w' | .answer, _, w' | .time, _, w' | .utcNow, _, w'
  | .callback _, _, w' | .findByHash _, _, w' | .commit, _, w' | .rollback, _, w'
  | .respond _, _, w' => w' = w

end World

/-- Time passes, then a request is answered. Whose it is does not matter. -/
def world : Semantics Service World where
  step w _ op r w' := ∃ now, w.now ≤ now ∧ { w with now := now }.answers w.now op r w'

/-- The world of the examples. -/
def dayOne : World := World.start .defaults 0

/-! ## What a request leaves alone -/

namespace World

variable {w w' : World} {before : ℚ} {op : Op} {r : Service.Reply op}

/-- What a request leaves alone: the time, and all that it is not for. -/
structure Leaves (w : World) (op : Op) (w' : World) : Prop where
  now : w'.now = w.now
  breaker : op ≠ .beforeCall → op ≠ .recordSuccess → op ≠ .recordFailure → w'.breaker = w.breaker
  limiter : (∀ key, op ≠ .check key) → w'.limiter = w.limiter
  jobs : (∀ job, op ≠ .createJob job) → (∀ jobId fields, op ≠ .updateJob jobId fields) →
    w'.jobs = w.jobs
  issued : op ≠ .tokenHex → w'.issued = w.issued

theorem Leaves.refl (w : World) (op : Op) : w.Leaves op w :=
  ⟨rfl, fun _ _ _ => rfl, fun _ => rfl, fun _ _ => rfl, fun _ => rfl⟩

/-- Every answer is given at its time, and changes only what it is for. -/
theorem answers_leaves (h : w.answers before op r w') : w.Leaves op w' := by
  cases op with
  | beforeCall =>
    obtain ⟨_, rfl⟩ := h
    exact ⟨rfl, fun hop => absurd rfl hop, fun _ => rfl, fun _ _ => rfl, fun _ => rfl⟩
  | recordSuccess =>
    obtain rfl := h
    exact ⟨rfl, fun _ hop => absurd rfl hop, fun _ => rfl, fun _ _ => rfl, fun _ => rfl⟩
  | recordFailure =>
    obtain rfl := h
    exact ⟨rfl, fun _ _ hop => absurd rfl hop, fun _ => rfl, fun _ _ => rfl, fun _ => rfl⟩
  | check key =>
    obtain ⟨_, _, _, _, rfl⟩ := h
    exact ⟨rfl, fun _ _ _ => rfl, fun hop => absurd rfl (hop key), fun _ _ => rfl, fun _ => rfl⟩
  | tokenHex =>
    obtain ⟨_, rfl⟩ := h
    exact ⟨rfl, fun _ _ _ => rfl, fun _ => rfl, fun _ _ => rfl, fun hop => absurd rfl hop⟩
  | createJob job =>
    obtain ⟨createdAt, rfl | ⟨_, rfl⟩⟩ := h
    · exact ⟨rfl, fun _ _ _ => rfl, fun _ => rfl, fun hop => absurd rfl (hop job), fun _ => rfl⟩
    · exact .refl _ _
  | updateJob jobId fields =>
    obtain rfl | ⟨_, rfl⟩ := h
    · exact ⟨rfl, fun _ _ _ => rfl, fun _ => rfl, fun _ hop => absurd rfl (hop jobId fields),
        fun _ => rfl⟩
    · exact .refl _ _
  | record entry =>
    obtain rfl | ⟨_, rfl⟩ := h
    · exact ⟨rfl, fun _ _ _ => rfl, fun _ => rfl, fun _ _ => rfl, fun _ => rfl⟩
    · exact .refl _ _
  | jitter =>
    obtain ⟨_, _, rfl⟩ := h
    exact .refl _ _
  | monotonic | getJob =>
    obtain ⟨_, rfl⟩ := h
    exact .refl _ _
  | _ =>
    obtain rfl := h
    exact .refl _ _

end World

/-- The world never keeps a request waiting. -/
theorem world_total (w : World) (t : ℕ) (op : Op) : ∃ r w', world.step w t op r w' := by
  have answered : ∀ r w', w.answers w.now op r w' → ∃ r w', world.step w t op r w' :=
    fun r w' h => ⟨r, w', w.now, le_rfl, h⟩
  cases op with
  | monotonic => exact answered w.now w ⟨rfl, rfl⟩
  | jitter => exact answered (0 : ℚ) w ⟨le_rfl, one_pos, rfl⟩
  | beforeCall => exact answered _ _ ⟨rfl, rfl⟩
  | record entry => exact answered (.ok ()) _ (.inl rfl)
  | check key => exact answered _ _ ⟨w.now, le_rfl, le_rfl, rfl, rfl⟩
  | tokenHex =>
    obtain ⟨id, hid⟩ := Infinite.exists_notMem_finset w.issued.toFinset
    exact answered id _ ⟨fun hin => hid (List.mem_toFinset.mpr hin), rfl⟩
  | createJob job => exact answered (.ok ()) _ ⟨0, .inl rfl⟩
  | updateJob jobId fields => exact answered (.ok ()) _ (.inl rfl)
  | getJob jobId apiKeyId =>
    refine answered (.ok (w.jobs.get jobId apiKeyId)) w ⟨?_, rfl⟩
    rintro view ⟨⟩
    rfl
  | time | utcNow => exact answered (0 : ℚ) w rfl
  | sleep _ | post _ | respond _ => exact answered () w rfl
  | recordSuccess | recordFailure => exact answered () _ rfl
  | answer => exact answered .timeout w rfl
  | callback post => exact answered .requestError w rfl
  | findByHash keyHash => exact answered (.ok none) w rfl
  | commit | rollback => exact answered (.ok ()) w rfl

/-! ## The limiter in the world -/

/-- **The limiter in the world is the limiter**: only a check touches it, and is answered as it
says. -/
theorem world_limiter {en : Entry Service World}
    (h : world.step en.before en.task en.op en.reply en.after) :
    ((∀ key, en.op ≠ .check key) ∧ en.after.limiter = en.before.limiter) ∨
    ∃ key created, created ≤ en.after.now ∧
      en.event = ⟨.check key, (en.before.limiter.check key created en.after.now).1⟩ ∧
      en.after.limiter = (en.before.limiter.check key created en.after.now).2 := by
  obtain ⟨t, w, op, r, w'⟩ := en
  obtain ⟨now, hnow, h⟩ := h
  simp only at h
  by_cases hcheck : ∃ key, op = .check key
  · obtain ⟨key, rfl⟩ := hcheck
    obtain ⟨created, _, hcreated, rfl, rfl⟩ := h
    exact .inr ⟨key, created, hcreated, rfl, rfl⟩
  · have hother : ∀ key, op ≠ .check key := fun key hop => hcheck ⟨key, hop⟩
    exact .inl ⟨hother, (World.answers_leaves h).limiter hother⟩

/-- The answer to a first check. -/
theorem dayOne_check (key : String) :
    (dayOne.limiter.check key 0 0).1 = .ok ⟨true, 10, 9, 1, 0⟩ := by
  have hbucket : dayOne.limiter.bucketFor key 0 = .create 10 1 0 := by
    simp [InMemoryRateLimiter.bucketFor, dayOne, World.start, InMemoryRateLimiter.create,
      Settings.defaults]
  rw [InMemoryRateLimiter.check_fst, hbucket]
  norm_num [TokenBucket.take, TokenBucket.refill, TokenBucket.create, TokenBucket.decision, divide]

/-- All buckets refill as the settings say, at all times. -/
theorem chained_uniform {rate : ℚ} {w₀ w : World} {log : List (Entry Service World)}
    (h : Chained world w₀ log w) (hstart : w₀.limiter.Uniform rate) :
    w.limiter.Uniform rate ∧ ∀ en ∈ log, en.before.limiter.Uniform rate := by
  induction h with
  | nil => exact ⟨hstart, by simp⟩
  | @snoc w log en _ hbefore hstep ih =>
    obtain ⟨huniform, hlog⟩ := ih
    subst hbefore
    refine ⟨?_, fun en' hen' => ?_⟩
    · rcases world_limiter hstep with ⟨_, hsame⟩ | ⟨key, created, _, _, hafter⟩
      · rw [hsame]
        exact huniform
      · rw [hafter]
        exact huniform.check key created en.after.now
    · rcases List.mem_append.mp hen' with hen' | hen'
      · exact hlog en' hen'
      · obtain rfl := List.mem_singleton.mp hen'
        exact huniform

/-! ## The breaker in the world -/

/-- The call of the shared breaker that an entry of a log records, if it does. -/
def breakerCall (en : Entry Service World) : Option BreakerCall :=
  match en.op with
  | .beforeCall => some ⟨.beforeCall, en.after.now⟩
  | .recordSuccess => some ⟨.recordSuccess, en.after.now⟩
  | .recordFailure => some ⟨.recordFailure, en.after.now⟩
  | _ => none

theorem breakerCall_eq_some {en : Entry Service World} {call : BreakerCall}
    (h : breakerCall en = some call) :
    call.time = en.after.now ∧ (en.op = .beforeCall ↔ call.method = .beforeCall) ∧
      (en.op = .recordSuccess ↔ call.method = .recordSuccess) := by
  obtain ⟨t, w, op, r, w'⟩ := en
  cases op <;> cases h
  · exact ⟨rfl, iff_of_true rfl rfl, iff_of_false nofun nofun⟩
  · exact ⟨rfl, iff_of_false nofun nofun, iff_of_true rfl rfl⟩
  · exact ⟨rfl, iff_of_false nofun nofun,
      iff_of_false nofun nofun⟩

/-- The time of the world never goes back. -/
theorem world_now {en : Entry Service World}
    (h : world.step en.before en.task en.op en.reply en.after) : en.before.now ≤ en.after.now := by
  obtain ⟨now, hnow, h⟩ := h
  rw [(World.answers_leaves h).now]
  exact hnow

/-- **The breaker in the world is the breaker**: an entry either calls one of its methods, and a
`before_call` is answered as the breaker says, or leaves it alone. -/
theorem world_breaker {en : Entry Service World}
    (h : world.step en.before en.task en.op en.reply en.after) :
    (breakerCall en = none ∧ en.after.breaker = en.before.breaker) ∨
    ∃ call, breakerCall en = some call ∧ en.after.breaker = en.before.breaker.call call ∧
      (en.op = .beforeCall →
        en.event = ⟨.beforeCall, (en.before.breaker.beforeCall en.after.now).1⟩) := by
  obtain ⟨t, w, op, r, w'⟩ := en
  obtain ⟨now, hnow, h⟩ := h
  have hafter : w'.now = now := (World.answers_leaves h).now
  simp only at h hafter
  cases op with
  | beforeCall =>
    obtain ⟨rfl, rfl⟩ := h
    exact .inr ⟨_, rfl, rfl, fun _ => rfl⟩
  | recordSuccess =>
    obtain rfl := h
    exact .inr ⟨_, rfl, rfl, nofun⟩
  | recordFailure =>
    obtain rfl := h
    exact .inr ⟨_, rfl, rfl, nofun⟩
  | _ => exact .inl ⟨rfl, (World.answers_leaves h).breaker nofun nofun nofun⟩

/-- The calls of the shared breaker in a log. -/
def breakerCalls (log : List (Entry Service World)) : List BreakerCall :=
  log.filterMap breakerCall

/-- The breaker in the world is in step with the calls of it. -/
theorem chained_tracks {settings : Settings}
    (hthreshold : 1 ≤ settings.circuitBreakerFailureThreshold) {begin : ℚ} {w : World}
    {log : List (Entry Service World)}
    (h : Chained world (World.start settings begin) log w) :
    Tracks settings.circuitBreakerFailureThreshold settings.circuitBreakerResetSeconds
      (breakerCalls log) w.now w.breaker := by
  induction h with
  | nil => exact .create hthreshold _ _
  | @snoc w log en _ hbefore hstep ih =>
    subst hbefore
    rw [breakerCalls, List.filterMap_append]
    rcases world_breaker hstep with ⟨hnone, hsame⟩ | ⟨call, hsome, hcall, _⟩
    · simp only [List.filterMap_cons, hnone, List.filterMap_nil, List.append_nil, hsame]
      exact ih.mono (world_now hstep)
    · have htime : call.time = en.after.now := (breakerCall_eq_some hsome).1
      simp only [List.filterMap_cons, hsome, List.filterMap_nil, hcall, ← htime]
      exact ih.call hthreshold (htime ▸ world_now hstep)

/-- The entries of a log are in the order of their times. -/
theorem chained_clock {w₀ w : World} {log : List (Entry Service World)}
    (h : Chained world w₀ log w) :
    (log.map fun en => en.after.now).Pairwise (· ≤ ·) ∧ ∀ en ∈ log, en.after.now ≤ w.now :=
  h.ordered World.now world_now

/-- A breaker answers a `before_call` in one of two ways. -/
def BreakerSays (ev : Event Service) : Prop :=
  ev.op = .beforeCall →
    ev = ⟨.beforeCall, .ok ()⟩ ∨ ev = ⟨.beforeCall, .error CircuitBreaker.circuitOpen⟩

/-- In the world, a `before_call` is answered by the breaker. -/
theorem chained_breakerSays {w₀ w : World} {log : List (Entry Service World)}
    (h : Chained world w₀ log w) : ∀ en ∈ log, BreakerSays en.event := by
  intro en hen hop
  obtain ⟨earlier, later, hlog⟩ := List.append_of_mem hen
  obtain ⟨_, hstep⟩ := h.split.2 earlier en later hlog
  have hop' : en.op = .beforeCall := hop
  rcases world_breaker hstep with ⟨hnone, _⟩ | ⟨call, _, _, hanswer⟩
  · simp only [breakerCall, hop'] at hnone
    cases hnone
  · rw [hanswer hop']
    rcases en.before.breaker.beforeCall_cases en.after.now with
      ⟨_, hcall⟩ | ⟨_, _, hcall⟩ | ⟨_, _, hcall⟩ <;> rw [hcall]
    · exact .inl rfl
    · exact .inr rfl
    · exact .inl rfl

end PrdApiWrapper
