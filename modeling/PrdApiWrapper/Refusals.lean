import PrdApiWrapper.Replies

/-!
# Refused requests

A request that is refused, for want of a key or of tokens, has by then looked its caller up and
asked the limiter, and nothing else. The lookup is a read; a check that is denied still rewrites
the bucket, but only refills it, and refilling a bucket twice is refilling it once.

So refused requests can be left out of a run, and nobody else notices. This needs buckets that
refill: with a negative rate a bucket loses tokens over time, from whenever it was created, and a
refused request is what creates it.
-/

namespace PrdApiWrapper

open Interaction

/-! ## Limiters that answer alike -/

/-- Two limiters of one rate that cannot be told apart from `now` on. -/
structure InMemoryRateLimiter.Alike (rate now : ℚ) (limiter limiter' : InMemoryRateLimiter) :
    Prop where
  uniform : limiter.Uniform rate
  uniform' : limiter'.Uniform rate
  level : ∀ key later, now ≤ later →
    (limiter'.bucketFor key later).refill later = (limiter.bucketFor key later).refill later

namespace InMemoryRateLimiter.Alike

variable {rate now taken created : ℚ} {limiter limiter' : InMemoryRateLimiter} {key : String}

theorem later (h : Alike rate now limiter limiter') (htaken : now ≤ taken) :
    Alike rate taken limiter limiter' where
  uniform := h.uniform
  uniform' := h.uniform'
  level key later hlater := h.level key later (htaken.trans hlater)

/-- **A check that was denied leaves no trace.** -/
theorem denied (h : Alike rate now limiter limiter') (hrate : 0 ≤ rate) (htaken : now ≤ taken)
    (hcreated : created ≤ taken) {d : RateLimitDecision}
    (hd : (limiter.check key created taken).1 = .ok d) (hdenied : d.allowed = false) :
    Alike rate taken (limiter.check key created taken).2 limiter' where
  uniform := h.uniform.check key created taken
  uniform' := h.uniform'
  level key' later hlater := by
    rw [h.level key' later (htaken.trans hlater)]
    by_cases hkey : key' = key
    · subst hkey
      rw [bucketFor_check_self, TokenBucket.take_denied hd hdenied,
        TokenBucket.refill_refill _ (hrate.trans_eq (h.uniform.bucketFor key' created).symm) hlater,
        limiter.bucketFor_refill (hrate.trans_eq h.uniform.refillRate.symm) key'
          (hcreated.trans hlater)]
    · rw [bucketFor_check_of_ne limiter hkey]

/-- Any check is answered alike, and leaves the limiters alike. -/
theorem check (h : Alike rate now limiter limiter') (hrate : 0 ≤ rate) (htaken : now ≤ taken)
    (hcreated : created ≤ taken) :
    (limiter'.check key created taken).1 = (limiter.check key created taken).1 ∧
      Alike rate taken (limiter.check key created taken).2
        (limiter'.check key created taken).2 := by
  have hrefill : (limiter'.bucketFor key created).refill taken =
      (limiter.bucketFor key created).refill taken := by
    rw [limiter'.bucketFor_refill (hrate.trans_eq h.uniform'.refillRate.symm) key hcreated,
      limiter.bucketFor_refill (hrate.trans_eq h.uniform.refillRate.symm) key hcreated]
    exact h.level key taken htaken
  have htake := TokenBucket.take_congr hrefill 1
  refine ⟨by rw [check_fst, check_fst, htake], h.uniform.check key created taken,
    h.uniform'.check key created taken, ?_⟩
  intro key' later hlater
  by_cases hkey : key' = key
  · subst hkey
    rw [bucketFor_check_self, bucketFor_check_self, htake]
  · rw [bucketFor_check_of_ne limiter hkey, bucketFor_check_of_ne limiter' hkey]
    exact h.level key' later (htaken.trans hlater)

end InMemoryRateLimiter.Alike

/-! ## Worlds that nobody can tell apart -/

/-- An answer that is not a check's neither looks at the limiter nor at the time before it. -/
theorem World.answers_limiter {w w' : World} {before : ℚ} {op : Op} {r : Service.Reply op}
    (h : w.answers before op r w') (hop : ∀ key, op ≠ .check key) (limiter : InMemoryRateLimiter)
    (before' : ℚ) :
    World.answers { w with limiter := limiter } before' op r { w' with limiter := limiter } := by
  cases op with
  | check key => exact absurd rfl (hop key)
  | beforeCall =>
    obtain ⟨rfl, rfl⟩ := h
    exact ⟨rfl, rfl⟩
  | record entry =>
    obtain rfl | ⟨hr, rfl⟩ := h
    · exact .inl rfl
    · exact .inr ⟨hr, rfl⟩
  | createJob job =>
    obtain ⟨createdAt, rfl | ⟨hr, rfl⟩⟩ := h
    · exact ⟨createdAt, .inl rfl⟩
    · exact ⟨createdAt, .inr ⟨hr, rfl⟩⟩
  | updateJob jobId fields =>
    obtain rfl | ⟨hr, rfl⟩ := h
    · exact .inl rfl
    · exact .inr ⟨hr, rfl⟩
  | jitter =>
    obtain ⟨hlow, hhigh, rfl⟩ := h
    exact ⟨hlow, hhigh, rfl⟩
  | monotonic | getJob | tokenHex =>
    obtain ⟨hr, rfl⟩ := h
    exact ⟨hr, rfl⟩
  | _ =>
    obtain rfl := h
    rfl

/-- The world without refused requests: they are not noticed. -/
structure Unnoticed (settings : Settings) (w v : World) : Prop where
  now : v.now ≤ w.now
  breaker : v.breaker = w.breaker
  jobs : v.jobs = w.jobs
  usage : v.usage = w.usage
  issued : v.issued = w.issued
  limiter : w.limiter.Alike (settings.rateLimitRequestsPerMinute / 60) w.now v.limiter

namespace Unnoticed

variable {settings : Settings} {w w' v : World} {t : ℕ} {op : Op} {r : Service.Reply op}

theorem start (settings : Settings) (now : ℚ) :
    Unnoticed settings (.start settings now) (.start settings now) where
  now := le_rfl
  breaker := rfl
  jobs := rfl
  usage := rfl
  issued := rfl
  limiter := ⟨.create _ _, .create _ _, fun _ _ _ => rfl⟩

theorem rate_nonneg (hrate : 0 ≤ settings.rateLimitRequestsPerMinute) :
    (0 : ℚ) ≤ settings.rateLimitRequestsPerMinute / 60 :=
  div_nonneg (by exact_mod_cast hrate) (by norm_num)

/-- **No step of a refused request is noticed.** -/
theorem quiet (h : Unnoticed settings w v) (hstep : world.step w t op r w')
    (hquiet : Quiet ⟨op, r⟩)
    (hrate : (∃ key, op = .check key) → 0 ≤ settings.rateLimitRequestsPerMinute) :
    Unnoticed settings w' v := by
  obtain ⟨now, hnow, hanswers⟩ := hstep
  have passed : ∀ w', w' = { w with now := now } → Unnoticed settings w' v := by
    rintro _ rfl
    exact ⟨h.now.trans hnow, h.breaker, h.jobs, h.usage, h.issued,
      h.limiter.later hnow⟩
  cases op with
  | findByHash _ | rollback | respond _ => exact passed w' hanswers
  | check key =>
    obtain ⟨created, _, hcreated, hreply, rfl⟩ := hanswers
    obtain ⟨d, rfl, hdenied⟩ := hquiet
    have hlimiter := h.limiter.denied (rate_nonneg (hrate ⟨key, rfl⟩)) hnow hcreated hreply.symm
      hdenied
    exact ⟨h.now.trans hnow, h.breaker, h.jobs, h.usage, h.issued, hlimiter⟩
  | _ => exact hquiet.elim

/-- **Every other step can be taken all the same**, at the same time and with the same reply. -/
theorem mirror (h : Unnoticed settings w v) (hstep : world.step w t op r w')
    (hrate : (∃ key, op = .check key) → 0 ≤ settings.rateLimitRequestsPerMinute) (t' : ℕ) :
    ∃ v', world.step v t' op r v' ∧ Unnoticed settings w' v' ∧ v'.now = w'.now := by
  obtain ⟨now, hnow, hanswers⟩ := hstep
  have hsame : v = { w with now := v.now, limiter := v.limiter } := by
    obtain ⟨vnow, vbreaker, vlimiter, vjobs, vusage, vissued⟩ := v
    obtain ⟨_, hbreaker, hjobs, husage, hissued, _⟩ := h
    simp only at hbreaker hjobs husage hissued
    rw [hbreaker, hjobs, husage, hissued]
  have hleaves := World.answers_leaves hanswers
  by_cases hcheck : ∃ key, op = .check key
  · obtain ⟨key, rfl⟩ := hcheck
    obtain ⟨created, hbefore, hcreated, rfl, rfl⟩ := hanswers
    have hboth : (v.limiter.check key created now).1 = _ ∧ _ :=
      h.limiter.check (rate_nonneg (hrate ⟨key, rfl⟩)) hnow hcreated
    obtain ⟨hreply, hlimiter⟩ := hboth
    refine ⟨{ v with now := now, limiter := (v.limiter.check key created now).2 },
      ⟨now, h.now.trans hnow, created, h.now.trans hbefore, hcreated, hreply.symm, rfl⟩, ?_, rfl⟩
    exact ⟨le_rfl, h.breaker, h.jobs, h.usage, h.issued, hlimiter⟩
  · have hother : ∀ key, op ≠ .check key := fun key hop => hcheck ⟨key, hop⟩
    have hlimiter : w'.limiter = w.limiter := hleaves.limiter hother
    refine ⟨{ w' with limiter := v.limiter }, ⟨now, h.now.trans hnow, ?_⟩, ?_, rfl⟩
    · have hv : { v with now := now } = { ({ w with now := now } : World) with
          limiter := v.limiter } := by
        rw [hsame]
      rw [hv]
      exact World.answers_limiter hanswers hother v.limiter v.now
    · refine ⟨le_rfl, rfl, rfl, rfl, rfl, ?_⟩
      rw [hlimiter, hleaves.now]
      exact h.limiter.later hnow

end Unnoticed

/-! ## Runs without them -/

variable {env : Environment} {settings : Settings} {w₀ w : World}
  {log : List (Entry Service World)} {tasks : List (Task (Submission × Option String) Service Unit)}

/-- A request with this trace was answered 401, or 429 for its caller's own rate. -/
def WasRefused (trace : List (Event Service)) : Prop :=
  ∃ reply, ⟨.respond reply, ()⟩ ∈ trace ∧ reply.Refuses

/-- A refused request did nothing that matters. -/
theorem quiet_of_refused (h : Run world (receive env settings) w₀ log w tasks) {t : ℕ}
    (ht : WasRefused (ownTrace t log)) : ∀ en ∈ log, en.task = t → Quiet en.event := by
  obtain ⟨reply, hmem, hrefuses⟩ := ht
  obtain ⟨answer, hanswer, rfl, hevent⟩ := mem_ownTrace.mp hmem
  have hop : answer.op = .respond reply := congrArg Event.op hevent
  obtain ⟨earlier, later, hsplit⟩ := List.append_of_mem hanswer
  intro en hen htask
  rw [hsplit] at hen
  rcases List.mem_append.mp hen with hen | hen
  · -- before the answer
    obtain ⟨task, _, _, hproper⟩ := run_proper h hsplit
    rw [hop] at hproper
    exact hproper.quiet hrefuses en.event (mem_ownTrace.mpr ⟨en, hen, htask, rfl⟩)
  · rcases List.mem_cons.mp hen with rfl | hen
    · rw [hevent]
      trivial
    · -- after it there is nothing
      obtain ⟨between, rest, rfl⟩ := List.append_of_mem hen
      have hsplit' : log = (earlier ++ answer :: between) ++ en :: rest := by
        rw [hsplit, List.append_assoc, List.cons_append]
      obtain ⟨task, _, hnot, _⟩ := run_proper h hsplit'
      have hbefore : answer.event ∈ ownTrace en.task (earlier ++ answer :: between) :=
        mem_ownTrace.mpr ⟨answer, by simp, htask.symm, rfl⟩
      exact absurd hrefuses (hnot _ hbefore reply hop)

/-- Only with the rate limit on does a request check it. -/
theorem enabled_of_check (h : Run world (receive env settings) w₀ log w tasks)
    {en : Entry Service World} (hen : en ∈ log) (hcheck : ∃ key, en.op = .check key) :
    settings.rateLimitEnabled = true := by
  obtain ⟨key, hop⟩ := hcheck
  obtain ⟨earlier, later, hsplit⟩ := List.append_of_mem hen
  obtain ⟨task, _, _, hproper⟩ := run_proper h hsplit
  rw [hop] at hproper
  exact hproper

/-- What is left of a log without the requests at the positions `deleted`: who was replied what,
and when. -/
def surviving (deleted : ℕ → Bool) (log : List (Entry Service World)) :
    List (ℕ × Event Service × ℚ) :=
  (log.filter fun en => !deleted en.task).map fun en =>
    (rank (fun t => !deleted t) en.task, en.event, en.after.now)

/-- **Refused requests leave no trace.** Take any run of any requests side by side, with whatever
the provider, the databases and the callers' clocks do, in a process whose rate limit, if it is on,
has no negative rate; and delete any requests from it that were answered 401, or 429 for their
caller's own rate. Then what is left is a run of the other requests: at the same times each of them
makes the same requests and gets the same replies, up to its answer and beyond; and it ends with
the same breaker, the same job rows and the same usage entries. -/
theorem refusals_traceless (env : Environment) (settings : Settings)
    (hrate : settings.rateLimitEnabled = true → 0 ≤ settings.rateLimitRequestsPerMinute) {now : ℚ}
    (h : Run world (receive env settings) (.start settings now) log w tasks) (deleted : ℕ → Bool)
    (hdeleted : ∀ t, deleted t = true → WasRefused (ownTrace t log)) :
    ∃ log' w', Run world (receive env settings) (.start settings now) log' w'
        (pick (fun t => !deleted t) tasks) ∧
      (log'.map fun en => (en.task, en.event, en.after.now)) = surviving deleted log ∧
      w'.breaker = w.breaker ∧ w'.jobs = w.jobs ∧ w'.usage = w.usage := by
  have hstep : ∀ en ∈ log, world.step en.before en.task en.op en.reply en.after := by
    intro en hen
    obtain ⟨earlier, later, hsplit⟩ := List.append_of_mem hen
    exact (h.chained.split.2 earlier en later hsplit).2
  have hchecked : ∀ en ∈ log, (∃ key, en.op = .check key) →
      0 ≤ settings.rateLimitRequestsPerMinute :=
    fun en hen hcheck => hrate (enabled_of_check h hen hcheck)
  obtain ⟨log', v, hrun, hnoticed, hlog⟩ := h.without (fun t => !deleted t) (Unnoticed settings)
    World.now (Unnoticed.start settings now)
    (fun en hen hkeep v hv => hv.quiet (hstep en hen)
      (quiet_of_refused h (hdeleted en.task (by simpa using hkeep)) en hen rfl) (hchecked en hen))
    fun en hen _ t v hv => hv.mirror (hstep en hen) (hchecked en hen) t
  exact ⟨log', v, hrun, hlog, hnoticed.breaker, hnoticed.jobs, hnoticed.usage⟩

/-! ## Limiters without a burst -/

/-- Settings that leave no burst. -/
def drained (perMinute : ℤ) : Settings :=
  { Settings.defaults with rateLimitBurst := 0, rateLimitRequestsPerMinute := perMinute }

/-- The limiter they make. -/
def drainedLimiter (perMinute : ℤ) : InMemoryRateLimiter := .create 0 (perMinute / 60)

/-- The completion that asks for `hello` with the key `k`. -/
def helloSubmission : Submission × Option String := (.valid (.complete helloRequest), some "k")

/-- The bucket of a first check. -/
theorem drained_bucketFor (perMinute : ℤ) (created : ℚ) :
    (drainedLimiter perMinute).bucketFor "k" created = .create 0 (perMinute / 60) created := rfl

/-- A first check finds an empty bucket. -/
theorem drained_check (now : ℚ) :
    ((drainedLimiter 60).check "k" now now).1 = .ok ⟨false, 0, 0, 0, 1⟩ := by
  rw [InMemoryRateLimiter.check_fst, drained_bucketFor]
  norm_num [TokenBucket.take, TokenBucket.refill, TokenBucket.create, TokenBucket.decision, divide]
  rfl

/-- A refusal for the want of tokens, and a look at a job: the look is the same without it. -/
theorem refusals_traceless_drained :
    ∃ log w, Run world (receive .sample (drained 60)) (.start (drained 60) 0) log w
        [⟨helloSubmission, .ret ()⟩, ⟨(.valid (.show "j"), some "k"), .ret ()⟩] ∧
      ∃ log' w', Run world (receive .sample (drained 60)) (.start (drained 60) 0) log' w'
          [⟨(.valid (.show "j"), some "k"), .ret ()⟩] ∧
        (log'.map fun en => (en.task, en.event, en.after.now)) = surviving (· == 0) log ∧
        w'.breaker = w.breaker ∧ w'.jobs = w.jobs ∧ w'.usage = w.usage := by
  let start : World := .start (drained 60) 0
  let checked : World := { start with limiter := (start.limiter.check "k" 0 0).2 }
  have h₀ : Run world (receive .sample (drained 60)) start _ _ _ := .spawn helloSubmission .start
  have h₁ := h₀.reply 0 rfl (.ok (some ⟨"k", "k"⟩)) start ⟨0, le_rfl, rfl⟩
  have h₂ := h₁.reply 0 rfl (.ok ⟨false, 0, 0, 0, 1⟩) checked
    ⟨0, le_rfl, 0, le_rfl, le_rfl, (drained_check 0).symm, rfl⟩
  have h₃ := h₂.reply 0 rfl (.ok ()) checked ⟨0, le_rfl, rfl⟩
  have h₄ := h₃.reply 0 rfl () checked ⟨0, le_rfl, rfl⟩
  have h₅ := h₄.spawn (.valid (.show "j"), some "k")
  have h₆ := h₅.reply 1 rfl (.ok (some ⟨"k", "k"⟩)) checked ⟨0, le_rfl, rfl⟩
  have h₇ := h₆.reply 1 rfl (.ok none) checked ⟨0, le_rfl, by rintro _ ⟨⟩; rfl, rfl⟩
  have h₈ := h₇.reply 1 rfl (.ok ()) checked ⟨0, le_rfl, rfl⟩
  have h₉ := h₈.reply 1 rfl () checked ⟨0, le_rfl, rfl⟩
  refine ⟨_, _, h₉, refusals_traceless .sample (drained 60) (by decide) h₉ (· == 0) ?_⟩
  intro t ht
  obtain rfl : t = 0 := by simpa using ht
  exact ⟨_, by simp [ownTrace, Entry.event]; rfl, .inr ⟨rfl, rfl⟩⟩

/-- The first check of a limiter whose rate is negative. -/
theorem negative_check (now : ℚ) :
    ((drainedLimiter (-60)).check "k" now now).1 = .ok ⟨false, 0, 0, 0, -1⟩ := by
  rw [InMemoryRateLimiter.check_fst, drained_bucketFor]
  norm_num [TokenBucket.take, TokenBucket.refill, TokenBucket.create, TokenBucket.decision, divide]
  rfl

/-- And its second check, ten seconds later. -/
theorem negative_check_again :
    (((drainedLimiter (-60)).check "k" 0 0).2.check "k" 10 10).1 =
      .ok ⟨false, 0, -10, -10, -11⟩ := by
  rw [InMemoryRateLimiter.check_fst, InMemoryRateLimiter.bucketFor_check_self,
    TokenBucket.take_denied (negative_check 0) rfl, drained_bucketFor]
  norm_num [TokenBucket.take, TokenBucket.refill, TokenBucket.create, TokenBucket.decision, divide]
  rfl

/-- On its own, a request that is looked up and checked at the time 10 finds a new bucket. -/
theorem lone_check {found checked : Entry Service World} {rest : List (Entry Service World)}
    {w : World} {r : Except Exc RateLimitDecision}
    (h : Chained world (.start (drained (-60)) 0) (found :: checked :: rest) w)
    (hfound : found.op = .findByHash "k") (hnow : found.after.now = 10)
    (hevent : checked.event = ⟨.check "k", r⟩) (hlater : checked.after.now = 10) :
    r = .ok ⟨false, 0, 0, 0, -1⟩ := by
  obtain ⟨hstart, hfirst⟩ := h.split.2 [] found (checked :: rest) rfl
  obtain ⟨hbefore, hsecond⟩ := h.split.2 [found] checked rest rfl
  -- the lookup leaves the limiter as it was
  have hlimiter : found.after.limiter = drainedLimiter (-60) := by
    rcases world_limiter hfirst with ⟨_, hsame⟩ | ⟨key, _, _, hcheck, _⟩
    · rw [hsame, hstart]
      rfl
    · cases hfound.symm.trans (congrArg Event.op hcheck)
  obtain ⟨t, before, op, reply, after⟩ := checked
  cases hevent
  obtain ⟨now, _, created, hlow, hhigh, hreply, hafter⟩ := hsecond
  have hnow' : now = 10 := (congrArg World.now hafter).symm.trans hlater
  have hlow' : 10 ≤ created := by
    rw [← hnow]
    exact hlow.trans' (le_of_eq (congrArg World.now hbefore).symm)
  have hcreated : created = 10 := le_antisymm (hhigh.trans (le_of_eq hnow')) hlow'
  have hlimiter' : before.limiter = drainedLimiter (-60) :=
    (congrArg World.limiter hbefore).trans hlimiter
  have hanswer : reply = (before.limiter.check "k" created now).1 := hreply
  rw [hanswer, hlimiter', hcreated, hnow']
  exact negative_check 10

/-- With a negative rate a refused request is noticed: it is told that 0 tokens remain, and the
next one, ten seconds later, that -10 do; on its own that one is told 0. -/
theorem negative_rate_noticed :
    ∃ log w tasks deleted,
      Run world (receive .sample (drained (-60))) (.start (drained (-60)) 0) log w tasks ∧
      (∀ t, deleted t = true → WasRefused (ownTrace t log)) ∧
      ¬ ∃ log' w', Run world (receive .sample (drained (-60))) (.start (drained (-60)) 0) log' w'
          (pick (fun t => !deleted t) tasks) ∧
        (log'.map fun en => (en.task, en.event, en.after.now)) = surviving deleted log := by
  let start : World := .start (drained (-60)) 0
  let checked : World := { start with limiter := (start.limiter.check "k" 0 0).2 }
  let later : World := { checked with now := 10 }
  let again : World := { later with limiter := (later.limiter.check "k" 10 10).2 }
  have hlater : checked.now ≤ 10 := show (0 : ℚ) ≤ 10 by norm_num
  have h₀ : Run world (receive .sample (drained (-60))) start _ _ _ :=
    .spawn helloSubmission .start
  have h₁ := h₀.reply 0 rfl (.ok (some ⟨"k", "k"⟩)) start ⟨0, le_rfl, rfl⟩
  have h₂ := h₁.reply 0 rfl (.ok ⟨false, 0, 0, 0, -1⟩) checked
    ⟨0, le_rfl, 0, le_rfl, le_rfl, (negative_check 0).symm, rfl⟩
  have h₃ := h₂.reply 0 rfl (.ok ()) checked ⟨0, le_rfl, rfl⟩
  have h₄ := h₃.reply 0 rfl () checked ⟨0, le_rfl, rfl⟩
  have h₅ := h₄.spawn helloSubmission
  have h₆ := h₅.reply 1 rfl (.ok (some ⟨"k", "k"⟩)) later ⟨10, hlater, rfl⟩
  have h₇ := h₆.reply 1 rfl (.ok ⟨false, 0, -10, -10, -11⟩) again
    ⟨10, le_rfl, 10, le_rfl, le_rfl, negative_check_again.symm, rfl⟩
  have h₈ := h₇.reply 1 rfl (.ok ()) again ⟨10, le_rfl, rfl⟩
  have h₉ := h₈.reply 1 rfl () again ⟨10, le_rfl, rfl⟩
  refine ⟨_, _, _, (· == 0), h₉, ?_, ?_⟩
  · intro t ht
    obtain rfl : t = 0 := by simpa using ht
    exact ⟨_, by simp [ownTrace, Entry.event]; rfl, .inr ⟨rfl, rfl⟩⟩
  · rintro ⟨log', w', hrun, hlog⟩
    obtain ⟨found, rest, rfl, hfound, hrest⟩ := List.map_eq_cons_iff.mp hlog
    obtain ⟨denied, rest, rfl, hdenied, _⟩ := List.map_eq_cons_iff.mp hrest
    have hanswer := lone_check hrun.chained
      (congrArg (fun seen : ℕ × Event Service × ℚ => seen.2.1.op) hfound)
      (congrArg (fun seen : ℕ × Event Service × ℚ => seen.2.2) hfound)
      (congrArg (fun seen : ℕ × Event Service × ℚ => seen.2.1) hdenied)
      (congrArg (fun seen : ℕ × Event Service × ℚ => seen.2.2) hdenied)
    have hremaining := congrArg RateLimitDecision.remaining (Except.ok.inj hanswer)
    cases hremaining

end PrdApiWrapper
