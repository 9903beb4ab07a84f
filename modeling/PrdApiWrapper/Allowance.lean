import PrdApiWrapper.Forecast
import PrdApiWrapper.Quota
import PrdApiWrapper.Replies

/-!
# What the headers are worth

The quota bounds a caller from above. The headers of an answer speak of the other side: so many
requests remain, the next is possible after so many seconds, and all are after so many. Between the
answer and the next request any number of other requests go on, of the same caller too, and each
check rewrites the bucket. What is spent is only what was granted (`Worth`): a bucket holds at least
what it would if it had been left alone, less one token for each request of its caller let through
since. So the headers are kept (`headers_kept`).
-/

namespace PrdApiWrapper

open Interaction

/-! ## A bucket left alone -/

/-- What a bucket of this capacity and rate would hold, `elapsed` seconds after it held `level`, if
nothing were taken. -/
def untouchedLevel (capacity : ℤ) (refillRate level elapsed : ℚ) : ℚ :=
  min capacity (level + refillRate * elapsed)

/-- A bucket that holds at least the untouched level less `spent` still does when it refills. -/
theorem untouchedLevel_refill {capacity : ℤ} {refillRate level elapsed spent : ℚ}
    {bucket : TokenBucket} (hrange : bucket.InRange capacity refillRate) (hrate : 0 < refillRate)
    (hspent : 0 ≤ spent) {now : ℚ} (hnow : bucket.updatedAt ≤ now)
    (h : untouchedLevel capacity refillRate level elapsed - spent ≤ bucket.tokens) :
    untouchedLevel capacity refillRate level (elapsed + (now - bucket.updatedAt)) - spent ≤
      (bucket.refill now).tokens := by
  have hrefill : 0 ≤ refillRate * (now - bucket.updatedAt) :=
    mul_nonneg hrate.le (sub_nonneg.mpr hnow)
  simp only [untouchedLevel, TokenBucket.refill, hrange.capacity, hrange.refillRate] at h ⊢
  rw [mul_add, ← add_assoc, mul_comm (now - bucket.updatedAt)]
  generalize refillRate * (now - bucket.updatedAt) = refilled at hrefill ⊢
  generalize level + refillRate * elapsed = accrued at h ⊢
  have hfull := min_le_left (capacity : ℚ) (accrued + refilled)
  have hgrow : min (capacity : ℚ) (accrued + refilled) ≤ min ↑capacity accrued + refilled := by
    rw [← min_add_add_right]
    exact min_le_min_right _ (le_add_of_nonneg_right hrefill)
  apply le_min <;> linarith

/-! ## The bucket of a caller, from one check to the next -/

/-- A check in the world, with the reading of the clock at which a new bucket is created. -/
theorem world_check {en : Entry Service World}
    (hstep : world.step en.before en.task en.op en.reply en.after) {key : String}
    (hop : en.op = .check key) : ∃ created, en.before.now ≤ created ∧ created ≤ en.after.now ∧
      en.event = ⟨.check key, (en.before.limiter.check key created en.after.now).1⟩ ∧
      en.after.limiter = (en.before.limiter.check key created en.after.now).2 := by
  obtain ⟨t, w, op, r, w'⟩ := en
  obtain rfl : op = .check key := hop
  obtain ⟨now, -, hanswers⟩ := hstep
  simp only at hanswers
  obtain ⟨created, hbefore, hcreated, rfl, rfl⟩ := hanswers
  exact ⟨created, hbefore, hcreated, rfl, rfl⟩

/-- All buckets are in range, at all times. -/
theorem chained_inRange {capacity : ℤ} (hcapacity : 0 ≤ capacity) {refillRate : ℚ}
    (hrate : 0 < refillRate) {w₀ w : World} {log : List (Entry Service World)}
    (h : Chained world w₀ log w) (hstart : w₀.limiter.InRange capacity refillRate w₀.now) :
    ∀ en ∈ log, en.before.limiter.InRange capacity refillRate en.before.now := by
  have hall := (h.holds (fun w => w.limiter.InRange capacity refillRate w.now) hstart
    fun en _ hstep hrange => by
      by_cases hcheck : ∃ key, en.op = .check key
      · obtain ⟨key, hop⟩ := hcheck
        obtain ⟨created, hbefore, hcreated, -, hafter⟩ := world_check hstep hop
        let call : Check := ⟨key, created, en.after.now⟩
        have hbefore' : en.before.now ≤ call.created := hbefore
        have hchecked : (en.before.limiter.check call.key call.created call.taken).2.InRange
            capacity refillRate call.taken := hrange.check hcapacity hrate hbefore' hcreated
        rw [hafter]
        exact hchecked
      · rcases world_limiter hstep with ⟨-, hsame⟩ | ⟨key, created, -, hevent, -⟩
        · rw [hsame]
          exact ⟨fun key bucket hbucket => ⟨(hrange.buckets key bucket hbucket).1,
            (hrange.buckets key bucket hbucket).2.trans (world_now hstep)⟩, hrange.capacity,
            hrange.refillRate⟩
        · exact absurd ⟨key, congrArg Event.op hevent⟩ hcheck).2
  exact fun en hen => (hall en hen).1

/-- After `log`, begun `elapsed` ago at a moment when the bucket of `key` held `level`: it holds at
least as much as if it had been left alone, less the requests let through since. -/
structure Worth (capacity : ℤ) (refillRate : ℚ) (key : String) (level since : ℚ)
    (log : List (Entry Service World)) (w : World) : Prop where
  bucket : ∃ bucket, w.limiter.buckets key = some bucket ∧
    bucket.InRange capacity refillRate ∧ bucket.updatedAt ≤ w.now ∧
    untouchedLevel capacity refillRate level (bucket.updatedAt - since) - grantsTo key log ≤
      bucket.tokens

/-- What a check of the caller finds, and leaves. -/
theorem Worth.snoc {capacity : ℤ} {refillRate : ℚ} (hrate : 0 < refillRate) {key : String}
    {level since : ℚ} {log : List (Entry Service World)} {en : Entry Service World}
    (h : Worth capacity refillRate key level since log en.before)
    (hstep : world.step en.before en.task en.op en.reply en.after) :
    Worth capacity refillRate key level since (log ++ [en]) en.after ∧
      (checks key en = true →
        grantsTo key log + 1 ≤
          untouchedLevel capacity refillRate level (en.after.now - since) →
        isGrant en.event = true) := by
  obtain ⟨bucket, hbucket, hrange, hupdated, hlevel⟩ := h.bucket
  have hlater := world_now hstep
  by_cases hcheck : en.op = .check key
  · obtain ⟨created, -, -, hevent, hafter⟩ := world_check hstep hcheck
    have hchecks : checks key en = true := by simp [checks, hcheck]
    have hfor : en.before.limiter.bucketFor key created = bucket := by
      rw [InMemoryRateLimiter.bucketFor, hbucket]
      rfl
    have hrefilled := untouchedLevel_refill hrange hrate (Nat.cast_nonneg (grantsTo key log))
      (hupdated.trans hlater) hlevel
    have helapsed : bucket.updatedAt - since + (en.after.now - bucket.updatedAt) =
        en.after.now - since := by ring
    rw [helapsed] at hrefilled
    obtain ⟨d, hd, hallowed, htokens⟩ :=
      bucket.take_spec (hrange.refillRate ▸ hrate) 1 en.after.now
    rw [InMemoryRateLimiter.check_fst, hfor, hd] at hevent
    have hgrant : isGrant en.event = d.allowed := by rw [hevent]; rfl
    refine ⟨⟨(bucket.take 1 en.after.now).2, ?_, hrange.take hrate (hupdated.trans hlater),
      (TokenBucket.take_updatedAt ..).le, ?_⟩, fun _ hroom => ?_⟩
    · rw [hafter, InMemoryRateLimiter.check_self, hfor]
    · rw [TokenBucket.take_updatedAt, htokens, grantsTo_snoc, hchecks, hgrant, Bool.true_and]
      push_cast
      linarith
    · rw [hgrant]
      exact hallowed.mpr (by linarith)
  · have hchecks : checks key en = false := by
      cases hop : en.op <;> simp_all [checks]
    have hkept : en.after.limiter.buckets key = en.before.limiter.buckets key := by
      rcases world_limiter hstep with ⟨-, hsame⟩ | ⟨key', created, -, hevent, hafter⟩
      · rw [hsame]
      · rw [hafter]
        refine InMemoryRateLimiter.check_of_ne _ ?_ _ _
        rintro rfl
        exact hcheck (congrArg Event.op hevent)
    refine ⟨⟨bucket, hkept.trans hbucket, hrange, hupdated.trans hlater, ?_⟩, ?_⟩
    · rw [grantsTo_snoc, hchecks]
      simpa using hlevel
    · rw [hchecks]
      exact fun hfalse => absurd hfalse Bool.false_ne_true

/-- After any more requests, whoever's they are. -/
theorem Worth.chained {capacity : ℤ} {refillRate : ℚ} (hrate : 0 < refillRate) {key : String}
    {level since : ℚ} {w₀ w : World} (hstart : Worth capacity refillRate key level since [] w₀)
    {log : List (Entry Service World)} (h : Chained world w₀ log w) :
    Worth capacity refillRate key level since log w := by
  induction h with
  | nil => exact hstart
  | snoc _ hbefore hstep ih =>
    subst hbefore
    exact (ih.snoc hrate hstep).1

/-- What a check leaves is worth what it says. -/
theorem worth_of_check {capacity : ℤ} {refillRate : ℚ} (hcapacity : 0 ≤ capacity)
    (hrate : 0 < refillRate) {en : Entry Service World}
    (hstep : world.step en.before en.task en.op en.reply en.after)
    (hrange : en.before.limiter.InRange capacity refillRate en.before.now) {key : String}
    {d : RateLimitDecision} (hevent : en.event = ⟨.check key, .ok d⟩) :
    ∃ level, Worth capacity refillRate key level en.after.now [] en.after ∧ 0 ≤ level ∧
      level ≤ capacity ∧ d.limit = capacity ∧ d.remaining = ⌊level⌋ ∧
      d.resetAfter = (capacity - level) / refillRate ∧
      (d.allowed = false → d.retryAfter = (1 - level) / refillRate) := by
  obtain ⟨created, hbefore, hcreated, hanswer, hafter⟩ :=
    world_check hstep (congrArg Event.op hevent)
  obtain ⟨hbucket, hupdated⟩ := hrange.bucketFor hcapacity key hbefore
  have hd := eq_of_heq (Event.mk.inj (hevent.symm.trans hanswer)).2
  have hself := InMemoryRateLimiter.check_self en.before.limiter key created en.after.now
  rw [InMemoryRateLimiter.check_fst] at hd
  generalize en.before.limiter.bucketFor key created = bucket at hbucket hupdated hd hself
  have hleft := hbucket.take hrate (hupdated.trans hcreated)
  refine ⟨(bucket.take 1 en.after.now).2.tokens, ⟨_, by rw [hafter, hself], hleft,
    (TokenBucket.take_updatedAt ..).le, ?_⟩, hleft.nonneg, hleft.le, ?_⟩
  · simp [untouchedLevel, grantsTo]
  · rcases bucket.take_cases (hbucket.refillRate_ne hrate) 1 en.after.now with
      ⟨-, htake⟩ | ⟨-, htake⟩
    · rw [htake] at hd ⊢
      cases hd
      simp [hbucket.capacity, hbucket.refillRate]
    · rw [htake] at hd ⊢
      cases hd
      simp [hbucket.capacity, hbucket.refillRate]

/-- **The headers are kept.** In every run of any number of requests side by side: after a check was
answered, a later one of the same caller is granted if fewer were granted in between than were said
to remain; or if none was granted in between and the seconds of Retry-After have passed, where it
was refused; or if fewer than the limit were, and the seconds until the reset have passed. What
other callers do in between makes no difference, nor do refused requests. -/
theorem headers_kept {env : Environment} {settings : Settings} {begin : ℚ} {w : World}
    {log : List (Entry Service World)}
    {tasks : List (Task (Submission × Option String) Service Unit)}
    (h : Run world (receive env settings) (World.start settings begin) log w tasks)
    (hburst : 1 ≤ settings.rateLimitBurst) (hrate : 0 < settings.rateLimitRequestsPerMinute)
    {earlier : List (Entry Service World)} {first : Entry Service World}
    {between : List (Entry Service World)} {second : Entry Service World}
    {later : List (Entry Service World)}
    (hlog : log = earlier ++ first :: (between ++ second :: later)) {key : String}
    {d : RateLimitDecision} (hfirst : first.event = ⟨.check key, .ok d⟩)
    (hsecond : second.op = .check key)
    (hroom : (grantsTo key between : ℤ) < d.remaining ∨
      (d.allowed = false ∧ grantsTo key between = 0 ∧
        (⌈d.retryAfter⌉ : ℚ) ≤ second.after.now - first.after.now) ∨
      ((grantsTo key between : ℤ) < d.limit ∧
        (⌈d.resetAfter⌉ : ℚ) ≤ second.after.now - first.after.now)) :
    isGrant second.event = true := by
  have hcapacity : 0 ≤ settings.rateLimitBurst := zero_le_one.trans hburst
  have hrefill : 0 < (settings.rateLimitRequestsPerMinute : ℚ) / 60 :=
    div_pos (Int.cast_pos.mpr hrate) (by norm_num)
  have hstart : (World.start settings begin).limiter.InRange settings.rateLimitBurst
      (settings.rateLimitRequestsPerMinute / 60) (World.start settings begin).now :=
    ⟨by rintro _ _ ⟨⟩, rfl, rfl⟩
  obtain ⟨hbefore, hstep⟩ := h.chained.split.2 earlier first _ hlog
  have hrange := chained_inRange hcapacity hrefill h.chained hstart first (by simp [hlog])
  obtain ⟨level, hworth, hnonneg, hle, hlimit, hremaining, hreset, hretry⟩ :=
    worth_of_check hcapacity hrefill hstep hrange hfirst
  -- the walk from the first check to the second
  have hlog' : log = (earlier ++ [first]) ++ (between ++ second :: later) := by simp [hlog]
  have hsince := (Chained.unappend (hlog' ▸ h.chained)).2
  rw [worldAfter_snoc] at hsince
  obtain ⟨hbetween, hsecondStep⟩ := hsince.split.2 between second later rfl
  have hworth' := hworth.chained hrefill (Chained.unappend hsince).1
  rw [← hbetween] at hworth'
  refine (hworth'.snoc hrefill hsecondStep).2 (by simp [checks, hsecond]) ?_
  have helapsed : 0 ≤ second.after.now - first.after.now :=
    sub_nonneg.mpr ((hsince.holds (fun w => first.after.now ≤ w.now) le_rfl
      fun _ _ hstep h => h.trans (world_now hstep)).2 second (by simp)).2
  have haccrued := mul_nonneg hrefill.le helapsed
  rcases hroom with hfew | ⟨hrefused, hnone, hwaited⟩ | ⟨hfew, hwaited⟩
  · -- what remained is still there
    rw [hremaining, ← Int.add_one_le_iff, Int.le_floor] at hfew
    push_cast at hfew
    exact le_min (hfew.trans hle) (by linarith)
  · -- a token has come
    have hone := (Int.le_ceil _).trans hwaited
    rw [hretry hrefused, div_le_iff₀ hrefill] at hone
    rw [hnone]
    refine le_min ?_ (by push_cast; linarith)
    simpa using (Int.cast_le (R := ℚ)).mpr hburst
  · -- the bucket would be full
    have hfull := (Int.le_ceil _).trans hwaited
    rw [hreset, div_le_iff₀ hrefill] at hfull
    rw [hlimit, ← Int.add_one_le_iff] at hfew
    have hfew' := (Int.cast_le (R := ℚ)).mpr hfew
    push_cast at hfew'
    exact le_min hfew' (by linarith)

/-- Nine remain after a first request, so a second one at the same moment is let through too. -/
theorem headers_kept_second :
    ∃ log w tasks, Run world (receive .sample .defaults) (World.start .defaults 0) log w tasks ∧
      ∃ en ∈ log, en.task = 1 ∧ en.op = .check "k1" ∧ isGrant en.event = true := by
  let submission : Submission × Option String := (.valid (.submit hookRequest), some "k")
  let charged : World := { dayOne with limiter := (dayOne.limiter.check "k1" 0 0).2 }
  let after : World := { charged with limiter := (charged.limiter.check "k1" 0 0).2 }
  have hfirst : world.step dayOne 0 (.check "k1") (.ok ⟨true, 10, 9, 1, 0⟩) charged :=
    ⟨0, le_rfl, 0, le_rfl, le_rfl, (dayOne_check "k1").symm, rfl⟩
  have h₀ : Run world (receive .sample .defaults) dayOne _ _ _ := .spawn submission .start
  have h₁ := h₀.reply 0 rfl (.ok (some ⟨"k1", "K"⟩) : Except String (Option Caller)) dayOne
    ⟨0, le_rfl, rfl⟩
  have h₂ := h₁.reply 0 rfl (.ok ⟨true, 10, 9, 1, 0⟩) charged hfirst
  have h₃ := h₂.spawn submission
  have h₄ := h₃.reply 1 rfl (.ok (some ⟨"k1", "K"⟩) : Except String (Option Caller)) charged
    ⟨0, le_rfl, rfl⟩
  have h₅ := h₄.reply 1 rfl (charged.limiter.check "k1" 0 0).1 after
    ⟨0, le_rfl, 0, le_rfl, le_rfl, rfl, rfl⟩
  refine ⟨_, _, _, h₅, _, List.mem_concat_self, rfl, rfl, ?_⟩
  exact headers_kept h₅ (by decide) (by decide) (show _ = [_] ++ _ :: ([_] ++ _ :: []) from rfl)
    (d := ⟨true, 10, 9, 1, 0⟩) rfl rfl (.inl (by decide))

end PrdApiWrapper
