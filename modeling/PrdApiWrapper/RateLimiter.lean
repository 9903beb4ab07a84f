import PrdApiWrapper.Models
import PrdApiWrapper.Headroom

/-!
# The rate limiter

`services/rate_limiter.py`. A token bucket reads its clock once when it is created and once in each
`take`; the limiter keeps one bucket a caller and creates it at the caller's first check. Clock
readings are arguments here. Token counts and the clock are exact rationals. The source has floats,
and `Rounded` has them too: this is that limiter with nothing rounded (`Rounded.history_exact`).

`check` has no `await` in it, so one check is one step.
-/

namespace PrdApiWrapper

open Headroom

/-- `a / b`, which raises when `b` is zero. -/
def divide (a b : ℚ) : Except Exc ℚ :=
  if b = 0 then .error (.foreign "ZeroDivisionError") else .ok (a / b)

theorem divide_of_ne (a : ℚ) {b : ℚ} (hb : b ≠ 0) : divide a b = .ok (a / b) := if_neg hb

theorem divide_error {a b : ℚ} {exc : Exc} (h : divide a b = .error exc) :
    exc = .foreign "ZeroDivisionError" := by
  rw [divide] at h
  split at h <;> cases h
  rfl

/-- Whether a decision lets the request through. -/
def granted : Except Exc RateLimitDecision → Bool
  | .ok decision => decision.allowed
  | .error _ => false

/-! ## One bucket -/

/-- The attributes of a `TokenBucket`, its clock apart. -/
structure TokenBucket where
  capacity : ℤ
  refillRate : ℚ
  tokens : ℚ
  updatedAt : ℚ
  deriving DecidableEq

namespace TokenBucket

/-- `TokenBucket(capacity, refill_rate)` at time `now`: full, `float(capacity)` being the capacity
itself. -/
def create (capacity : ℤ) (refillRate now : ℚ) : TokenBucket where
  capacity := capacity
  refillRate := refillRate
  tokens := capacity
  updatedAt := now

/-- `_refill`. -/
def refill (bucket : TokenBucket) (now : ℚ) : TokenBucket :=
  let elapsed := now - bucket.updatedAt
  { bucket with
    tokens := min bucket.capacity (bucket.tokens + elapsed * bucket.refillRate)
    updatedAt := now }

/-- `take`'s answer, from the bucket after refilling and charging. -/
def decision (bucket : TokenBucket) (tokens : ℚ) (allowed : Bool) :
    Except Exc RateLimitDecision := do
  let missing := max 0 (tokens - bucket.tokens)
  let resetAfter ← divide (bucket.capacity - bucket.tokens) bucket.refillRate
  let retryAfter ← if allowed then pure 0 else divide missing bucket.refillRate
  pure {
    allowed := allowed
    limit := bucket.capacity
    remaining := ⌊bucket.tokens⌋
    resetAfter := resetAfter
    retryAfter := retryAfter }

/-- It fails for a bucket that does not refill. -/
theorem decision_error {bucket : TokenBucket} {tokens : ℚ} {allowed : Bool} {exc : Exc}
    (h : bucket.decision tokens allowed = .error exc) : exc = .foreign "ZeroDivisionError" := by
  simp only [decision] at h
  cases hreset : divide (bucket.capacity - bucket.tokens) bucket.refillRate with
  | error exc' =>
    rw [hreset] at h
    cases h
    exact divide_error hreset
  | ok resetAfter =>
    rw [hreset] at h
    cases allowed with
    | true => cases h
    | false =>
      cases hretry : divide (max 0 (tokens - bucket.tokens)) bucket.refillRate with
      | error exc' =>
        rw [hretry] at h
        cases h
        exact divide_error hretry
      | ok retryAfter =>
        rw [hretry] at h
        cases h

/-- `take(tokens)` at time `now`. -/
def take (bucket : TokenBucket) (tokens now : ℚ) : Except Exc RateLimitDecision × TokenBucket :=
  let refilled := bucket.refill now
  let allowed := decide (tokens ≤ refilled.tokens)
  let charged :=
    if allowed then { refilled with tokens := refilled.tokens - tokens } else refilled
  (charged.decision tokens allowed, charged)

@[simp] theorem take_capacity (bucket : TokenBucket) (tokens now : ℚ) :
    (bucket.take tokens now).2.capacity = bucket.capacity := by
  simp only [take]
  split <;> rfl

@[simp] theorem take_refillRate (bucket : TokenBucket) (tokens now : ℚ) :
    (bucket.take tokens now).2.refillRate = bucket.refillRate := by
  simp only [take]
  split <;> rfl

@[simp] theorem take_updatedAt (bucket : TokenBucket) (tokens now : ℚ) :
    (bucket.take tokens now).2.updatedAt = now := by
  simp only [take]
  split <;> rfl

/-- The answer of a bucket whose rate is not zero. -/
theorem decision_eq (bucket : TokenBucket) (hrate : bucket.refillRate ≠ 0) (tokens : ℚ)
    (allowed : Bool) :
    bucket.decision tokens allowed = .ok {
      allowed := allowed
      limit := bucket.capacity
      remaining := ⌊bucket.tokens⌋
      resetAfter := (bucket.capacity - bucket.tokens) / bucket.refillRate
      retryAfter :=
        if allowed then 0 else max 0 (tokens - bucket.tokens) / bucket.refillRate } := by
  simp only [decision, divide_of_ne _ hrate]
  cases allowed <;> rfl

/-- **What a take does**: it always answers, is allowed exactly if the refilled bucket holds the
tokens asked for, and takes them out exactly if it is allowed. -/
theorem take_spec (bucket : TokenBucket) (hrate : 0 < bucket.refillRate) (tokens now : ℚ) :
    ∃ d : RateLimitDecision, (bucket.take tokens now).1 = .ok d ∧
      (d.allowed = true ↔ tokens ≤ (bucket.refill now).tokens) ∧
      (bucket.take tokens now).2.tokens =
        (bucket.refill now).tokens - if d.allowed then tokens else 0 := by
  simp only [take]
  by_cases h : tokens ≤ (bucket.refill now).tokens
  · simp only [h, decide_true, if_true]
    refine ⟨_, decision_eq _ ?_ tokens true, ?_, ?_⟩
    · exact hrate.ne'
    · simp
    · simp
  · simp only [h, decide_false, Bool.false_eq_true, if_false]
    refine ⟨_, decision_eq _ ?_ tokens false, ?_, ?_⟩
    · exact hrate.ne'
    · simp
    · simp

/-- **The two kinds of take**, with their answers. -/
theorem take_cases (bucket : TokenBucket) (hrate : bucket.refillRate ≠ 0) (tokens now : ℚ) :
    (tokens ≤ (bucket.refill now).tokens ∧ bucket.take tokens now = (.ok {
        allowed := true
        limit := bucket.capacity
        remaining := ⌊(bucket.refill now).tokens - tokens⌋
        resetAfter :=
          (bucket.capacity - ((bucket.refill now).tokens - tokens)) / bucket.refillRate
        retryAfter := 0 },
      { bucket.refill now with tokens := (bucket.refill now).tokens - tokens })) ∨
    ((bucket.refill now).tokens < tokens ∧ bucket.take tokens now = (.ok {
        allowed := false
        limit := bucket.capacity
        remaining := ⌊(bucket.refill now).tokens⌋
        resetAfter := (bucket.capacity - (bucket.refill now).tokens) / bucket.refillRate
        retryAfter := (tokens - (bucket.refill now).tokens) / bucket.refillRate },
      bucket.refill now)) := by
  by_cases h : tokens ≤ (bucket.refill now).tokens
  · refine .inl ⟨h, ?_⟩
    simp only [take, h, decide_true, if_true]
    refine congrArg (·, _) (decision_eq _ ?_ tokens true)
    exact hrate
  · refine .inr ⟨not_le.mp h, ?_⟩
    have hmissing : max 0 (tokens - (bucket.refill now).tokens) =
        tokens - (bucket.refill now).tokens :=
      max_eq_right (sub_nonneg.mpr (not_le.mp h).le)
    simp only [take, h, decide_false, Bool.false_eq_true, if_false]
    rw [decision_eq (bucket.refill now) hrate tokens false, hmissing]
    rfl

theorem granted_take (bucket : TokenBucket) (hrate : bucket.refillRate ≠ 0) (tokens now : ℚ) :
    granted (bucket.take tokens now).1 = true ↔ tokens ≤ (bucket.refill now).tokens := by
  rcases bucket.take_cases hrate tokens now with ⟨henough, htake⟩ | ⟨hshort, htake⟩
  · rw [htake]
    exact iff_of_true rfl henough
  · rw [htake]
    exact iff_of_false Bool.false_ne_true (not_le.mpr hshort)

/-- A take does not overdraw, and tokens and grants grow by no more than the refill. -/
theorem take_bound (bucket : TokenBucket) (hrate : 0 < bucket.refillRate)
    (hcapacity : 0 ≤ bucket.capacity) (htokens : 0 ≤ bucket.tokens) {now : ℚ}
    (hnow : bucket.updatedAt ≤ now) :
    0 ≤ (bucket.take 1 now).2.tokens ∧
      (bucket.take 1 now).2.tokens + (if granted (bucket.take 1 now).1 then 1 else 0) ≤
        bucket.tokens + (now - bucket.updatedAt) * bucket.refillRate := by
  obtain ⟨d, hd, hallowed, hafter⟩ := bucket.take_spec hrate 1 now
  have hrefilled : (bucket.refill now).tokens =
      min (bucket.capacity : ℚ)
        (bucket.tokens + (now - bucket.updatedAt) * bucket.refillRate) := rfl
  have hgrown : 0 ≤ (now - bucket.updatedAt) * bucket.refillRate :=
    mul_nonneg (sub_nonneg.mpr hnow) hrate.le
  have hpositive : 0 ≤ (bucket.refill now).tokens := by
    rw [hrefilled]
    exact le_min (by exact_mod_cast hcapacity) (add_nonneg htokens hgrown)
  have hbounded : (bucket.refill now).tokens ≤
      bucket.tokens + (now - bucket.updatedAt) * bucket.refillRate := by
    rw [hrefilled]
    exact min_le_right _ _
  rw [hd, hafter]
  cases hgranted : d.allowed with
  | true =>
    have hone := hallowed.mp hgranted
    simp only [granted, hgranted, if_true]
    constructor <;> linarith
  | false =>
    simp only [granted, hgranted, Bool.false_eq_true, if_false]
    constructor <;> linarith

/-- A take sees of its bucket only what refilling leaves. -/
theorem take_congr {bucket bucket' : TokenBucket} {now : ℚ}
    (h : bucket.refill now = bucket'.refill now) (tokens : ℚ) :
    bucket.take tokens now = bucket'.take tokens now := by
  rw [take, take, h]

/-- What the answer to a take says of it. -/
theorem take_allowed {bucket : TokenBucket} {tokens now : ℚ} {d : RateLimitDecision}
    (h : (bucket.take tokens now).1 = .ok d) :
    d.allowed = decide (tokens ≤ (bucket.refill now).tokens) := by
  simp only [take, decision] at h
  generalize decide (tokens ≤ (bucket.refill now).tokens) = allowed at h
  revert h
  generalize divide _ _ = resetAfter
  generalize divide _ _ = retryAfter
  intro h
  rcases resetAfter with exc | resetAfter
  · cases h
  · cases allowed with
    | true =>
      cases h
      rfl
    | false =>
      rcases retryAfter with exc | retryAfter
      · cases h
      · cases h
        rfl

/-- Refilling on the way makes no difference. -/
theorem refill_refill (bucket : TokenBucket) {now later : ℚ} (hrate : 0 ≤ bucket.refillRate)
    (hlater : now ≤ later) : (bucket.refill now).refill later = bucket.refill later := by
  have hgrown : 0 ≤ (later - now) * bucket.refillRate :=
    mul_nonneg (sub_nonneg.mpr hlater) hrate
  have htokens : min (bucket.capacity : ℚ)
      (min (bucket.capacity : ℚ) (bucket.tokens + (now - bucket.updatedAt) * bucket.refillRate) +
        (later - now) * bucket.refillRate) =
      min (bucket.capacity : ℚ)
        (bucket.tokens + (later - bucket.updatedAt) * bucket.refillRate) := by
    rw [← min_add_add_right, ← min_assoc, min_eq_left (le_add_of_nonneg_right hgrown)]
    congr 1
    ring
  simp only [refill, htokens]

/-- A take that is denied only refills. -/
theorem take_denied {bucket : TokenBucket} {tokens now : ℚ} {d : RateLimitDecision}
    (h : (bucket.take tokens now).1 = .ok d) (hdenied : d.allowed = false) :
    (bucket.take tokens now).2 = bucket.refill now := by
  have hshort : decide (tokens ≤ (bucket.refill now).tokens) = false := by
    rw [← take_allowed h, hdenied]
  simp only [take, hshort, Bool.false_eq_true, if_false]

/-- A full bucket stays full however long it is left alone. -/
theorem refill_create (capacity : ℤ) {refillRate created now : ℚ} (hrate : 0 ≤ refillRate)
    (hnow : created ≤ now) :
    (create capacity refillRate created).refill now = create capacity refillRate now := by
  have : 0 ≤ (now - created) * refillRate := mul_nonneg (sub_nonneg.mpr hnow) hrate
  simp [refill, create, this]

/-- The first take from a full bucket does not depend on when it was created. -/
theorem take_create (capacity : ℤ) {refillRate created now : ℚ} (hrate : 0 ≤ refillRate)
    (hnow : created ≤ now) (tokens : ℚ) :
    (create capacity refillRate created).take tokens now =
      (create capacity refillRate now).take tokens now := by
  rw [take, take, refill_create capacity hrate hnow, refill_create capacity hrate le_rfl]

end TokenBucket

/-! ## One bucket a caller -/

/-- The attributes of an `InMemoryRateLimiter`, its clock apart. -/
structure InMemoryRateLimiter where
  capacity : ℤ
  refillRate : ℚ
  buckets : String → Option TokenBucket

namespace InMemoryRateLimiter

/-- `InMemoryRateLimiter(capacity, refill_rate)`. -/
def create (capacity : ℤ) (refillRate : ℚ) : InMemoryRateLimiter where
  capacity := capacity
  refillRate := refillRate
  buckets := fun _ => none

/-- The bucket `check` charges: the caller's, created at `created` if there is none yet. -/
def bucketFor (limiter : InMemoryRateLimiter) (key : String) (created : ℚ) : TokenBucket :=
  (limiter.buckets key).getD (.create limiter.capacity limiter.refillRate created)

/-- `check(key)`: the clock reads `created` if a bucket has to be created, and `taken` in the
take. -/
def check (limiter : InMemoryRateLimiter) (key : String) (created taken : ℚ) :
    Except Exc RateLimitDecision × InMemoryRateLimiter :=
  let (decision, bucket) := (limiter.bucketFor key created).take 1 taken
  (decision, { limiter with buckets := Function.update limiter.buckets key (some bucket) })

/-- It does not matter when a bucket was created. -/
theorem bucketFor_refill (limiter : InMemoryRateLimiter) (hrate : 0 ≤ limiter.refillRate)
    (key : String) {created now : ℚ} (hcreated : created ≤ now) :
    (limiter.bucketFor key created).refill now = (limiter.bucketFor key now).refill now := by
  unfold bucketFor
  cases limiter.buckets key with
  | some bucket => rfl
  | none =>
    have hcreate := TokenBucket.refill_create limiter.capacity hrate hcreated
    exact hcreate.trans (TokenBucket.refill_create limiter.capacity hrate le_rfl).symm

theorem check_fst (limiter : InMemoryRateLimiter) (key : String) (created taken : ℚ) :
    (limiter.check key created taken).1 = ((limiter.bucketFor key created).take 1 taken).1 := rfl

/-- What a check raises is not an `AppError`. -/
theorem check_error (limiter : InMemoryRateLimiter) {key : String} {created taken : ℚ} {exc : Exc}
    (h : (limiter.check key created taken).1 = .error exc) : ∃ name, exc = .foreign name :=
  ⟨_, TokenBucket.decision_error h⟩

theorem check_self (limiter : InMemoryRateLimiter) (key : String) (created taken : ℚ) :
    (limiter.check key created taken).2.buckets key =
      some ((limiter.bucketFor key created).take 1 taken).2 :=
  Function.update_self ..

/-- A check leaves every other caller's bucket alone. -/
theorem check_of_ne (limiter : InMemoryRateLimiter) {key key' : String} (h : key' ≠ key)
    (created taken : ℚ) :
    (limiter.check key created taken).2.buckets key' = limiter.buckets key' :=
  Function.update_of_ne h ..

/-- The bucket after a check. -/
theorem bucketFor_check_self (limiter : InMemoryRateLimiter) (key : String)
    (created taken later : ℚ) : (limiter.check key created taken).2.bucketFor key later =
      ((limiter.bucketFor key created).take 1 taken).2 := by
  rw [bucketFor, limiter.check_self]
  rfl

theorem bucketFor_check_of_ne (limiter : InMemoryRateLimiter) {key key' : String} (h : key' ≠ key)
    (created taken later : ℚ) :
    (limiter.check key created taken).2.bucketFor key' later = limiter.bucketFor key' later := by
  rw [bucketFor, limiter.check_of_ne h]
  rfl

/-- All buckets refill at one rate, those to come included. -/
structure Uniform (rate : ℚ) (limiter : InMemoryRateLimiter) : Prop where
  refillRate : limiter.refillRate = rate
  buckets : ∀ key bucket, limiter.buckets key = some bucket → bucket.refillRate = rate

namespace Uniform

variable {rate : ℚ} {limiter : InMemoryRateLimiter}

theorem create (capacity : ℤ) (rate : ℚ) : Uniform rate (.create capacity rate) := ⟨rfl, nofun⟩

theorem bucketFor (h : Uniform rate limiter) (key : String) (created : ℚ) :
    (limiter.bucketFor key created).refillRate = rate := by
  rw [InMemoryRateLimiter.bucketFor]
  cases hbucket : limiter.buckets key with
  | none => exact h.refillRate
  | some bucket => exact h.buckets key bucket hbucket

/-- A check changes no rate. -/
theorem check (h : Uniform rate limiter) (key : String) (created taken : ℚ) :
    Uniform rate (limiter.check key created taken).2 where
  refillRate := h.refillRate
  buckets key' bucket hbucket := by
    by_cases hkey : key' = key
    · subst hkey
      rw [limiter.check_self] at hbucket
      obtain rfl := Option.some.inj hbucket
      rw [TokenBucket.take_refillRate, h.bucketFor]
    · rw [limiter.check_of_ne hkey] at hbucket
      exact h.buckets key' bucket hbucket

end Uniform

end InMemoryRateLimiter

end PrdApiWrapper
