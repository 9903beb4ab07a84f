import PrdApiWrapper.Arithmetic
import PrdApiWrapper.Forecast

/-!
# The rate limiter, in floats

`services/rate_limiter.py` once more, with the numbers as Python has them: the capacity is an `int`,
the level is a float, or the capacity itself when the bucket is full, the rate is the quotient of
two `int`s, and what is computed from them is rounded. How is a parameter. Without rounding this is
the limiter of exact numbers (`history_exact`); with the rounding of floats it says which
configurations the limiter can be relied on for (`limiter_sound_iff`).
-/

namespace PrdApiWrapper

namespace Rounded

/-- A decision, with floats for its times. -/
structure RateLimitDecision where
  allowed : Bool
  limit : ℤ
  remaining : ℤ
  resetAfter : PyFloat
  retryAfter : PyFloat
  deriving DecidableEq

/-! ## One bucket -/

/-- The attributes of a `TokenBucket`, its clock apart. -/
structure TokenBucket where
  capacity : ℤ
  refillRate : PyFloat
  tokens : PyNumber
  updatedAt : ℚ
  deriving DecidableEq

namespace TokenBucket

variable (toFloat : ℚ → PyFloat)

/-- `TokenBucket(capacity, refill_rate)` at time `now`: full, if the capacity is a float. -/
def create (capacity : ℤ) (refillRate : PyFloat) (now : ℚ) : Except Exc TokenBucket := do
  let tokens ← (PyNumber.int capacity).asFloat toFloat
  pure {
    capacity := capacity
    refillRate := refillRate
    tokens := .float tokens
    updatedAt := now }

/-- `_refill`. -/
def refill (bucket : TokenBucket) (now : ℚ) : Except Exc TokenBucket := do
  let elapsed := PyFloat.minus toFloat (.fin now) (.fin bucket.updatedAt)
  let level ← bucket.tokens.plus toFloat (.float (elapsed.times toFloat bucket.refillRate))
  pure { bucket with tokens := PyNumber.pyMin (.int bucket.capacity) level, updatedAt := now }

/-- `take`'s answer, from the bucket after refilling and charging. -/
def decision (bucket : TokenBucket) (tokens : PyFloat) (allowed : Bool) :
    Except Exc RateLimitDecision := do
  let missing := PyNumber.pyMax (.float (.fin 0))
    (← (PyNumber.float tokens).minus toFloat bucket.tokens)
  let remaining ← bucket.tokens.floor
  let short ← (PyNumber.int bucket.capacity).minus toFloat bucket.tokens
  let resetAfter ← short.divided toFloat (.float bucket.refillRate)
  let retryAfter ←
    (if allowed then .ok (.fin 0) else missing.divided toFloat (.float bucket.refillRate))
  pure {
    allowed := allowed
    limit := bucket.capacity
    remaining := remaining
    resetAfter := resetAfter
    retryAfter := retryAfter }

/-- `self._tokens -= tokens`, for a take that is allowed. -/
def charge (bucket : TokenBucket) (tokens : PyFloat) (allowed : Bool) :
    Except Exc TokenBucket := do
  let level ← (if allowed then bucket.tokens.minus toFloat (.float tokens) else .ok bucket.tokens)
  pure { bucket with tokens := level }

/-- `take(tokens)` at time `now`, with what is left of the bucket wherever it raises. -/
def take (bucket : TokenBucket) (tokens : PyFloat) (now : ℚ) :
    Except Exc RateLimitDecision × TokenBucket :=
  match bucket.refill toFloat now with
  | .error exc => (.error exc, bucket)
  | .ok refilled =>
    let allowed := tokens.le refilled.tokens.value
    match refilled.charge toFloat tokens allowed with
    | .error exc => (.error exc, refilled)
    | .ok charged => (charged.decision toFloat tokens allowed, charged)

end TokenBucket

/-! ## One bucket a caller -/

/-- The attributes of an `InMemoryRateLimiter`, its clock apart. -/
structure InMemoryRateLimiter where
  capacity : ℤ
  refillRate : PyFloat
  buckets : String → Option TokenBucket

namespace InMemoryRateLimiter

variable (toFloat : ℚ → PyFloat)

/-- The bucket `check` charges: the caller's, created at `created` if there is none yet. -/
def bucketFor (limiter : InMemoryRateLimiter) (key : String) (created : ℚ) :
    Except Exc TokenBucket :=
  match limiter.buckets key with
  | some bucket => .ok bucket
  | none => TokenBucket.create toFloat limiter.capacity limiter.refillRate created

/-- `check(key)`. -/
def check (limiter : InMemoryRateLimiter) (key : String) (created taken : ℚ) :
    Except Exc RateLimitDecision × InMemoryRateLimiter :=
  match limiter.bucketFor toFloat key created with
  | .error exc => (.error exc, limiter)
  | .ok bucket =>
    let (decision, bucket) := bucket.take toFloat (.fin 1) taken
    (decision, { limiter with buckets := Function.update limiter.buckets key (some bucket) })

/-- Checks in this order, each answered to its caller. -/
def history (limiter : InMemoryRateLimiter) :
    List Check → List (String × Except Exc RateLimitDecision)
  | [] => []
  | call :: later =>
    let (decision, limiter') := limiter.check toFloat call.key call.created call.taken
    (call.key, decision) :: limiter'.history later

end InMemoryRateLimiter

/-- The limiter that `lifespan` creates, unless the rate is too large for a float. -/
def lifespan (toFloat : ℚ → PyFloat) (settings : Settings) : Except Exc InMemoryRateLimiter := do
  let refillRate ←
    (PyNumber.int settings.rateLimitRequestsPerMinute).divided toFloat (.int 60)
  pure {
    capacity := settings.rateLimitBurst
    refillRate := refillRate
    buckets := fun _ => none }

/-! ## Without rounding -/

/-- A decision of exact numbers, in floats. -/
def RateLimitDecision.of (d : PrdApiWrapper.RateLimitDecision) : RateLimitDecision where
  allowed := d.allowed
  limit := d.limit
  remaining := d.remaining
  resetAfter := .fin d.resetAfter
  retryAfter := .fin d.retryAfter

/-- A bucket with the same numbers, of whichever types. -/
structure TokenBucket.Shows (bucket : TokenBucket) (bucket' : PrdApiWrapper.TokenBucket) :
    Prop where
  capacity : bucket.capacity = bucket'.capacity
  refillRate : bucket.refillRate = .fin bucket'.refillRate
  tokens : bucket.tokens.value = .fin bucket'.tokens
  updatedAt : bucket.updatedAt = bucket'.updatedAt

namespace TokenBucket

variable {bucket : TokenBucket} {bucket' : PrdApiWrapper.TokenBucket}

theorem shows_create (capacity : ℤ) (refillRate created : ℚ) :
    ∃ bucket, create .fin capacity (.fin refillRate) created = .ok bucket ∧
      bucket.Shows (.create capacity refillRate created) :=
  ⟨_, rfl, rfl, rfl, rfl, rfl⟩

theorem Shows.refill (h : bucket.Shows bucket') (now : ℚ) :
    ∃ refilled, bucket.refill .fin now = .ok refilled ∧ refilled.Shows (bucket'.refill now) := by
  have hgrowth : (PyFloat.minus .fin (.fin now) (.fin bucket.updatedAt)).times .fin
      bucket.refillRate = .fin ((now - bucket'.updatedAt) * bucket'.refillRate) := by
    rw [h.refillRate, h.updatedAt, sub_eq_add_neg]
    rfl
  rw [TokenBucket.refill, hgrowth, PyNumber.plus_float, PyNumber.asFloat_fin, h.tokens]
  refine ⟨_, rfl, h.capacity, h.refillRate, ?_, rfl⟩
  rw [PyNumber.value_pyMin rfl rfl, h.capacity]
  rfl

/-- The quotient by a rate. -/
theorem divided_fin {a : PyNumber} {x : ℚ} (ha : a.value = .fin x) (refillRate : ℚ) :
    a.divided .fin (.float (.fin refillRate)) = (divide x refillRate).map .fin := by
  rw [PyNumber.divided_float, PyNumber.asFloat_fin, ha, divide]
  by_cases h : refillRate = 0
  · simp [h, Except.map]
    rfl
  · simp [h, PyFloat.divided, PyFloat.quotient, Except.map]
    rfl

theorem Shows.decision (h : bucket.Shows bucket') (tokens : ℚ) (allowed : Bool) :
    bucket.decision .fin (.fin tokens) allowed =
      (bucket'.decision tokens allowed).map RateLimitDecision.of := by
  obtain ⟨missing, hmissing, hvalue⟩ :=
    PyNumber.minus_fin (a := .float (.fin tokens)) rfl h.tokens
  obtain ⟨short, hshort, hshortValue⟩ :=
    PyNumber.minus_fin (a := .int bucket.capacity) rfl h.tokens
  have hwait := PyNumber.value_pyMax (a := .float (.fin 0)) rfl hvalue
  rw [TokenBucket.decision, hmissing, hshort, PyNumber.floor_of_value h.tokens, h.refillRate]
  simp only [bind, Except.bind, divided_fin hshortValue, divided_fin hwait, h.capacity,
    PrdApiWrapper.TokenBucket.decision]
  cases divide (bucket'.capacity - bucket'.tokens) bucket'.refillRate with
  | error exc => rfl
  | ok resetAfter =>
    cases allowed with
    | true => rfl
    | false => cases divide (max 0 (tokens - bucket'.tokens)) bucket'.refillRate <;> rfl

theorem Shows.charge (h : bucket.Shows bucket') (tokens : ℚ) (allowed : Bool) :
    ∃ charged, bucket.charge .fin (.fin tokens) allowed = .ok charged ∧ charged.Shows
      (if allowed then { bucket' with tokens := bucket'.tokens - tokens } else bucket') := by
  cases allowed with
  | true =>
    obtain ⟨level, hlevel, hvalue⟩ := PyNumber.minus_fin (b := .float (.fin tokens)) h.tokens rfl
    rw [TokenBucket.charge, if_pos rfl, hlevel]
    exact ⟨_, rfl, h.capacity, h.refillRate, hvalue, h.updatedAt⟩
  | false => exact ⟨_, rfl, h⟩

/-- **A take without rounding** is one of exact numbers. -/
theorem Shows.take (h : bucket.Shows bucket') (tokens now : ℚ) :
    (bucket.take .fin (.fin tokens) now).1 =
        (bucket'.take tokens now).1.map RateLimitDecision.of ∧
      (bucket.take .fin (.fin tokens) now).2.Shows (bucket'.take tokens now).2 := by
  obtain ⟨refilled, hrefill, hrefilled⟩ := h.refill now
  have hallowed : (PyFloat.fin tokens).le refilled.tokens.value =
      decide (tokens ≤ (bucket'.refill now).tokens) := by
    rw [hrefilled.tokens, PyFloat.le_fin]
  obtain ⟨charged, hcharge, hcharged⟩ :=
    hrefilled.charge tokens (decide (tokens ≤ (bucket'.refill now).tokens))
  simp only [TokenBucket.take, hrefill, hallowed, hcharge]
  exact ⟨hcharged.decision tokens _, hcharged⟩

end TokenBucket

/-- A limiter with the same numbers. -/
structure InMemoryRateLimiter.Shows (limiter : InMemoryRateLimiter)
    (limiter' : PrdApiWrapper.InMemoryRateLimiter) : Prop where
  capacity : limiter.capacity = limiter'.capacity
  refillRate : limiter.refillRate = .fin limiter'.refillRate
  buckets : ∀ key, Option.Rel TokenBucket.Shows (limiter.buckets key) (limiter'.buckets key)

namespace InMemoryRateLimiter

variable {limiter : InMemoryRateLimiter} {limiter' : PrdApiWrapper.InMemoryRateLimiter}

theorem Shows.bucketFor (h : limiter.Shows limiter') (key : String) (created : ℚ) :
    ∃ bucket, limiter.bucketFor .fin key created = .ok bucket ∧
      bucket.Shows (limiter'.bucketFor key created) := by
  have hbucket := h.buckets key
  unfold InMemoryRateLimiter.bucketFor PrdApiWrapper.InMemoryRateLimiter.bucketFor
  generalize limiter.buckets key = found at hbucket ⊢
  generalize limiter'.buckets key = found' at hbucket ⊢
  cases hbucket with
  | some hshows => exact ⟨_, rfl, hshows⟩
  | none =>
    dsimp only
    rw [h.capacity, h.refillRate]
    exact TokenBucket.shows_create _ _ created

theorem Shows.check (h : limiter.Shows limiter') (key : String) (created taken : ℚ) :
    (limiter.check .fin key created taken).1 =
        (limiter'.check key created taken).1.map RateLimitDecision.of ∧
      (limiter.check .fin key created taken).2.Shows (limiter'.check key created taken).2 := by
  obtain ⟨bucket, hbucket, hshows⟩ := h.bucketFor key created
  obtain ⟨hdecision, hafter⟩ := hshows.take 1 taken
  simp only [InMemoryRateLimiter.check, hbucket]
  refine ⟨hdecision, h.capacity, h.refillRate, fun other => ?_⟩
  dsimp only
  by_cases hother : other = key
  · subst hother
    rw [Function.update_self, limiter'.check_self]
    exact .some hafter
  · rw [Function.update_of_ne hother, limiter'.check_of_ne hother]
    exact h.buckets other

/-- **Without rounding this is the limiter of exact numbers**, for every sequence of checks. -/
theorem Shows.history {checks : List Check} :
    ∀ {limiter : InMemoryRateLimiter} {limiter' : PrdApiWrapper.InMemoryRateLimiter},
      limiter.Shows limiter' → limiter.history .fin checks =
        (limiter'.history checks).map fun answer =>
          (answer.1, answer.2.map RateLimitDecision.of) := by
  induction checks with
  | nil => exact fun _ => rfl
  | cons call later ih =>
    intro limiter limiter' h
    obtain ⟨hdecision, hafter⟩ := h.check call.key call.created call.taken
    rw [InMemoryRateLimiter.history, PrdApiWrapper.InMemoryRateLimiter.history, List.map_cons,
      ← ih hafter, ← hdecision]

end InMemoryRateLimiter

/-- The limiter of every configuration, without rounding, answers as the one the service starts
with. -/
theorem history_exact (settings : Settings) (begin : ℚ) :
    ∃ limiter, lifespan .fin settings = .ok limiter ∧ ∀ checks,
      limiter.history .fin checks =
        ((World.start settings begin).limiter.history checks).map fun answer =>
          (answer.1, answer.2.map RateLimitDecision.of) := by
  refine ⟨_, rfl, fun checks => ?_⟩
  exact InMemoryRateLimiter.Shows.history ⟨rfl, rfl, fun _ => .none⟩

/-! ## With the rounding of floats -/

open PyFloat (double double_zero double_one IsDouble)

/-- The numbers of a decision are what they should be. -/
structure SoundDecision (d : RateLimitDecision) : Prop where
  remaining : 0 ≤ d.remaining ∧ d.remaining ≤ d.limit
  resetAfter : d.resetAfter.Nonneg
  retryAfter : d.retryAfter.Nonneg

/-- An answer with sound numbers. -/
def SoundAnswer (answer : Except Exc RateLimitDecision) : Prop :=
  ∃ d, answer = .ok d ∧ SoundDecision d

/-- A capacity that becomes a float, and no greater one. -/
structure Reliable (capacity : ℤ) (full : ℚ) : Prop where
  nonneg : 0 ≤ capacity
  double_eq : double capacity = .fin full
  full_le : full ≤ capacity

/-- What the level of a bucket can be: the capacity, or a float that is no more. -/
inductive Level (capacity : ℤ) (full : ℚ) : PyNumber → Prop where
  | full : Level capacity full (.int capacity)
  | float {x : ℚ} : 0 ≤ x → x ≤ full → Level capacity full (.float (.fin x))

variable {capacity : ℤ} {refillRate full : ℚ} {level : PyNumber}

namespace Reliable

theorem full_nonneg (h : Reliable capacity full) : 0 ≤ full := by
  have hcapacity : (0 : ℚ) ≤ capacity := by exact_mod_cast h.nonneg
  obtain ⟨c, hc, hlow, -⟩ := PyFloat.double_between hcapacity le_rfl double_zero h.double_eq
  rw [h.double_eq] at hc
  cases hc
  exact hlow

/-- What is between zero and the full level still is when it is rounded. -/
theorem round_level (h : Reliable capacity full) {x : ℚ} (hlow : 0 ≤ x)
    (hhigh : x ≤ capacity) : ∃ c, double x = .fin c ∧ 0 ≤ c ∧ c ≤ full :=
  PyFloat.double_between hlow hhigh double_zero h.double_eq

/-- A level is between zero and the full one as a float, and there is a token in it if it says
so. -/
theorem asFloat_level (h : Reliable capacity full) (hlevel : Level capacity full level) :
    ∃ x, level.asFloat double = .ok (.fin x) ∧ 0 ≤ x ∧ x ≤ full ∧
      ((PyFloat.fin 1).le level.value = true → 1 ≤ x) := by
  cases hlevel with
  | full =>
    refine ⟨full, ?_, h.full_nonneg, le_rfl, fun hone => ?_⟩
    · rw [PyNumber.asFloat, h.double_eq]
    · rw [PyNumber.value, PyFloat.le_fin, decide_eq_true_eq] at hone
      obtain ⟨c, hc, hlow, -⟩ := PyFloat.double_between hone le_rfl double_one h.double_eq
      rw [h.double_eq] at hc
      cases hc
      exact hlow
  | float hlow hhigh =>
    refine ⟨_, rfl, hlow, hhigh, fun hone => ?_⟩
    rwa [PyNumber.value, PyFloat.le_fin, decide_eq_true_eq] at hone

/-- Adding to a level leaves one, capped. -/
theorem level_refill (h : Reliable capacity full) (hlevel : Level capacity full level)
    {growth : PyFloat} (hgrowth : growth.Nonneg) :
    ∃ grown, level.plus double (.float growth) = .ok grown ∧
      Level capacity full (PyNumber.pyMin (.int capacity) grown) := by
  obtain ⟨x, hx, hnonneg, -, -⟩ := h.asFloat_level hlevel
  rw [PyNumber.plus_float, hx]
  refine ⟨_, rfl, ?_⟩
  have hgrown := PyFloat.plus_nonneg (x := .fin x) hnonneg hgrowth
  have hdouble := fun q => PyFloat.isDouble_plus (x := .fin x) (y := growth) (a := q)
  generalize PyFloat.plus double (.fin x) growth = y at hgrown hdouble
  rw [PyNumber.pyMin, PyNumber.value, PyNumber.value]
  cases hless : y.lt (.fin capacity) with
  | false => exact .full
  | true =>
    cases y with
    | fin q =>
      -- below the capacity, and a float: then it is no more than the float the capacity becomes
      have hq : q < capacity := by simpa [PyFloat.lt] using hless
      obtain ⟨c, hc, -, hle⟩ := h.round_level hgrown hq.le
      rw [hdouble q rfl] at hc
      cases hc
      exact .float hgrown hle
    | inf | nan => cases hless
    | negInf => cases hgrown

/-- Taking a token out of a level leaves one. -/
theorem level_charge (h : Reliable capacity full) (hlevel : Level capacity full level)
    (hone : (PyFloat.fin 1).le level.value = true) :
    ∃ less, level.minus double (.float (.fin 1)) = .ok less ∧ Level capacity full less := by
  obtain ⟨x, hx, -, hhigh, henough⟩ := h.asFloat_level hlevel
  have hfull := h.full_le
  obtain ⟨c, hc, hlow, hle⟩ := h.round_level (sub_nonneg.mpr (henough hone))
    (by linarith : x - 1 ≤ capacity)
  rw [PyNumber.minus_float, hx]
  refine ⟨_, rfl, ?_⟩
  rw [PyFloat.minus_fin, hc]
  exact .float hlow hle

end Reliable

/-- The invariant of a bucket. -/
structure TokenBucket.InRange (capacity : ℤ) (refillRate full : ℚ) (bucket : TokenBucket) :
    Prop where
  level : Level capacity full bucket.tokens
  capacity : bucket.capacity = capacity
  refillRate : bucket.refillRate = .fin refillRate

namespace TokenBucket

variable {bucket : TokenBucket} {now : ℚ}

theorem inRange_create (h : Reliable capacity full) (created : ℚ) :
    ∃ bucket, create double capacity (.fin refillRate) created = .ok bucket ∧
      bucket.InRange capacity refillRate full ∧ bucket.updatedAt = created := by
  rw [create, PyNumber.asFloat, h.double_eq]
  exact ⟨_, rfl, ⟨.float h.full_nonneg le_rfl, rfl, rfl⟩, rfl⟩

theorem InRange.refill (hbucket : bucket.InRange capacity refillRate full)
    (h : Reliable capacity full) (hrate : 0 < refillRate) (hnow : bucket.updatedAt ≤ now) :
    ∃ refilled, bucket.refill double now = .ok refilled ∧
      refilled.InRange capacity refillRate full ∧ refilled.updatedAt = now := by
  have helapsed : (PyFloat.minus double (.fin now) (.fin bucket.updatedAt)).Nonneg := by
    rw [PyFloat.minus_fin]
    exact PyFloat.double_nonneg (sub_nonneg.mpr hnow)
  obtain ⟨grown, hgrown, hlevel⟩ :=
    h.level_refill hbucket.level (PyFloat.times_nonneg helapsed hrate)
  rw [TokenBucket.refill, hbucket.refillRate, hgrown, hbucket.capacity]
  exact ⟨_, rfl, ⟨hlevel, rfl, rfl⟩, rfl⟩

theorem InRange.charge (hbucket : bucket.InRange capacity refillRate full)
    (h : Reliable capacity full) :
    ∃ charged, bucket.charge double (.fin 1) ((PyFloat.fin 1).le bucket.tokens.value) =
        .ok charged ∧
      charged.InRange capacity refillRate full ∧ charged.updatedAt = bucket.updatedAt := by
  cases hallowed : (PyFloat.fin 1).le bucket.tokens.value with
  | false => exact ⟨_, rfl, hbucket, rfl⟩
  | true =>
    obtain ⟨less, hless, hlevel⟩ := h.level_charge hbucket.level hallowed
    rw [TokenBucket.charge, if_pos rfl, hless]
    exact ⟨_, rfl, ⟨hlevel, hbucket.capacity, hbucket.refillRate⟩, rfl⟩

/-- What is missing from a full bucket is not negative. -/
theorem InRange.short (hbucket : bucket.InRange capacity refillRate full)
    (h : Reliable capacity full) :
    ∃ short x, (PyNumber.int bucket.capacity).minus double bucket.tokens = .ok short ∧
      short.asFloat double = .ok x ∧ x.Nonneg := by
  rw [hbucket.capacity]
  have hlevel := hbucket.level
  generalize bucket.tokens = level at hlevel
  cases hlevel with
  | full =>
    refine ⟨_, .fin 0, rfl, ?_, le_refl (0 : ℚ)⟩
    rw [sub_self, PyNumber.asFloat, Int.cast_zero, double_zero]
  | @float x hlow hhigh =>
    refine ⟨.float (double (full - x)), _, ?_, rfl,
      PyFloat.double_nonneg (sub_nonneg.mpr hhigh)⟩
    rw [PyNumber.minus_float, PyNumber.asFloat, h.double_eq, ← PyFloat.minus_fin double]
    rfl

/-- What is left is between nothing and the capacity. -/
theorem InRange.floor (hbucket : bucket.InRange capacity refillRate full)
    (h : Reliable capacity full) :
    ∃ remaining, bucket.tokens.floor = .ok remaining ∧ 0 ≤ remaining ∧ remaining ≤ capacity := by
  have hlevel := hbucket.level
  generalize bucket.tokens = level at hlevel
  cases hlevel with
  | full => exact ⟨capacity, rfl, h.nonneg, le_rfl⟩
  | @float x hlow hhigh =>
    refine ⟨⌊x⌋, rfl, Int.floor_nonneg.mpr hlow, ?_⟩
    have := ((Int.floor_le x).trans hhigh).trans h.full_le
    exact_mod_cast this

/-- **A bucket in range answers** with sound numbers. -/
theorem InRange.decision (hbucket : bucket.InRange capacity refillRate full)
    (h : Reliable capacity full) (hrate : 0 < refillRate) (allowed : Bool) :
    SoundAnswer (bucket.decision double (.fin 1) allowed) := by
  obtain ⟨x, hx, -⟩ := h.asFloat_level hbucket.level
  obtain ⟨remaining, hfloor, hremaining⟩ := hbucket.floor h
  obtain ⟨short, y, hshort, hy, hynonneg⟩ := hbucket.short h
  obtain ⟨missing, hmissing, hnonneg⟩ := PyNumber.pyMax_zero (double (1 - x))
  obtain ⟨resetAfter, hreset, hresetAfter⟩ := PyFloat.divided_nonneg hynonneg hrate
  obtain ⟨wait, hwait, hwaitNonneg⟩ := PyFloat.divided_nonneg hnonneg hrate
  rw [TokenBucket.decision, PyNumber.float_minus, hx, hfloor, hshort, hbucket.capacity,
    hbucket.refillRate]
  simp only [bind, Except.bind, pure, Except.pure, PyFloat.minus_fin, hmissing,
    PyNumber.divided_float, hy, hreset]
  cases allowed with
  | true => exact ⟨_, rfl, hremaining, hresetAfter, le_refl (0 : ℚ)⟩
  | false =>
    simp only [PyNumber.asFloat, hwait]
    exact ⟨_, rfl, hremaining, hresetAfter, hwaitNonneg⟩

/-- One that does not refill does not answer. -/
theorem InRange.decision_zero (hbucket : bucket.InRange capacity 0 full)
    (h : Reliable capacity full) (allowed : Bool) :
    bucket.decision double (.fin 1) allowed = .error (.foreign "ZeroDivisionError") := by
  obtain ⟨x, hx, -⟩ := h.asFloat_level hbucket.level
  obtain ⟨remaining, hfloor, -⟩ := hbucket.floor h
  obtain ⟨short, y, hshort, hy, -⟩ := hbucket.short h
  rw [TokenBucket.decision, PyNumber.float_minus, hx, hfloor, hshort, hbucket.refillRate]
  simp only [bind, Except.bind, pure, Except.pure, PyNumber.divided_float, hy,
    PyFloat.divided_zero]

/-- A take keeps a bucket in range and answers with sound numbers. -/
theorem InRange.take (hbucket : bucket.InRange capacity refillRate full)
    (h : Reliable capacity full) (hrate : 0 < refillRate) (hnow : bucket.updatedAt ≤ now) :
    SoundAnswer (bucket.take double (.fin 1) now).1 ∧
      (bucket.take double (.fin 1) now).2.InRange capacity refillRate full ∧
      (bucket.take double (.fin 1) now).2.updatedAt = now := by
  obtain ⟨refilled, hrefill, hrefilled, hupdated⟩ := hbucket.refill h hrate hnow
  obtain ⟨charged, hcharge, hcharged, hsame⟩ := hrefilled.charge h
  simp only [TokenBucket.take, hrefill, hcharge]
  exact ⟨hcharged.decision h hrate _, hcharged, hsame.trans hupdated⟩

end TokenBucket

/-- All buckets are in range and have not been touched later than `now`. -/
structure InMemoryRateLimiter.InRange (capacity : ℤ) (refillRate full : ℚ)
    (limiter : InMemoryRateLimiter) (now : ℚ) : Prop where
  buckets : ∀ key bucket, limiter.buckets key = some bucket →
    bucket.InRange capacity refillRate full ∧ bucket.updatedAt ≤ now
  capacity : limiter.capacity = capacity
  refillRate : limiter.refillRate = .fin refillRate

namespace InMemoryRateLimiter

variable {limiter : InMemoryRateLimiter} {now : ℚ}

theorem InRange.bucketFor (hlimiter : limiter.InRange capacity refillRate full now)
    (h : Reliable capacity full) (key : String) {created : ℚ} (hcreated : now ≤ created) :
    ∃ bucket, limiter.bucketFor double key created = .ok bucket ∧
      bucket.InRange capacity refillRate full ∧ bucket.updatedAt ≤ created := by
  rw [InMemoryRateLimiter.bucketFor]
  cases hbucket : limiter.buckets key with
  | none =>
    obtain ⟨bucket, hcreate, hrange, hupdated⟩ := TokenBucket.inRange_create h created
    dsimp only
    rw [hlimiter.capacity, hlimiter.refillRate]
    exact ⟨bucket, hcreate, hrange, hupdated.le⟩
  | some bucket =>
    obtain ⟨hrange, hupdated⟩ := hlimiter.buckets key bucket hbucket
    exact ⟨bucket, rfl, hrange, hupdated.trans hcreated⟩

/-- A check is answered with sound numbers and leaves the buckets in range. -/
theorem InRange.check (hlimiter : limiter.InRange capacity refillRate full now)
    (h : Reliable capacity full) (hrate : 0 < refillRate) {call : Check}
    (hcreated : now ≤ call.created) (htaken : call.created ≤ call.taken) :
    SoundAnswer (limiter.check double call.key call.created call.taken).1 ∧
      (limiter.check double call.key call.created call.taken).2.InRange capacity refillRate full
        call.taken := by
  obtain ⟨bucket, hbucket, hrange, hupdated⟩ := hlimiter.bucketFor h call.key hcreated
  obtain ⟨hsound, hafter, hnow⟩ := hrange.take h hrate (hupdated.trans htaken)
  simp only [InMemoryRateLimiter.check, hbucket]
  refine ⟨hsound, fun key other hother => ?_, hlimiter.capacity, hlimiter.refillRate⟩
  dsimp only at hother
  by_cases hkey : key = call.key
  · subst hkey
    rw [Function.update_self] at hother
    cases hother
    exact ⟨hafter, hnow.le⟩
  · rw [Function.update_of_ne hkey] at hother
    obtain ⟨hrange', hbefore⟩ := hlimiter.buckets key other hother
    exact ⟨hrange', (hbefore.trans hcreated).trans htaken⟩

/-- All readings of the clock in a sequence of checks. -/
def readings (checks : List Check) : List ℚ :=
  checks.flatMap fun call => [call.created, call.taken]

/-- Every sequence of checks, of any callers at readings of a clock that does not go back, is
answered with sound numbers. -/
def Sound (limiter : InMemoryRateLimiter) : Prop :=
  ∀ checks : List Check, (∀ reading ∈ readings checks, IsDouble reading) →
    (readings checks).Pairwise (· ≤ ·) →
    ∀ answer ∈ limiter.history double checks, SoundAnswer answer.2

theorem InRange.history (h : Reliable capacity full) (hrate : 0 < refillRate)
    {checks : List Check} :
    ∀ {limiter : InMemoryRateLimiter} {now : ℚ},
      limiter.InRange capacity refillRate full now →
      (now :: readings checks).Pairwise (· ≤ ·) →
      ∀ answer ∈ limiter.history double checks, SoundAnswer answer.2 := by
  induction checks with
  | nil =>
    intro limiter now _ _ answer hanswer
    cases hanswer
  | cons call later ih =>
    intro limiter now hlimiter hclock answer hanswer
    have hreadings : readings (call :: later) = call.created :: call.taken :: readings later := rfl
    rw [hreadings, List.pairwise_cons, List.pairwise_cons] at hclock
    obtain ⟨hnow, hcreated, hrest⟩ := hclock
    obtain ⟨hsound, hnext⟩ := hlimiter.check h hrate (hnow _ List.mem_cons_self)
      (hcreated _ List.mem_cons_self)
    rcases List.mem_cons.mp hanswer with rfl | hanswer
    · exact hsound
    · exact ih hnext hrest answer hanswer

end InMemoryRateLimiter

/-! ## Configurations -/

namespace TokenBucket

variable {bucket refilled : TokenBucket} {now : ℚ} {d : RateLimitDecision}

/-- What an answer says of the bucket: how many tokens are left, and that it refills. -/
theorem decision_ok {tokens : PyFloat} {allowed : Bool}
    (h : bucket.decision double tokens allowed = .ok d) :
    bucket.tokens.floor = .ok d.remaining ∧ d.limit = bucket.capacity ∧
      bucket.refillRate ≠ .fin 0 := by
  obtain ⟨_, _, h⟩ := bind_eq_ok.mp h
  obtain ⟨remaining, hfloor, h⟩ := bind_eq_ok.mp h
  obtain ⟨short, _, h⟩ := bind_eq_ok.mp h
  obtain ⟨resetAfter, hreset, h⟩ := bind_eq_ok.mp h
  obtain ⟨retryAfter, _, h⟩ := bind_eq_ok.mp h
  cases h
  refine ⟨hfloor, rfl, fun hzero => ?_⟩
  rw [hzero, PyNumber.divided_float] at hreset
  obtain ⟨x, _, hdivided⟩ := bind_eq_ok.mp hreset
  rw [PyFloat.divided_zero] at hdivided
  cases hdivided

/-- The same of a take, from what it refills to. -/
theorem take_ok (hrefill : bucket.refill double now = .ok refilled)
    (h : (bucket.take double (.fin 1) now).1 = .ok d) :
    ∃ charged, refilled.charge double (.fin 1) ((PyFloat.fin 1).le refilled.tokens.value) =
        .ok charged ∧
      charged.tokens.floor = .ok d.remaining ∧ d.limit = refilled.capacity ∧
      refilled.refillRate ≠ .fin 0 := by
  simp only [take, hrefill] at h
  cases hcharge : refilled.charge double (.fin 1) ((PyFloat.fin 1).le refilled.tokens.value) with
  | error exc =>
    rw [hcharge] at h
    cases h
  | ok charged =>
    rw [hcharge] at h
    obtain ⟨hfloor, hlimit, hrate⟩ := decision_ok h
    obtain ⟨level, _, hsame⟩ := bind_eq_ok.mp hcharge
    cases hsame
    exact ⟨_, rfl, hfloor, hlimit, hrate⟩

/-- A bucket just created, whose capacity became the float `full`. -/
def fresh (capacity : ℤ) (refillRate full created : ℚ) : TokenBucket where
  capacity := capacity
  refillRate := .fin refillRate
  tokens := .float (.fin full)
  updatedAt := created

/-- It does not refill at once, but may be taken for full. -/
theorem refill_fresh (hfull : double capacity = .fin full) (refillRate : ℚ) :
    (fresh capacity refillRate full 0).refill double 0 = .ok {
      fresh capacity refillRate full 0 with
      tokens := PyNumber.pyMin (.int capacity) (.float (.fin full)) } := by
  have hsum : double (full + 0) = .fin full := by
    rw [add_zero]
    exact PyFloat.isDouble_of_double hfull
  simp only [refill, fresh, PyNumber.plus_float, PyFloat.minus_fin, sub_zero, double_zero,
    PyFloat.times, zero_mul, PyNumber.asFloat, bind, Except.bind, PyFloat.plus, hsum]
  rfl

/-- The first answer of a bucket, if it is one. -/
theorem fresh_ok (hfull : double capacity = .fin full)
    (h : ((fresh capacity refillRate full 0).take double (.fin 1) 0).1 = .ok d) :
    (∃ charged, charge double { fresh capacity refillRate full 0 with
          tokens := PyNumber.pyMin (.int capacity) (.float (.fin full)) } (.fin 1)
        (decide ((1 : ℚ) ≤ min (capacity : ℚ) full)) = .ok charged ∧
      charged.tokens.floor = .ok d.remaining) ∧ d.limit = capacity ∧ refillRate ≠ 0 := by
  obtain ⟨charged, hcharge, hfloor, hlimit, hrate⟩ := take_ok (refill_fresh hfull refillRate) h
  rw [PyNumber.value_pyMin (x := capacity) (y := full) rfl rfl, PyFloat.le_fin] at hcharge
  exact ⟨⟨charged, hcharge, hfloor⟩, hlimit, fun hzero => hrate (congrArg PyFloat.fin hzero)⟩

/-- A bucket that does not refill does not answer. -/
theorem take_fresh_zero (h : Reliable capacity full) :
    ((fresh capacity 0 full 0).take double (.fin 1) 0).1 =
      .error (.foreign "ZeroDivisionError") := by
  have hrefilled : InRange capacity 0 full { fresh capacity 0 full 0 with
      tokens := PyNumber.pyMin (.int capacity) (.float (.fin full)) } := by
    refine ⟨?_, rfl, rfl⟩
    unfold PyNumber.pyMin
    split
    · exact .float h.full_nonneg le_rfl
    · exact .full
  obtain ⟨charged, hcharge, hcharged, -⟩ := hrefilled.charge h
  simp only [take, refill_fresh h.double_eq, hcharge]
  exact hcharged.decision_zero h _

/-- A capacity below zero shows in the first answer. -/
theorem capacity_nonneg_of_sound (hfull : double capacity = .fin full)
    (h : SoundAnswer ((fresh capacity refillRate full 0).take double (.fin 1) 0).1) :
    0 ≤ capacity := by
  obtain ⟨d, hd, hsound⟩ := h
  obtain ⟨⟨charged, hcharge, hfloor⟩, -, -⟩ := fresh_ok hfull hd
  by_contra hneg
  have hlevel : min (capacity : ℚ) full < 0 :=
    (min_le_left _ _).trans_lt (by exact_mod_cast not_le.mp hneg)
  rw [decide_eq_false (not_le.mpr (hlevel.trans one_pos))] at hcharge
  cases hcharge
  rw [PyNumber.floor_of_value (PyNumber.value_pyMin (x := capacity) (y := full) rfl rfl)] at hfloor
  have hremaining := hsound.remaining.1
  rw [← Except.ok.inj hfloor] at hremaining
  exact absurd (Int.floor_nonneg.mp hremaining) (not_le.mpr hlevel)

/-- Taking one from a float that is greater than the integer it stands for leaves it as it is. -/
theorem double_pred {m : ℤ} (hm : double capacity = .fin m) (hless : capacity < m) :
    double ((m : ℚ) - 1) = .fin m := by
  have hstep : (capacity : ℚ) ≤ m - 1 := by
    exact_mod_cast (by omega : capacity ≤ m - 1)
  obtain ⟨c, hc, hlow, hhigh⟩ := PyFloat.double_between hstep (sub_le_self _ zero_le_one) hm
    (PyFloat.isDouble_of_double hm)
  rw [hc, le_antisymm hhigh hlow]

/-- A capacity that becomes a greater float shows in the first answer: there are then more tokens
left than there can be. -/
theorem full_le_of_sound (hfull : double capacity = .fin full)
    (h : SoundAnswer ((fresh capacity refillRate full 0).take double (.fin 1) 0).1) :
    full ≤ capacity := by
  have hnonneg := capacity_nonneg_of_sound hfull h
  obtain ⟨d, hd, hsound⟩ := h
  obtain ⟨⟨charged, hcharge, hfloor⟩, hlimit, -⟩ := fresh_ok hfull hd
  obtain ⟨m, rfl⟩ := PyFloat.double_intCast hfull
  by_contra hgreater
  have hless : capacity < m := by exact_mod_cast not_le.mp hgreater
  have hpositive : 1 ≤ capacity := by
    rcases hnonneg.lt_or_eq with hpos | rfl
    · omega
    · rw [Int.cast_zero, double_zero] at hfull
      have hzero : m = 0 := by exact_mod_cast (PyFloat.fin.inj hfull).symm
      omega
  have hone : (1 : ℚ) ≤ min (capacity : ℚ) m :=
    le_min (by exact_mod_cast hpositive) (by exact_mod_cast hpositive.trans hless.le)
  have hmin : PyNumber.pyMin (.int capacity) (.float (.fin m)) = .int capacity := by
    simp [PyNumber.pyMin, PyNumber.value, PyFloat.lt, hless.le]
  rw [decide_eq_true hone, charge, hmin] at hcharge
  simp only [if_true, PyNumber.minus_float, PyNumber.asFloat, hfull, bind, Except.bind, pure,
    Except.pure, PyFloat.minus_fin, double_pred hfull hless] at hcharge
  cases hcharge
  have hremaining := hsound.remaining.2
  rw [hlimit, ← Except.ok.inj hfloor, Int.floor_intCast] at hremaining
  omega

/-- A rate below zero shows in a take that comes late: the level falls without bound, and no number
is the floor of it. -/
theorem not_sound_of_neg (capacity : ℤ) (full : ℚ) (hrate : refillRate < 0) :
    ¬ SoundAnswer
      ((fresh capacity refillRate full (-2 ^ 1023)).take double (.fin 1) (2 ^ 1023)).1 := by
  have helapsed : double (2 ^ 1023 - -2 ^ 1023) = .inf := by
    rw [sub_neg_eq_add, ← two_mul, ← pow_succ']
    exact PyFloat.double_inf
  have hrefill : (fresh capacity refillRate full (-2 ^ 1023)).refill double (2 ^ 1023) = .ok {
      fresh capacity refillRate full (2 ^ 1023) with tokens := .float .negInf } := by
    simp only [refill, fresh, PyNumber.plus_float, PyFloat.minus_fin, helapsed, PyFloat.times,
      PyFloat.infinity, not_lt.mpr hrate.le, hrate, if_false, if_true, PyNumber.asFloat]
    rfl
  rintro ⟨d, hd, -⟩
  obtain ⟨charged, hcharge, hfloor, -, -⟩ := take_ok hrefill hd
  cases hcharge
  cases hfloor

end TokenBucket

/-- The limiter of a configuration that boots. -/
theorem lifespan_ok {settings : Settings} {limiter : InMemoryRateLimiter}
    (h : lifespan double settings = .ok limiter) :
    ∃ refillRate, double (settings.rateLimitRequestsPerMinute / 60) = .fin refillRate ∧
      limiter = {
        capacity := settings.rateLimitBurst
        refillRate := .fin refillRate
        buckets := fun _ => none } := by
  obtain ⟨rate, hrate, h⟩ := bind_eq_ok.mp h
  cases h
  simp only [PyNumber.divided, Int.cast_ofNat] at hrate
  cases hquotient : double (settings.rateLimitRequestsPerMinute / 60) with
  | fin refillRate =>
    rw [hquotient] at hrate
    cases hrate
    exact ⟨refillRate, rfl, rfl⟩
  | inf | negInf | nan =>
    rw [hquotient] at hrate
    cases hrate

/-- Its rate has the sign of the setting. -/
theorem refillRate_sign {requests : ℤ} (h : double (requests / 60) = .fin refillRate) :
    (0 < requests → 0 < refillRate) ∧ (requests = 0 → refillRate = 0) ∧
      (requests < 0 → refillRate < 0) := by
  obtain ⟨hleast, hgreatest⟩ := PyFloat.isDouble_pow (k := -6) (by decide) (by decide)
  have hsixth : (2 : ℚ) ^ (-6 : ℤ) = 1 / 64 := by norm_num
  rw [hsixth] at hleast hgreatest
  refine ⟨fun hpos => ?_, fun hzero => ?_, fun hneg => ?_⟩
  · have hone : (1 : ℚ) ≤ requests := by exact_mod_cast hpos
    obtain ⟨c, hc, hlow, -⟩ := PyFloat.double_between (by linarith) le_rfl hleast h
    rw [h] at hc
    cases hc
    linarith
  · rw [hzero, Int.cast_zero, zero_div, double_zero] at h
    exact (PyFloat.fin.inj h).symm
  · have hone : (requests : ℚ) ≤ -1 := by exact_mod_cast (by omega : requests ≤ -1)
    obtain ⟨c, hc, -, hhigh⟩ := PyFloat.double_between le_rfl (by linarith) h hgreatest
    rw [h] at hc
    cases hc
    linarith

/-- The first check of a limiter creates a bucket, if its capacity is a float. -/
theorem check_first (capacity : ℤ) (refillRate : ℚ) (key : String) (created taken : ℚ)
    (h : SoundAnswer (InMemoryRateLimiter.check double {
      capacity := capacity
      refillRate := .fin refillRate
      buckets := fun _ => none } key created taken).1) :
    ∃ full, double capacity = .fin full ∧ SoundAnswer
      ((TokenBucket.fresh capacity refillRate full created).take double (.fin 1) taken).1 := by
  simp only [InMemoryRateLimiter.check, InMemoryRateLimiter.bucketFor, TokenBucket.create,
    PyNumber.asFloat] at h
  cases hfull : double capacity with
  | fin full =>
    rw [hfull] at h
    exact ⟨full, rfl, h⟩
  | inf | negInf | nan =>
    rw [hfull] at h
    obtain ⟨d, hd, -⟩ := h
    cases hd

/-- A rate at which no bucket refills, or below zero, shows in one check. -/
theorem requests_pos_of_sound {requests capacity : ℤ}
    (hrate : double (requests / 60) = .fin refillRate)
    (h : ∀ created taken, IsDouble created → IsDouble taken → created ≤ taken →
      SoundAnswer (InMemoryRateLimiter.check double {
        capacity := capacity
        refillRate := .fin refillRate
        buckets := fun _ => none } "" created taken).1) :
    0 < requests := by
  obtain ⟨-, hzero, hneg⟩ := refillRate_sign hrate
  rcases lt_trichotomy requests 0 with hless | rfl | hpos
  · obtain ⟨hlast, hfirst⟩ := PyFloat.isDouble_pow (k := 1023) (by decide) (by decide)
    simp only [zpow_ofNat] at hlast hfirst
    have hpow : (0 : ℚ) < 2 ^ 1023 := pow_pos two_pos _
    obtain ⟨full, _, hsound⟩ :=
      check_first _ _ _ _ _ (h _ _ hfirst hlast ((neg_neg_of_pos hpow).trans hpow).le)
    exact absurd hsound (TokenBucket.not_sound_of_neg capacity full (hneg hless))
  · obtain ⟨full, hfull, d, hd, -⟩ :=
      check_first _ _ _ _ _ (h 0 0 double_zero double_zero le_rfl)
    exact absurd (hzero rfl) (TokenBucket.fresh_ok hfull hd).2.2
  · exact hpos

/-- A clock that does not go back has started. -/
theorem exists_start {readings : List ℚ} (h : readings.Pairwise (· ≤ ·)) :
    ∃ now, (now :: readings).Pairwise (· ≤ ·) := by
  cases readings with
  | nil => exact ⟨0, List.pairwise_singleton _ _⟩
  | cons first rest =>
    refine ⟨first, List.pairwise_cons.mpr ⟨fun reading hreading => ?_, h⟩⟩
    rcases List.mem_cons.mp hreading with rfl | hreading
    · exact le_rfl
    · exact (List.pairwise_cons.mp h).1 reading hreading

/-- **Which configurations the limiter can be relied on for.** For every configuration that boots:
all checks are answered with decisions whose numbers are not negative and within the limit, if and
only if the rate is positive, the burst not negative, and the burst becomes a float that is no
greater. -/
theorem limiter_sound_iff {settings : Settings} {limiter : InMemoryRateLimiter}
    (hboots : lifespan double settings = .ok limiter) :
    limiter.Sound ↔
      0 < settings.rateLimitRequestsPerMinute ∧ 0 ≤ settings.rateLimitBurst ∧
        ∃ full, double settings.rateLimitBurst = .fin full ∧ full ≤ settings.rateLimitBurst := by
  obtain ⟨refillRate, hrate, rfl⟩ := lifespan_ok hboots
  refine ⟨fun h => ?_, ?_⟩
  · have hone : ∀ created taken, IsDouble created → IsDouble taken → created ≤ taken →
        SoundAnswer (InMemoryRateLimiter.check double {
          capacity := settings.rateLimitBurst
          refillRate := .fin refillRate
          buckets := fun _ => none } "" created taken).1 := by
      intro created taken hcreated htaken hle
      exact h [⟨"", created, taken⟩] (by simp [InMemoryRateLimiter.readings, hcreated, htaken])
        (by simp [InMemoryRateLimiter.readings, hle]) _ (List.mem_singleton_self _)
    obtain ⟨full, hfull, hsound⟩ :=
      check_first _ _ _ _ _ (hone 0 0 double_zero double_zero le_rfl)
    exact ⟨requests_pos_of_sound hrate hone, TokenBucket.capacity_nonneg_of_sound hfull hsound,
      full, hfull, TokenBucket.full_le_of_sound hfull hsound⟩
  · rintro ⟨hrequests, hburst, full, hfull, hle⟩ checks _ hclock
    obtain ⟨now, hnow⟩ := exists_start hclock
    exact InMemoryRateLimiter.InRange.history ⟨hburst, hfull, hle⟩
      ((refillRate_sign hrate).1 hrequests) ⟨nofun, rfl, rfl⟩ hnow

/-- The default settings: one token a second, ten at once. -/
theorem limiter_sound_defaults :
    ∃ limiter, lifespan double .defaults = .ok limiter ∧ limiter.Sound := by
  have hrate : double (60 / 60) = .fin 1 := by decide +kernel
  have hboots : lifespan double .defaults = .ok ⟨10, .fin 1, fun _ => none⟩ := by
    simp only [lifespan, Settings.defaults, PyNumber.divided, Int.cast_ofNat, hrate]
    rfl
  refine ⟨_, hboots, (limiter_sound_iff hboots).mpr ⟨by decide, by decide, 10, ?_, by decide⟩⟩
  decide +kernel

/-- A burst may become a greater float, or none at all. -/
example : double (2 ^ 53 + 3) = .fin (2 ^ 53 + 4) ∧ double (10 ^ 400) = .inf := by decide +kernel

/-- Settings without requests. -/
def noRequests : Settings := { Settings.defaults with rateLimitRequestsPerMinute := 0 }

/-- A limit of no requests a minute boots, and then no request is even refused. -/
theorem zero_rate_raises :
    ∃ limiter, lifespan double noRequests = .ok limiter ∧
      limiter.history double [⟨"k", 0, 0⟩] =
        [("k", .error (.foreign "ZeroDivisionError"))] ∧ ¬ limiter.Sound := by
  have hboots : lifespan double noRequests = .ok ⟨10, .fin 0, fun _ => none⟩ := by
    simp only [lifespan, PyNumber.divided, noRequests, Int.cast_zero, zero_div, double_zero]
    rfl
  have hten : Reliable 10 10 := ⟨by decide, by decide +kernel, by decide⟩
  have hraises : InMemoryRateLimiter.history double ⟨10, .fin 0, fun _ => none⟩ [⟨"k", 0, 0⟩] =
      [("k", .error (.foreign "ZeroDivisionError"))] := by
    have hcreate : TokenBucket.create double 10 (.fin 0) 0 = .ok (.fresh 10 0 10 0) := by
      rw [TokenBucket.create, PyNumber.asFloat, hten.double_eq]
      rfl
    simp only [InMemoryRateLimiter.history, InMemoryRateLimiter.check,
      InMemoryRateLimiter.bucketFor, hcreate, TokenBucket.take_fresh_zero hten]
  refine ⟨_, hboots, hraises, fun h => ?_⟩
  have hsound := h [⟨"k", 0, 0⟩]
    (by simp [InMemoryRateLimiter.readings, IsDouble, double_zero]) (by decide)
  rw [hraises] at hsound
  obtain ⟨d, hd, -⟩ := hsound _ (List.mem_singleton_self _)
  cases hd

end Rounded

end PrdApiWrapper
