import PrdApiWrapper.Admission
import PrdApiWrapper.World

/-!
# What a decision says

A decision of the limiter is more than yes or no: how many tokens are left, when the next one is
there, and when the bucket is full again. These are statements about the future of a bucket that is
rewritten by whoever asks in between. They are true of every bucket with room for a token
(`decisions_exact`), since a refused take leaves a bucket that refills to the same as before.
-/

namespace PrdApiWrapper

namespace TokenBucket

/-! ## Buckets in range -/

/-- The bucket after takes of one token at these times. -/
def afterTakes (bucket : TokenBucket) (times : List ℚ) : TokenBucket :=
  times.foldl (fun bucket now => (bucket.take 1 now).2) bucket

/-- What a bucket can become. -/
inductive Reachable (capacity : ℤ) (refillRate : ℚ) : TokenBucket → Prop where
  | create (created : ℚ) : Reachable capacity refillRate (.create capacity refillRate created)
  | take {bucket : TokenBucket} {now : ℚ} : Reachable capacity refillRate bucket →
      bucket.updatedAt ≤ now → Reachable capacity refillRate (bucket.take 1 now).2

/-- The invariant: the level is between zero and the capacity. -/
structure InRange (capacity : ℤ) (refillRate : ℚ) (bucket : TokenBucket) : Prop where
  nonneg : 0 ≤ bucket.tokens
  le : bucket.tokens ≤ capacity
  capacity : bucket.capacity = capacity
  refillRate : bucket.refillRate = refillRate

variable {capacity : ℤ} {refillRate : ℚ} {bucket : TokenBucket} {now : ℚ}

theorem inRange_create (hcapacity : 0 ≤ capacity) (refillRate created : ℚ) :
    InRange capacity refillRate (.create capacity refillRate created) :=
  have hlevel : (0 : ℚ) ≤ capacity := by exact_mod_cast hcapacity
  ⟨hlevel, le_rfl, rfl, rfl⟩

theorem InRange.refill (h : InRange capacity refillRate bucket) (hrate : 0 < refillRate)
    (hnow : bucket.updatedAt ≤ now) : InRange capacity refillRate (bucket.refill now) where
  capacity := h.capacity
  refillRate := h.refillRate
  nonneg := by
    have hgrown : 0 ≤ (now - bucket.updatedAt) * bucket.refillRate := by
      rw [h.refillRate]
      exact mul_nonneg (sub_nonneg.mpr hnow) hrate.le
    refine le_min ?_ (add_nonneg h.nonneg hgrown)
    rw [h.capacity]
    exact h.nonneg.trans h.le
  le := by
    rw [← h.capacity]
    exact min_le_left _ _

theorem InRange.refillRate_ne (h : InRange capacity refillRate bucket) (hrate : 0 < refillRate) :
    bucket.refillRate ≠ 0 := by
  rw [h.refillRate]
  exact hrate.ne'

/-- A take keeps the level in range. -/
theorem InRange.take (h : InRange capacity refillRate bucket) (hrate : 0 < refillRate)
    (hnow : bucket.updatedAt ≤ now) : InRange capacity refillRate (bucket.take 1 now).2 := by
  have hrefilled := h.refill hrate hnow
  rcases bucket.take_cases (h.refillRate_ne hrate) 1 now with ⟨henough, htake⟩ | ⟨_, htake⟩
  · rw [htake]
    refine ⟨sub_nonneg.mpr henough, ?_, h.capacity, h.refillRate⟩
    have := hrefilled.le
    simp only
    linarith
  · rw [htake]
    exact hrefilled

theorem Reachable.inRange (hcapacity : 0 ≤ capacity) (hrate : 0 < refillRate)
    (h : Reachable capacity refillRate bucket) : InRange capacity refillRate bucket := by
  induction h with
  | create created => exact inRange_create hcapacity refillRate created
  | take _ hnow ih => exact ih.take hrate hnow

/-! ## The answer to a take -/

/-- The numbers of a decision are what they should be. -/
structure SoundDecision (d : RateLimitDecision) : Prop where
  remaining : 0 ≤ d.remaining ∧ d.remaining ≤ d.limit
  resetAfter : 0 ≤ d.resetAfter
  retryAfter : 0 ≤ d.retryAfter

/-- **A take from a bucket in range** is answered with sound numbers, of the bucket that is left:
it is full after `reset_after`, and a refused one holds a token after `retry_after`. -/
theorem InRange.take_decision (h : InRange capacity refillRate bucket) (hrate : 0 < refillRate)
    (hnow : bucket.updatedAt ≤ now) :
    ∃ d, (bucket.take 1 now).1 = .ok d ∧ SoundDecision d ∧
      d.resetAfter = (capacity - (bucket.take 1 now).2.tokens) / refillRate ∧
      ((d.allowed = true ∧ d.retryAfter = 0) ∨
        (d.allowed = false ∧ d.remaining = 0 ∧ 0 < d.retryAfter ∧
          d.retryAfter = (1 - (bucket.take 1 now).2.tokens) / refillRate)) := by
  have hafter := h.take hrate hnow
  have hrefilled := h.refill hrate hnow
  have hreset : 0 ≤ (capacity - (bucket.take 1 now).2.tokens) / refillRate :=
    div_nonneg (sub_nonneg.mpr hafter.le) hrate.le
  have hfloor : ⌊(bucket.take 1 now).2.tokens⌋ ≤ capacity := by
    have := (Int.floor_le _).trans hafter.le
    exact_mod_cast this
  have hpos : 0 ≤ ⌊(bucket.take 1 now).2.tokens⌋ := Int.floor_nonneg.mpr hafter.nonneg
  rcases bucket.take_cases (h.refillRate_ne hrate) 1 now with ⟨_, htake⟩ | ⟨hshort, htake⟩
  · rw [htake] at hreset hfloor hpos ⊢
    simp only [h.capacity, h.refillRate] at hreset hfloor hpos ⊢
    exact ⟨_, rfl, ⟨⟨hpos, hfloor⟩, hreset, le_rfl⟩, rfl, .inl ⟨rfl, rfl⟩⟩
  · have hwait : 0 < (1 - (bucket.refill now).tokens) / refillRate :=
      div_pos (sub_pos.mpr hshort) hrate
    rw [htake] at hreset hfloor hpos ⊢
    simp only [h.capacity, h.refillRate] at hreset hfloor hpos ⊢
    refine ⟨_, rfl, ⟨⟨hpos, hfloor⟩, hreset, hwait.le⟩, rfl, .inr ⟨rfl, ?_, hwait, rfl⟩⟩
    exact Int.floor_eq_zero_iff.mpr ⟨hrefilled.nonneg, hshort⟩

/-- Takes that are refused make no difference to what a bucket refills to. -/
theorem refill_afterTakes {polls : List ℚ} {later : ℚ} :
    ∀ {bucket : TokenBucket}, 0 < bucket.refillRate → (polls ++ [later]).Pairwise (· ≤ ·) →
      (∀ take ∈ bucket.history polls, take.allowed = false) →
      (bucket.afterTakes polls).refill later = bucket.refill later := by
  induction polls with
  | nil => exact fun _ _ _ => rfl
  | cons poll polls ih =>
    intro bucket hrate hclock hrefused
    obtain ⟨hfirst, hclock'⟩ := List.pairwise_cons.mp hclock
    have hdenied : (bucket.take 1 poll).2 = bucket.refill poll := by
      obtain ⟨d, hd, -⟩ := bucket.take_spec hrate 1 poll
      refine take_denied hd ?_
      have := hrefused _ List.mem_cons_self
      rwa [Take.allowed, hd] at this
    have hrest := @ih (bucket.take 1 poll).2 (by rwa [take_refillRate]) hclock'
      fun take htake => hrefused take (List.mem_cons_of_mem _ htake)
    rw [afterTakes, List.foldl_cons]
    refine hrest.trans ?_
    rw [hdenied, bucket.refill_refill hrate.le (hfirst later (by simp))]

/-- A bucket holds at least so much once that has accrued. -/
theorem InRange.le_refill_iff (h : InRange capacity refillRate bucket) (hrate : 0 < refillRate)
    {level : ℚ} (hlevel : level ≤ capacity) (later : ℚ) :
    level ≤ (bucket.refill later).tokens ↔
      (level - bucket.tokens) / refillRate ≤ later - bucket.updatedAt := by
  have hrefilled : (bucket.refill later).tokens =
      min (capacity : ℚ) (bucket.tokens + (later - bucket.updatedAt) * refillRate) := by
    rw [← h.capacity, ← h.refillRate]
    rfl
  rw [hrefilled, le_min_iff, and_iff_right hlevel, div_le_iff₀ hrate, sub_le_iff_le_add']

end TokenBucket

/-! ## The forecast -/

/-- What a decision taken at `now` says of the time after, whoever is refused in between. -/
structure Foretells (capacity : ℤ) (bucket : TokenBucket) (now : ℚ) (d : RateLimitDecision)
    (polls : List ℚ) (later : ℚ) : Prop where
  /-- a refused caller is let in once `retry_after` has passed, and not before -/
  retryAfter : d.allowed = false →
    (granted ((bucket.afterTakes polls).take 1 later).1 = true ↔ d.retryAfter ≤ later - now)
  /-- the bucket is full once `reset_after` has passed -/
  full : d.resetAfter ≤ later - now → ((bucket.afterTakes polls).refill later).tokens = capacity
  /-- and not before -/
  notFull : later - now < d.resetAfter → ((bucket.afterTakes polls).refill later).tokens < capacity

/-- What a bucket that is left after a take foretells, from the numbers of the take. -/
theorem TokenBucket.InRange.foretells {capacity : ℤ} {refillRate : ℚ} {bucket : TokenBucket}
    (h : InRange capacity refillRate bucket) (hcapacity : 1 ≤ capacity) (hrate : 0 < refillRate)
    {d : RateLimitDecision} (hreset : d.resetAfter = (capacity - bucket.tokens) / refillRate)
    (hretry : d.allowed = false → d.retryAfter = (1 - bucket.tokens) / refillRate)
    {polls : List ℚ} {later : ℚ} (hclock : (polls ++ [later]).Pairwise (· ≤ ·))
    (hrefused : ∀ take ∈ bucket.history polls, take.allowed = false) :
    Foretells capacity bucket bucket.updatedAt d polls later := by
  have hpositive : 0 < bucket.refillRate := by rwa [h.refillRate]
  have hsame := refill_afterTakes hpositive hclock hrefused
  have hle : (bucket.refill later).tokens ≤ capacity := by
    rw [← h.capacity]
    exact min_le_left _ _
  have hfull := h.le_refill_iff hrate le_rfl later
  refine ⟨fun hdenied => ?_, fun hpast => ?_, fun hearly => ?_⟩
  · have hone : (1 : ℚ) ≤ capacity := by exact_mod_cast hcapacity
    rw [take_congr hsame, granted_take _ hpositive.ne', h.le_refill_iff hrate hone,
      hretry hdenied]
  · rw [hsame]
    refine le_antisymm hle (hfull.mpr ?_)
    rwa [← hreset]
  · rw [hsame]
    refine lt_of_le_of_ne hle fun heq => ?_
    rw [hreset] at hearly
    exact absurd (hfull.mp heq.ge) (not_le.mpr hearly)

/-- **The numbers of a decision.** For every bucket with room for a token, in every state it can
come to: a take is answered; what is left is between nothing and the limit; a caller who is let in
need not wait, and one who is refused has nothing left and is told to wait, for at least a second by
the header; and whoever is refused in between, the next token is there exactly once `retry_after`
has passed, and the bucket is full exactly once `reset_after` has. -/
theorem decisions_exact {capacity : ℤ} (hcapacity : 1 ≤ capacity) {refillRate : ℚ}
    (hrate : 0 < refillRate) {bucket : TokenBucket}
    (hbucket : TokenBucket.Reachable capacity refillRate bucket) {now : ℚ}
    (hnow : bucket.updatedAt ≤ now) :
    ∃ d, (bucket.take 1 now).1 = .ok d ∧ TokenBucket.SoundDecision d ∧
      (d.allowed = true → d.retryAfter = 0) ∧
      (d.allowed = false → d.remaining = 0 ∧ 0 < d.retryAfter ∧ 1 ≤ ⌈d.retryAfter⌉ ∧
        ("Retry-After", toString ⌈d.retryAfter⌉) ∈ (rateLimitExceeded d).headers) ∧
      ∀ polls later, (now :: (polls ++ [later])).Pairwise (· ≤ ·) →
        (∀ take ∈ (bucket.take 1 now).2.history polls, take.allowed = false) →
        Foretells capacity (bucket.take 1 now).2 now d polls later := by
  have hrange := hbucket.inRange (by omega) hrate
  obtain ⟨d, hd, hsound, hreset, hcases⟩ := hrange.take_decision hrate hnow
  have hforetells : (d.allowed = false →
      d.retryAfter = (1 - (bucket.take 1 now).2.tokens) / refillRate) →
      ∀ polls later, (now :: (polls ++ [later])).Pairwise (· ≤ ·) →
        (∀ take ∈ (bucket.take 1 now).2.history polls, take.allowed = false) →
        Foretells capacity (bucket.take 1 now).2 now d polls later := by
    intro hretry polls later hclock hrefused
    have := (hrange.take hrate hnow).foretells hcapacity hrate hreset hretry
      (List.pairwise_cons.mp hclock).2 hrefused
    rwa [TokenBucket.take_updatedAt] at this
  refine ⟨d, hd, hsound, ?_⟩
  rcases hcases with ⟨hallowed, hzero⟩ | ⟨hdenied, hremaining, hwait, hretry⟩
  · rw [hallowed]
    refine ⟨fun _ => hzero, nofun, hforetells ?_⟩
    rw [hallowed]
    nofun
  · rw [hdenied]
    refine ⟨nofun, fun _ => ⟨hremaining, hwait, ?_, ?_⟩, hforetells fun _ => hretry⟩
    · exact Int.one_le_ceil_iff.mpr hwait
    · simp [rateLimitExceeded]

/-- One token a second, taken at 0 and asked for again half a second later: it is there at 1. -/
theorem decisions_exact_poll : ∃ d,
    ((TokenBucket.create 1 1 0).take 1 0).1 = .ok d ∧ d.retryAfter = 0 ∧
      Foretells 1 ((TokenBucket.create 1 1 0).take 1 0).2 0 d [1 / 2] 1 := by
  obtain ⟨d, hd, -, hallowed, -, hforetells⟩ :=
    decisions_exact (by decide) (by decide) (.create 0 : TokenBucket.Reachable 1 1 _)
      (le_refl 0 : (TokenBucket.create 1 1 0).updatedAt ≤ 0)
  have hyes : d.allowed = true := by
    have hanswer : granted ((TokenBucket.create 1 1 0).take 1 0).1 = true := by decide +kernel
    rwa [hd] at hanswer
  exact ⟨d, hd, hallowed hyes, hforetells [1 / 2] 1 (by decide +kernel) (by decide +kernel)⟩

/-! ## The buckets of a limiter -/

/-- All buckets are in range and have not been touched later than `now`. -/
structure InMemoryRateLimiter.InRange (capacity : ℤ) (refillRate : ℚ)
    (limiter : InMemoryRateLimiter) (now : ℚ) : Prop where
  buckets : ∀ key bucket, limiter.buckets key = some bucket →
    bucket.InRange capacity refillRate ∧ bucket.updatedAt ≤ now
  capacity : limiter.capacity = capacity
  refillRate : limiter.refillRate = refillRate

namespace InMemoryRateLimiter

variable {capacity : ℤ} {refillRate : ℚ} {limiter : InMemoryRateLimiter} {now : ℚ}

theorem InRange.bucketFor (h : limiter.InRange capacity refillRate now) (hcapacity : 0 ≤ capacity)
    (key : String) {created : ℚ} (hcreated : now ≤ created) :
    (limiter.bucketFor key created).InRange capacity refillRate ∧
      (limiter.bucketFor key created).updatedAt ≤ created := by
  rw [InMemoryRateLimiter.bucketFor]
  cases hbucket : limiter.buckets key with
  | none =>
    rw [h.capacity, h.refillRate]
    exact ⟨TokenBucket.inRange_create hcapacity refillRate created, le_rfl⟩
  | some bucket =>
    obtain ⟨hrange, hupdated⟩ := h.buckets key bucket hbucket
    exact ⟨hrange, hupdated.trans hcreated⟩

/-- A check leaves the buckets in range. -/
theorem InRange.check (h : limiter.InRange capacity refillRate now) (hcapacity : 0 ≤ capacity)
    (hrate : 0 < refillRate) {call : Check} (hcreated : now ≤ call.created)
    (htaken : call.created ≤ call.taken) :
    (limiter.check call.key call.created call.taken).2.InRange capacity refillRate call.taken := by
  obtain ⟨hrange, hupdated⟩ := h.bucketFor hcapacity call.key hcreated
  refine ⟨fun key bucket hbucket => ?_, h.capacity, h.refillRate⟩
  by_cases hkey : key = call.key
  · subst hkey
    rw [limiter.check_self] at hbucket
    obtain rfl := Option.some.inj hbucket
    exact ⟨hrange.take hrate (hupdated.trans htaken), (TokenBucket.take_updatedAt ..).le⟩
  · rw [limiter.check_of_ne hkey] at hbucket
    obtain ⟨hother, hbefore⟩ := h.buckets key bucket hbucket
    exact ⟨hother, (hbefore.trans hcreated).trans htaken⟩

end InMemoryRateLimiter

end PrdApiWrapper
