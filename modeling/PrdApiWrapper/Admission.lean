import PrdApiWrapper.RateLimiter
import Mathlib.Data.List.Induction
import Mathlib.Tactic.Linarith

/-!
# What the limiter admits

A bucket is one number with a clamp. This module says what the number enforces.

* A take is allowed exactly if, counted from the bucket's creation and from every take so far, no
  more would then have been allowed than the capacity plus what has accrued (`admission_law`). The
  level is the greatest lower bound of all those headrooms; the induction is over the history from
  its beginning, with the start points seen so far as the invariant.
* What a caller is answered depends on that caller's checks alone, and is what a bucket created at
  any earlier moment would answer (`check_isolation`).
-/

namespace PrdApiWrapper

open Headroom

/-! ## Histories of a bucket -/

/-- A take that has been answered. -/
structure Take where
  time : ℚ
  decision : Except Exc RateLimitDecision

/-- Whether a take was allowed. -/
def Take.allowed (take : Take) : Bool := granted take.decision

/-- Takes of one token at the given times, in this order. -/
def TokenBucket.history (bucket : TokenBucket) : List ℚ → List Take
  | [] => []
  | now :: later => ⟨now, (bucket.take 1 now).1⟩ :: (bucket.take 1 now).2.history later

/-- How many takes of a history were allowed. -/
def allowedCount (takes : List Take) : ℕ := takes.countP Take.allowed

@[simp] theorem allowedCount_nil : allowedCount [] = 0 := rfl

@[simp] theorem allowedCount_cons (take : Take) (takes : List Take) :
    allowedCount (take :: takes) = allowedCount takes + if take.allowed then 1 else 0 :=
  List.countP_cons

@[simp] theorem allowedCount_append (takes takes' : List Take) :
    allowedCount (takes ++ takes') = allowedCount takes + allowedCount takes' :=
  List.countP_append

theorem TokenBucket.history_map_time (bucket : TokenBucket) (times : List ℚ) :
    (bucket.history times).map Take.time = times := by
  induction times generalizing bucket with
  | nil => rfl
  | cons now later ih => exact congrArg (now :: ·) (ih _)

/-! ## The admission law -/

/-- One more allowed take at `now` would stay within capacity plus accrual, counted from each
take of `past` and from `now` itself. -/
def Within (capacity : ℤ) (refillRate : ℚ) (past : List Take) (now : Take) : Prop :=
  ∀ earlier since, past = earlier ++ since →
    (allowedCount since : ℚ) + 1 ≤ capacity + refillRate * (now.time - (since.headD now).time)

theorem within_nil (capacity : ℤ) (refillRate : ℚ) (now : Take) :
    Within capacity refillRate [] now ↔ (1 : ℚ) ≤ capacity := by
  refine ⟨?_, ?_⟩
  · intro h
    simpa using h [] [] rfl
  · intro h earlier since hsplit
    obtain ⟨rfl, rfl⟩ := List.append_eq_nil_iff.mp hsplit.symm
    simpa using h

theorem within_cons (capacity : ℤ) (refillRate : ℚ) (take : Take) (past : List Take)
    (now : Take) :
    Within capacity refillRate (take :: past) now ↔
      (allowedCount (take :: past) : ℚ) + 1 ≤ capacity + refillRate * (now.time - take.time) ∧
        Within capacity refillRate past now := by
  refine ⟨?_, ?_⟩
  · intro h
    refine ⟨h [] (take :: past) rfl, fun earlier since hsplit => ?_⟩
    exact h (take :: earlier) since (congrArg (take :: ·) hsplit)
  · rintro ⟨hfirst, hrest⟩ earlier since hsplit
    rcases List.cons_eq_append_iff.mp hsplit with ⟨rfl, rfl⟩ | ⟨earlier', rfl, hpast⟩
    · exact hfirst
    · exact hrest earlier' since hpast

/-- The invariant: the level is the greatest lower bound of the headrooms of `starts`. -/
def TokenBucket.TightFor (bucket : TokenBucket) (starts : List (Start ℚ)) : Prop :=
  Tight (bucket.capacity : ℚ) bucket.refillRate bucket.updatedAt starts bucket.tokens

/-- One take: allowed exactly if the present and every start point so far leave room for it, and
then every start point is charged. -/
theorem TokenBucket.take_tight {bucket : TokenBucket} (hrate : 0 < bucket.refillRate)
    {starts : List (Start ℚ)} (h : bucket.TightFor starts) (now : ℚ) :
    (granted (bucket.take 1 now).1 = true ↔
      ∀ s ∈ ⟨now, 0⟩ :: starts, 1 ≤ headroom (bucket.capacity : ℚ) bucket.refillRate now s) ∧
    (bucket.take 1 now).2.TightFor ((⟨now, 0⟩ :: starts).map
      (Start.charge (if granted (bucket.take 1 now).1 then 1 else 0))) := by
  obtain ⟨decision, hdecision, hallowed, htokens⟩ := bucket.take_spec hrate 1 now
  have hrefill : Tight (bucket.capacity : ℚ) bucket.refillRate now (⟨now, 0⟩ :: starts)
      (bucket.refill now).tokens := Tight.refill h now
  rw [TightFor, take_capacity, take_refillRate, take_updatedAt, hdecision, htokens]
  refine ⟨?_, hrefill.spend _⟩
  rw [granted, hallowed, hrefill.le_iff]

/-- Charging a start point lowers its headroom. -/
theorem headroom_charge (capacity refillRate now x : ℚ) (s : Start ℚ) :
    headroom capacity refillRate now (s.charge x) = headroom capacity refillRate now s - x := by
  simp only [headroom, Start.charge]
  ring

/-- The law for a bucket with a past of its own, kept in the start points it is tight for. -/
theorem TokenBucket.history_allowed_iff {times : List ℚ} :
    ∀ {bucket : TokenBucket} {starts : List (Start ℚ)}, 0 < bucket.refillRate →
      bucket.TightFor starts →
      ∀ {past : List Take} {now : Take} {future : List Take},
        bucket.history times = past ++ now :: future →
        (now.allowed = true ↔
          (∀ s ∈ starts, (allowedCount past : ℚ) + 1 ≤
            headroom (bucket.capacity : ℚ) bucket.refillRate now.time s) ∧
          Within bucket.capacity bucket.refillRate past now) := by
  induction times with
  | nil =>
    intro bucket starts _ _ past now future hhist
    cases past <;> cases hhist
  | cons t later ih =>
    intro bucket starts hrate htight past now future hhist
    obtain ⟨hallowed, htight'⟩ := take_tight hrate htight t
    cases past with
    | nil =>
      -- the take in question is the first one
      obtain ⟨rfl, rfl⟩ := List.cons.inj hhist
      rw [Take.allowed, hallowed, within_nil, List.forall_mem_cons, and_comm]
      simp [headroom]
    | cons take past =>
      -- an earlier take: it charges all start points and becomes one itself
      obtain ⟨rfl, hrest⟩ := List.cons.inj hhist
      have hcharge : ∀ x : ℚ,
          (allowedCount past : ℚ) + 1 ≤ x - (if granted (bucket.take 1 t).1 then 1 else 0) ↔
            (allowedCount (⟨t, (bucket.take 1 t).1⟩ :: past) : ℚ) + 1 ≤ x := by
        intro x
        rw [allowedCount_cons, Take.allowed]
        push_cast
        constructor <;> intro h <;> linarith
      have hstart : headroom (bucket.capacity : ℚ) bucket.refillRate now.time ⟨t, 0⟩ =
          bucket.capacity + bucket.refillRate * (now.time - t) := by simp [headroom]
      rw [ih (by simpa using hrate) htight' hrest, within_cons]
      simp only [take_capacity, take_refillRate, List.forall_mem_map, List.forall_mem_cons,
        headroom_charge, hcharge, hstart]
      rw [and_assoc, and_left_comm]

/-- The takes of a history at the times from `a` to `b`. -/
def window (a b : ℚ) (takes : List Take) : List Take :=
  takes.filter fun take => a ≤ take.time ∧ take.time ≤ b

theorem window_append (a b : ℚ) (takes takes' : List Take) :
    window a b (takes ++ takes') = window a b takes ++ window a b takes' :=
  List.filter_append ..

/-- A window that holds all the times of a history is the history. -/
theorem window_of_forall {a b : ℚ} {takes : List Take}
    (h : ∀ take ∈ takes, a ≤ take.time ∧ take.time ≤ b) : window a b takes = takes :=
  List.filter_eq_self.mpr fun take htake => by simpa using h take htake

/-- Up to a moment before `b`, a window of an orderly history is what follows some take of it. -/
theorem window_eq_suffix {a b : ℚ} {now : Take} (ha : a ≤ now.time) (hb : now.time ≤ b) :
    ∀ {past : List Take}, (past ++ [now]).Pairwise (fun x y => x.time ≤ y.time) →
      ∃ earlier since, past = earlier ++ since ∧ window a b past = since ∧
        a ≤ (since.headD now).time := by
  intro past
  induction past with
  | nil => exact fun _ => ⟨[], [], rfl, rfl, ha⟩
  | cons take past ih =>
    intro hsorted
    obtain ⟨hfirst, hrest⟩ := List.pairwise_cons.mp hsorted
    by_cases hlt : take.time < a
    · -- before the window
      obtain ⟨earlier, since, hsplit, hwindow, hhead⟩ := ih hrest
      have hskip : window a b (take :: past) = window a b past := by simp [window, hlt]
      exact ⟨take :: earlier, since, congrArg (take :: ·) hsplit, hskip.trans hwindow, hhead⟩
    · -- the window begins here
      refine ⟨[], take :: past, rfl, window_of_forall fun other hother => ?_, not_lt.mp hlt⟩
      have hle : take.time ≤ other.time := by
        rcases List.mem_cons.mp hother with rfl | hmem
        · exact le_rfl
        · exact hfirst other (List.mem_append_left _ hmem)
      have hnow : other.time ≤ now.time :=
        (List.pairwise_append.mp hsorted).2.2 other hother now (List.mem_singleton_self _)
      exact ⟨(not_lt.mp hlt).trans hle, hnow.trans hb⟩

/-- **No window is straddled**: an orderly history all of whose allowed takes obey the law holds at
most capacity plus accrual of them in any window. -/
theorem window_le {capacity : ℤ} (hcapacity : 0 ≤ capacity) {refillRate : ℚ}
    (hrate : 0 < refillRate) {a b : ℚ} (hab : a ≤ b) {takes : List Take}
    (hsorted : takes.Pairwise fun x y => x.time ≤ y.time)
    (hlaw : ∀ past now future, takes = past ++ now :: future → now.allowed = true →
      Within capacity refillRate past now) :
    (allowedCount (window a b takes) : ℚ) ≤ capacity + refillRate * (b - a) := by
  induction takes using List.reverseRecOn with
  | nil =>
    have hacc : 0 ≤ refillRate * (b - a) := mul_nonneg hrate.le (sub_nonneg.mpr hab)
    have hcap : (0 : ℚ) ≤ capacity := by exact_mod_cast hcapacity
    simpa [window] using add_nonneg hcap hacc
  | append_singleton past now ih =>
    have hpast : (allowedCount (window a b past) : ℚ) ≤ capacity + refillRate * (b - a) := by
      refine ih (List.pairwise_append.mp hsorted).1 fun past' now' future hsplit => ?_
      exact hlaw past' now' (future ++ [now]) (by rw [hsplit]; simp)
    rw [window_append, allowedCount_append]
    by_cases hnow : (a ≤ now.time ∧ now.time ≤ b) ∧ now.allowed = true
    · -- an allowed take in the window: the law at that take bounds the whole window
      obtain ⟨⟨ha, hb⟩, hallowed⟩ := hnow
      obtain ⟨earlier, since, rfl, hwindow, hhead⟩ := window_eq_suffix ha hb hsorted
      have hroom := hlaw (earlier ++ since) now [] rfl hallowed earlier since rfl
      have hlen : refillRate * (now.time - (since.headD now).time) ≤ refillRate * (b - a) :=
        mul_le_mul_of_nonneg_left (by linarith) hrate.le
      rw [hwindow, window_of_forall (by simpa using ⟨ha, hb⟩)]
      simp only [allowedCount_cons, allowedCount_nil, hallowed, if_true, Nat.cast_add]
      push_cast
      linarith
    · -- a take that does not count
      have hzero : allowedCount (window a b [now]) = 0 := by
        by_cases hin : a ≤ now.time ∧ now.time ≤ b
        · have : now.allowed = false := by simpa [hin] using hnow
          simp [window, hin, this]
        · simp [window, hin]
      rw [hzero]
      exact hpast

/-- What follows some take of an orderly past lies in the window from that take to the present. -/
theorem allowedCount_suffix_le {earlier since : List Take} {now : Take}
    (hsorted : (earlier ++ since ++ [now]).Pairwise fun x y => x.time ≤ y.time) :
    allowedCount since ≤
      allowedCount (window (since.headD now).time now.time (earlier ++ since)) := by
  have hsince : window (since.headD now).time now.time since = since := by
    refine window_of_forall fun take htake => ⟨?_, ?_⟩
    · cases since with
      | nil => cases htake
      | cons first rest =>
        rcases List.mem_cons.mp htake with rfl | hmem
        · exact le_rfl
        · have hcons := (List.pairwise_append.mp (List.pairwise_append.mp hsorted).1).2.1
          exact List.rel_of_pairwise_cons hcons hmem
    · exact (List.pairwise_append.mp hsorted).2.2 take (List.mem_append_right _ htake) now
        (List.mem_singleton_self _)
  rw [window_append, allowedCount_append, hsince]
  exact Nat.le_add_left ..

/-- A start point that leaves no room begins an overfull window. -/
theorem overfull_of_not_within {capacity : ℤ} {refillRate : ℚ} {past : List Take} {now : Take}
    (hsorted : (past ++ [now]).Pairwise fun x y => x.time ≤ y.time)
    (h : ¬ Within capacity refillRate past now) :
    ∃ start ≤ now.time, capacity + refillRate * (now.time - start) <
      (allowedCount (window start now.time past) : ℚ) + 1 := by
  obtain ⟨earlier, since, rfl, hover⟩ : ∃ earlier since, past = earlier ++ since ∧
      ¬ (allowedCount since : ℚ) + 1 ≤
        capacity + refillRate * (now.time - (since.headD now).time) := by
    simpa only [Within, not_forall, exists_prop] using h
  have hcount : (allowedCount since : ℚ) ≤
      allowedCount (window (since.headD now).time now.time (earlier ++ since)) :=
    Nat.cast_le.mpr (allowedCount_suffix_le hsorted)
  refine ⟨(since.headD now).time, ?_, ?_⟩
  · cases since with
    | nil => exact le_rfl
    | cons first rest =>
      exact (List.pairwise_append.mp hsorted).2.2 first (by simp) now (List.mem_singleton_self _)
  · linarith [not_le.mp hover]

/-- **The admission law.** A bucket of capacity at least zero is created at `created` and charged
at nondecreasing times. A take is allowed if and only if one more is within capacity plus accrual
counted from the creation and from every take up to itself. Hence no window holds more than
capacity plus accrual, and a take is refused only if allowing it would overfill a window that ends
with it. -/
theorem admission_law (capacity : ℤ) (hcapacity : 0 ≤ capacity) (refillRate : ℚ)
    (hrate : 0 < refillRate) (created : ℚ) (times : List ℚ)
    (hclock : (created :: times).Pairwise (· ≤ ·)) :
    (∀ past now future,
      (TokenBucket.create capacity refillRate created).history times = past ++ now :: future →
      (now.allowed = true ↔
        (allowedCount past : ℚ) + 1 ≤ capacity + refillRate * (now.time - created) ∧
        ∀ earlier since, past = earlier ++ since → (allowedCount since : ℚ) + 1 ≤
          capacity + refillRate * (now.time - (since.headD now).time))) ∧
    (∀ a b, a ≤ b →
      (allowedCount (window a b ((TokenBucket.create capacity refillRate created).history times)) :
        ℚ) ≤ capacity + refillRate * (b - a)) ∧
    (∀ past now future,
      (TokenBucket.create capacity refillRate created).history times = past ++ now :: future →
      now.allowed = false → ∃ start ≤ now.time,
        capacity + refillRate * (now.time - start) <
          (allowedCount (window start now.time past) : ℚ) + 1) := by
  have htight : (TokenBucket.create capacity refillRate created).TightFor [⟨created, 0⟩] :=
    Tight.full _ _ _
  have hlaw : ∀ past now future,
      (TokenBucket.create capacity refillRate created).history times = past ++ now :: future →
      (now.allowed = true ↔
        (allowedCount past : ℚ) + 1 ≤ capacity + refillRate * (now.time - created) ∧
        Within capacity refillRate past now) := by
    intro past now future hhist
    rw [TokenBucket.history_allowed_iff hrate htight hhist]
    simp [headroom, TokenBucket.create]
  have htimes := (TokenBucket.create capacity refillRate created).history_map_time times
  have hsorted : ((TokenBucket.create capacity refillRate created).history times).Pairwise
      fun x y => x.time ≤ y.time := by
    rw [← List.pairwise_map, htimes]
    exact (List.pairwise_cons.mp hclock).2
  refine ⟨hlaw, fun a b hab => ?_, fun past now future hhist hrefused => ?_⟩
  · exact window_le hcapacity hrate hab hsorted fun past now future hhist hallowed =>
      ((hlaw past now future hhist).mp hallowed).2
  · have hsplit : (past ++ [now]).Pairwise fun x y => x.time ≤ y.time := by
      rw [hhist, List.append_cons] at hsorted
      exact (List.pairwise_append.mp hsorted).1
    have hcreated : ∀ take ∈ past ++ [now], created ≤ take.time := by
      intro take htake
      refine (List.pairwise_cons.mp hclock).1 take.time ?_
      rw [← htimes, hhist]
      refine List.mem_map.mpr ⟨take, ?_, rfl⟩
      rcases List.mem_append.mp htake with hmem | hmem
      · exact List.mem_append_left _ hmem
      · exact List.mem_append_right _ (List.mem_cons.mpr (.inl (List.mem_singleton.mp hmem)))
    have hnot : ¬ ((allowedCount past : ℚ) + 1 ≤
          capacity + refillRate * (now.time - created) ∧ Within capacity refillRate past now) := by
      rw [← hlaw past now future hhist, hrefused]
      exact Bool.false_ne_true
    rcases not_and_or.mp hnot with hfull | hfull
    · -- the creation leaves no room: the overfull window is the whole past
      refine ⟨created, hcreated now (by simp), ?_⟩
      rw [window_of_forall]
      · exact not_le.mp hfull
      · intro take htake
        exact ⟨hcreated take (List.mem_append_left _ htake),
          (List.pairwise_append.mp hsplit).2.2 take htake now (List.mem_singleton_self _)⟩
    · exact overfull_of_not_within hsplit hfull

/-- Two tokens, one a second: of four takes the third is refused, and the window is full. -/
theorem admission_law_burst :
    ((TokenBucket.create 2 1 0).history [0, 0, 1 / 2, 1]).map Take.allowed =
        [true, true, false, true] ∧
      (allowedCount (window 0 1 ((TokenBucket.create 2 1 0).history [0, 0, 1 / 2, 1])) : ℚ) ≤
        (2 : ℤ) + 1 * (1 - 0) :=
  ⟨by decide +kernel, (admission_law 2 (by decide) 1 (by decide) 0 [0, 0, 1 / 2, 1]
    (by decide +kernel)).2.1 0 1 (by decide)⟩

/-! ## Isolation between callers -/

/-- One call of `check`: whose it is, and what the clock reads if a bucket has to be created and in
the take. -/
structure Check where
  key : String
  created : ℚ
  taken : ℚ

/-- Checks in this order, each answered to its caller. -/
def InMemoryRateLimiter.history (limiter : InMemoryRateLimiter) :
    List Check → List (String × Except Exc RateLimitDecision)
  | [] => []
  | call :: later =>
    let (decision, limiter') := limiter.check call.key call.created call.taken
    (call.key, decision) :: limiter'.history later

/-- What the caller with this key was answered, in order. -/
def answersTo (key : String) (answers : List (String × Except Exc RateLimitDecision)) :
    List (Except Exc RateLimitDecision) :=
  (answers.filter fun answer => answer.1 = key).map Prod.snd

/-- The checks of the caller with this key. -/
def checksOf (key : String) (checks : List Check) : List Check :=
  checks.filter fun call => call.key = key

/-- What a single bucket answers to takes at these times. -/
def TokenBucket.answers (bucket : TokenBucket) (times : List ℚ) :
    List (Except Exc RateLimitDecision) :=
  (bucket.history times).map Take.decision

namespace InMemoryRateLimiter

theorem answersTo_self (limiter : InMemoryRateLimiter) (call : Check) (later : List Check) :
    answersTo call.key (limiter.history (call :: later)) =
      (limiter.check call.key call.created call.taken).1 ::
        answersTo call.key ((limiter.check call.key call.created call.taken).2.history later) := by
  simp [answersTo, history]

theorem answersTo_of_ne (limiter : InMemoryRateLimiter) {key : String} {call : Check}
    (h : call.key ≠ key) (later : List Check) :
    answersTo key (limiter.history (call :: later)) =
      answersTo key ((limiter.check call.key call.created call.taken).2.history later) := by
  simp [answersTo, history, h]

/-- Once the caller has a bucket, it alone answers them. -/
theorem answersTo_of_bucket {key : String} {checks : List Check} :
    ∀ {limiter : InMemoryRateLimiter} {bucket : TokenBucket}, limiter.buckets key = some bucket →
      answersTo key (limiter.history checks) =
        bucket.answers ((checksOf key checks).map Check.taken) := by
  induction checks with
  | nil => exact fun _ => rfl
  | cons call later ih =>
    intro limiter bucket hbucket
    by_cases hkey : call.key = key
    · subst hkey
      have hfor : limiter.bucketFor call.key call.created = bucket := by
        simp [bucketFor, hbucket]
      rw [answersTo_self, ih (limiter.check_self call.key call.created call.taken), check_fst,
        hfor]
      simp [checksOf, TokenBucket.answers, TokenBucket.history]
    · rw [answersTo_of_ne limiter hkey,
        ih ((limiter.check_of_ne (Ne.symm hkey) call.created call.taken).trans hbucket)]
      simp [checksOf, hkey]

/-- Before the caller has a bucket, what will answer them is a full one, made whenever. -/
theorem answersTo_of_none {key : String} {start : ℚ} {checks : List Check} :
    ∀ {limiter : InMemoryRateLimiter}, 0 ≤ limiter.refillRate → limiter.buckets key = none →
      (∀ call ∈ checks, call.created ≤ call.taken) →
      (∀ call ∈ (checksOf key checks).head?, start ≤ call.taken) →
      answersTo key (limiter.history checks) =
        (TokenBucket.create limiter.capacity limiter.refillRate start).answers
          ((checksOf key checks).map Check.taken) := by
  induction checks with
  | nil => exact fun _ _ _ _ => rfl
  | cons call later ih =>
    intro limiter hrate hnone hclock hstart
    by_cases hkey : call.key = key
    · -- the first check: the bucket is created, and is full when it is charged
      subst hkey
      have hle : start ≤ call.taken := hstart call (by simp [checksOf])
      have hfor : (limiter.bucketFor call.key call.created).take 1 call.taken =
          (TokenBucket.create limiter.capacity limiter.refillRate start).take 1 call.taken := by
        rw [bucketFor, hnone, Option.getD_none,
          TokenBucket.take_create _ hrate (hclock call List.mem_cons_self),
          TokenBucket.take_create _ hrate hle]
      rw [answersTo_self, answersTo_of_bucket (limiter.check_self call.key call.created call.taken),
        check_fst, hfor]
      simp [checksOf, TokenBucket.answers, TokenBucket.history]
    · have hof : checksOf key (call :: later) = checksOf key later := by simp [checksOf, hkey]
      rw [answersTo_of_ne limiter hkey, hof]
      refine ih hrate ((limiter.check_of_ne (Ne.symm hkey) _ _).trans hnone) ?_ ?_
      · exact fun call' hcall' => hclock call' (List.mem_cons_of_mem _ hcall')
      · rwa [hof] at hstart

end InMemoryRateLimiter

/-- **Isolation.** Whatever the other callers do in between, a caller's decisions are those of a
single bucket charged with that caller's checks alone, created at any time not later than the
first of them. Of the clock it is needed only that it does not run backwards within one check. -/
theorem check_isolation (capacity : ℤ) (refillRate : ℚ) (hrate : 0 < refillRate)
    (checks : List Check) (hclock : ∀ call ∈ checks, call.created ≤ call.taken) (key : String)
    (start : ℚ) (hstart : ∀ call ∈ (checksOf key checks).head?, start ≤ call.taken) :
    answersTo key ((InMemoryRateLimiter.create capacity refillRate).history checks) =
      (TokenBucket.create capacity refillRate start).answers
        ((checksOf key checks).map Check.taken) :=
  InMemoryRateLimiter.answersTo_of_none hrate.le rfl hclock hstart

/-- Two callers with one token a second each: the busy one does not cost the quiet one theirs. -/
theorem check_isolation_two_callers :
    answersTo "quiet" ((InMemoryRateLimiter.create 1 1).history
        [⟨"busy", 5, 5⟩, ⟨"busy", 5, 6⟩, ⟨"quiet", 6, 7⟩, ⟨"busy", 7, 7⟩, ⟨"quiet", 7, 7⟩]) =
      (TokenBucket.create 1 1 0).answers [7, 7] :=
  check_isolation 1 1 (by decide) _ (by decide +kernel) "quiet" 0 (by decide +kernel)

end PrdApiWrapper
