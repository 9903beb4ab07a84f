import PrdApiWrapper.Models
import Mathlib.Data.List.Induction
import Mathlib.Tactic.Linarith

/-!
# The circuit breaker

`CircuitBreaker` of `services/resilience.py`. Its methods do not wait for anything, so each is one
step; the reading of the clock is an argument, also where the source makes it on one branch only.

The three states, the failure count and the moment of opening together only serve one purpose:
to refuse a call while enough failures have come since the latest success and the latest failure
is recent. That is `refuses`, stated over the history of calls alone, and `breaker_refines` says
that the machine does exactly this.
-/

namespace PrdApiWrapper

/-- The attributes of a `CircuitBreaker`, its clock apart. -/
structure CircuitBreaker where
  failureThreshold : ℤ
  resetTimeout : ℚ
  state : CircuitState
  failures : ℕ
  openedAt : ℚ
  deriving DecidableEq

namespace CircuitBreaker

/-- `CircuitBreaker(failure_threshold, reset_timeout)`. -/
def create (failureThreshold : ℤ) (resetTimeout : ℚ) : CircuitBreaker where
  failureThreshold := failureThreshold
  resetTimeout := resetTimeout
  state := .closed
  failures := 0
  openedAt := 0

/-- What `before_call` raises. -/
def circuitOpen : Exc := .app (.new .upstreamCircuitOpen)

/-- `before_call()` at time `now`. -/
def beforeCall (breaker : CircuitBreaker) (now : ℚ) : Except Exc Unit × CircuitBreaker :=
  if breaker.state ≠ .open then (.ok (), breaker)
  else if now - breaker.openedAt < breaker.resetTimeout then (.error circuitOpen, breaker)
  -- cooled off: let this one through
  else (.ok (), { breaker with state := .halfOpen })

/-- `record_success()`. -/
def recordSuccess (breaker : CircuitBreaker) : CircuitBreaker :=
  { breaker with state := .closed, failures := 0 }

/-- `_trip()` at time `now`. -/
def trip (breaker : CircuitBreaker) (now : ℚ) : CircuitBreaker :=
  { breaker with state := .open, openedAt := now }

/-- `record_failure()` at time `now`. -/
def recordFailure (breaker : CircuitBreaker) (now : ℚ) : CircuitBreaker :=
  let counted := { breaker with failures := breaker.failures + 1 }
  -- one failed probe is enough
  if counted.state = .halfOpen ∨ counted.failureThreshold ≤ counted.failures then
    counted.trip now
  else counted

/-- **What a `before_call` does**: outside OPEN nothing; in OPEN it raises and changes nothing
before the cool-off is over, and starts a probe after. -/
theorem beforeCall_cases (breaker : CircuitBreaker) (now : ℚ) :
    (breaker.state ≠ .open ∧ breaker.beforeCall now = (.ok (), breaker)) ∨
    (breaker.state = .open ∧ now - breaker.openedAt < breaker.resetTimeout ∧
      breaker.beforeCall now = (.error circuitOpen, breaker)) ∨
    (breaker.state = .open ∧ breaker.resetTimeout ≤ now - breaker.openedAt ∧
      breaker.beforeCall now = (.ok (), { breaker with state := .halfOpen })) := by
  rw [beforeCall]
  by_cases hopen : breaker.state = .open
  · by_cases hearly : now - breaker.openedAt < breaker.resetTimeout
    · exact .inr (.inl ⟨hopen, hearly, by simp [hopen, hearly]⟩)
    · exact .inr (.inr ⟨hopen, not_lt.mp hearly, by simp [hopen, hearly]⟩)
  · exact .inl ⟨hopen, by simp [hopen]⟩

/-- **What a `record_failure` does**: counts it, and trips out of HALF_OPEN or at the threshold. -/
theorem recordFailure_cases (breaker : CircuitBreaker) (now : ℚ) :
    ((breaker.state = .halfOpen ∨ breaker.failureThreshold ≤ breaker.failures + 1) ∧
      breaker.recordFailure now = { breaker with
        failures := breaker.failures + 1, state := .open, openedAt := now }) ∨
    (breaker.state ≠ .halfOpen ∧ breaker.failures + 1 < breaker.failureThreshold ∧
      breaker.recordFailure now = { breaker with failures := breaker.failures + 1 }) := by
  simp only [recordFailure, trip, Nat.cast_add, Nat.cast_one]
  by_cases h : breaker.state = .halfOpen ∨ breaker.failureThreshold ≤ breaker.failures + 1
  · exact .inl ⟨h, if_pos h⟩
  · obtain ⟨hstate, hcount⟩ := not_or.mp h
    exact .inr ⟨hstate, not_le.mp hcount, if_neg h⟩

end CircuitBreaker

/-! ## Histories of a breaker -/

/-- The methods of a breaker. -/
inductive BreakerMethod where
  | beforeCall
  | recordSuccess
  | recordFailure
  deriving DecidableEq

/-- A call of a method and the reading of the clock at it. -/
structure BreakerCall where
  method : BreakerMethod
  time : ℚ
  deriving DecidableEq

/-- The breaker after one call. -/
def CircuitBreaker.call (breaker : CircuitBreaker) (call : BreakerCall) : CircuitBreaker :=
  match call.method with
  | .beforeCall => (breaker.beforeCall call.time).2
  | .recordSuccess => breaker.recordSuccess
  | .recordFailure => breaker.recordFailure call.time

/-- The breaker after a history of calls, the earliest first. -/
def CircuitBreaker.after (breaker : CircuitBreaker) (history : List BreakerCall) :
    CircuitBreaker :=
  history.foldl CircuitBreaker.call breaker

theorem CircuitBreaker.call_beforeCall (breaker : CircuitBreaker) (now : ℚ) :
    breaker.call ⟨.beforeCall, now⟩ = (breaker.beforeCall now).2 := rfl

theorem CircuitBreaker.call_recordFailure (breaker : CircuitBreaker) (now : ℚ) :
    breaker.call ⟨.recordFailure, now⟩ = breaker.recordFailure now := rfl

@[simp] theorem CircuitBreaker.call_resetTimeout (breaker : CircuitBreaker)
    (call : BreakerCall) : (breaker.call call).resetTimeout = breaker.resetTimeout := by
  obtain ⟨method, now⟩ := call
  cases method with
  | beforeCall =>
    simp only [CircuitBreaker.call]
    rcases breaker.beforeCall_cases now with ⟨_, h⟩ | ⟨_, _, h⟩ | ⟨_, _, h⟩ <;> rw [h]
  | recordSuccess => rfl
  | recordFailure =>
    simp only [CircuitBreaker.call]
    rcases breaker.recordFailure_cases now with ⟨_, h⟩ | ⟨_, _, h⟩ <;> rw [h]

/-- **The ways on from OPEN**: stay, refusing what is early and moving the opening at most up to
now; become HALF_OPEN by a `before_call` after the cool-off; or be told of a success. -/
theorem CircuitBreaker.call_of_open {breaker : CircuitBreaker} (hopen : breaker.state = .open)
    (call : BreakerCall) :
    ((breaker.call call).state = .open ∧
      ((breaker.call call).openedAt = breaker.openedAt ∨
        (breaker.call call).openedAt = call.time) ∧
      (call.method = .beforeCall → (breaker.beforeCall call.time).1 = .error circuitOpen)) ∨
    (call.method = .beforeCall ∧ breaker.resetTimeout ≤ call.time - breaker.openedAt ∧
      (breaker.beforeCall call.time).1 = .ok () ∧ (breaker.call call).state = .halfOpen) ∨
    call.method = .recordSuccess := by
  obtain ⟨method, now⟩ := call
  cases method with
  | beforeCall =>
    rw [call_beforeCall]
    rcases breaker.beforeCall_cases now with ⟨hstate, _⟩ | ⟨_, _, h⟩ | ⟨_, hcool, h⟩
    · exact absurd hopen hstate
    · rw [h]
      exact .inl ⟨hopen, .inl rfl, fun _ => rfl⟩
    · rw [h]
      exact .inr (.inl ⟨rfl, hcool, rfl, rfl⟩)
  | recordSuccess => exact .inr (.inr rfl)
  | recordFailure =>
    rw [call_recordFailure]
    rcases breaker.recordFailure_cases now with ⟨_, h⟩ | ⟨_, _, h⟩
    · rw [h]
      exact .inl ⟨rfl, .inr rfl, nofun⟩
    · rw [h]
      exact .inl ⟨hopen, .inl rfl, nofun⟩

/-- Only a failure opens a circuit, and it opens it now. -/
theorem CircuitBreaker.call_opens {breaker : CircuitBreaker} (hbefore : breaker.state ≠ .open)
    {call : BreakerCall} (hafter : (breaker.call call).state = .open) :
    call.method = .recordFailure ∧ (breaker.call call).openedAt = call.time := by
  obtain ⟨method, now⟩ := call
  cases method with
  | beforeCall =>
    rw [call_beforeCall] at hafter
    rcases breaker.beforeCall_cases now with ⟨_, h⟩ | ⟨hstate, _⟩ | ⟨hstate, _⟩
    · rw [h] at hafter
      exact absurd hafter hbefore
    · exact absurd hstate hbefore
    · exact absurd hstate hbefore
  | recordSuccess => cases hafter
  | recordFailure =>
    refine ⟨rfl, ?_⟩
    rw [call_recordFailure] at hafter ⊢
    rcases breaker.recordFailure_cases now with ⟨_, h⟩ | ⟨_, _, h⟩
    · rw [h]
    · rw [h] at hafter
      exact absurd hafter hbefore

/-- How many failures were recorded since the latest success, or since the start. -/
def failuresSince (history : List BreakerCall) : ℕ :=
  (history.reverse.takeWhile fun call => call.method ≠ .recordSuccess).countP
    fun call => call.method = .recordFailure

/-- When the latest failure was recorded. -/
def lastFailure (history : List BreakerCall) : Option ℚ :=
  (history.reverse.find? fun call => call.method = .recordFailure).map BreakerCall.time

/-- The purpose of a breaker, over the history alone: refuse a call at `now` while at least
`failureThreshold` failures have come since the latest success and less than `resetTimeout` has
passed since the latest failure. -/
def refuses (failureThreshold : ℤ) (resetTimeout : ℚ) (history : List BreakerCall)
    (now : ℚ) : Prop :=
  failureThreshold ≤ failuresSince history ∧
    ∃ failed, lastFailure history = some failed ∧ now - failed < resetTimeout

theorem failuresSince_snoc (history : List BreakerCall) (call : BreakerCall) :
    failuresSince (history ++ [call]) = match call.method with
      | .beforeCall => failuresSince history
      | .recordSuccess => 0
      | .recordFailure => failuresSince history + 1 := by
  cases h : call.method <;> simp [failuresSince, h]

theorem lastFailure_snoc (history : List BreakerCall) (call : BreakerCall) :
    lastFailure (history ++ [call]) =
      if call.method = .recordFailure then some call.time else lastFailure history := by
  by_cases h : call.method = .recordFailure <;> simp [lastFailure, h]

/-- After a success, what came before it does not count. -/
theorem failuresSince_append_of_success (past : List BreakerCall) {calls : List BreakerCall}
    (h : ∃ call ∈ calls, call.method = .recordSuccess) :
    failuresSince (past ++ calls) = failuresSince calls := by
  induction calls using List.reverseRecOn with
  | nil => simp at h
  | append_singleton calls call ih =>
    rw [← List.append_assoc, failuresSince_snoc, failuresSince_snoc]
    by_cases hlast : call.method = .recordSuccess
    · rw [hlast]
    · have hcalls : ∃ call ∈ calls, call.method = .recordSuccess := by
        obtain ⟨success, hmem, hsuccess⟩ := h
        rcases List.mem_append.mp hmem with hmem | hmem
        · exact ⟨success, hmem, hsuccess⟩
        · obtain rfl := List.mem_singleton.mp hmem
          exact absurd hsuccess hlast
      rw [ih hcalls]

/-- Without one, it does. -/
theorem failuresSince_append_of_no_success (past : List BreakerCall) {calls : List BreakerCall}
    (h : ∀ call ∈ calls, call.method ≠ .recordSuccess) :
    failuresSince past ≤ failuresSince (past ++ calls) := by
  induction calls using List.reverseRecOn with
  | nil => rw [List.append_nil]
  | append_singleton calls call ih =>
    have hcalls := ih fun call' hcall' => h call' (List.mem_append_left _ hcall')
    rw [← List.append_assoc, failuresSince_snoc]
    cases hlast : call.method with
    | beforeCall => exact hcalls
    | recordSuccess => exact absurd hlast (h call (by simp))
    | recordFailure => exact Nat.le_succ_of_le hcalls

theorem lastFailure_append (past calls : List BreakerCall) :
    lastFailure (past ++ calls) = (lastFailure calls).or (lastFailure past) := by
  simp [lastFailure, List.find?_append, Option.map_or]

/-- If any failure is recent, the latest one is. -/
theorem lastFailure_recent {calls : List BreakerCall}
    (hclock : (calls.map BreakerCall.time).Pairwise (· ≤ ·)) (now resetTimeout : ℚ) :
    (∃ failed, lastFailure calls = some failed ∧ now - failed < resetTimeout) ↔
      ∃ call ∈ calls, call.method = .recordFailure ∧ now - call.time < resetTimeout := by
  refine ⟨?_, ?_⟩
  · rintro ⟨failed, hlast, hrecent⟩
    obtain ⟨call, hfind, rfl⟩ := Option.map_eq_some_iff.mp hlast
    have hmethod := List.find?_some hfind
    exact ⟨call, List.mem_reverse.mp (List.mem_of_find?_eq_some hfind), of_decide_eq_true hmethod,
      hrecent⟩
  · rintro ⟨call, hcall, hmethod, hrecent⟩
    induction calls using List.reverseRecOn with
    | nil => cases hcall
    | append_singleton calls latest ih =>
      rw [List.map_append, List.pairwise_append] at hclock
      rw [lastFailure_snoc]
      by_cases hlatest : latest.method = .recordFailure
      · refine ⟨latest.time, if_pos hlatest, ?_⟩
        rcases List.mem_append.mp hcall with hcall | hcall
        · have hle := hclock.2.2 _ (List.mem_map_of_mem hcall) _ (List.mem_singleton_self _)
          linarith
        · obtain rfl := List.mem_singleton.mp hcall
          exact hrecent
      · rw [if_neg hlatest]
        rcases List.mem_append.mp hcall with hcall | hcall
        · exact ih hclock.1 hcall
        · obtain rfl := List.mem_singleton.mp hcall
          exact absurd hmethod hlatest

/-! ## The machine refines its purpose -/

/-- What ties the three fields to the history, up to a moment `now`. -/
structure Tracks (failureThreshold : ℤ) (resetTimeout : ℚ) (history : List BreakerCall)
    (now : ℚ) (breaker : CircuitBreaker) : Prop where
  /-- the threshold is configuration -/
  threshold : breaker.failureThreshold = failureThreshold
  /-- so is the cool-off -/
  timeout : breaker.resetTimeout = resetTimeout
  /-- failures are counted since the latest success -/
  failures : breaker.failures = failuresSince history
  /-- CLOSED means too few of them -/
  closed : breaker.state = .closed ↔ (failuresSince history : ℤ) < failureThreshold
  /-- OPEN remembers the latest failure -/
  «open» : breaker.state = .open → lastFailure history = some breaker.openedAt
  /-- HALF_OPEN is entered only once the latest failure is past -/
  halfOpen : breaker.state = .halfOpen →
    ∃ failed, lastFailure history = some failed ∧ failed + resetTimeout ≤ now

theorem Tracks.create {failureThreshold : ℤ} (hthreshold : 1 ≤ failureThreshold)
    (resetTimeout now : ℚ) :
    Tracks failureThreshold resetTimeout [] now (.create failureThreshold resetTimeout) where
  threshold := rfl
  timeout := rfl
  failures := rfl
  closed := by
    have : (failuresSince [] : ℤ) < failureThreshold := by
      simp only [failuresSince, List.reverse_nil, List.takeWhile_nil, List.countP_nil]
      omega
    exact iff_of_true rfl this
  «open» := nofun
  halfOpen := nofun

variable {failureThreshold : ℤ} {resetTimeout : ℚ} {history : List BreakerCall} {now : ℚ}
  {breaker : CircuitBreaker}

/-- Time passing changes nothing. -/
theorem Tracks.mono (h : Tracks failureThreshold resetTimeout history now breaker) {later : ℚ}
    (hlater : now ≤ later) : Tracks failureThreshold resetTimeout history later breaker where
  threshold := h.threshold
  timeout := h.timeout
  failures := h.failures
  closed := h.closed
  «open» := h.open
  halfOpen := fun hs => by
    obtain ⟨failed, hfailed, hpast⟩ := h.halfOpen hs
    exact ⟨failed, hfailed, hpast.trans hlater⟩

/-- A `before_call` that leaves the breaker as it is leaves it in step. -/
theorem Tracks.unchanged (h : Tracks failureThreshold resetTimeout history now breaker) {later : ℚ}
    (hlater : now ≤ later) :
    Tracks failureThreshold resetTimeout (history ++ [⟨.beforeCall, later⟩]) later breaker := by
  have hfail : failuresSince (history ++ [⟨.beforeCall, later⟩]) = failuresSince history :=
    failuresSince_snoc ..
  have hlast : lastFailure (history ++ [⟨.beforeCall, later⟩]) = lastFailure history :=
    lastFailure_snoc ..
  have hmono := h.mono hlater
  exact {
    threshold := h.threshold
    timeout := h.timeout
    failures := h.failures.trans hfail.symm
    closed := by rw [hfail]; exact h.closed
    «open» := fun hs => hlast.trans (h.open hs)
    halfOpen := fun hs => by rw [hlast]; exact hmono.halfOpen hs }

/-- A `before_call` raises exactly when its history says so, and keeps the fields in step. -/
theorem Tracks.beforeCall (h : Tracks failureThreshold resetTimeout history now breaker)
    {later : ℚ} (hlater : now ≤ later) :
    ((breaker.beforeCall later).1 = .error CircuitBreaker.circuitOpen ↔
      refuses failureThreshold resetTimeout history later) ∧
    Tracks failureThreshold resetTimeout (history ++ [⟨.beforeCall, later⟩]) later
      (breaker.beforeCall later).2 := by
  have hfail : failuresSince (history ++ [⟨.beforeCall, later⟩]) = failuresSince history :=
    failuresSince_snoc ..
  have hlast : lastFailure (history ++ [⟨.beforeCall, later⟩]) = lastFailure history :=
    lastFailure_snoc ..
  have hreached : breaker.state ≠ .closed → failureThreshold ≤ failuresSince history :=
    fun hstate => not_lt.mp (mt h.closed.mpr hstate)
  rcases breaker.beforeCall_cases later with
    ⟨hstate, hcall⟩ | ⟨hstate, hearly, hcall⟩ | ⟨hstate, hcool, hcall⟩
  · -- CLOSED or HALF_OPEN: let through
    rw [hcall]
    refine ⟨iff_of_false nofun ?_, ?_⟩
    · rintro ⟨hcount, failed, hfailed, hrecent⟩
      have hhalf : breaker.state = .halfOpen := by
        cases hs : breaker.state with
        | closed => exact absurd (h.closed.mp hs) (not_lt.mpr hcount)
        | «open» => exact absurd hs hstate
        | halfOpen => rfl
      obtain ⟨failed', hfailed', hpast⟩ := h.halfOpen hhalf
      obtain rfl := Option.some.inj (hfailed.symm.trans hfailed')
      linarith
    · exact h.unchanged hlater
  · -- OPEN, too early: refused
    rw [hcall]
    have hcount := hreached (by rw [hstate]; rintro ⟨⟩)
    rw [h.timeout] at hearly
    exact ⟨iff_of_true rfl ⟨hcount, _, h.open hstate, hearly⟩, h.unchanged hlater⟩
  · -- OPEN, cooled off: the probe goes through
    rw [hcall]
    have hcount := hreached (by rw [hstate]; rintro ⟨⟩)
    rw [h.timeout] at hcool
    refine ⟨iff_of_false nofun ?_, ?_⟩
    · rintro ⟨_, failed, hfailed, hrecent⟩
      obtain rfl := Option.some.inj (hfailed.symm.trans (h.open hstate))
      linarith
    · exact {
        threshold := h.threshold
        timeout := h.timeout
        failures := h.failures.trans hfail.symm
        closed := by
          rw [hfail]
          exact iff_of_false nofun (not_lt.mpr hcount)
        «open» := nofun
        halfOpen := fun _ => ⟨_, hlast.trans (h.open hstate), by linarith⟩ }

theorem Tracks.recordSuccess (hthreshold : 1 ≤ failureThreshold)
    (h : Tracks failureThreshold resetTimeout history now breaker) (later : ℚ) :
    Tracks failureThreshold resetTimeout (history ++ [⟨.recordSuccess, later⟩]) later
      breaker.recordSuccess := by
  have hfail : failuresSince (history ++ [⟨.recordSuccess, later⟩]) = 0 :=
    failuresSince_snoc ..
  exact {
    threshold := h.threshold
    timeout := h.timeout
    failures := hfail.symm
    closed := iff_of_true rfl (by rw [hfail]; omega)
    «open» := nofun
    halfOpen := nofun }

theorem Tracks.recordFailure (h : Tracks failureThreshold resetTimeout history now breaker)
    (later : ℚ) :
    Tracks failureThreshold resetTimeout (history ++ [⟨.recordFailure, later⟩]) later
      (breaker.recordFailure later) := by
  have hfail : failuresSince (history ++ [⟨.recordFailure, later⟩]) = failuresSince history + 1 :=
    failuresSince_snoc ..
  have hlast : lastFailure (history ++ [⟨.recordFailure, later⟩]) = some later :=
    lastFailure_snoc ..
  rcases breaker.recordFailure_cases later with ⟨htrip, hcall⟩ | ⟨hstate, hfew, hcall⟩
  · -- tripped: the threshold is reached, from HALF_OPEN because it was before
    rw [hcall]
    have hcount : ¬ ((failuresSince history + 1 : ℕ) : ℤ) < failureThreshold := by
      rcases htrip with hhalf | hmany
      · have : ¬ (failuresSince history : ℤ) < failureThreshold :=
          mt h.closed.mpr (by rw [hhalf]; rintro ⟨⟩)
        push_cast
        omega
      · rw [h.threshold, h.failures] at hmany
        push_cast
        omega
    exact {
      threshold := h.threshold
      timeout := h.timeout
      failures := by rw [hfail, ← h.failures]
      closed := by
        rw [hfail]
        exact iff_of_false nofun hcount
      «open» := fun _ => hlast
      halfOpen := nofun }
  · -- counted: still too few, so the circuit was CLOSED and stays so
    rw [hcall]
    rw [h.threshold, h.failures] at hfew
    have hclosed : breaker.state = .closed := h.closed.mpr (by omega)
    exact {
      threshold := h.threshold
      timeout := h.timeout
      failures := by rw [hfail, ← h.failures]
      closed := by
        rw [hfail]
        exact iff_of_true hclosed (by push_cast; omega)
      «open» := fun hs => absurd (hs.symm.trans hclosed) nofun
      halfOpen := fun hs => absurd hs hstate }

/-- One call of any method keeps the fields in step with the history. -/
theorem Tracks.call (hthreshold : 1 ≤ failureThreshold)
    (h : Tracks failureThreshold resetTimeout history now breaker) {call : BreakerCall}
    (hlater : now ≤ call.time) :
    Tracks failureThreshold resetTimeout (history ++ [call]) call.time (breaker.call call) := by
  obtain ⟨method, later⟩ := call
  cases method with
  | beforeCall => exact (h.beforeCall hlater).2
  | recordSuccess => exact h.recordSuccess hthreshold later
  | recordFailure => exact h.recordFailure later

/-- The run lemma: whatever is called in whatever order, the fields are in step. -/
theorem Tracks.after (hthreshold : 1 ≤ failureThreshold) :
    ∀ {now : ℚ}, (history.map BreakerCall.time).Pairwise (· ≤ ·) →
      (∀ call ∈ history, call.time ≤ now) →
      Tracks failureThreshold resetTimeout history now
        ((CircuitBreaker.create failureThreshold resetTimeout).after history) := by
  induction history using List.reverseRecOn with
  | nil => exact fun _ _ => .create hthreshold _ _
  | append_singleton history call ih =>
    intro now hclock hnow
    rw [List.map_append, List.pairwise_append] at hclock
    have hbefore : ∀ call' ∈ history, call'.time ≤ call.time := fun call' hcall' =>
      hclock.2.2 _ (List.mem_map_of_mem hcall') _ (List.mem_singleton_self _)
    rw [CircuitBreaker.after, List.foldl_append]
    exact ((ih hclock.1 hbefore).call hthreshold le_rfl).mono (hnow call (by simp))

/-- **The breaker refines its purpose.** From a fresh breaker, for every order of calls at
nondecreasing times: a `before_call` raises `UpstreamCircuitOpen` exactly if at least the threshold
of failures was recorded since the latest success and the latest failure is less than the cool-off
ago, and the circuit is CLOSED exactly if fewer than the threshold were. -/
theorem breaker_refines (failureThreshold : ℤ) (hthreshold : 1 ≤ failureThreshold)
    (resetTimeout : ℚ) (history : List BreakerCall)
    (hclock : (history.map BreakerCall.time).Pairwise (· ≤ ·)) :
    (∀ past now future, history = past ++ ⟨.beforeCall, now⟩ :: future →
      ((((CircuitBreaker.create failureThreshold resetTimeout).after past).beforeCall now).1 =
          .error CircuitBreaker.circuitOpen ↔
        refuses failureThreshold resetTimeout past now)) ∧
    (((CircuitBreaker.create failureThreshold resetTimeout).after history).state = .closed ↔
      (failuresSince history : ℤ) < failureThreshold) := by
  refine ⟨?_, ?_⟩
  -- a `before_call` sees what is tracked of the calls before it
  · rintro past now future rfl
    rw [List.map_append, List.pairwise_append] at hclock
    have hpast : ∀ call ∈ past, call.time ≤ now := fun call hcall =>
      hclock.2.2 _ (List.mem_map_of_mem hcall) _ List.mem_cons_self
    exact ((Tracks.after hthreshold hclock.1 hpast).beforeCall le_rfl).1
  · obtain ⟨now, hnow⟩ : ∃ now, ∀ call ∈ history, call.time ≤ now := by
      induction history using List.reverseRecOn with
      | nil => exact ⟨0, by simp⟩
      | append_singleton history call _ =>
        rw [List.map_append, List.pairwise_append] at hclock
        refine ⟨call.time, fun call' hcall' => ?_⟩
        rcases List.mem_append.mp hcall' with hmem | hmem
        · exact hclock.2.2 _ (List.mem_map_of_mem hmem) _ (List.mem_singleton_self _)
        · rw [List.mem_singleton.mp hmem]
    exact (Tracks.after hthreshold hclock hnow).closed

/-- Two failures at a threshold of two: refused a second later, let through after the cool-off,
and the circuit is not CLOSED even then. -/
theorem breaker_refines_two_failures :
    refuses 2 30 [⟨.recordFailure, 0⟩, ⟨.recordFailure, 1⟩] 2 ∧
      ((((CircuitBreaker.create 2 30).after
          [⟨.recordFailure, 0⟩, ⟨.recordFailure, 1⟩]).beforeCall 2).1 =
            .error CircuitBreaker.circuitOpen ↔
        refuses 2 30 [⟨.recordFailure, 0⟩, ⟨.recordFailure, 1⟩] 2) ∧
      (((CircuitBreaker.create 2 30).after [⟨.recordFailure, 0⟩, ⟨.recordFailure, 1⟩,
          ⟨.beforeCall, 2⟩, ⟨.beforeCall, 31⟩]).state = .closed ↔
        (failuresSince [⟨.recordFailure, 0⟩, ⟨.recordFailure, 1⟩, ⟨.beforeCall, 2⟩,
          ⟨.beforeCall, 31⟩] : ℤ) < 2) :=
  have h := breaker_refines 2 (by decide) 30 [⟨.recordFailure, 0⟩, ⟨.recordFailure, 1⟩,
    ⟨.beforeCall, 2⟩, ⟨.beforeCall, 31⟩] (by decide +kernel)
  ⟨⟨by decide, 1, rfl, by decide +kernel⟩, h.1 _ 2 [⟨.beforeCall, 31⟩] rfl, h.2⟩

end PrdApiWrapper
