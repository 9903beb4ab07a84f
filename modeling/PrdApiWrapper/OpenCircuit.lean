import PrdApiWrapper.World
import PrdApiWrapper.Rules

/-!
# The circuit while it is open

Any number of attempts (`_guarded_call`) run at once against one breaker. What should hold is that
an open circuit stays shut for its cool-off. It does not hold: `record_success` closes the circuit
from any state, also for a call that was let through before the circuit opened
(`stale_success_reopens`).

It holds in every run in which no such success is recorded while the circuit is not CLOSED
(`open_circuit_stays_shut`). The invariant is that an open circuit has not let a call through
since it last opened.
-/

namespace PrdApiWrapper

open Interaction

/-! ## Runs of attempts -/

/-- One attempt, for a payload and a model. -/
def attempt (env : Environment) (settings : Settings) (call : UpstreamPayload × String) :
    Prog Service (Except Exc CompletionResponse) :=
  ((completionService env settings).guardedCall call.1 call.2).run

/-- The circuit moves to OPEN. -/
def Opens (en : Entry Service World) : Prop :=
  en.before.breaker.state ≠ .open ∧ en.after.breaker.state = .open

/-- A `before_call` lets its call through. -/
def Admits (en : Entry Service World) : Prop := en.event = ⟨.beforeCall, .ok ()⟩

/-- A `before_call` raises `UpstreamCircuitOpen`. -/
def Refuses (en : Entry Service World) : Prop :=
  en.event = ⟨.beforeCall, .error CircuitBreaker.circuitOpen⟩

/-- A success is recorded, while the circuit is not CLOSED, of a call that was let through before
the circuit opened. -/
def Stale (earlier : List (Entry Service World)) (en : Entry Service World) : Prop :=
  en.op = .recordSuccess ∧ en.before.breaker.state ≠ .closed ∧
    ∃ past opening since, earlier = past ++ opening :: since ∧ Opens opening ∧
      ∃ admission ∈ past, admission.task = en.task ∧ Admits admission

theorem Admits.op {en : Entry Service World} (h : Admits en) : en.op = .beforeCall :=
  congrArg Event.op h

/-! ## One step -/

section

variable {en : Entry Service World}
  (hstep : world.step en.before en.task en.op en.reply en.after)

include hstep

theorem step_resetTimeout :
    en.after.breaker.resetTimeout = en.before.breaker.resetTimeout := by
  rcases world_breaker hstep with ⟨_, h⟩ | ⟨call, _, h, _⟩
  · rw [h]
  · rw [h, CircuitBreaker.call_resetTimeout]

/-- A step from OPEN stays there without letting a call through, or lets a probe through after the
cool-off, or records a success. -/
theorem step_of_open (hopen : en.before.breaker.state = .open) :
    (en.after.breaker.state = .open ∧
      (en.after.breaker.openedAt = en.before.breaker.openedAt ∨
        en.after.breaker.openedAt = en.after.now) ∧
      ¬ Admits en ∧ (en.op = .beforeCall → Refuses en)) ∨
    (Admits en ∧ en.before.breaker.resetTimeout ≤ en.after.now - en.before.breaker.openedAt ∧
      en.after.breaker.state = .halfOpen) ∨
    (en.op = .recordSuccess ∧ en.after.breaker.state = .closed) := by
  rcases world_breaker hstep with ⟨hnone, hafter⟩ | ⟨call, hsome, hafter, hanswer⟩
  · have hop : en.op ≠ .beforeCall := by
      intro hop
      simp only [breakerCall, hop] at hnone
      cases hnone
    rw [hafter]
    exact .inl ⟨hopen, .inl rfl, fun h => hop h.op, fun h => absurd h hop⟩
  · obtain ⟨htime, hbefore, hsuccess⟩ := breakerCall_eq_some hsome
    rw [hafter]
    rcases CircuitBreaker.call_of_open hopen call with
      ⟨hstate, hopened, hrefuse⟩ | ⟨hmethod, hcool, hok, hstate⟩ | hmethod
    · have hrefused : en.op = .beforeCall → Refuses en := fun hop => by
        rw [Refuses, hanswer hop, ← htime, hrefuse (hbefore.mp hop)]
      refine .inl ⟨hstate, by rwa [htime] at hopened, fun h => ?_, hrefused⟩
      have := h.symm.trans (hrefused h.op)
      cases this
    · refine .inr (.inl ⟨?_, by rwa [htime] at hcool, hstate⟩)
      rw [Admits, hanswer (hbefore.mpr hmethod), ← htime, hok]
    · refine .inr (.inr ⟨hsuccess.mpr hmethod, ?_⟩)
      obtain ⟨method, time⟩ := call
      cases hmethod
      rfl

/-- The step that opens the circuit opens it now, and is not a `before_call`. -/
theorem step_opens (h : Opens en) : en.after.breaker.openedAt = en.after.now ∧ ¬ Admits en := by
  obtain ⟨hbefore, hopen⟩ := h
  rcases world_breaker hstep with ⟨_, hafter⟩ | ⟨call, hsome, hafter, _⟩
  · rw [hafter] at hopen
    exact absurd hopen hbefore
  · obtain ⟨htime, hop, _⟩ := breakerCall_eq_some hsome
    rw [hafter] at hopen ⊢
    obtain ⟨hmethod, hopened⟩ := CircuitBreaker.call_opens hbefore hopen
    refine ⟨hopened.trans htime, fun h => ?_⟩
    have := hmethod.symm.trans (hop.mp h.op)
    cases this

end

/-! ## Runs -/

/-- The guard of an attempt: a success is only recorded once its `before_call` let it through. -/
def LetThrough (trace : List (Event Service)) (op : Op) : Prop :=
  op = .recordSuccess → ⟨.beforeCall, .ok ()⟩ ∈ trace

/-- An attempt only reports how its call ended once its `before_call` let it through. -/
theorem attempt_reports (env : Environment) (settings : Settings) {reports : Op → Prop}
    (hreports : ∀ op, reports op → op = .recordSuccess ∨ op = .recordFailure)
    (call : UpstreamPayload × String) :
    (attempt env settings call).wp
      (Protocol.guarded fun trace op => reports op → ⟨.beforeCall, .ok ()⟩ ∈ trace)
      (fun _ _ => True) [] := by
  have hsilent : ∀ {op : Op} {trace : List (Event Service)}, op ≠ .recordSuccess →
      op ≠ .recordFailure → reports op → ⟨.beforeCall, .ok ()⟩ ∈ trace := by
    intro op trace hsuccess hfailure hop
    rcases hreports op hop with rfl | rfl
    · exact absurd rfl hsuccess
    · exact absurd rfl hfailure
  apply (Async.awp_outcome _ (fun _ _ => True) []).mp
  rw [awp_guardedCall]
  simp only [Protocol.guarded_allows, Protocol.guarded_next, List.nil_append]
  refine ⟨hsilent (by rintro ⟨⟩) (by rintro ⟨⟩), ?_⟩
  rintro (exc | ⟨⟩) q₁ rfl
  · trivial
  · refine ⟨hsilent (by rintro ⟨⟩) (by rintro ⟨⟩), ?_⟩
    rintro u q₂ rfl
    refine ⟨hsilent (by rintro ⟨⟩) (by rintro ⟨⟩), ?_⟩
    rintro outcome q₃ rfl
    split
    · exact ⟨fun _ => by simp, fun _ _ _ => trivial⟩
    · split
      · exact ⟨fun _ => by simp, fun _ _ _ => trivial⟩
      · trivial
    · trivial

theorem attempt_admitted (env : Environment) (settings : Settings)
    (call : UpstreamPayload × String) :
    (attempt env settings call).wp (Protocol.guarded LetThrough) (fun _ _ => True) [] :=
  attempt_reports env settings (fun _ => .inl) call

variable {start : World} {log : List (Entry Service World)} {w : World}

theorem chained_resetTimeout (h : Chained world start log w) :
    w.breaker.resetTimeout = start.breaker.resetTimeout := by
  induction h with
  | nil => rfl
  | snoc _ hbefore hstep ih =>
    subst hbefore
    rw [step_resetTimeout hstep, ih]

/-- **The invariant**: an open circuit was opened by some step, has let no call through since, and
counts its cool-off from that step or later. -/
theorem opened_since (hstart : start.breaker.state ≠ .open) (h : Chained world start log w)
    (hopen : w.breaker.state = .open) :
    ∃ past opening since, log = past ++ opening :: since ∧ Opens opening ∧
      (∀ en ∈ since, ¬ Opens en) ∧ (∀ en ∈ opening :: since, ¬ Admits en) ∧
      opening.after.now ≤ w.breaker.openedAt ∧ w.breaker.openedAt ≤ w.now := by
  induction h with
  | nil => exact absurd hopen hstart
  | @snoc w log en hlog hbefore hstep ih =>
    subst hbefore
    by_cases hwas : en.before.breaker.state = .open
    -- it was open before: the step that opened it stands further back
    · obtain ⟨past, opening, since, rfl, hopens, hlast, hadmits, hsince, hnow⟩ := ih hwas
      have htime := world_now hstep
      rcases step_of_open hstep hwas with
        ⟨_, hopened, hnot, _⟩ | ⟨_, _, hhalf⟩ | ⟨_, hclosed⟩
      · refine ⟨past, opening, since ++ [en], by simp, hopens, ?_, ?_, ?_⟩
        · intro en' hen'
          rw [List.mem_append, List.mem_singleton] at hen'
          rcases hen' with hen' | rfl
          · exact hlast en' hen'
          · exact fun hopens' => hopens'.1 hwas
        · intro en' hen'
          rw [← List.cons_append, List.mem_append, List.mem_singleton] at hen'
          rcases hen' with hen' | rfl
          · exact hadmits en' hen'
          · exact hnot
        · rcases hopened with hopened | hopened <;> rw [hopened]
          · exact ⟨hsince, hnow.trans htime⟩
          · exact ⟨(hsince.trans hnow).trans htime, le_rfl⟩
      · exact absurd (hopen.symm.trans hhalf) nofun
      · exact absurd (hopen.symm.trans hclosed) nofun
    · obtain ⟨hopened, hnot⟩ := step_opens hstep ⟨hwas, hopen⟩
      exact ⟨log, en, [], rfl, ⟨hwas, hopen⟩, by simp, by simpa using hnot, hopened.ge,
        hopened.le⟩

section

variable {env : Environment} {settings : Settings} {begin : ℚ}
  {tasks : List (Task (UpstreamPayload × String) Service (Except Exc CompletionResponse))}
  (hrun : Run world (attempt env settings) (World.start settings begin) log w tasks)

include hrun

/-- Whatever call reports a success to an open circuit was let through before it opened. -/
theorem stale_of_open {earlier : List (Entry Service World)} {en : Entry Service World}
    {later : List (Entry Service World)} (hlog : log = earlier ++ en :: later)
    (hop : en.op = .recordSuccess) (hopen : en.before.breaker.state = .open) :
    Stale earlier en := by
  obtain ⟨tasks', l, k, hbefore, _⟩ := hrun.before earlier en later hlog
  obtain ⟨past, opening, since, hsplit, hopens, _, hadmits, _⟩ :=
    opened_since (by rintro ⟨⟩) hbefore.chained hopen
  refine ⟨hop, by rw [hopen]; rintro ⟨⟩, past, opening, since, hsplit, hopens, ?_⟩
  obtain ⟨_, _, hadmitted⟩ := hrun.guard (attempt_admitted env settings) hlog
  obtain ⟨admission, hmem, htask, hthrough⟩ := mem_ownTrace.mp (hadmitted hop)
  rw [hsplit, List.mem_append] at hmem
  rcases hmem with hmem | hmem
  · exact ⟨admission, hmem, htask, hthrough⟩
  · exact absurd hthrough (hadmits admission hmem)

/-- Once opened, the circuit is open until the cool-off is over. -/
theorem stays_open
    (hfresh : ∀ earlier en later, log = earlier ++ en :: later → ¬ Stale earlier en)
    {earlier : List (Entry Service World)} {opening : Entry Service World}
    {later : List (Entry Service World)} (hlog : log = earlier ++ opening :: later)
    (hopens : Opens opening) (between : List (Entry Service World)) :
    ∀ rest w', later = between ++ rest →
      w' = worldAfter (World.start settings begin) (earlier ++ opening :: between) →
      w'.now < opening.after.now + settings.circuitBreakerResetSeconds →
      w'.breaker.state = .open ∧ opening.after.now ≤ w'.breaker.openedAt := by
  obtain ⟨_, hsplit⟩ := hrun.chained.split
  induction between using List.reverseRecOn with
  | nil =>
    rintro rest w' hrest rfl _
    rw [worldAfter_snoc]
    exact ⟨hopens.2, (step_opens (hsplit earlier opening later hlog).2 hopens).1.ge⟩
  | append_singleton between en ih =>
    rintro rest w' hrest rfl hearly
    have hlog' : log = (earlier ++ opening :: between) ++ en :: rest := by
      rw [hlog, hrest]
      simp
    obtain ⟨hbefore, hstep⟩ := hsplit _ en rest hlog'
    obtain ⟨tasks', l, k, hprefix, _⟩ := hrun.before _ en rest hlog'
    have htime := world_now hstep
    rw [← List.cons_append, ← List.append_assoc, worldAfter_snoc] at hearly ⊢
    obtain ⟨hopen, hopened⟩ := ih (en :: rest) en.before (by rw [hrest]; simp) hbefore
      (htime.trans_lt hearly)
    have hreset : en.before.breaker.resetTimeout = settings.circuitBreakerResetSeconds :=
      chained_resetTimeout hprefix.chained
    rcases step_of_open hstep hopen with
      ⟨hstill, hmoved, _⟩ | ⟨_, hcool, _⟩ | ⟨hop, _⟩
    · refine ⟨hstill, ?_⟩
      rcases hmoved with hmoved | hmoved <;> rw [hmoved]
      · exact hopened
      · obtain ⟨_, _, _, _, _, _, _, _, hnow⟩ :=
          opened_since (by rintro ⟨⟩) hprefix.chained hopen
        exact (hopened.trans hnow).trans htime
    · rw [hreset] at hcool
      linarith
    · exact absurd (stale_of_open hrun hlog' hop hopen) (hfresh _ en rest hlog')

/-- **An open circuit stays shut**, in every run of any number of overlapping attempts that never
records, while the circuit is not CLOSED, a success of a call let through before it opened: once
the circuit moves to OPEN every `before_call` within the cool-off is refused, the circuit leaves
OPEN only by a probe let through after the cool-off, and no success of a call from before an
opening finds the circuit anything but CLOSED. -/
theorem open_circuit_stays_shut
    (hfresh : ∀ earlier en later, log = earlier ++ en :: later → ¬ Stale earlier en) :
    (∀ earlier opening later, log = earlier ++ opening :: later → Opens opening →
      ∀ en ∈ later, en.op = .beforeCall →
        en.after.now < opening.after.now + settings.circuitBreakerResetSeconds → Refuses en) ∧
    (∀ earlier en later, log = earlier ++ en :: later → en.before.breaker.state = .open →
      en.after.breaker.state ≠ .open → Admits en ∧ ∃ past opening since,
        earlier = past ++ opening :: since ∧ Opens opening ∧ (∀ en' ∈ since, ¬ Opens en') ∧
        opening.after.now + settings.circuitBreakerResetSeconds ≤ en.after.now) ∧
    (∀ past opening since en later, log = past ++ opening :: since ++ en :: later →
      Opens opening → (∃ admission ∈ past, admission.task = en.task ∧ Admits admission) →
      en.op = .recordSuccess → en.before.breaker.state = .closed) := by
  refine ⟨?_, ?_, ?_⟩
  · intro earlier opening later hlog hopens en hen hop hearly
    obtain ⟨between, rest, hrest⟩ := List.append_of_mem hen
    have hlog' : log = (earlier ++ opening :: between) ++ en :: rest := by
      rw [hlog, hrest]
      simp
    obtain ⟨hbefore, hstep⟩ := (hrun.chained.split).2 _ en rest hlog'
    obtain ⟨tasks', l, k, hprefix, _⟩ := hrun.before _ en rest hlog'
    obtain ⟨hopen, hopened⟩ := stays_open hrun hfresh hlog hopens between (en :: rest) en.before
      hrest hbefore ((world_now hstep).trans_lt hearly)
    have hreset : en.before.breaker.resetTimeout = settings.circuitBreakerResetSeconds :=
      chained_resetTimeout hprefix.chained
    rcases step_of_open hstep hopen with ⟨_, _, _, hrefuse⟩ | ⟨_, hcool, _⟩ | ⟨hop', _⟩
    · exact hrefuse hop
    · rw [hreset] at hcool
      linarith
    · cases hop.symm.trans hop'
  · intro earlier en later hlog hopen hleaves
    obtain ⟨hbefore, hstep⟩ := (hrun.chained.split).2 earlier en later hlog
    obtain ⟨tasks', l, k, hprefix, _⟩ := hrun.before earlier en later hlog
    obtain ⟨past, opening, since, hsplit, hopens, hlast, _, hsince, _⟩ :=
      opened_since (by rintro ⟨⟩) hprefix.chained hopen
    have hreset : en.before.breaker.resetTimeout = settings.circuitBreakerResetSeconds :=
      chained_resetTimeout hprefix.chained
    rcases step_of_open hstep hopen with ⟨hstill, _⟩ | ⟨hthrough, hcool, _⟩ | ⟨hop, _⟩
    · exact absurd hstill hleaves
    · refine ⟨hthrough, past, opening, since, hsplit, hopens, hlast, ?_⟩
      rw [hreset] at hcool
      linarith
    · exact absurd (stale_of_open hrun hlog hop hopen) (hfresh earlier en later hlog)
  · intro past opening since en later hlog hopens hadmission hop
    by_contra hclosed
    exact hfresh _ en later hlog ⟨hop, hclosed, past, opening, since, rfl, hopens, hadmission⟩

end

/-! ## Two runs of a breaker that opens at the first failure -/

/-- The settings of these runs. -/
def touchy : Settings := { Settings.defaults with circuitBreakerFailureThreshold := 1 }

/-- What every attempt of these runs asks. -/
def hello : UpstreamPayload × String :=
  (⟨"llama3.2:3b", "Say hello.", 7 / 10, none⟩, "llama3.2:3b")

/-- The world these runs start in. -/
def untouched : World := World.start touchy 0

/-- The world when the circuit has opened at time 1. -/
def opened : World := { untouched with now := 1, breaker := untouched.breaker.recordFailure 1 }

/-- The first attempt times out and opens the circuit, and the second, a second later, is
refused. -/
theorem open_circuit_stays_shut_timeout :
    ∃ log w tasks, Run world (attempt .sample touchy) (.start touchy 0) log w tasks ∧
      ∃ earlier opening later, log = earlier ++ opening :: later ∧ Opens opening ∧
        ∃ en ∈ later, en.op = .beforeCall ∧ Refuses en := by
  have h₀ : Run world (attempt .sample touchy) (.start touchy 0) _ _ _ :=
    .spawn hello (.spawn hello .start)
  have h₁ := h₀.reply 0 rfl (.ok ()) untouched ⟨0, le_rfl, rfl, rfl⟩
  have h₂ := h₁.reply 0 rfl () untouched ⟨0, le_rfl, rfl⟩
  have h₃ := h₂.reply 0 rfl .timeout { untouched with now := 1 } ⟨1, by decide, rfl⟩
  have h₄ := h₃.reply 0 rfl () opened ⟨1, by decide, rfl⟩
  have hrefuse : opened.breaker.beforeCall 2 =
      (.error CircuitBreaker.circuitOpen, opened.breaker) :=
    (if_neg (by decide)).trans (if_pos (by decide +kernel))
  have h₅ := h₄.reply 1 rfl (.error CircuitBreaker.circuitOpen) { opened with now := 2 }
    ⟨2, by decide, congrArg Prod.fst hrefuse.symm,
      congrArg (fun r => { opened with now := 2, breaker := r.2 }) hrefuse.symm⟩
  -- no success is recorded at all
  have hfresh := (open_circuit_stays_shut h₅ fun earlier en later hlog hstale => by
    have hmem : en ∈ earlier ++ en :: later := by simp
    rw [← hlog] at hmem
    simp only [List.nil_append, List.cons_append, List.mem_cons, List.not_mem_nil,
      or_false] at hmem
    have hop := hstale.1
    rcases hmem with rfl | rfl | rfl | rfl | rfl <;> cases hop).1
  refine ⟨_, _, _, h₅, [_, _, _], _, [_], rfl, ⟨by decide, by decide⟩, _, .head _, rfl, ?_⟩
  exact hfresh [_, _, _] _ [_] rfl ⟨by decide, by decide⟩ _ (.head _) rfl (by decide +kernel)

/-- Two attempts overlap: the first times out at time 1 and opens the circuit, the second, let
through before that, succeeds at time 2 and closes it; at time 3 a third is let through, though the
cool-off of 30 seconds has only begun. -/
theorem stale_success_reopens :
    ∃ log w tasks, Run world (attempt .sample touchy) (.start touchy 0) log w tasks ∧
      ∃ earlier opening later, log = earlier ++ opening :: later ∧ Opens opening ∧
        ∃ en ∈ later, en.op = .beforeCall ∧ opening.after.now ≤ en.after.now ∧
          en.after.now < opening.after.now + touchy.circuitBreakerResetSeconds ∧
          ¬ Refuses en := by
  have h₀ : Run world (attempt .sample touchy) (.start touchy 0) _ _ _ :=
    .spawn hello (.spawn hello (.spawn hello .start))
  have h₁ := h₀.reply 0 rfl (.ok ()) untouched ⟨0, le_rfl, rfl, rfl⟩
  have h₂ := h₁.reply 1 rfl (.ok ()) untouched ⟨0, le_rfl, rfl, rfl⟩
  have h₃ := h₂.reply 0 rfl () untouched ⟨0, le_rfl, rfl⟩
  have h₄ := h₃.reply 0 rfl .timeout { untouched with now := 1 } ⟨1, by decide, rfl⟩
  have h₅ := h₄.reply 0 rfl () opened ⟨1, by decide, rfl⟩
  have h₆ := h₅.reply 1 rfl () opened ⟨1, by decide, rfl⟩
  have h₇ := h₆.reply 1 rfl (.response helloResponse) { opened with now := 2 }
    ⟨2, by decide, rfl⟩
  have h₈ := h₇.reply 1 rfl () { opened with now := 2, breaker := opened.breaker.recordSuccess }
    ⟨2, by decide, rfl⟩
  have h₉ := h₈.reply 2 rfl (.ok ())
    { opened with now := 3, breaker := opened.breaker.recordSuccess } ⟨3, by decide, rfl, rfl⟩
  refine ⟨_, _, _, h₉, [_, _, _, _], _, [_, _, _, _], rfl, ⟨by decide, by decide⟩, _,
    .tail _ (.tail _ (.tail _ (.head _))), rfl, by decide +kernel, by decide +kernel, ?_⟩
  rintro ⟨⟩

end PrdApiWrapper
