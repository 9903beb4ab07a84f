import PrdApiWrapper.World
import PrdApiWrapper.Rules

/-!
# The row of a key

`find_by_hash` notes when a key was last used: it updates the row of the key, in the request's
session, and so its transaction holds the row's lock until the session commits or rolls back. That
is after the completion, or after the whole background task of a job. A second request with the
same key waits there for as long as the first one waits for the provider.

What it takes for no request to wait so is `Orderly`, a condition on single steps.
-/

namespace PrdApiWrapper

open Interaction

/-! ## Transactions and locks -/

/-- What a request asks for, with the update of a key's row on its own. -/
inductive LockOp where
  /-- a request of the service; `find_by_hash` is its SELECT -/
  | run (op : Op)
  /-- `UPDATE api_key SET last_used_at = ... WHERE id = ...` -/
  | touch (id : String)

/-- The interface of a process with a database that locks rows. -/
abbrev Locking : Effects where
  Op := LockOp
  Reply
    | .run op => Service.Reply op
    | .touch _ => Except String Unit

/-- Make one request. -/
def LockOp.request (op : LockOp) : Prog Locking (Locking.Reply op) := @Prog.perform Locking op

/-- `find_by_hash` and all other requests, statement by statement. -/
def statements : (op : Op) → Prog Locking (Service.Reply op)
  | .findByHash keyHash => do
    let found ← (LockOp.run (.findByHash keyHash)).request
    match found with
    | .ok (some caller) => do
      let touched ← (LockOp.touch caller.id).request
      match touched with
      | .ok () => pure (.ok (some caller))
      | .error name => pure (.error name)
    | .ok none => pure (.ok none)
    | .error name => pure (.error name)
  | op => (LockOp.run op).request

/-- A whole request, statement by statement. -/
def handleIn (env : Environment) (settings : Settings) (request : Route × Option String) :
    Prog Locking Unit :=
  (handle env settings request.1 request.2).interp statements

/-- The process and the locks: which request's transaction holds the lock of a key's row. -/
structure Locked where
  world : World
  holder : String → Option ℕ

/-- The process at the start, with no transaction open. -/
def Locked.start (settings : Settings) (now : ℚ) : Locked where
  world := .start settings now
  holder _ := none

/-- The end of a transaction. -/
def Locked.release (s : Locked) (t : ℕ) : Locked :=
  { s with holder := fun id => if s.holder id = some t then none else s.holder id }

/-- An update takes the lock of its row and waits while another transaction holds it; a commit and
a rollback give all locks back. A statement may fail at any time. -/
def rowLocks : Semantics Locking Locked where
  step s t op r s' := match op with
    | .touch id => match r with
      | .ok () => (s.holder id = none ∨ s.holder id = some t) ∧
        s' = { s with holder := Function.update s.holder id (some t) }
      | .error _ => s' = s
    | .run .commit => match r with
      | .ok () => ∃ w, world.step s.world t .commit (.ok ()) w ∧
        s' = { s.release t with world := w }
      -- a rollback follows
      | .error name => ∃ w, world.step s.world t .commit (.error name) w ∧
        s' = { s with world := w }
    | .run .rollback => ∃ w, world.step s.world t .rollback r w ∧
      s' = { s.release t with world := w }
    | .run op => ∃ w, world.step s.world t op r w ∧ s' = { s with world := w }

/-! ## Waiting -/

/-- A request, and what is left of it. -/
abbrev InFlight := Task (Route × Option String) Locking Unit

/-- The request waits for the answer of the provider. -/
def AwaitsProvider (task : InFlight) : Prop := ∃ k, task.rest = .op (.run .answer) k

/-- The request has found its key and is at the update of this row. -/
def AtRow (id : String) (task : InFlight) : Prop := ∃ k, task.rest = .op (.touch id) k

/-- The request waits for a lock that request `t` holds. -/
def BlockedBy (s : Locked) (t : ℕ) (task : InFlight) : Prop :=
  ∃ id, AtRow id task ∧ s.holder id = some t

/-- The request will not wait for the provider any more. -/
def PastProvider (task : InFlight) : Prop := task.rest.Only (· ≠ LockOp.run .answer)

/-- A blocked request cannot go on. -/
theorem not_touched_of_held {s s' : Locked} {t t' : ℕ} {id : String} (hheld : s.holder id = some t)
    (hne : t' ≠ t) : ¬ rowLocks.step s t' (.touch id) (.ok ()) s' := by
  rintro ⟨hfree | hown, -⟩
  · rw [hfree] at hheld
    cases hheld
  · rw [hown] at hheld
    exact hne (Option.some.inj hheld)

/-- **The condition on a step**: no request finds a row that is locked by another request which may
still wait for the provider, and no request which may still wait for the provider locks a row at
which another request is. -/
structure Orderly (tasks : List InFlight) (en : Entry Locking Locked) : Prop where
  finds : ∀ keyHash caller, en.event = ⟨.run (.findByHash keyHash), .ok (some caller)⟩ →
    ∀ t task, en.before.holder caller.id = some t → t ≠ en.task → tasks[t]? = some task →
    PastProvider task
  locks : ∀ id, en.event = ⟨.touch id, .ok ()⟩ →
    ∀ t task, t ≠ en.task → tasks[t]? = some task → AtRow id task →
    ∀ task', tasks[en.task]? = some task' → PastProvider task'

/-! ## Whoever is at a row has just found it -/

/-- The guard at an update: the request before it found the row. -/
def foundBefore (trace : List (Event Locking)) : LockOp → Prop
  | .touch id => ∃ keyHash caller, caller.id = id ∧
      trace.getLast? = some ⟨.run (.findByHash keyHash), .ok (some caller)⟩
  | .run _ => True

theorem statements_foundBefore (op : Op) (trace : List (Event Locking)) :
    (statements op).wp (Protocol.guarded foundBefore) (fun _ _ => True) trace := by
  cases op with
  | findByHash keyHash =>
    refine ⟨trivial, ?_⟩
    rintro (name | (none | caller)) _ rfl
    · trivial
    · trivial
    · refine ⟨⟨keyHash, caller, rfl, List.getLast?_concat⟩, ?_⟩
      rintro (name | ⟨⟩) _ rfl
      · trivial
      · trivial
  | _ => exact ⟨trivial, fun _ _ _ => trivial⟩

theorem handleIn_foundBefore (env : Environment) (settings : Settings)
    (request : Route × Option String) :
    (handleIn env settings request).wp (Protocol.guarded foundBefore) (fun _ _ => True) [] := by
  have hop : ∀ (op : Op) (q : Unit) (trace : List (Event Locking)),
      (Protocol.permits (S := Service) fun _ => True).allows q op → True →
      (statements op).wp (Protocol.guarded foundBefore)
        (fun r _ => ∃ q', (Protocol.permits (S := Service) fun _ => True).next q op r q' ∧ True)
        trace := by
    intro op q trace _ _
    exact Prog.wp_mono (fun _ _ _ => ⟨(), trivial, trivial⟩) (statements_foundBefore op trace)
  have hhandle : (handle env settings request.1 request.2).wp
      (Protocol.permits (S := Service) fun _ => True) (fun _ _ => True) () :=
    Prog.wp_true (fun _ _ => trivial) _ _
  exact Prog.wp_mono (fun _ _ _ => trivial) (Prog.wp_interp hop hhandle trivial)

section

variable {env : Environment} {settings : Settings} {now : ℚ} {log : List (Entry Locking Locked)}
  {s : Locked} {tasks : List InFlight}

/-- A request at a row has just found it. -/
theorem found_of_atRow
    (hrun : Run rowLocks (handleIn env settings) (.start settings now) log s tasks) {t : ℕ}
    {task : InFlight} (ht : tasks[t]? = some task) {id : String} (hrow : AtRow id task) :
    ∃ keyHash caller, caller.id = id ∧ (ownTrace t log).getLast? =
      some ⟨.run (.findByHash keyHash), .ok (some caller)⟩ := by
  obtain ⟨k, hrest⟩ := hrow
  have hsteps := hrun.trace t task ht
  rw [hrest] at hsteps
  exact Prog.wp_guard (handleIn_foundBefore env settings task.label) hsteps

/-! ## Orderly runs -/

/-- Whoever is at a locked row waits for a request that will not wait for the provider any more. -/
structure Unhindered (s : Locked) (tasks : List InFlight) : Prop where
  started : ∀ id t, s.holder id = some t → t < tasks.length
  past : ∀ t task id, tasks[t]? = some task → AtRow id task → ∀ t' task', t' ≠ t →
    s.holder id = some t' → tasks[t']? = some task' → PastProvider task'

/-- A row is locked by whom it was, or by the request that has just updated it. -/
theorem holder_of_step {s' : Locked} {t : ℕ} {op : LockOp} {r : Locking.Reply op}
    (hstep : rowLocks.step s t op r s') {id : String} {t' : ℕ} (hholder : s'.holder id = some t') :
    s.holder id = some t' ∨
      t' = t ∧ (⟨op, r⟩ : Event Locking) = ⟨.touch id, .ok ()⟩ := by
  have hrelease : (s.release t).holder id = some t' → s.holder id = some t' := by
    intro h
    simp only [Locked.release] at h
    split at h
    · cases h
    · exact h
  cases op with
  | touch id' =>
    rcases r with name | ⟨⟩
    · obtain rfl := hstep
      exact .inl hholder
    · obtain ⟨-, rfl⟩ := hstep
      have hupdate : Function.update s.holder id' (some t) id = some t' := hholder
      by_cases hid : id = id'
      · subst hid
        rw [Function.update_self] at hupdate
        exact .inr ⟨(Option.some.inj hupdate).symm, rfl⟩
      · rw [Function.update_of_ne hid] at hupdate
        exact .inl hupdate
  | run op =>
    cases op with
    | commit =>
      rcases r with name | ⟨⟩
      · obtain ⟨w, -, rfl⟩ := hstep
        exact .inl hholder
      · obtain ⟨w, -, rfl⟩ := hstep
        exact .inl (hrelease hholder)
    | rollback =>
      obtain ⟨w, -, rfl⟩ := hstep
      exact .inl (hrelease hholder)
    | _ =>
      obtain ⟨w, -, rfl⟩ := hstep
      exact .inl hholder

/-- A request that has just started is not at a row. -/
theorem Unhindered.spawn (h : Unhindered s tasks) (request : Route × Option String) :
    Unhindered s (tasks ++ [⟨request, handleIn env settings request⟩]) := by
  refine ⟨fun id t hholder => ?_, ?_⟩
  · have hlt := h.started id t hholder
    simp only [List.length_append, List.length_singleton]
    omega
  · intro t task id ht hrow t' task' hne hholder ht'
    have hlt' := h.started id t' hholder
    rw [List.getElem?_append_left hlt'] at ht'
    by_cases hlt : t < tasks.length
    · rw [List.getElem?_append_left hlt] at ht
      exact h.past t task id ht hrow t' task' hne hholder ht'
    · obtain ⟨k, hrest⟩ := hrow
      obtain rfl : t = tasks.length := eq_length_of_concat ht hlt
      rw [List.getElem?_concat_length] at ht
      obtain rfl := Option.some.inj ht
      have hguard := handleIn_foundBefore env settings request
      rw [show handleIn env settings request = .op (.touch id) k from hrest] at hguard
      obtain ⟨_, _, _, hlast⟩ := hguard.1
      cases hlast

/-- An orderly step leaves nobody hindered. -/
theorem Unhindered.act (h : Unhindered s tasks)
    (hrun : Run rowLocks (handleIn env settings) (.start settings now) log s tasks) {t : ℕ}
    {request : Route × Option String} {op : LockOp} {k : Locking.Reply op → Prog Locking Unit}
    (ht : tasks[t]? = some ⟨request, .op op k⟩) {r : Locking.Reply op} {s' : Locked}
    (hstep : rowLocks.step s t op r s') (horderly : Orderly tasks ⟨t, s, op, r, s'⟩) :
    Unhindered s' (tasks.set t ⟨request, k r⟩) := by
  have hlt : t < tasks.length := (List.getElem?_eq_some_iff.mp ht).1
  have hrun' := hrun.reply t ht r s' hstep
  refine ⟨fun id t' hholder => ?_, ?_⟩
  · rw [List.length_set]
    rcases holder_of_step hstep hholder with hbefore | ⟨rfl, -⟩
    · exact h.started id t' hbefore
    · exact hlt
  · intro u task id hu hrow t' task' hne hholder ht'
    have hevent := holder_of_step hstep hholder
    by_cases hself : t = u
    -- the request has just found the row: nobody else locked it in this step
    · subst hself
      obtain ⟨keyHash, caller, rfl, hlast⟩ := found_of_atRow hrun' hu hrow
      rw [ownTrace_snoc_self log ⟨t, s, op, r, s'⟩, List.getLast?_concat] at hlast
      have hfound := Option.some.inj hlast
      rw [List.getElem?_set_ne hne.symm] at ht'
      rcases hevent with hbefore | ⟨hsame, -⟩
      · exact horderly.finds keyHash caller hfound t' task' hbefore hne ht'
      · exact absurd hsame hne
    · rw [List.getElem?_set_ne hself] at hu
      by_cases hholds : t = t'
      -- the holder has gone on, or has just got the lock
      · subst hholds
        rw [List.getElem?_set_self hlt] at ht'
        obtain rfl := Option.some.inj ht'
        have hpast : PastProvider ⟨request, .op op k⟩ := by
          rcases hevent with hbefore | ⟨-, htouched⟩
          · exact h.past u task id hu hrow t _ hne hbefore ht
          · exact horderly.locks id htouched u task (Ne.symm hself) hu hrow _ ht
        exact hpast.2 r
      · rw [List.getElem?_set_ne hholds] at ht'
        rcases hevent with hbefore | ⟨hsame, -⟩
        · exact h.past u task id hu hrow t' task' hne hbefore ht'
        · exact absurd hsame.symm hholds

theorem runWhere_unhindered
    (hrun : RunWhere Orderly rowLocks (handleIn env settings) (.start settings now) log s tasks) :
    Unhindered s tasks := by
  induction hrun with
  | start =>
    refine ⟨?_, ?_⟩
    · rintro id t ⟨⟩
    · rintro t task id ⟨⟩
  | spawn request hrun ih => exact ih.spawn request
  | act hrun ht hstep horderly ih => exact ih.act hrun.run ht hstep horderly

/-- **Callers that do not wait**: in every run of any number of requests, in every order, whose
steps are orderly, no request is blocked by one that waits for the provider. -/
theorem no_caller_waits_for_provider
    (hrun : RunWhere Orderly rowLocks (handleIn env settings) (.start settings now) log s tasks)
    (t t' : ℕ) {task task' : InFlight} (ht : tasks[t]? = some task) (hawaits : AwaitsProvider task)
    (ht' : tasks[t']? = some task') : ¬ BlockedBy s t task' := by
  rintro ⟨id, hrow, hholder⟩
  obtain ⟨k, hrest⟩ := hawaits
  have hne : t ≠ t' := by
    rintro rfl
    obtain rfl := Option.some.inj (ht.symm.trans ht')
    obtain ⟨k', hrest'⟩ := hrow
    rw [hrest] at hrest'
    cases hrest'
  have hpast := (runWhere_unhindered hrun).past t' task' id ht' hrow t task hne hholder ht
  rw [PastProvider, hrest] at hpast
  exact hpast.1 rfl

end

/-- A completion, asked for with this key. -/
def completionWith (key : String) : Route × Option String := (.complete helloRequest, some key)

/-- Steps that neither find nor lock a row. -/
theorem orderly_of_other {tasks : List InFlight} {en : Entry Locking Locked}
    (hfinds : ∀ keyHash, en.op ≠ .run (.findByHash keyHash)) (hlocks : ∀ id, en.op ≠ .touch id) :
    Orderly tasks en where
  finds keyHash _ h := absurd (congrArg Event.op h) (hfinds keyHash)
  locks id h := absurd (congrArg Event.op h) (hlocks id)

unseal RetryPolicy.loop in
/-- A completion on its own comes to wait for the provider, with the row of its key locked. -/
theorem completion_awaits : ∃ log s k,
    RunWhere Orderly rowLocks (handleIn .sample .defaults) (.start .defaults 0) log s
      [⟨completionWith "key", .op (.run .answer) k⟩] ∧
    s.holder = Function.update (fun _ => none) "k" (some 0) ∧ s.world.jobs "j" = none := by
  let locked : String → Option ℕ := Function.update (fun _ => none) "k" (some 0)
  let checked : World := { dayOne with limiter := (dayOne.limiter.check "k" 0 0).2 }
  have h₀ : RunWhere Orderly rowLocks (handleIn .sample .defaults) (.start .defaults 0) _ _ _ :=
    .spawn (completionWith "key") .start
  have h₁ := h₀.reply 0 rfl (.ok (some ⟨"k", "k"⟩)) ⟨dayOne, fun _ => none⟩
    ⟨dayOne, ⟨0, le_rfl, rfl⟩, rfl⟩ ⟨fun _ _ _ _ _ hholder => (by cases hholder), nofun⟩
  have h₂ := h₁.reply 0 rfl (.ok ()) ⟨dayOne, locked⟩ ⟨.inl rfl, rfl⟩ ⟨nofun, by
    -- nobody else is there
    rintro id - t task hne ht
    cases t with
    | zero => exact absurd rfl hne
    | succ t => cases ht⟩
  have h₃ := h₂.reply 0 rfl (.ok ⟨true, 10, 9, 1, 0⟩) ⟨checked, locked⟩
    ⟨checked, ⟨0, le_rfl, 0, le_rfl, le_rfl, (dayOne_check "k").symm, rfl⟩, rfl⟩
    (orderly_of_other nofun nofun)
  have h₄ := h₃.reply 0 rfl (0 : ℚ) ⟨checked, locked⟩ ⟨checked, ⟨0, le_rfl, rfl, rfl⟩, rfl⟩
    (orderly_of_other nofun nofun)
  have h₅ := h₄.reply 0 rfl (0 : ℚ) ⟨checked, locked⟩ ⟨checked, ⟨0, le_rfl, rfl, rfl⟩, rfl⟩
    (orderly_of_other nofun nofun)
  have h₆ := h₅.reply 0 rfl (.ok ()) ⟨checked, locked⟩ ⟨checked, ⟨0, le_rfl, rfl, rfl⟩, rfl⟩
    (orderly_of_other nofun nofun)
  have h₇ := h₆.reply 0 rfl () ⟨checked, locked⟩ ⟨checked, ⟨0, le_rfl, rfl⟩, rfl⟩
    (orderly_of_other nofun nofun)
  exact ⟨_, _, _, h₇, rfl, rfl⟩

/-- A poll with this key. -/
def pollWith (key : String) : Route × Option String := (.show "j", some key)

/-- While one caller waits for the provider, another one polls a job, in vain, and asks for a
completion: this is held up by the poll, which has the row of their key until its rollback, and by
nobody who waits for the provider. -/
theorem no_caller_waits_other_key : ∃ log s task poll task',
    RunWhere Orderly rowLocks (handleIn .sample .defaults) (.start .defaults 0) log s
      [task, poll, task'] ∧
    AwaitsProvider task ∧ BlockedBy s 1 task' ∧ ¬ BlockedBy s 0 task' := by
  obtain ⟨log, ⟨w, holder⟩, k, hrun, rfl, hjobs⟩ := completion_awaits
  let locked : String → Option ℕ := Function.update (fun _ => none) "k" (some 0)
  let both : String → Option ℕ := Function.update locked "k'" (some 1)
  have h₁ := (hrun.spawn (pollWith "key'")).reply 1 rfl (.ok (some ⟨"k'", "k'"⟩)) ⟨w, locked⟩
    ⟨w, ⟨w.now, le_rfl, rfl⟩, rfl⟩
    { finds := by
        rintro keyHash caller ⟨⟩ t task ⟨⟩
      locks := nofun }
  have h₂ := h₁.reply 1 rfl (.ok ()) ⟨w, both⟩ ⟨.inl rfl, rfl⟩ ⟨nofun, by
    -- the other request is at no row
    rintro id - t task hne ht ⟨k', hrow⟩
    match t with
    | 0 =>
      obtain rfl := Option.some.inj ht
      cases hrow
    | 1 => exact absurd rfl hne
    | t + 2 => cases ht⟩
  have hnone : ∀ view, (.ok none : Except String (Option JobView)) = .ok view →
      view = w.jobs.get "j" "k'" := by
    rintro _ ⟨⟩
    rw [JobTable.get, show w.jobs "j" = none from hjobs]
  have h₃ := h₂.reply 1 rfl (.ok none) ⟨w, both⟩ ⟨w, ⟨w.now, le_rfl, hnone, rfl⟩, rfl⟩
    (orderly_of_other nofun nofun)
  have h₄ := (h₃.spawn (completionWith "key'")).reply 2 rfl (.ok (some ⟨"k'", "k'"⟩)) ⟨w, both⟩
    ⟨w, ⟨w.now, le_rfl, rfl⟩, rfl⟩
    { finds := by
        rintro keyHash caller ⟨⟩ t task hholder hne ht
        obtain rfl : 1 = t := Option.some.inj hholder
        obtain rfl := Option.some.inj ht
        -- the poll has a rollback and its answer left
        exact ⟨nofun, fun _ => ⟨nofun, fun _ => trivial⟩⟩
      locks := nofun }
  have hawaits : AwaitsProvider ⟨completionWith "key", .op (.run .answer) k⟩ := ⟨k, rfl⟩
  exact ⟨_, _, _, _, _, h₄, hawaits, ⟨"k'", ⟨_, rfl⟩, rfl⟩,
    no_caller_waits_for_provider h₄ 0 2 rfl hawaits rfl⟩

/-- Two completions with one key: while the first waits for the provider, the second is blocked at
the row of the key, which the first has locked. -/
theorem same_key_waits_for_provider : ∃ log s task task',
    Run rowLocks (handleIn .sample .defaults) (.start .defaults 0) log s [task, task'] ∧
    task.label.2 = task'.label.2 ∧ AwaitsProvider task ∧ BlockedBy s 0 task' ∧
    ∀ s', ¬ rowLocks.step s 1 (.touch "k") (.ok ()) s' := by
  obtain ⟨log, ⟨w, holder⟩, k, hrun, rfl, -⟩ := completion_awaits
  have h₁ := (hrun.run.spawn (completionWith "key")).reply 1 rfl (.ok (some ⟨"k", "k"⟩))
    ⟨w, Function.update (fun _ => none) "k" (some 0)⟩ ⟨w, ⟨w.now, le_rfl, rfl⟩, rfl⟩
  refine ⟨_, _, _, _, h₁, rfl, ⟨_, rfl⟩, ⟨"k", ⟨_, rfl⟩, rfl⟩, fun s' => ?_⟩
  exact not_touched_of_held (t := 0) rfl (by decide)

end PrdApiWrapper
