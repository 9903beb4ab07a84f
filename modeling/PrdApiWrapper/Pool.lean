import PrdApiWrapper.Async
import PrdApiWrapper.Selection
import Mathlib.Data.List.Induction
import Mathlib.Algebra.Order.BigOperators.Ring.Finset

/-!
# Many programs over one world

A pool holds programs in flight over a shared world. At every moment a new program may be started,
and any program waiting for a reply may be given one: the world says which replies it can give and
what becomes of it. The order in which programs are served is arbitrary, and nothing obliges a
program to be served again, so among the runs of a pool are all those in which some of its
programs were stopped for good at some request.

Requests are the only points at which programs interleave, and each is served in one step. The log
records every reply with the world before and after it.

The rules: `Run.ghost` (an invariant relating the world to a protocol state kept for each program,
shown step by step), `Run.trace` (the part of the log that belongs to one program is a trace of
that program), `Run.chained` (the log is a walk of the world) and `Run.without` (programs that
nobody notices can be left out).
-/

namespace Interaction

/-- A world: what the reply to a request of the program numbered `t` can be, and the world after
it. -/
structure Semantics (S : Effects) (W : Type) where
  /-- `step w t e r w'`: in world `w` the request `e` of program `t` can be answered with `r`,
  leaving `w'` -/
  step : W → ℕ → (e : S.Op) → S.Reply e → W → Prop

/-- One reply of a run: who got it, and the world around it. -/
structure Entry (S : Effects) (W : Type) : Type where
  /-- the number of the program -/
  task : ℕ
  /-- the world before -/
  before : W
  /-- the request -/
  op : S.Op
  /-- its reply -/
  reply : S.Reply op
  /-- the world after -/
  after : W

/-- The request and reply of an entry. -/
def Entry.event {S : Effects} {W : Type} (en : Entry S W) : Event S := ⟨en.op, en.reply⟩

/-- A program in flight: what it was started for, and what is left of it. -/
structure Task (L : Type) (S : Effects) (α : Type) : Type where
  /-- what the program was started for -/
  label : L
  /-- what is left of it -/
  rest : Prog S α

variable {L : Type} {S : Effects} {W : Type} {Q : Type} {α : Type}

/-- A program that has ended. -/
def Task.Ended (task : Task L S α) : Prop := ∃ a, task.rest = .ret a

/-- `Run sem program w₀ log w tasks`: from `w₀` and no programs, the replies in `log` lead to the
world `w` and the programs `tasks`, each started as `program` of its label. -/
inductive Run (sem : Semantics S W) (program : L → Prog S α) (w₀ : W) :
    List (Entry S W) → W → List (Task L S α) → Prop where
  /-- nothing has happened -/
  | start : Run sem program w₀ [] w₀ []
  /-- a program is started -/
  | spawn {log : List (Entry S W)} {w : W} {tasks : List (Task L S α)} (l : L) :
      Run sem program w₀ log w tasks → Run sem program w₀ log w (tasks ++ [⟨l, program l⟩])
  /-- a program gets a reply -/
  | act {log : List (Entry S W)} {w w' : W} {tasks : List (Task L S α)} {t : ℕ} {l : L}
      {e : S.Op} {k : S.Reply e → Prog S α} {r : S.Reply e} :
      Run sem program w₀ log w tasks → tasks[t]? = some ⟨l, .op e k⟩ → sem.step w t e r w' →
      Run sem program w₀ (log ++ [⟨t, w, e, r, w'⟩]) w' (tasks.set t ⟨l, k r⟩)

/-- `Run.act` with the program and the reply given. -/
theorem Run.reply {sem : Semantics S W} {program : L → Prog S α} {w₀ w : W}
    {log : List (Entry S W)} {tasks : List (Task L S α)} (h : Run sem program w₀ log w tasks)
    (t : ℕ) {l : L} {e : S.Op} {k : S.Reply e → Prog S α} (ht : tasks[t]? = some ⟨l, .op e k⟩)
    (r : S.Reply e) (w' : W) (hstep : sem.step w t e r w') :
    Run sem program w₀ (log ++ [⟨t, w, e, r, w'⟩]) w' (tasks.set t ⟨l, k r⟩) :=
  .act h ht hstep

/-- Whose request was answered, and how. -/
def Entry.served (en : Entry S W) : ℕ × Event S := (en.task, en.event)

/-- `RunWhere P ...`: a run whose every step is in `P`, given the programs before it. -/
inductive RunWhere (P : List (Task L S α) → Entry S W → Prop) (sem : Semantics S W)
    (program : L → Prog S α) (w₀ : W) : List (Entry S W) → W → List (Task L S α) → Prop where
  /-- nothing has happened -/
  | start : RunWhere P sem program w₀ [] w₀ []
  /-- a program is started -/
  | spawn {log : List (Entry S W)} {w : W} {tasks : List (Task L S α)} (l : L) :
      RunWhere P sem program w₀ log w tasks →
      RunWhere P sem program w₀ log w (tasks ++ [⟨l, program l⟩])
  /-- a program gets a reply -/
  | act {log : List (Entry S W)} {w w' : W} {tasks : List (Task L S α)} {t : ℕ} {l : L}
      {e : S.Op} {k : S.Reply e → Prog S α} {r : S.Reply e} :
      RunWhere P sem program w₀ log w tasks → tasks[t]? = some ⟨l, .op e k⟩ →
      sem.step w t e r w' → P tasks ⟨t, w, e, r, w'⟩ →
      RunWhere P sem program w₀ (log ++ [⟨t, w, e, r, w'⟩]) w' (tasks.set t ⟨l, k r⟩)

theorem RunWhere.run {P : List (Task L S α) → Entry S W → Prop} {sem : Semantics S W}
    {program : L → Prog S α} {w₀ w : W} {log : List (Entry S W)} {tasks : List (Task L S α)}
    (h : RunWhere P sem program w₀ log w tasks) : Run sem program w₀ log w tasks := by
  induction h with
  | start => exact .start
  | spawn l _ ih => exact .spawn l ih
  | act _ ht hstep _ ih => exact .act ih ht hstep

/-- `RunWhere.act` with the program and the reply given. -/
theorem RunWhere.reply {P : List (Task L S α) → Entry S W → Prop} {sem : Semantics S W}
    {program : L → Prog S α} {w₀ w : W} {log : List (Entry S W)} {tasks : List (Task L S α)}
    (h : RunWhere P sem program w₀ log w tasks) (t : ℕ) {l : L} {e : S.Op}
    {k : S.Reply e → Prog S α} (ht : tasks[t]? = some ⟨l, .op e k⟩) (r : S.Reply e) (w' : W)
    (hstep : sem.step w t e r w') (hP : P tasks ⟨t, w, e, r, w'⟩) :
    RunWhere P sem program w₀ (log ++ [⟨t, w, e, r, w'⟩]) w' (tasks.set t ⟨l, k r⟩) :=
  .act h ht hstep hP

/-- A world that answers one program as `trace` records. -/
def Semantics.serves (sem : Semantics S W) (t : ℕ) : W → List (Event S) → W → Prop
  | w, [], w' => w' = w
  | w, ev :: trace, w' => ∃ between, sem.step w t ev.op ev.reply between ∧
      sem.serves t between trace w'

/-- The program started last may be served alone for a while. -/
theorem Run.serve_last {sem : Semantics S W} {program : L → Prog S α} {w₀ w' : W}
    {tasks : List (Task L S α)} {l : L} {p p' : Prog S α} {trace : List (Event S)}
    (hs : Prog.Steps p trace p') :
    ∀ {w : W} {log : List (Entry S W)}, Run sem program w₀ log w (tasks ++ [⟨l, p⟩]) →
      sem.serves tasks.length w trace w' →
      ∃ log', Run sem program w₀ log' w' (tasks ++ [⟨l, p'⟩]) := by
  induction hs with
  | refl p =>
    intro w log h hserves
    obtain rfl := hserves
    exact ⟨log, h⟩
  | @cons e k r trace p' _ ih =>
    intro w log h hserves
    obtain ⟨between, hstep, hserves⟩ := hserves
    have hnext := h.reply tasks.length List.getElem?_concat_length r between hstep
    rw [List.set_append_right _ _ (Nat.le_refl _), Nat.sub_self] at hnext
    exact ih hnext hserves

/-! ## The log of a run -/

/-- An index of a list with one more element, not an index of the list, is that element's. -/
theorem eq_length_of_concat {β : Type} {l : List β} {b b' : β} {t : ℕ}
    (ht : (l ++ [b])[t]? = some b') (hlt : ¬ t < l.length) : t = l.length := by
  have := (List.getElem?_eq_some_iff.mp ht).1
  simp only [List.length_append, List.length_singleton] at this
  omega

/-- The log is a walk of the world from `w` to `w'`. -/
inductive Chained (sem : Semantics S W) : W → List (Entry S W) → W → Prop where
  /-- no step -/
  | nil (w : W) : Chained sem w [] w
  /-- a walk and one step more -/
  | snoc {w w' : W} {log : List (Entry S W)} {en : Entry S W} :
      Chained sem w log w' → en.before = w' → sem.step w' en.task en.op en.reply en.after →
      Chained sem w (log ++ [en]) en.after

theorem Run.chained {sem : Semantics S W} {program : L → Prog S α} {w₀ w : W}
    {log : List (Entry S W)} {tasks : List (Task L S α)}
    (h : Run sem program w₀ log w tasks) : Chained sem w₀ log w := by
  induction h with
  | start => exact .nil _
  | spawn l _ ih => exact ih
  | @act log w w' tasks t l e k r _ _ hstep ih =>
    exact @Chained.snoc _ _ _ _ _ _ ⟨t, w, e, r, w'⟩ ih rfl hstep

/-- The world after a log that began in `w₀`. -/
def worldAfter (w₀ : W) (log : List (Entry S W)) : W := (log.getLast?.map Entry.after).getD w₀

@[simp] theorem worldAfter_nil (w₀ : W) : worldAfter w₀ ([] : List (Entry S W)) = w₀ := rfl

@[simp] theorem worldAfter_snoc (w₀ : W) (log : List (Entry S W)) (en : Entry S W) :
    worldAfter w₀ (log ++ [en]) = en.after := by
  simp [worldAfter]

/-- Where a list with one more element can be split: before its last element, or earlier. -/
theorem snoc_split {β : Type} {bs earlier later : List β} {b b' : β}
    (h : bs ++ [b] = earlier ++ b' :: later) :
    (earlier = bs ∧ b' = b) ∨ ∃ later', bs = earlier ++ b' :: later' := by
  rcases List.eq_nil_or_concat' later with rfl | ⟨later', last, rfl⟩
  · obtain ⟨rfl, hlast⟩ := List.append_inj' h rfl
    exact .inl ⟨rfl, (List.cons.inj hlast).1.symm⟩
  · rw [← List.cons_append, ← List.append_assoc] at h
    exact .inr ⟨later', (List.append_inj' h rfl).1⟩

/-- Every prefix of a walk is a walk, and the next step starts where it ends. -/
theorem Chained.split {sem : Semantics S W} {w₀ w : W} {log : List (Entry S W)}
    (h : Chained sem w₀ log w) :
    w = worldAfter w₀ log ∧ ∀ earlier en later, log = earlier ++ en :: later →
      en.before = worldAfter w₀ earlier ∧ sem.step en.before en.task en.op en.reply en.after := by
  induction h with
  | nil => exact ⟨rfl, fun earlier en later hsplit => by cases earlier <;> cases hsplit⟩
  | @snoc w log en hlog hbefore hstep ih =>
    obtain ⟨rfl, ih⟩ := ih
    refine ⟨(worldAfter_snoc ..).symm, fun earlier en' later hsplit => ?_⟩
    rcases snoc_split hsplit with ⟨rfl, rfl⟩ | ⟨later', hlog⟩
    · exact ⟨hbefore, hbefore ▸ hstep⟩
    · exact ih earlier en' later' hlog

/-- What every step of a walk keeps holds ever after it came to hold. -/
theorem Chained.ever_after {sem : Semantics S W} {w₀ w : W} {log : List (Entry S W)}
    (h : Chained sem w₀ log w) (P : W → Prop) (hkeeps : ∀ en ∈ log, P en.before → P en.after) :
    ∀ en ∈ log, P en.after → P w := by
  induction h with
  | nil => simp
  | @snoc w log last hlog hbefore _ ih =>
    intro en hen hP
    rcases List.mem_append.mp hen with hen | hen
    · refine hkeeps last (List.mem_append_right _ List.mem_cons_self) ?_
      rw [hbefore]
      exact ih (fun en' hen' => hkeeps en' (List.mem_append_left _ hen')) en hen hP
    · obtain rfl := List.mem_singleton.mp hen
      exact hP

/-- A walk is a walk to each of its moments and a walk from there. -/
theorem Chained.unappend {sem : Semantics S W} {w₀ : W} {past since : List (Entry S W)} :
    ∀ {w : W}, Chained sem w₀ (past ++ since) w →
      Chained sem w₀ past (worldAfter w₀ past) ∧ Chained sem (worldAfter w₀ past) since w := by
  induction since using List.reverseRecOn with
  | nil =>
    intro w h
    rw [List.append_nil] at h
    obtain rfl := h.split.1
    exact ⟨h, .nil _⟩
  | append_singleton since en ih =>
    intro w h
    rw [← List.append_assoc] at h
    generalize hlog : past ++ since ++ [en] = log at h
    cases h with
    | nil => simp at hlog
    | snoc hchained hbefore hstep =>
      obtain ⟨rfl, heq⟩ := List.append_inj' hlog rfl
      obtain rfl := List.singleton_inj.mp heq
      exact ⟨(ih hchained).1, .snoc (ih hchained).2 hbefore hstep⟩

/-- What holds at first and is kept by every step holds all along. -/
theorem Chained.holds {sem : Semantics S W} {w₀ w : W} {log : List (Entry S W)}
    (h : Chained sem w₀ log w) (P : W → Prop) (hP : P w₀)
    (hkeeps : ∀ en ∈ log, sem.step en.before en.task en.op en.reply en.after → P en.before →
      P en.after) : P w ∧ ∀ en ∈ log, P en.before ∧ P en.after := by
  induction h with
  | nil => exact ⟨hP, nofun⟩
  | @snoc w log en _ hbefore hstep ih =>
    subst hbefore
    obtain ⟨hw, hall⟩ := ih fun en' hen' => hkeeps en' (List.mem_append_left _ hen')
    have hafter := hkeeps en List.mem_concat_self hstep hw
    refine ⟨hafter, fun en' hen' => ?_⟩
    rcases List.mem_append.mp hen' with hen' | hen'
    · exact hall en' hen'
    · obtain rfl := List.mem_singleton.mp hen'
      exact ⟨hw, hafter⟩

/-- What did not hold at first and holds in the end came to hold in some step. -/
theorem Chained.came_about {sem : Semantics S W} {w₀ w : W} {log : List (Entry S W)}
    (h : Chained sem w₀ log w) (P : W → Prop) (hnot : ¬ P w₀) (hP : P w) :
    ∃ earlier en later, log = earlier ++ en :: later ∧ ¬ P en.before ∧ P en.after := by
  induction h with
  | nil => exact absurd hP hnot
  | @snoc w log en _ hbefore _ ih =>
    by_cases hw : P w
    · obtain ⟨earlier, en', later, rfl, hstep⟩ := ih hw
      exact ⟨earlier, en', later ++ [en], by simp, hstep⟩
    · exact ⟨log, en, [], rfl, by rwa [hbefore], hP⟩

/-- The entries of a walk are in the order of what no step lessens. -/
theorem Chained.ordered {T : Type} [Preorder T] (time : W → T) {sem : Semantics S W} {w₀ w : W}
    {log : List (Entry S W)} (h : Chained sem w₀ log w)
    (hstep : ∀ {en : Entry S W}, sem.step en.before en.task en.op en.reply en.after →
      time en.before ≤ time en.after) :
    (log.map fun en => time en.after).Pairwise (· ≤ ·) ∧ ∀ en ∈ log, time en.after ≤ time w := by
  induction h with
  | nil => simp
  | @snoc w log en _ hbefore hen ih =>
    subst hbefore
    have hall : ∀ en' ∈ log, time en'.after ≤ time en.after := fun en' hen' =>
      (ih.2 en' hen').trans (hstep hen)
    refine ⟨?_, fun en' hen' => ?_⟩
    · rw [List.map_append, List.pairwise_append]
      refine ⟨ih.1, List.pairwise_singleton _ _, ?_⟩
      intro earlier hearlier later hlater
      obtain ⟨en', hen', rfl⟩ := List.mem_map.mp hearlier
      obtain rfl := List.mem_singleton.mp hlater
      exact hall en' hen'
    · rcases List.mem_append.mp hen' with hen' | hen'
      · exact hall en' hen'
      · obtain rfl := List.mem_singleton.mp hen'
        exact le_rfl

/-- The requests and replies of program `t` in a log. -/
def ownTrace (t : ℕ) (log : List (Entry S W)) : List (Event S) :=
  (log.filter fun en => en.task = t).map Entry.event

@[simp] theorem ownTrace_nil (t : ℕ) : ownTrace t ([] : List (Entry S W)) = [] := rfl

theorem ownTrace_append (t : ℕ) (log log' : List (Entry S W)) :
    ownTrace t (log ++ log') = ownTrace t log ++ ownTrace t log' := by
  rw [ownTrace, List.filter_append, List.map_append]
  rfl

theorem ownTrace_snoc_self (log : List (Entry S W)) (en : Entry S W) :
    ownTrace en.task (log ++ [en]) = ownTrace en.task log ++ [en.event] := by
  simp [ownTrace]

theorem ownTrace_snoc_ne {t : ℕ} (log : List (Entry S W)) (en : Entry S W) (h : en.task ≠ t) :
    ownTrace t (log ++ [en]) = ownTrace t log := by
  simp [ownTrace, h]

/-- Entries name programs that were started. -/
theorem Run.task_lt {sem : Semantics S W} {program : L → Prog S α} {w₀ w : W}
    {log : List (Entry S W)} {tasks : List (Task L S α)}
    (h : Run sem program w₀ log w tasks) : ∀ en ∈ log, en.task < tasks.length := by
  induction h with
  | start => simp
  | spawn l _ ih =>
    intro en hen
    have := ih en hen
    simp only [List.length_append, List.length_singleton]
    omega
  | act _ ht _ ih =>
    intro en hen
    rw [List.length_set]
    rcases List.mem_append.mp hen with hen | hen
    · exact ih en hen
    · obtain rfl := List.mem_singleton.mp hen
      exact (List.getElem?_eq_some_iff.mp ht).1

/-- **The log of a run, program by program**: the part of the log that belongs to a program is a
trace of the program it was started as, and leaves what is left of it. -/
theorem Run.trace {sem : Semantics S W} {program : L → Prog S α} {w₀ w : W}
    {log : List (Entry S W)} {tasks : List (Task L S α)}
    (h : Run sem program w₀ log w tasks) :
    ∀ t task, tasks[t]? = some task →
      Prog.Steps (program task.label) (ownTrace t log) task.rest := by
  induction h with
  | start => intro t task ht; simp at ht
  | @spawn log w tasks l hrun ih =>
    intro t task ht
    by_cases hlt : t < tasks.length
    · rw [List.getElem?_append_left hlt] at ht
      exact ih t task ht
    · -- the program just started has no entries yet
      obtain rfl : t = tasks.length := eq_length_of_concat ht hlt
      rw [List.getElem?_concat_length] at ht
      obtain rfl := Option.some.inj ht
      have hown : ownTrace tasks.length log = [] := by
        rw [ownTrace, List.filter_eq_nil_iff.mpr]
        · rfl
        · intro en hen
          have := hrun.task_lt en hen
          simp only [decide_eq_true_eq]
          omega
      rw [hown]
      exact .refl _
  | @act log w w' tasks t l e k r _ ht hstep ih =>
    intro t' task ht'
    by_cases heq : t = t'
    · subst heq
      rw [List.getElem?_set_self (List.getElem?_eq_some_iff.mp ht).1] at ht'
      obtain rfl := Option.some.inj ht'
      rw [ownTrace_snoc_self log ⟨t, w, e, r, w'⟩]
      exact (ih t _ ht).snoc r
    · rw [List.getElem?_set_ne heq] at ht'
      rw [ownTrace_snoc_ne log ⟨t, w, e, r, w'⟩ heq]
      exact ih t' task ht'

theorem mem_ownTrace {t : ℕ} {log : List (Entry S W)} {ev : Event S} :
    ev ∈ ownTrace t log ↔ ∃ en ∈ log, en.task = t ∧ en.event = ev := by
  simp [ownTrace, and_assoc]

/-- What is counted in a list is counted part by part. -/
theorem countP_eq_sum {β : Type} (part : β → ℕ) (p : β → Bool) {l : List β} {parts : Finset ℕ}
    (h : ∀ a ∈ l, part a ∈ parts) :
    l.countP p = ∑ n ∈ parts, (l.filter fun a => part a = n).countP p := by
  induction l with
  | nil => simp
  | cons a l ih =>
    have hone : ∀ n, ((a :: l).filter fun a => part a = n).countP p =
        (l.filter fun a => part a = n).countP p +
          if part a = n then (if p a then 1 else 0) else 0 := by
      intro n
      by_cases hn : part a = n
      · rw [List.filter_cons_of_pos (by simpa using hn), List.countP_cons, if_pos hn]
      · rw [List.filter_cons_of_neg (by simpa using hn), if_neg hn, Nat.add_zero]
    rw [List.countP_cons, ih fun a' ha' => h a' (List.mem_cons_of_mem _ ha')]
    simp only [hone, Finset.sum_add_distrib]
    rw [Finset.sum_ite_eq parts (part a), if_pos (h a List.mem_cons_self)]

/-- What no program exceeds, all together do not exceed. -/
theorem countP_le_of_each {p q : Entry S W → Bool} {M : ℤ} {log : List (Entry S W)}
    (h : ∀ t, ((log.filter fun en => en.task = t).countP p : ℤ) ≤
      M * (log.filter fun en => en.task = t).countP q) :
    (log.countP p : ℤ) ≤ M * log.countP q := by
  have htasks : ∀ en ∈ log, en.task ∈ (log.map Entry.task).toFinset := fun en hen =>
    List.mem_toFinset.mpr (List.mem_map_of_mem hen)
  rw [countP_eq_sum Entry.task p htasks, countP_eq_sum Entry.task q htasks, Nat.cast_sum,
    Nat.cast_sum, Finset.mul_sum]
  exact Finset.sum_le_sum fun t _ => h t

/-- The events of a log are those of its programs, one program after the other. -/
theorem events_perm {log : List (Entry S W)} {tasks : List ℕ} (hnodup : tasks.Nodup)
    (h : ∀ en ∈ log, en.task ∈ tasks) :
    (log.map Entry.event).Perm (tasks.flatMap fun t => ownTrace t log) := by
  induction log using List.reverseRecOn with
  | nil => simp
  | append_singleton log en ih =>
    have hsnoc : ∀ t, ownTrace t (log ++ [en]) =
        ownTrace t log ++ if en.task = t then [en.event] else [] := by
      intro t
      by_cases ht : en.task = t
      · subst ht
        rw [ownTrace_snoc_self, if_pos rfl]
      · rw [ownTrace_snoc_ne log en ht, if_neg ht, List.append_nil]
    have hlast : (tasks.flatMap fun t => if en.task = t then [en.event] else []) = [en.event] := by
      obtain ⟨before, after, rfl⟩ := List.append_of_mem (h en List.mem_concat_self)
      have hothers : ∀ t, t ∈ before ∨ t ∈ after → en.task ≠ t := by
        rintro t ht rfl
        rw [List.nodup_middle] at hnodup
        exact (List.nodup_cons.mp hnodup).1 (List.mem_append.mpr ht)
      rw [List.flatMap_append, List.flatMap_cons, if_pos rfl,
        List.flatMap_eq_nil_iff.mpr fun t ht => if_neg (hothers t (.inl ht)),
        List.flatMap_eq_nil_iff.mpr fun t ht => if_neg (hothers t (.inr ht))]
      rfl
    simp only [hsnoc, List.map_append]
    refine (List.Perm.append_right _ (ih fun en' hen' => h en' (List.mem_append_left _ hen'))).trans
      (List.Perm.trans ?_ (List.flatMap_append_perm tasks _ _))
    rw [hlast]
    exact .refl _

/-- A program keeps its label through every step. -/
theorem label_set {tasks : List (Task L S α)} {t : ℕ} {l : L} {p : Prog S α}
    (ht : tasks[t]? = some ⟨l, p⟩) (p' : Prog S α) {t' : ℕ} {task : Task L S α}
    (ht' : tasks[t']? = some task) :
    ∃ task', (tasks.set t ⟨l, p'⟩)[t']? = some task' ∧ task'.label = task.label := by
  by_cases heq : t = t'
  · subst heq
    obtain rfl := Option.some.inj (ht.symm.trans ht')
    exact ⟨_, List.getElem?_set_self (List.getElem?_eq_some_iff.mp ht).1, rfl⟩
  · exact ⟨task, by rw [List.getElem?_set_ne heq, ht'], rfl⟩

/-- Before every entry of the log the run was a run, in which the program of that entry was waiting
for its reply. -/
theorem Run.before {sem : Semantics S W} {program : L → Prog S α} {w₀ w : W}
    {log : List (Entry S W)} {tasks : List (Task L S α)}
    (h : Run sem program w₀ log w tasks) :
    ∀ earlier en later, log = earlier ++ en :: later → ∃ tasks' l k,
      Run sem program w₀ earlier en.before tasks' ∧ tasks'[en.task]? = some ⟨l, .op en.op k⟩ ∧
        ∃ task, tasks[en.task]? = some task ∧ task.label = l := by
  induction h with
  | start => intro earlier en later hsplit; cases earlier <;> cases hsplit
  | spawn l _ ih =>
    intro earlier en later hsplit
    obtain ⟨tasks', l', k, hrun, ht, task, htask, hlabel⟩ := ih earlier en later hsplit
    refine ⟨tasks', l', k, hrun, ht, task, ?_, hlabel⟩
    rw [List.getElem?_append_left (List.getElem?_eq_some_iff.mp htask).1, htask]
  | @act log w w' tasks t l e k r hrun ht hstep ih =>
    intro earlier en later hsplit
    rcases snoc_split hsplit with ⟨rfl, rfl⟩ | ⟨later', hlog⟩
    · obtain ⟨task, htask, hlabel⟩ := label_set ht (k r) ht
      exact ⟨tasks, l, k, hrun, ht, task, htask, hlabel⟩
    · obtain ⟨tasks', l', k', hrun', ht', task, htask, hlabel⟩ := ih earlier en later' hlog
      obtain ⟨task', htask', hlabel'⟩ := label_set ht (k r) htask
      exact ⟨tasks', l', k', hrun', ht', task', htask', hlabel'.trans hlabel⟩

/-- A guard kept by every program holds of every request of a run, after the part of the log that
belongs to its program. -/
theorem Run.guard {sem : Semantics S W} {program : L → Prog S α} {w₀ w : W}
    {log : List (Entry S W)} {tasks : List (Task L S α)}
    {allows : L → List (Event S) → S.Op → Prop} {Post : L → α → List (Event S) → Prop}
    (hprogram : ∀ l, (program l).wp (Protocol.guarded (allows l)) (Post l) [])
    (h : Run sem program w₀ log w tasks) {earlier : List (Entry S W)} {en : Entry S W}
    {later : List (Entry S W)} (hsplit : log = earlier ++ en :: later) :
    ∃ task, tasks[en.task]? = some task ∧ allows task.label (ownTrace en.task earlier) en.op := by
  obtain ⟨tasks', l, k, hrun, ht, task, htask, rfl⟩ := h.before earlier en later hsplit
  exact ⟨task, htask, Prog.wp_guard (hprogram task.label) (hrun.trace en.task _ ht)⟩

/-- The same where only replies that `admits` admits occurred. -/
theorem Run.watch {sem : Semantics S W} {program : L → Prog S α} {w₀ w : W}
    {log : List (Entry S W)} {tasks : List (Task L S α)} {admits : Event S → Prop}
    {allows : L → List (Event S) → S.Op → Prop} {Post : L → α → List (Event S) → Prop}
    (hprogram : ∀ l, (program l).wp (Protocol.watched admits (allows l)) (Post l) [])
    (h : Run sem program w₀ log w tasks) (hadmits : ∀ en ∈ log, admits en.event)
    {earlier : List (Entry S W)} {en : Entry S W} {later : List (Entry S W)}
    (hsplit : log = earlier ++ en :: later) :
    ∃ task, tasks[en.task]? = some task ∧ allows task.label (ownTrace en.task earlier) en.op := by
  obtain ⟨tasks', l, k, hrun, ht, task, htask, rfl⟩ := h.before earlier en later hsplit
  refine ⟨task, htask, Prog.wp_watch (hprogram task.label) (hrun.trace en.task _ ht) ?_⟩
  intro ev hev
  obtain ⟨en', hen', _, rfl⟩ := mem_ownTrace.mp hev
  exact hadmits en' (by rw [hsplit]; exact List.mem_append_left _ hen')

/-- Read program by program: each keeps to its discipline at every point of its own trace, and meets
its postcondition when it has ended. -/
theorem Run.follows {sem : Semantics S W} {program : L → Prog S α} {w₀ w : W}
    {log : List (Entry S W)} {tasks : List (Task L S α)} {admits : Event S → Prop}
    {allows : L → List (Event S) → S.Op → Prop} {Post : L → α → List (Event S) → Prop}
    (hprogram : ∀ l, (program l).wp (Protocol.watched admits (allows l)) (Post l) [])
    (h : Run sem program w₀ log w tasks) (hadmits : ∀ en ∈ log, admits en.event) {t : ℕ}
    {task : Task L S α} (ht : tasks[t]? = some task) :
    (∀ earlier ev later, ownTrace t log = earlier ++ ev :: later →
      allows task.label earlier ev.op) ∧
    ∀ a, task.rest = .ret a → Post task.label a (ownTrace t log) := by
  have hown : ∀ ev ∈ ownTrace t log, admits ev := by
    intro ev hev
    obtain ⟨en, hen, -, rfl⟩ := mem_ownTrace.mp hev
    exact hadmits en hen
  have hsteps := h.trace t task ht
  refine ⟨fun earlier ev later hsplit => ?_, fun a ha => ?_⟩
  · rw [hsplit] at hsteps hown
    obtain ⟨p, hto, hfrom⟩ := hsteps.split
    cases hfrom with
    | cons _ =>
      exact Prog.wp_watch (hprogram task.label) hto fun ev' hev' =>
        hown ev' (List.mem_append_left _ hev')
  · rw [ha] at hsteps
    exact Prog.wp_steps hsteps (hprogram task.label)
      (by simpa using Protocol.plays_watched (allows task.label) (ownTrace t log) [] hown)

/-! ## Invariants over all runs -/

/-- A protocol state kept for each program. -/
abbrev Phases (Q : Type) := ℕ → Q

/-- What holds of the entries of a log that belong to programs with label `l`. -/
def EachEntry (K : L → Entry S W → Prop) (log : List (Entry S W))
    (tasks : List (Task L S α)) : Prop :=
  ∀ en ∈ log, ∃ task, tasks[en.task]? = some task ∧ K task.label en

theorem EachEntry.spawn {K : L → Entry S W → Prop} {log : List (Entry S W)}
    {tasks : List (Task L S α)} (h : EachEntry K log tasks) (task : Task L S α) :
    EachEntry K log (tasks ++ [task]) := by
  intro en hen
  obtain ⟨task', ht', hK⟩ := h en hen
  refine ⟨task', ?_, hK⟩
  rw [List.getElem?_append_left (List.getElem?_eq_some_iff.mp ht').1]
  exact ht'

theorem EachEntry.act {K : L → Entry S W → Prop} {log : List (Entry S W)}
    {tasks : List (Task L S α)} (h : EachEntry K log tasks) {l : L} {p p' : Prog S α}
    (en : Entry S W) (ht : tasks[en.task]? = some ⟨l, p⟩) (hen : K l en) :
    EachEntry K (log ++ [en]) (tasks.set en.task ⟨l, p'⟩) := by
  intro en' hen'
  rcases List.mem_append.mp hen' with hen' | hen'
  · obtain ⟨task, htask, hK⟩ := h en' hen'
    obtain ⟨task', htask', hlabel⟩ := label_set ht p' htask
    exact ⟨task', htask', by rw [hlabel]; exact hK⟩
  · obtain rfl := List.mem_singleton.mp hen'
    exact ⟨_, List.getElem?_set_self (List.getElem?_eq_some_iff.mp ht).1, hen⟩

/-- **The invariant rule.** Keep for each program a state of its protocol, starting at `q₀`. Let
`J` relate the world to all these states, and let every step of a program that its protocol allows
give a next state of that protocol for which `J` holds again and `K` holds of the step. Then in
every run `J` holds at the end, every program still meets its obligation, and `K` holds of every
entry of the log. -/
theorem Run.ghost {sem : Semantics S W} {program : L → Prog S α} {w₀ : W}
    (A : L → Protocol S Q) (Post : L → α → Q → Prop) (q₀ : Q)
    (J : W → Phases Q → Prop) (K : L → Entry S W → Prop)
    (hinit : J w₀ fun _ => q₀)
    (hprogram : ∀ l, (program l).wp (A l) (Post l) q₀)
    (hstep : ∀ l w φ t e r w', J w φ → (A l).allows (φ t) e → sem.step w t e r w' →
      K l ⟨t, w, e, r, w'⟩ ∧
        ∃ q, (A l).next (φ t) e r q ∧ J w' (Function.update φ t q))
    {log : List (Entry S W)} {w : W} {tasks : List (Task L S α)}
    (h : Run sem program w₀ log w tasks) :
    ∃ φ : Phases Q, J w φ ∧
      (∀ (t : ℕ) (task : Task L S α), tasks[t]? = some task →
        task.rest.wp (A task.label) (Post task.label) (φ t)) ∧
      (∀ t, tasks.length ≤ t → φ t = q₀) ∧ EachEntry K log tasks := by
  induction h with
  | start => exact ⟨fun _ => q₀, hinit, by simp, fun _ _ => rfl, by simp [EachEntry]⟩
  | @spawn log w tasks l _ ih =>
    obtain ⟨φ, hJ, hwp, hout, hK⟩ := ih
    refine ⟨φ, hJ, ?_, ?_, hK.spawn _⟩
    · intro t task ht
      by_cases hlt : t < tasks.length
      · rw [List.getElem?_append_left hlt] at ht
        exact hwp t task ht
      -- the new program is in the state all start in
      · obtain rfl : t = tasks.length := eq_length_of_concat ht hlt
        rw [List.getElem?_concat_length] at ht
        obtain rfl := Option.some.inj ht
        rw [hout _ (Nat.le_refl _)]
        exact hprogram l
    · intro t ht
      simp only [List.length_append, List.length_singleton] at ht
      exact hout t (by omega)
  | @act log w w' tasks t l e k r _ ht hs ih =>
    obtain ⟨φ, hJ, hwp, hout, hK⟩ := ih
    obtain ⟨hallow, hnext⟩ := hwp t _ ht
    obtain ⟨hKe, q, hq, hJ'⟩ := hstep l w φ t e r w' hJ hallow hs
    have hlt : t < tasks.length := (List.getElem?_eq_some_iff.mp ht).1
    refine ⟨Function.update φ t q, hJ', ?_, ?_, hK.act ⟨t, w, e, r, w'⟩ ht hKe⟩
    · intro t' task ht'
      by_cases heq : t = t'
      · subst heq
        rw [List.getElem?_set_self hlt] at ht'
        obtain rfl := Option.some.inj ht'
        rw [Function.update_self]
        exact hnext r q hq
      -- all other programs are where they were
      · rw [List.getElem?_set_ne heq] at ht'
        rw [Function.update_of_ne (Ne.symm heq)]
        exact hwp t' task ht'
    · intro t' ht'
      rw [List.length_set] at ht'
      rw [Function.update_of_ne (by omega)]
      exact hout t' ht'

/-! ## Runs without some of the programs -/

/-- **The deletion rule.** Let `Alike` relate the worlds with and without some programs, so that no
step of theirs is noticed, and every step of the others can be taken in the other world as well,
with the same reply and what `seen` shows of the world. Then there is a run without those programs,
in which all others get the same replies in the same order. -/
theorem Run.without {sem : Semantics S W} {program : L → Prog S α} {w₀ v₀ w : W}
    {log : List (Entry S W)} {tasks : List (Task L S α)} {X : Type} (keep : ℕ → Bool)
    (Alike : W → W → Prop) (seen : W → X) (hinit : Alike w₀ v₀)
    (hquiet : ∀ en ∈ log, keep en.task = false → ∀ v, Alike en.before v → Alike en.after v)
    (hmirror : ∀ en ∈ log, keep en.task = true → ∀ t v, Alike en.before v →
      ∃ v', sem.step v t en.op en.reply v' ∧ Alike en.after v' ∧ seen v' = seen en.after)
    (h : Run sem program w₀ log w tasks) :
    ∃ log' v, Run sem program v₀ log' v (pick keep tasks) ∧ Alike w v ∧
      (log'.map fun en => (en.task, en.event, seen en.after)) =
        (log.filter fun en => keep en.task).map
          fun en => (rank keep en.task, en.event, seen en.after) := by
  induction h with
  | start => exact ⟨[], v₀, .start, hinit, rfl⟩
  | @spawn log w tasks l _ ih =>
    obtain ⟨log', v, hrun, halike, hlog⟩ := ih hquiet hmirror
    rw [pick_concat]
    split
    · exact ⟨log', v, hrun.spawn l, halike, hlog⟩
    · exact ⟨log', v, hrun, halike, hlog⟩
  | @act log w w' tasks t l e k r _ ht hstep ih =>
    obtain ⟨log', v, hrun, halike, hlog⟩ :=
      ih (fun en hen => hquiet en (List.mem_append_left _ hen))
        (fun en hen => hmirror en (List.mem_append_left _ hen))
    have hlast : (⟨t, w, e, r, w'⟩ : Entry S W) ∈ log ++ [⟨t, w, e, r, w'⟩] :=
      List.mem_append_right _ List.mem_cons_self
    cases hkeep : keep t with
    | true =>
      obtain ⟨v', hstep', halike', hseen⟩ := hmirror _ hlast hkeep (rank keep t) v halike
      have ht' : (pick keep tasks)[rank keep t]? = some ⟨l, .op e k⟩ := by
        rw [pick_getElem? hkeep, ht]
      refine ⟨log' ++ [⟨rank keep t, v, e, r, v'⟩], v', ?_, halike', ?_⟩
      · rw [pick_set hkeep]
        exact hrun.act ht' hstep'
      · rw [List.filter_append, List.map_append, List.map_append, hlog]
        simp [hkeep, Entry.event, hseen]
    | false =>
      refine ⟨log', v, ?_, hquiet _ hlast hkeep v halike, ?_⟩
      · rw [pick_set_of_not hkeep]
        exact hrun
      · rw [List.filter_append, List.map_append, hlog]
        simp [hkeep]

end Interaction
