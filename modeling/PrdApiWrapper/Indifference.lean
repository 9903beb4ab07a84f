import PrdApiWrapper.Pool

/-!
# Runs with replies that make no difference

What a run comes to is decided by its programs and by what lies outside of them: whose turn it is,
and what is replied. A `Resolution` says both after every log, so two runs that are decided by one
are the same run (`Run.determined`).

If the programs and the world are blind to a difference between replies, a run with other such
replies in its log is a run as well (`Run.blur`). Both together: where two resolutions differ only
in replies that make no difference, so do the runs they decide (`Run.indifferent`).
-/

namespace Interaction

variable {L : Type} {S : Effects} {W : Type} {α : Type} {sem : Semantics S W}
  {program : L → Prog S α} {w₀ w w' : W} {log log' : List (Entry S W)}
  {tasks tasks' : List (Task L S α)} {R : (e : S.Op) → S.Reply e → S.Reply e → Prop}

/-! ## Logs that are alike -/

/-- Two entries that are the same but for replies that are related by `R`. -/
inductive Entry.Alike (R : (e : S.Op) → S.Reply e → S.Reply e → Prop) :
    Entry S W → Entry S W → Prop where
  /-- the same -/
  | refl (en : Entry S W) : Entry.Alike R en en
  /-- with related replies -/
  | mk {t : ℕ} {w w' : W} {e : S.Op} {r r' : S.Reply e} :
    R e r r' → Entry.Alike R ⟨t, w, e, r, w'⟩ ⟨t, w, e, r', w'⟩

/-- What does not depend on the replies is seen of both logs. -/
theorem filterMap_alike {β : Type} {seen : Entry S W → Option β}
    (hseen : ∀ t w e r r' w', R e r r' →
      seen ⟨t, w, e, r', w'⟩ = seen ⟨t, w, e, r, w'⟩)
    (h : List.Forall₂ (Entry.Alike R) log log') : log'.filterMap seen = log.filterMap seen := by
  induction h with
  | nil => rfl
  | cons hen _ ih =>
    cases hen with
    | refl => rw [List.filterMap_cons, List.filterMap_cons, ih]
    | mk hr => rw [List.filterMap_cons, List.filterMap_cons, ih, hseen _ _ _ _ _ _ hr]

theorem map_alike {β : Type} {seen : Entry S W → β}
    (hseen : ∀ t w e r r' w', R e r r' →
      seen ⟨t, w, e, r', w'⟩ = seen ⟨t, w, e, r, w'⟩)
    (h : List.Forall₂ (Entry.Alike R) log log') : log'.map seen = log.map seen := by
  rw [← List.filterMap_eq_map]
  exact filterMap_alike (fun t w e r r' w' hr => congrArg some (hseen t w e r r' w' hr)) h

theorem forall₂_concat {β γ : Type} {P : β → γ → Prop} {bs : List β} {b : β} {cs' : List γ}
    (h : List.Forall₂ P (bs ++ [b]) cs') :
    ∃ cs c, cs' = cs ++ [c] ∧ List.Forall₂ P bs cs ∧ P b c := by
  induction bs generalizing cs' with
  | nil =>
    cases h with
    | cons hb hnil =>
      cases hnil
      exact ⟨[], _, rfl, .nil, hb⟩
  | cons b' bs ih =>
    cases h with
    | cons hb' hbs =>
      obtain ⟨cs, c, rfl, hcs, hb⟩ := ih hbs
      exact ⟨_ :: cs, c, rfl, .cons hb' hcs, hb⟩

/-- **Blurring a run**: where neither the programs nor the world notice the difference, other
replies make a run that comes to the same. -/
theorem Run.blur (hblind : ∀ l, (program l).Blind R)
    (hworld : ∀ w t e r r' w', R e r r' → sem.step w t e r w' → sem.step w t e r' w')
    (h : Run sem program w₀ log w tasks) (halike : List.Forall₂ (Entry.Alike R) log log') :
    Run sem program w₀ log' w tasks := by
  induction h generalizing log' with
  | start =>
    cases halike
    exact .start
  | spawn l _ ih => exact (ih halike).spawn l
  | @act log w w' tasks t l e k r hrun ht hstep ih =>
    obtain ⟨log₁, last, rfl, hlog, hlast⟩ := forall₂_concat halike
    cases hlast with
    | refl => exact (ih hlog).act ht hstep
    | @mk _ _ _ _ _ r' hr =>
      have hsame : k r = k r' := ((hrun.trace t _ ht).blind (hblind l)).1 r r' hr
      rw [hsame]
      exact (ih hlog).act ht (hworld w t e r r' w' hr hstep)

/-! ## What decides a run -/

/-- Whose turn it is after a log, and how a request is replied to there. -/
structure Resolution (S : Effects) (W : Type) where
  turn : List (Entry S W) → ℕ
  reply : List (Entry S W) → W → (e : S.Op) → S.Reply e
  /-- the world after the reply -/
  after : List (Entry S W) → W → (e : S.Op) → W

namespace Resolution

variable {d d' : Resolution S W}

/-- The entry that comes after a log, for a request made in this world. -/
def next (d : Resolution S W) (log : List (Entry S W)) (w : W) (e : S.Op) : Entry S W :=
  ⟨d.turn log, w, e, d.reply log w e, d.after log w e⟩

/-- Every entry of the log is the one that comes next. -/
def Decides (d : Resolution S W) (log : List (Entry S W)) : Prop :=
  ∀ earlier en later, log = earlier ++ en :: later → en = d.next earlier en.before en.op

theorem decides_nil (d : Resolution S W) : d.Decides [] := by
  intro earlier en later h
  simp at h

theorem decides_concat {en : Entry S W} :
    d.Decides (log ++ [en]) ↔ d.Decides log ∧ en = d.next log en.before en.op := by
  refine ⟨fun h => ⟨?_, h log en [] rfl⟩, ?_⟩
  · rintro earlier en' later rfl
    exact h earlier en' (later ++ [en]) (by simp)
  · rintro ⟨hlog, hen⟩ earlier en' later hsplit
    rcases snoc_split hsplit with ⟨rfl, rfl⟩ | ⟨later', hlater⟩
    · exact hen
    · exact hlog earlier en' later' hlater

/-- One more entry, the one that comes next. -/
theorem Decides.next (h : d.Decides log) (w : W) (e : S.Op) : d.Decides (log ++ [d.next log w e]) :=
  decides_concat.mpr ⟨h, rfl⟩

/-- What another resolution makes of the same requests. -/
theorem Decides.alike (hagree : ∀ log log' w e, List.Forall₂ (Entry.Alike R) log log' →
      Entry.Alike R (d.next log w e) (d'.next log' w e)) (h : d.Decides log) :
    ∃ log', List.Forall₂ (Entry.Alike R) log log' ∧ d'.Decides log' := by
  induction log using List.reverseRecOn with
  | nil => exact ⟨[], .nil, d'.decides_nil⟩
  | append_singleton log en ih =>
    obtain ⟨hlog, hen⟩ := decides_concat.mp h
    obtain ⟨log', halike, hdecides⟩ := ih hlog
    have hnext := hagree log log' en.before en.op halike
    rw [← hen] at hnext
    exact ⟨_, List.rel_append halike (.cons hnext .nil), hdecides.next en.before en.op⟩

end Resolution

/-! ## Two runs -/

/-- After the same log, two runs that are decided alike go on with the same entry. -/
theorem Run.same_next {d : Resolution S W} (h : Run sem program w₀ log w tasks)
    (h' : Run sem program w₀ log' w' tasks') (hd : d.Decides log) (hd' : d.Decides log')
    (hlabels : tasks'.map Task.label = tasks.map Task.label) {earlier : List (Entry S W)}
    {en en' : Entry S W} {later later' : List (Entry S W)} (hlog : log = earlier ++ en :: later)
    (hlog' : log' = earlier ++ en' :: later') : en' = en := by
  have hen := hd earlier en later hlog
  have hen' := hd' earlier en' later' hlog'
  have hturn : en'.task = en.task :=
    (congrArg Entry.task hen').trans (congrArg Entry.task hen).symm
  have hbefore : en'.before = en.before :=
    (h'.chained.split.2 earlier en' later' hlog').1.trans
      (h.chained.split.2 earlier en later hlog).1.symm
  obtain ⟨_, _, k, hrun, ht, task, htask, rfl⟩ := h.before earlier en later hlog
  obtain ⟨_, _, k', hrun', ht', task', htask', rfl⟩ := h'.before earlier en' later' hlog'
  have hlabel : task'.label = task.label := by
    have := congrArg (·[en.task]?) hlabels
    rw [hturn] at htask'
    simpa [htask, htask'] using this
  -- the program has seen the same and makes the same request
  have hsteps := hrun.trace en.task _ ht
  have hsteps' := hrun'.trace en'.task _ ht'
  simp only [hturn, hlabel] at hsteps'
  have hop : en'.op = en.op := (Prog.op.inj (hsteps'.unique hsteps)).1
  calc en' = d.next earlier en'.before en'.op := hen'
    _ = d.next earlier en.before en.op := by rw [hbefore, hop]
    _ = en := hen.symm

/-- As far as they are watched, two runs that are decided alike have the same log. -/
theorem Run.same_prefix {d : Resolution S W} (h : Run sem program w₀ log w tasks)
    (h' : Run sem program w₀ log' w' tasks') (hd : d.Decides log) (hd' : d.Decides log')
    (hlabels : tasks'.map Task.label = tasks.map Task.label)
    {earlier later earlier' later' : List (Entry S W)} (hlog : log = earlier ++ later)
    (hlog' : log' = earlier' ++ later') (hlength : earlier'.length = earlier.length) :
    earlier' = earlier := by
  induction earlier using List.reverseRecOn generalizing later earlier' later' with
  | nil => exact List.length_eq_zero_iff.mp hlength
  | append_singleton earlier en ih =>
    rcases List.eq_nil_or_concat' earlier' with rfl | ⟨earlier₁, en', rfl⟩
    · simp at hlength
    · rw [List.append_assoc] at hlog hlog'
      obtain rfl := ih hlog hlog' (by simpa using hlength)
      rw [h.same_next h' hd hd' hlabels hlog hlog']

/-- **What decides a run**: two runs of the same programs that are decided alike, and as long as
each other, are the same. -/
theorem Run.determined {d : Resolution S W} (h : Run sem program w₀ log w tasks)
    (h' : Run sem program w₀ log' w' tasks') (hd : d.Decides log) (hd' : d.Decides log')
    (hlabels : tasks'.map Task.label = tasks.map Task.label)
    (hlength : log'.length = log.length) : log' = log ∧ w' = w ∧ tasks' = tasks := by
  obtain rfl := h.same_prefix h' hd hd' hlabels (List.append_nil _).symm (List.append_nil _).symm
    hlength
  refine ⟨rfl, h'.chained.split.1.trans h.chained.split.1.symm, List.ext_getElem? fun t => ?_⟩
  have hlabel := congrArg (·[t]?) hlabels
  simp only [List.getElem?_map] at hlabel
  cases ht : tasks[t]? with
  | none => simpa [ht] using hlabel
  | some task =>
    rw [ht] at hlabel
    obtain ⟨task', ht', hsame⟩ := Option.map_eq_some_iff.mp hlabel
    have hrest : task'.rest = task.rest :=
      (hsame ▸ h'.trace t task' ht').unique (h.trace t task ht)
    rw [ht']
    obtain ⟨label, rest⟩ := task
    obtain ⟨label', rest'⟩ := task'
    cases hsame
    cases hrest
    rfl

/-- All of the programs have ended. -/
def Ended (tasks : List (Task L S α)) : Prop := ∀ task ∈ tasks, ∃ a, task.rest = .ret a

/-- Where all programs have ended, a run that is decided alike does not go on. -/
theorem Run.not_longer {d : Resolution S W} (h : Run sem program w₀ log w tasks)
    (h' : Run sem program w₀ log' w' tasks') (hd : d.Decides log) (hd' : d.Decides log')
    (hlabels : tasks'.map Task.label = tasks.map Task.label) (hended : Ended tasks) :
    log'.length ≤ log.length := by
  by_contra hlonger
  obtain ⟨earlier, later, hlength, hlog'⟩ : ∃ earlier later, earlier.length = log.length ∧
      log' = earlier ++ later :=
    ⟨log'.take log.length, log'.drop log.length, by simp; omega, (List.take_append_drop ..).symm⟩
  obtain rfl := h.same_prefix h' hd hd' hlabels (List.append_nil _).symm hlog' hlength
  cases later with
  | nil => simp [hlog'] at hlonger
  | cons en later =>
    obtain ⟨_, _, k, hrun, ht, task', htask', rfl⟩ := h'.before earlier en later hlog'
    have hlabel := congrArg (·[en.task]?) hlabels
    simp only [List.getElem?_map, htask', Option.map_some] at hlabel
    obtain ⟨task, htask, hsame⟩ := Option.map_eq_some_iff.mp hlabel.symm
    obtain ⟨a, ha⟩ := hended task (List.mem_of_getElem? htask)
    -- by now the program of the next entry has ended, but it makes a request
    have hsteps := hrun.trace en.task _ ht
    have hends := h.trace en.task task htask
    rw [hsame, ha] at hends
    cases hsteps.unique hends

/-- Two runs that are watched for as many steps, or both to the end. -/
def Comparable (log log' : List (Entry S W)) (tasks tasks' : List (Task L S α)) : Prop :=
  log'.length = log.length ∨ Ended tasks ∧ Ended tasks'

theorem Run.same_length {d : Resolution S W} (h : Run sem program w₀ log w tasks)
    (h' : Run sem program w₀ log' w' tasks') (hd : d.Decides log) (hd' : d.Decides log')
    (hlabels : tasks'.map Task.label = tasks.map Task.label)
    (hcomparable : Comparable log log' tasks tasks') : log'.length = log.length := by
  rcases hcomparable with hlength | ⟨hended, hended'⟩
  · exact hlength
  · exact Nat.le_antisymm (h.not_longer h' hd hd' hlabels hended)
      (h'.not_longer h hd' hd hlabels.symm hended')

/-- **Indifference**: where nobody notices the difference between related replies, the runs that two
resolutions decide differ at most in such replies, if the resolutions do. -/
theorem Run.indifferent {d d' : Resolution S W} (hblind : ∀ l, (program l).Blind R)
    (hworld : ∀ w t e r r' w', R e r r' → sem.step w t e r w' → sem.step w t e r' w')
    (hagree : ∀ log log' w e, List.Forall₂ (Entry.Alike R) log log' →
      Entry.Alike R (d.next log w e) (d'.next log' w e))
    (h : Run sem program w₀ log w tasks) (hd : d.Decides log) :
    (∃ log', log'.length = log.length ∧ Run sem program w₀ log' w tasks ∧ d'.Decides log') ∧
    ∀ log' w' tasks', Run sem program w₀ log' w' tasks' → d'.Decides log' →
      tasks'.map Task.label = tasks.map Task.label → Comparable log log' tasks tasks' →
      List.Forall₂ (Entry.Alike R) log log' ∧ w' = w ∧ tasks' = tasks := by
  obtain ⟨log₁, halike, hd₁⟩ := hd.alike hagree
  have h₁ := h.blur hblind hworld halike
  refine ⟨⟨log₁, halike.length_eq.symm, h₁, hd₁⟩,
    fun log' w' tasks' h' hd' hlabels hcomparable => ?_⟩
  rw [Comparable, halike.length_eq] at hcomparable
  obtain ⟨rfl, rfl, rfl⟩ :=
    h₁.determined h' hd₁ hd' hlabels (h₁.same_length h' hd₁ hd' hlabels hcomparable)
  exact ⟨halike, rfl, rfl⟩

end Interaction
