import PrdApiWrapper.Pool

/-!
# Programs of bounded cost

A `weight` puts a price on every request. `Prog.Within` says that a program stays within a budget
however it is answered; it composes along `bind`, so the budget of a program is put together from
those of its parts. Where what is spent depends on what was answered, `Protocol.budget` is the same
obligation as a weakest precondition.

For a pool, what the log cost is at most what the programs in it were allowed (`Run.within`),
however they were interleaved; and where the world never keeps a request waiting, a pool that starts
no more programs can be brought to its end (`Run.drain`).
-/

namespace Interaction

variable {S : Effects} {L W α β ε : Type} {weight : S.Op → ℕ}

/-! ## One program -/

namespace Prog

/-- Along every sequence of replies, the requests of the program cost at most `n`. -/
def Within (weight : S.Op → ℕ) : Prog S α → ℕ → Prop
  | .ret _, _ => True
  | .op e k, n => weight e ≤ n ∧ ∀ r, (k r).Within weight (n - weight e)

/-- A larger budget does as well. -/
theorem Within.mono {p : Prog S α} {m n : ℕ} (hp : p.Within weight m) (hmn : m ≤ n) :
    p.Within weight n := by
  induction p generalizing m n with
  | ret a => trivial
  | op e k ih =>
    obtain ⟨he, hk⟩ := hp
    exact ⟨he.trans hmn, fun r => ih r (hk r) (Nat.sub_le_sub_right hmn _)⟩

theorem within_perform (e : S.Op) : (perform e).Within weight (weight e) :=
  ⟨le_rfl, fun _ => trivial⟩

/-- Budgets add up. -/
theorem Within.bind {p : Prog S α} {f : α → Prog S β} {m n : ℕ} (hp : p.Within weight m)
    (hf : ∀ a, (f a).Within weight n) : (p >>= f).Within weight (m + n) := by
  induction p generalizing m with
  | ret a => exact (hf a).mono (Nat.le_add_left n m)
  | op e k ih =>
    obtain ⟨he, hk⟩ := hp
    refine ⟨he.trans (Nat.le_add_right m n), fun r => ?_⟩
    rw [Nat.sub_add_comm he]
    exact ih r (hk r)

theorem Within.map {p : Prog S α} (f : α → β) {n : ℕ} (hp : p.Within weight n) :
    (f <$> p).Within weight n := by
  induction p generalizing n with
  | ret a => trivial
  | op e k ih => exact ⟨hp.1, fun r => ih r (hp.2 r)⟩

/-- What a trace cost was within the budget. -/
theorem Steps.within {p p' : Prog S α} {trace : List (Event S)} (hs : Steps p trace p') {n : ℕ}
    (hp : p.Within weight n) : (trace.map fun ev => weight ev.op).sum ≤ n := by
  induction hs generalizing n with
  | refl p => exact Nat.zero_le n
  | cons _ ih =>
    obtain ⟨he, hk⟩ := hp
    rw [List.map_cons, List.sum_cons]
    exact Nat.add_le_of_le_sub' he (ih (hk _))

end Prog

/-- The protocol that pays for requests out of what is left, and allows what it can pay for. -/
def Protocol.budget (weight : S.Op → ℕ) : Protocol S ℕ where
  allows n e := weight e ≤ n
  next n e _ n' := n' = n - weight e

namespace Prog

/-- The obligation to stay within a budget, as a protocol. -/
theorem within_iff_wp {p : Prog S α} {n : ℕ} :
    p.Within weight n ↔ p.wp (Protocol.budget weight) (fun _ _ => True) n := by
  induction p generalizing n with
  | ret a => rfl
  | op e k ih =>
    refine and_congr_right fun _ => forall_congr' fun r => (ih r).trans ?_
    exact ⟨fun h n' hn' => hn' ▸ h, fun h => h _ rfl⟩

/-- What a program need not spend is left when it ends. -/
theorem Within.wp {p : Prog S α} {m n q : ℕ} (hp : p.Within weight m) (hq : m + n ≤ q) :
    p.wp (Protocol.budget weight) (fun _ q' => n ≤ q') q := by
  induction p generalizing m q with
  | ret a => exact (Nat.le_add_left n m).trans hq
  | op e k ih =>
    obtain ⟨he, hk⟩ := hp
    refine ⟨he.trans ((Nat.le_add_right m n).trans hq), ?_⟩
    rintro r _ rfl
    refine ih r (hk r) ?_
    rw [← Nat.sub_add_comm he]
    exact Nat.sub_le_sub_right hq _

end Prog

/-! ## Programs that raise -/

namespace Async

theorem within_of_awp {x : Async S ε α} {n : ℕ}
    (h : awp (Protocol.budget weight) x (fun _ _ => True) (fun _ _ => True) n) :
    x.run.Within weight n :=
  Prog.within_iff_wp.mpr (Prog.wp_mono (fun _ _ _ => trivial) h)

theorem awp_of_within {x : Async S ε α} {m n q : ℕ} (hx : x.run.Within weight m)
    (hq : m + n ≤ q) :
    awp (Protocol.budget weight) x (fun _ q' => n ≤ q') (fun _ q' => n ≤ q') q :=
  (awp_outcome x (fun _ q' => n ≤ q') q).mpr (hx.wp hq)

theorem within_bind {x : Async S ε α} {f : α → Async S ε β} {m n : ℕ}
    (hx : x.run.Within weight m) (hf : ∀ a, (f a).run.Within weight n) :
    (x >>= f).run.Within weight (m + n) := by
  rw [ExceptT.run_bind]
  apply hx.bind
  rintro (exc | a)
  · trivial
  · exact hf a

theorem within_map {x : Async S ε α} (f : α → β) {n : ℕ} (hx : x.run.Within weight n) :
    (f <$> x).run.Within weight n := by
  rw [← LawfulMonad.bind_pure_comp]
  exact within_bind (n := 0) hx fun _ => trivial

/-- The handler comes on top. -/
theorem within_tryCatch {x : Async S ε α} {h : ε → Async S ε α} {m n : ℕ}
    (hx : x.run.Within weight m) (hh : ∀ exc, (h exc).run.Within weight n) :
    (tryCatch x h).run.Within weight (m + n) := by
  rw [ExceptT.run_tryCatch]
  apply hx.bind
  rintro (exc | a)
  · exact hh exc
  · trivial

end Async

/-! ## A pool of them -/

variable {sem : Semantics S W} {program : L → Prog S α} {w₀ w : W} {log : List (Entry S W)}
  {tasks : List (Task L S α)}

/-- Every program has a budget left that it stays within. -/
def Funded (weight : S.Op → ℕ) (tasks : List (Task L S α)) (left : List ℕ) : Prop :=
  List.Forall₂ (fun task n => task.rest.Within weight n) tasks left

/-- A reply is paid for out of the budget of the program that gets it. -/
theorem Funded.pay {left : List ℕ} (h : Funded weight tasks left) {t : ℕ} {l : L} {e : S.Op}
    {k : S.Reply e → Prog S α} (ht : tasks[t]? = some ⟨l, .op e k⟩) (r : S.Reply e) :
    ∃ left', Funded weight (tasks.set t ⟨l, k r⟩) left' ∧ weight e + left'.sum = left.sum := by
  induction h generalizing t with
  | nil => simp at ht
  | @cons task n tasks left htask hrest ih =>
    cases t with
    | zero =>
      obtain rfl := Option.some.inj ht
      obtain ⟨he, hk⟩ := htask
      refine ⟨(n - weight e) :: left, .cons (hk r) hrest, ?_⟩
      rw [List.sum_cons, List.sum_cons, ← Nat.add_assoc, Nat.add_sub_cancel' he]
    | succ t =>
      obtain ⟨left', hleft', hsum⟩ := ih ht
      refine ⟨n :: left', .cons htask hleft', ?_⟩
      rw [List.sum_cons, List.sum_cons, ← hsum, Nat.add_left_comm]

/-- A program keeps its label. -/
theorem map_label_set {t : ℕ} {l : L} {p : Prog S α} (ht : tasks[t]? = some ⟨l, p⟩)
    (p' : Prog S α) : (tasks.set t ⟨l, p'⟩).map Task.label = tasks.map Task.label := by
  rw [List.map_set]
  refine List.ext_getElem? fun t' => ?_
  by_cases heq : t = t'
  · subst heq
    rw [List.getElem?_set_self (by simpa using (List.getElem?_eq_some_iff.mp ht).1),
      List.getElem?_map, ht, Option.map_some]
  · rw [List.getElem?_set_ne heq]

/-- **What a run costs** is at most what its programs were allowed, whatever the interleaving. -/
theorem Run.within {budget : L → ℕ} (hprogram : ∀ l, (program l).Within weight (budget l))
    (h : Run sem program w₀ log w tasks) :
    (log.map fun en => weight en.op).sum ≤ ((tasks.map Task.label).map budget).sum := by
  suffices hspent : ∃ left, Funded weight tasks left ∧
      (log.map fun en => weight en.op).sum + left.sum =
        ((tasks.map Task.label).map budget).sum by
    obtain ⟨left, -, hspent⟩ := hspent
    exact Nat.le.intro hspent
  induction h with
  | start => exact ⟨[], .nil, rfl⟩
  | @spawn log w tasks l _ ih =>
    obtain ⟨left, hleft, hsum⟩ := ih
    refine ⟨left ++ [budget l], List.rel_append hleft (.cons (hprogram l) .nil), ?_⟩
    simp only [List.sum_append, List.map_append, List.map_cons, List.map_nil, List.sum_singleton,
      ← hsum, Nat.add_assoc]
  | @act log w w' tasks t l e k r _ ht _ ih =>
    obtain ⟨left, hleft, hsum⟩ := ih
    obtain ⟨left', hleft', hpaid⟩ := hleft.pay ht r
    refine ⟨left', hleft', ?_⟩
    rw [map_label_set ht, List.map_append, List.sum_append, ← hsum, ← hpaid]
    simp only [List.map_cons, List.map_nil, List.sum_singleton, Nat.add_assoc]

/-! ## Coming to an end -/

/-- One program may be served alone until it ends. -/
theorem Run.finish_one (htotal : ∀ w t e, ∃ r w', sem.step w t e r w') {t : ℕ} {l : L}
    (p : Prog S α) : ∀ {w : W} {log : List (Entry S W)} {tasks : List (Task L S α)},
      Run sem program w₀ log w tasks → tasks[t]? = some ⟨l, p⟩ →
      ∃ more w' a, Run sem program w₀ (log ++ more) w' (tasks.set t ⟨l, .ret a⟩) := by
  induction p with
  | ret a =>
    intro w log tasks h ht
    refine ⟨[], w, a, ?_⟩
    obtain ⟨hlt, hget⟩ := List.getElem?_eq_some_iff.mp ht
    rw [List.append_nil, ← hget, List.set_getElem_self]
    exact h
  | op e k ih =>
    intro w log tasks h ht
    obtain ⟨r, w₁, hstep⟩ := htotal w t e
    have hlt : t < tasks.length := (List.getElem?_eq_some_iff.mp ht).1
    obtain ⟨more, w', a, hrun⟩ := ih r (h.reply t ht r w₁ hstep) (List.getElem?_set_self hlt)
    rw [List.append_assoc, List.set_set] at hrun
    exact ⟨_, w', a, hrun⟩

/-- **A pool can be drained**: with no more programs started, some run goes on to where all have
ended. -/
theorem Run.drain (htotal : ∀ w t e, ∃ r w', sem.step w t e r w')
    (h : Run sem program w₀ log w tasks) :
    ∃ more w' tasks', Run sem program w₀ (log ++ more) w' tasks' ∧
      tasks'.map Task.label = tasks.map Task.label ∧ ∀ task ∈ tasks', task.Ended := by
  -- the first `n` have ended
  suffices hfirst : ∀ n ≤ tasks.length, ∃ more w' tasks',
      Run sem program w₀ (log ++ more) w' tasks' ∧ tasks'.map Task.label = tasks.map Task.label ∧
        ∀ t < n, ∃ task, tasks'[t]? = some task ∧ task.Ended by
    obtain ⟨more, w', tasks', hrun, hlabels, hended⟩ := hfirst tasks.length le_rfl
    refine ⟨more, w', tasks', hrun, hlabels, fun task htask => ?_⟩
    obtain ⟨t, ht⟩ := List.mem_iff_getElem?.mp htask
    have hlength : tasks'.length = tasks.length := by simpa using congrArg List.length hlabels
    obtain ⟨task', htask', hend⟩ := hended t (hlength ▸ (List.getElem?_eq_some_iff.mp ht).1)
    obtain rfl := Option.some.inj (ht.symm.trans htask')
    exact hend
  intro n
  induction n with
  | zero => exact fun _ => ⟨[], w, tasks, by rwa [List.append_nil], rfl, nofun⟩
  | succ n ih =>
    intro hn
    obtain ⟨more, w', tasks', hrun, hlabels, hended⟩ := ih (Nat.le_of_succ_le hn)
    have hlength : tasks'.length = tasks.length := by simpa using congrArg List.length hlabels
    have hlt : n < tasks'.length := hlength ▸ hn
    obtain ⟨more', w'', a, hrun'⟩ :=
      Run.finish_one htotal tasks'[n].rest hrun (List.getElem?_eq_getElem hlt)
    rw [List.append_assoc] at hrun'
    refine ⟨_, w'', _, hrun', (map_label_set (List.getElem?_eq_getElem hlt) _).trans hlabels, ?_⟩
    intro t ht
    rcases Nat.lt_succ_iff_lt_or_eq.mp ht with ht | rfl
    · obtain ⟨task, htask, hend⟩ := hended t ht
      exact ⟨task, by rw [List.getElem?_set_ne ht.ne', htask], hend⟩
    · exact ⟨_, List.getElem?_set_self hlt, a, rfl⟩

end Interaction
