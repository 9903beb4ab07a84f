import PrdApiWrapper.Pool

/-!
# Replies that are taken for granted

A program may be run where some of its requests cannot be made, and are not needed: it goes on with
the reply they are known to get (`Prog.presuming`). Such a run has fewer steps than one in which the
requests are made, and between two of its steps any number of them may be missing.

The rules go both ways. `Run.presume`: the requests can be left out of a run in which they get the
replies they are known to get, and nothing else. `Run.restore`: they can be put back, where they can
be answered so at any time; a program makes them as soon as it is about to make another request
(`Run.catchUp`), and not before.
-/

namespace Interaction

variable {L : Type} {S : Effects} {W W' : Type} {α : Type}
  {known : (e : S.Op) → Option (S.Reply e)}

/-- The program with the replies that are known taken for granted. -/
def Prog.presuming (known : (e : S.Op) → Option (S.Reply e)) : Prog S α → Prog S α
  | .ret a => .ret a
  | .op e k =>
    match known e with
    | some r => (k r).presuming known
    | none => .op e fun r => (k r).presuming known

theorem Prog.presuming_of_some {e : S.Op} {r : S.Reply e} (h : known e = some r)
    (k : S.Reply e → Prog S α) : (Prog.op e k).presuming known = (k r).presuming known := by
  simp only [Prog.presuming, h]

theorem Prog.presuming_of_none {e : S.Op} (h : known e = none) (k : S.Reply e → Prog S α) :
    (Prog.op e k).presuming known = .op e fun r => (k r).presuming known := by
  simp only [Prog.presuming, h]

/-- What is left of a program, with these replies taken for granted. -/
def Task.presuming (known : (e : S.Op) → Option (S.Reply e)) (task : Task L S α) :
    Task L S α := ⟨task.label, task.rest.presuming known⟩

theorem set_of_getElem? {β : Type*} {l : List β} {i : ℕ} {a : β} (h : l[i]? = some a) :
    l.set i a = l := by
  obtain ⟨hi, rfl⟩ := List.getElem?_eq_some_iff.mp h
  exact List.set_getElem_self hi

/-- The replies that are not taken for granted. -/
def asked {W : Type} (known : (e : S.Op) → Option (S.Reply e)) (log : List (Entry S W)) :
    List (ℕ × Event S) :=
  (log.filter fun en => (known en.op).isNone).map Entry.served

theorem asked_append (log log' : List (Entry S W)) :
    asked known (log ++ log') = asked known log ++ asked known log' := by
  simp [asked]

theorem asked_of_some {log : List (Entry S W)} (h : ∀ en ∈ log, (known en.op).isSome) :
    asked known log = [] := by
  rw [asked, List.map_eq_nil_iff, List.filter_eq_nil_iff]
  intro en hen
  simpa [← Option.isSome_iff_ne_none] using h en hen

section

variable {sem : Semantics S W} {sem' : Semantics S W'} {R : W → W' → Prop}
  {P : Entry S W → Prop} {G : Entry S W' → Prop} {program : L → Prog S α} {w₀ w : W} {w₀' : W'}
  {log : List (Entry S W)} {tasks : List (Task L S α)}

/-- **Leaving requests out** of a run in which they are answered as is known, and related worlds
stay related. -/
theorem Run.presume
    (hknown : ∀ en w' r, P en → R en.before w' →
      sem.step en.before en.task en.op en.reply en.after → known en.op = some r →
      en.reply = r ∧ R en.after w')
    (hstep : ∀ en w', P en → R en.before w' →
      sem.step en.before en.task en.op en.reply en.after → known en.op = none →
      ∃ v', sem'.step w' en.task en.op en.reply v' ∧ R en.after v' ∧
        G ⟨en.task, w', en.op, en.reply, v'⟩)
    (hstart : R w₀ w₀') (h : Run sem program w₀ log w tasks) (hlog : ∀ en ∈ log, P en) :
    ∃ log' w', Run sem' (fun l => (program l).presuming known) w₀' log' w'
        (tasks.map (Task.presuming known)) ∧
      (∀ en ∈ log', G en) ∧ R w w' ∧ log'.map Entry.served = asked known log := by
  induction h with
  | start => exact ⟨[], w₀', .start, by simp, hstart, rfl⟩
  | spawn l _ ih =>
    obtain ⟨log', w', h', hlog', hR, hserved⟩ := ih hlog
    refine ⟨log', w', ?_, hlog', hR, hserved⟩
    rw [List.map_append]
    exact .spawn l h'
  | @act log w v tasks t l e k r _ ht hact ih =>
    obtain ⟨log', w', h', hlog', hR, hserved⟩ :=
      ih fun en hen => hlog en (List.mem_append_left _ hen)
    have hP := hlog ⟨t, w, e, r, v⟩ List.mem_concat_self
    have ht' : (tasks.map (Task.presuming known))[t]? =
        some ⟨l, (Prog.op e k).presuming known⟩ := by
      rw [List.getElem?_map, ht]
      rfl
    cases hreply : known e with
    | some r' =>
      obtain ⟨hr, hR'⟩ := hknown _ w' r' hP hR hact hreply
      obtain rfl : r = r' := hr
      refine ⟨log', w', ?_, hlog', hR', ?_⟩
      · rw [Prog.presuming_of_some hreply] at ht'
        rw [List.map_set]
        exact (set_of_getElem? ht').symm ▸ h'
      · have hnone : asked known [⟨t, w, e, r, v⟩] = [] := asked_of_some (by simp [hreply])
        rw [hserved, asked_append, hnone, List.append_nil]
    | none =>
      obtain ⟨v', hact', hR', hG⟩ := hstep _ w' hP hR hact hreply
      rw [Prog.presuming_of_none hreply] at ht'
      refine ⟨log' ++ [⟨t, w', e, r, v'⟩], v', ?_, ?_, hR', ?_⟩
      · rw [List.map_set]
        exact .act h' ht' hact'
      · simpa [or_imp, forall_and] using ⟨hlog', hG⟩
      · rw [List.map_append, hserved, asked_append]
        simp [asked, hreply, Entry.served, Entry.event]

/-- **Catching up**: a program makes the requests that were left out, up to the next one that was
not. -/
theorem Run.catchUp {t : ℕ} {l : L} {e : S.Op} {k : S.Reply e → Prog S α}
    (hknown : ∀ e r w', known e = some r → R w w' →
      ∃ v', sem'.step w' t e r v' ∧ R w v' ∧ G ⟨t, w', e, r, v'⟩) {p : Prog S α} :
    ∀ {log' : List (Entry S W')} {w' : W'} {tasks' : List (Task L S α)},
      Run sem' program w₀' log' w' tasks' → tasks'[t]? = some ⟨l, p⟩ →
      p.presuming known = .op e k → R w w' →
      ∃ extra v' k', Run sem' program w₀' (log' ++ extra) v' (tasks'.set t ⟨l, .op e k'⟩) ∧
        known e = none ∧ (∀ r, (k' r).presuming known = k r) ∧ R w v' ∧
        ∀ en ∈ extra, (known en.op).isSome ∧ G en := by
  induction p with
  | ret a =>
    intro log' w' tasks' _ _ hp
    cases hp
  | op e' k₀ ih =>
    intro log' w' tasks' h ht hp hR
    cases hreply : known e' with
    | some r =>
      obtain ⟨v', hact, hR', hG⟩ := hknown e' r w' hreply hR
      rw [Prog.presuming_of_some hreply] at hp
      have ht' : (tasks'.set t ⟨l, k₀ r⟩)[t]? = some ⟨l, k₀ r⟩ := by
        obtain ⟨hi, -⟩ := List.getElem?_eq_some_iff.mp ht
        exact List.getElem?_set_self hi
      obtain ⟨extra, u', k', hrun, hnone, hk', hR'', hextra⟩ :=
        ih r (h.act ht hact) ht' hp hR'
      refine ⟨⟨t, w', e', r, v'⟩ :: extra, u', k', ?_, hnone, hk', hR'', ?_⟩
      · rw [List.set_set, List.append_assoc] at hrun
        exact hrun
      · rintro en (_ | ⟨_, hen⟩)
        · exact ⟨by simp [hreply], hG⟩
        · exact hextra en hen
    | none =>
      rw [Prog.presuming_of_none hreply] at hp
      cases hp
      refine ⟨[], w', k₀, ?_, hreply, fun _ => rfl, hR, by simp⟩
      rw [set_of_getElem? ht, List.append_nil]
      exact h

/-- **Putting requests back** into a run, where they can be answered as is known at any time. -/
theorem Run.restore
    (hknown : ∀ t e r w w', known e = some r → R w w' →
      ∃ v', sem'.step w' t e r v' ∧ R w v' ∧ G ⟨t, w', e, r, v'⟩)
    (hstep : ∀ en w', P en → R en.before w' →
      sem.step en.before en.task en.op en.reply en.after → known en.op = none →
      ∃ v', sem'.step w' en.task en.op en.reply v' ∧ R en.after v' ∧
        G ⟨en.task, w', en.op, en.reply, v'⟩)
    (hstart : R w₀ w₀') (h : Run sem (fun l => (program l).presuming known) w₀ log w tasks)
    (hlog : ∀ en ∈ log, P en) :
    ∃ log' w' tasks', Run sem' program w₀' log' w' tasks' ∧
      tasks'.map (Task.presuming known) = tasks ∧ (∀ en ∈ log', G en) ∧ R w w' ∧
      asked known log' = log.map Entry.served := by
  induction h with
  | start => exact ⟨[], w₀', [], .start, rfl, by simp, hstart, rfl⟩
  | spawn l _ ih =>
    obtain ⟨log', w', tasks', h', rfl, hlog', hR, hserved⟩ := ih hlog
    refine ⟨log', w', _, .spawn l h', ?_, hlog', hR, hserved⟩
    rw [List.map_append]
    rfl
  | @act log w v tasks t l e k r _ ht hact ih =>
    obtain ⟨log', w', tasks', h', rfl, hlog', hR, hserved⟩ :=
      ih fun en hen => hlog en (List.mem_append_left _ hen)
    rw [List.getElem?_map, Option.map_eq_some_iff] at ht
    obtain ⟨⟨l', p⟩, ht', hrest⟩ := ht
    obtain ⟨rfl, hp⟩ := Task.mk.inj hrest
    obtain ⟨extra, u', k', hrun, hnone, hk', hR', hextra⟩ :=
      h'.catchUp (fun e r w' => hknown t e r _ w') ht' hp hR
    obtain ⟨v', hact', hR'', hG⟩ := hstep _ u' (hlog _ List.mem_concat_self) hR' hact hnone
    have hi : (tasks'.set t ⟨l', .op e k'⟩)[t]? = some ⟨l', .op e k'⟩ :=
      List.getElem?_set_self (List.getElem?_eq_some_iff.mp ht').1
    refine ⟨_, v', _, hrun.act hi hact', ?_, ?_, hR'', ?_⟩
    · rw [List.set_set, List.map_set, Task.presuming, hk']
    · simp only [List.mem_append, List.mem_singleton]
      rintro en ((hen | hen) | rfl)
      · exact hlog' en hen
      · exact (hextra en hen).2
      · exact hG
    · rw [asked_append, asked_append, hserved, asked_of_some fun en hen => (hextra en hen).1]
      simp [asked, hnone, Entry.served, Entry.event]

end

end Interaction
