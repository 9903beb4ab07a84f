import Mathlib.Data.List.Basic
import Mathlib.Tactic.Common

/-!
# Steps that can be taken back

Scripts of operations that can fail, of which each can be taken back by another, and histories of
revisions that are walked up and down. A history whose revisions can all be put in force one after
the other can be walked for as long as one likes, and where one is decides what the state is
(`walk_stands`).
-/

namespace Interaction

variable {σ ι ε : Type}

/-! ## Scripts -/

section

variable {act : σ → ι → Except ε σ}

/-- One operation after the other, up to the first that fails. -/
def runScript (act : σ → ι → Except ε σ) (script : List ι) (state : σ) : Except ε σ :=
  script.foldlM act state

@[simp] theorem runScript_nil (state : σ) : runScript act [] state = .ok state := rfl

theorem runScript_cons_eq_ok {i : ι} {script : List ι} {state state' : σ} :
    runScript act (i :: script) state = .ok state' ↔
      ∃ mid, act state i = .ok mid ∧ runScript act script mid = .ok state' := by
  rw [runScript, List.foldlM_cons]
  cases act state i with
  | error e => exact iff_of_false nofun nofun
  | ok mid => simp [bind, Except.bind, runScript]

theorem runScript_append_eq_ok {script script' : List ι} {state state' : σ} :
    runScript act (script ++ script') state = .ok state' ↔
      ∃ mid, runScript act script state = .ok mid ∧ runScript act script' mid = .ok state' := by
  rw [runScript, List.foldlM_append]
  change Except.bind (runScript act script state) _ = _ ↔ _
  cases runScript act script state with
  | error e => exact iff_of_false nofun nofun
  | ok mid => simp [Except.bind, runScript]

theorem runScript_singleton {i : ι} {state state' : σ} :
    runScript act [i] state = .ok state' ↔ act state i = .ok state' := by
  simp [runScript_cons_eq_ok]

/-- What every operation of a script keeps, the script keeps. -/
theorem runScript_keeps {Sound : σ → Prop} {script : List ι} {state state' : σ}
    (hkeeps : ∀ i ∈ script, ∀ s s', Sound s → act s i = .ok s' → Sound s') (h : Sound state)
    (hrun : runScript act script state = .ok state') : Sound state' := by
  induction script generalizing state with
  | nil => exact Except.ok.inj hrun ▸ h
  | cons i script ih =>
    obtain ⟨mid, hact, hrun⟩ := runScript_cons_eq_ok.mp hrun
    obtain ⟨hi, hkeeps⟩ := List.forall_mem_cons.mp hkeeps
    exact ih hkeeps (hi state mid h hact) hrun

/-- A script is taken back by taking its operations back, the last one first. -/
theorem runScript_back {Sound : σ → Prop} {back : ι → ι} {script : List ι} {state state' : σ}
    (hkeeps : ∀ i ∈ script, ∀ s s', Sound s → act s i = .ok s' → Sound s')
    (hback : ∀ i ∈ script, ∀ s s', Sound s → act s i = .ok s' → act s' (back i) = .ok s)
    (h : Sound state) (hrun : runScript act script state = .ok state') :
    runScript act (script.reverse.map back) state' = .ok state := by
  induction script generalizing state with
  | nil => exact congrArg Except.ok (Except.ok.inj hrun).symm
  | cons i script ih =>
    obtain ⟨mid, hact, hrun⟩ := runScript_cons_eq_ok.mp hrun
    obtain ⟨hi, hkeeps⟩ := List.forall_mem_cons.mp hkeeps
    obtain ⟨hiback, hback⟩ := List.forall_mem_cons.mp hback
    have hmid : Sound mid := hi state mid h hact
    rw [List.reverse_cons, List.map_append, runScript_append_eq_ok]
    exact ⟨mid, ih hkeeps hback hmid hrun, runScript_singleton.mpr (hiback state mid h hact)⟩

end

/-! ## Histories -/

/-- A revision of the state, and what takes it back. -/
structure Revision (σ ε : Type) where
  upgrade : σ → Except ε σ
  downgrade : σ → Except ε σ

/-- The downgrade takes the upgrade back, among the sound states. -/
structure Revision.Reverses (revision : Revision σ ε) (Sound : σ → Prop) : Prop where
  keeps : ∀ s s', Sound s → revision.upgrade s = .ok s' → Sound s'
  back : ∀ s s', Sound s → revision.upgrade s = .ok s' → revision.downgrade s' = .ok s

/-- A step along a history. -/
inductive Move where
  | upgrade
  | downgrade
  deriving DecidableEq

/-- A step: the next revision is put in force, or the last one in force is taken back. At the ends
there is nothing to do. -/
def Move.run (history : List (Revision σ ε)) : Move → ℕ × σ → Except ε (ℕ × σ)
  | .upgrade, (n, state) =>
    match history[n]? with
    | none => .ok (n, state)
    | some revision => (revision.upgrade state).map fun state' => (n + 1, state')
  | .downgrade, (0, state) => .ok (0, state)
  | .downgrade, (n + 1, state) =>
    match history[n]? with
    | none => .ok (n + 1, state)
    | some revision => (revision.downgrade state).map fun state' => (n, state')

/-- A walk along a history. -/
def walk (history : List (Revision σ ε)) (moves : List Move) (place : ℕ × σ) :
    Except ε (ℕ × σ) :=
  runScript (fun place move => move.run history place) moves place

/-- The state with the first `n` revisions in force. -/
def Stands (history : List (Revision σ ε)) (start : σ) (n : ℕ) (state : σ) : Prop :=
  n ≤ history.length ∧
    runScript (fun s revision => revision.upgrade s) (history.take n) start = .ok state

section

variable {history : List (Revision σ ε)} {Sound : σ → Prop} {start : σ}

theorem stands_zero : Stands history start 0 start := ⟨Nat.zero_le _, rfl⟩

theorem stands_succ_iff {n : ℕ} {state : σ} :
    Stands history start (n + 1) state ↔
      ∃ (revision : Revision σ ε) (mid : σ), history[n]? = some revision ∧
        Stands history start n mid ∧ revision.upgrade mid = .ok state := by
  refine ⟨?_, ?_⟩
  · rintro ⟨hn, hrun⟩
    rw [List.take_add_one, List.getElem?_eq_getElem hn, Option.toList_some,
      runScript_append_eq_ok] at hrun
    obtain ⟨mid, hmid, hlast⟩ := hrun
    exact ⟨history[n], mid, List.getElem?_eq_getElem hn, ⟨Nat.le_of_lt hn, hmid⟩,
      runScript_singleton.mp hlast⟩
  · rintro ⟨revision, mid, hrevision, ⟨-, hmid⟩, hlast⟩
    obtain ⟨hn, -⟩ := List.getElem?_eq_some_iff.mp hrevision
    refine ⟨hn, ?_⟩
    rw [List.take_add_one, hrevision, Option.toList_some, runScript_append_eq_ok]
    exact ⟨mid, hmid, runScript_singleton.mpr hlast⟩

/-- If all revisions can be put in force, the first ones can. -/
theorem stands_of_le {n m : ℕ} (hnm : n ≤ m) (h : ∃ top, Stands history start m top) :
    ∃ state, Stands history start n state := by
  induction hnm with
  | refl => exact h
  | step _ ih =>
    obtain ⟨top, htop⟩ := h
    obtain ⟨_, mid, _, hmid, _⟩ := stands_succ_iff.mp htop
    exact ih ⟨mid, hmid⟩

theorem Stands.unique {n : ℕ} {state state' : σ} (h : Stands history start n state)
    (h' : Stands history start n state') : state = state' :=
  Except.ok.inj (h.2.symm.trans h'.2)

theorem Stands.sound (hrev : ∀ revision ∈ history, revision.Reverses Sound) (hstart : Sound start)
    {n : ℕ} {state : σ} (h : Stands history start n state) : Sound state :=
  runScript_keeps (fun revision hmem => (hrev revision (List.mem_of_mem_take hmem)).keeps)
    hstart h.2

/-- A step does not fail, and leads to where it should. -/
theorem Move.run_stands (hrev : ∀ revision ∈ history, revision.Reverses Sound)
    (hstart : Sound start) (htop : ∃ top, Stands history start history.length top) (move : Move)
    {n : ℕ} {state : σ} (h : Stands history start n state) :
    ∃ n' state', move.run history (n, state) = .ok (n', state') ∧
      Stands history start n' state' := by
  cases move with
  | upgrade =>
    cases hn : history[n]? with
    | none => exact ⟨n, state, by simp [Move.run, hn], h⟩
    | some revision =>
      obtain ⟨hlt, -⟩ := List.getElem?_eq_some_iff.mp hn
      obtain ⟨state', hstate'⟩ := stands_of_le hlt htop
      obtain ⟨revision', mid, hrevision', hmid, hup⟩ := stands_succ_iff.mp hstate'
      obtain rfl : revision' = revision := Option.some.inj (hrevision'.symm.trans hn)
      obtain rfl : mid = state := hmid.unique h
      exact ⟨n + 1, state', by simp [Move.run, hn, hup, Except.map], hstate'⟩
  | downgrade =>
    cases n with
    | zero => exact ⟨0, state, rfl, h⟩
    | succ n =>
      obtain ⟨revision, mid, hn, hmid, hup⟩ := stands_succ_iff.mp h
      have hdown : revision.downgrade state = .ok mid :=
        (hrev revision (List.mem_of_getElem? hn)).back mid state (hmid.sound hrev hstart) hup
      exact ⟨n, mid, by simp [Move.run, hn, hdown, Except.map], hmid⟩

/-- No walk fails, and where it ends decides the state. -/
theorem walk_stands (hrev : ∀ revision ∈ history, revision.Reverses Sound) (hstart : Sound start)
    (htop : ∃ top, Stands history start history.length top) (moves : List Move) {n : ℕ} {state : σ}
    (h : Stands history start n state) :
    ∃ n' state', walk history moves (n, state) = .ok (n', state') ∧
      Stands history start n' state' := by
  induction moves generalizing n state with
  | nil => exact ⟨n, state, rfl, h⟩
  | cons move moves ih =>
    obtain ⟨n₁, state₁, hmove, h₁⟩ := move.run_stands hrev hstart htop h
    obtain ⟨n', state', hwalk, h'⟩ := ih h₁
    exact ⟨n', state', runScript_cons_eq_ok.mpr ⟨(n₁, state₁), hmove, hwalk⟩, h'⟩

/-- As many steps up as there are revisions put all of them in force, or fail where one does. -/
theorem walk_replicate {n : ℕ} (hn : n ≤ history.length) {place : ℕ × σ}
    (h : walk history (List.replicate n .upgrade) (0, start) = .ok place) :
    place.1 = n ∧ Stands history start n place.2 := by
  induction n generalizing place with
  | zero =>
    obtain rfl := Except.ok.inj h
    exact ⟨rfl, stands_zero⟩
  | succ n ih =>
    rw [List.replicate_succ', walk, runScript_append_eq_ok] at h
    obtain ⟨⟨m, mid⟩, hmid, hlast⟩ := h
    obtain ⟨hm, hstands⟩ := ih (Nat.le_of_lt hn) hmid
    obtain rfl : m = n := hm
    have hrevision : history[m]? = some history[m] := List.getElem?_eq_getElem hn
    have hrun : Move.upgrade.run history (m, mid) = .ok place := runScript_singleton.mp hlast
    simp only [Move.run, hrevision] at hrun
    cases hup : history[m].upgrade mid with
    | error e => rw [hup] at hrun; exact absurd hrun nofun
    | ok state =>
      rw [hup] at hrun
      obtain rfl := Except.ok.inj hrun
      exact ⟨rfl, stands_succ_iff.mpr ⟨history[m], mid, hrevision, hstands, hup⟩⟩

end

end Interaction
