import PrdApiWrapper.Pool

/-!
# A window on a world

One party sees a world through a window: some entries of a log are its own, and show it an output
for an input of its own choice. If, seen so, the world behaves like a `Machine` of the party's own
(its entries act on the party's view as the machine acts on its state, and all others leave the
view alone), then what the party sees is what that machine makes of the party's inputs, whatever
the others do. Two walks with the same inputs show the same.
-/

namespace Interaction

variable {V I O : Type}

/-- A machine that answers every input from its state. -/
structure Machine (V I O : Type) where
  /-- the state after an input -/
  next : V → I → V
  /-- the output for an input -/
  out : V → I → O

/-- The outputs for inputs one after the other. -/
def Machine.outputs (m : Machine V I O) : V → List I → List O
  | _, [] => []
  | v, i :: later => m.out v i :: m.outputs (m.next v i) later

theorem Machine.outputs_concat (m : Machine V I O) (inputs : List I) (i : I) :
    ∀ v, m.outputs v (inputs ++ [i]) = m.outputs v inputs ++ [m.out (inputs.foldl m.next v) i] := by
  induction inputs with
  | nil => exact fun v => rfl
  | cons j inputs ih => exact fun v => congrArg (m.out v j :: ·) (ih (m.next v j))

variable {S : Effects} {W : Type}

/-- What a window shows of an entry: its input and the output for it, if it is one of the party's
own. -/
structure Window (S : Effects) (W : Type) (V I O : Type) where
  /-- what the party can see of the world -/
  view : W → V
  /-- the party's input -/
  input : Entry S W → Option I
  /-- what the party is shown -/
  output : Entry S W → Option O

/-- Through the window, the entry looks like a step of the machine, or like nothing. -/
def Window.Follows (win : Window S W V I O) (m : Machine V I O) (en : Entry S W) : Prop :=
  match win.input en with
  | some i => win.output en = some (m.out (win.view en.before) i) ∧
      win.view en.after = m.next (win.view en.before) i
  | none => win.output en = none ∧ win.view en.after = win.view en.before

/-- **Through the window, the walk is a run of the machine.** -/
theorem Chained.through {sem : Semantics S W} {w₀ w : W} {log : List (Entry S W)}
    (h : Chained sem w₀ log w) (win : Window S W V I O) (m : Machine V I O)
    (hfollows : ∀ en ∈ log, win.Follows m en) :
    win.view w = (log.filterMap win.input).foldl m.next (win.view w₀) ∧
      log.filterMap win.output = m.outputs (win.view w₀) (log.filterMap win.input) := by
  induction h with
  | nil => exact ⟨rfl, rfl⟩
  | @snoc w log en hlog hbefore _ ih =>
    obtain ⟨hview, hout⟩ := ih fun en' hen' => hfollows en' (List.mem_append_left _ hen')
    have hlast := hfollows en (List.mem_append_right _ List.mem_cons_self)
    rw [Window.Follows, hbefore, hview] at hlast
    rw [List.filterMap_append, List.filterMap_append, hout]
    cases hinput : win.input en with
    | some i =>
      rw [hinput] at hlast
      obtain ⟨houtput, hafter⟩ := hlast
      have hone : List.filterMap win.input [en] = [i] := List.filterMap_cons_some hinput
      have hshown : List.filterMap win.output [en] = _ := List.filterMap_cons_some houtput
      rw [hone, hshown, List.foldl_append, m.outputs_concat]
      exact ⟨hafter, rfl⟩
    | none =>
      rw [hinput] at hlast
      obtain ⟨houtput, hafter⟩ := hlast
      have hone : List.filterMap win.input [en] = [] := List.filterMap_cons_none hinput
      have hshown : List.filterMap win.output [en] = [] := List.filterMap_cons_none houtput
      rw [hone, hshown, List.append_nil, List.append_nil]
      exact ⟨hafter, rfl⟩

end Interaction
