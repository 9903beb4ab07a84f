import Mathlib.Tactic.Common

/-!
# Computations in a context

`Contextual ρ ε σ α` reads a context of type `ρ` that is bound around it, may raise an exception of
type `ε`, and keeps a state of type `σ`, which an exception does not undo: the shape of layers that
are put around a program, each of which may bind something for what is inside, catch what comes out
of it, or let it pass. The precondition `wp` has two postconditions, as that of `Async`.
-/

namespace Interaction

/-- A computation that reads a `ρ`, may raise an `ε` and keeps a `σ`. -/
abbrev Contextual (ρ ε σ : Type) : Type → Type := ReaderT ρ (ExceptT ε (StateM σ))

namespace Contextual

variable {ρ ε σ α β : Type}

/-- What a computation comes to, in a context and from a state. -/
def exec (x : Contextual ρ ε σ α) (context : ρ) (state : σ) : Except ε α × σ :=
  (x.run context).run.run state

/-- A result satisfies `ok` if it was returned, and `err` if it was raised. -/
def Ends (ok : α → σ → Prop) (err : ε → σ → Prop) : Except ε α × σ → Prop
  | (.ok a, state) => ok a state
  | (.error exc, state) => err exc state

/-- The computation comes to a result that satisfies `ok`, or `err` if it is raised. -/
def wp (x : Contextual ρ ε σ α) (ok : α → σ → Prop) (err : ε → σ → Prop) (context : ρ)
    (state : σ) : Prop :=
  Ends ok err (x.exec context state)

variable {ok : α → σ → Prop} {err : ε → σ → Prop} {context : ρ} {state : σ}

@[simp] theorem wp_pure (a : α) :
    (pure a : Contextual ρ ε σ α).wp ok err context state ↔ ok a state := Iff.rfl

@[simp] theorem wp_throw (exc : ε) :
    (throw exc : Contextual ρ ε σ α).wp ok err context state ↔ err exc state := Iff.rfl

@[simp] theorem wp_bind (x : Contextual ρ ε σ α) (f : α → Contextual ρ ε σ β)
    {ok : β → σ → Prop} : (x >>= f).wp ok err context state ↔
      x.wp (fun a state' => (f a).wp ok err context state') err context state := by
  simp only [wp, exec, ReaderT.run_bind, ExceptT.run_bind, StateT.run_bind]
  rcases (x.run context).run.run state with ⟨exc | a, state'⟩
  · exact Iff.rfl
  · exact Iff.rfl

@[simp] theorem wp_tryCatch (x : Contextual ρ ε σ α) (handler : ε → Contextual ρ ε σ α) :
    (tryCatch x handler).wp ok err context state ↔
      x.wp ok (fun exc state' => (handler exc).wp ok err context state') context state := by
  have hcatch : (tryCatch x handler).exec context state =
      (tryCatch (x.run context) fun exc => (handler exc).run context).run.run state := rfl
  rw [wp, hcatch, ExceptT.run_tryCatch, StateT.run_bind]
  simp only [wp, exec]
  rcases (x.run context).run.run state with ⟨exc | a, state'⟩
  · exact Iff.rfl
  · exact Iff.rfl

@[simp] theorem wp_modify (f : σ → σ) {ok : PUnit → σ → Prop} :
    (modify f : Contextual ρ ε σ PUnit).wp ok err context state ↔ ok ⟨⟩ (f state) := Iff.rfl

@[simp] theorem wp_withReader (f : ρ → ρ) (x : Contextual ρ ε σ α) :
    (withReader f x).wp ok err context state ↔ x.wp ok err (f context) state := Iff.rfl

/-- A stronger result is also a weaker one. -/
theorem wp_mono {x : Contextual ρ ε σ α} {ok' : α → σ → Prop} {err' : ε → σ → Prop}
    (hok : ∀ a state', ok a state' → ok' a state')
    (herr : ∀ exc state', err exc state' → err' exc state') (h : x.wp ok err context state) :
    x.wp ok' err' context state := by
  revert h
  unfold wp
  rcases x.exec context state with ⟨exc | a, state'⟩
  · exact herr exc state'
  · exact hok a state'

/-- What is not raised is returned. -/
theorem exec_of_wp {x : Contextual ρ ε σ α} (h : x.wp ok (fun _ _ => False) context state) :
    ∃ a state', x.exec context state = (.ok a, state') ∧ ok a state' := by
  revert h
  rw [wp]
  rcases x.exec context state with ⟨exc | a, state'⟩
  · exact False.elim
  · exact fun h => ⟨a, state', rfl, h⟩

end Contextual

end Interaction
