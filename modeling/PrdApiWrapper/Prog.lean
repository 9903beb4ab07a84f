import Mathlib.Data.List.Forall2
import Mathlib.Tactic.Common

/-!
# Programs over an interface of effects

A coroutine is modelled by the tree of the requests it makes to what lies outside it: it either
has finished with a result, or waits for the reply to one request and continues with whatever
reply arrives. Nothing is said here about which replies are possible; that is the business of a
`Protocol` (one program in an environment) or of a `Semantics` (many programs over one world).

The tree is inductive, so a program makes finitely many requests along every sequence of replies:
a coroutine that can be written as a `Prog` ends whenever each of its requests is answered.
-/

namespace Interaction

/-- An interface: the requests a program can make, and the type of the reply to each. -/
structure Effects where
  /-- the requests -/
  Op : Type
  /-- what a request is answered with -/
  Reply : Op → Type

/-- A program over the interface `S` with results in `α`. -/
inductive Prog (S : Effects) (α : Type) : Type where
  /-- finished with a result -/
  | ret : α → Prog S α
  /-- waiting for the reply to a request -/
  | op : (e : S.Op) → (S.Reply e → Prog S α) → Prog S α

namespace Prog

variable {S : Effects} {α β γ : Type}

/-- Make one request and return its reply. -/
def perform (e : S.Op) : Prog S (S.Reply e) := .op e .ret

/-- Graft a continuation onto every result. -/
protected def bind : Prog S α → (α → Prog S β) → Prog S β
  | .ret a, f => f a
  | .op e k, f => .op e fun r => (k r).bind f

instance : Monad (Prog S) where
  pure := .ret
  bind := Prog.bind

@[simp] theorem pure_eq (a : α) : (pure a : Prog S α) = .ret a := rfl

@[simp] theorem op_bind (e : S.Op) (k : S.Reply e → Prog S α) (f : α → Prog S β) :
    (Prog.op e k >>= f) = .op e fun r => k r >>= f := rfl

theorem bind_ret (p : Prog S α) : p >>= Prog.ret = p := by
  induction p with
  | ret a => rfl
  | op e k ih => exact congrArg (Prog.op e) (funext ih)

theorem bind_assoc (p : Prog S α) (f : α → Prog S β) (g : β → Prog S γ) :
    (p >>= f) >>= g = p >>= fun a => f a >>= g := by
  induction p with
  | ret a => rfl
  | op e k ih => exact congrArg (Prog.op e) (funext ih)

instance : LawfulMonad (Prog S) := LawfulMonad.mk' _
  (fun p => bind_ret p)
  (fun _ _ => rfl)
  bind_assoc

end Prog

/-! ## Traces -/

/-- One request of a program with the reply it got. -/
structure Event (S : Effects) : Type where
  /-- the request -/
  op : S.Op
  /-- its reply -/
  reply : S.Reply op

/-- Two events that are the same but for replies that are related by `R`. -/
inductive Event.Alike {S : Effects} (R : (e : S.Op) → S.Reply e → S.Reply e → Prop) :
    Event S → Event S → Prop where
  /-- the same -/
  | refl (ev : Event S) : Event.Alike R ev ev
  /-- with related replies -/
  | mk {e : S.Op} {r r' : S.Reply e} : R e r r' → Event.Alike R ⟨e, r⟩ ⟨e, r'⟩

namespace Prog

variable {S : Effects} {α β : Type}

/-- `Steps p trace p'`: answering the requests of `p` as `trace` records leaves `p'`. -/
inductive Steps : Prog S α → List (Event S) → Prog S α → Prop where
  /-- nothing answered yet -/
  | refl (p : Prog S α) : Steps p [] p
  /-- one reply, then the rest -/
  | cons {e : S.Op} {k : S.Reply e → Prog S α} {r : S.Reply e} {trace : List (Event S)}
      {p' : Prog S α} : Steps (k r) trace p' → Steps (.op e k) (⟨e, r⟩ :: trace) p'

/-- One more reply at the end of a trace. -/
theorem Steps.snoc {p : Prog S α} {trace : List (Event S)} {e : S.Op}
    {k : S.Reply e → Prog S α} (h : Steps p trace (.op e k)) (r : S.Reply e) :
    Steps p (trace ++ [⟨e, r⟩]) (k r) := by
  generalize hq : Prog.op e k = q at h
  induction h with
  | refl p =>
    subst hq
    exact .cons (.refl _)
  | cons _ ih => exact .cons (ih hq)

/-- A part of a program is answered as it would be alone. -/
theorem Steps.bind {p p' : Prog S α} {trace : List (Event S)} (h : Steps p trace p')
    (f : α → Prog S β) : Steps (p >>= f) trace (p' >>= f) := by
  induction h with
  | refl p => exact .refl _
  | cons _ ih => exact .cons ih

/-- One trace after another. -/
theorem Steps.trans {p p' p'' : Prog S α} {trace trace' : List (Event S)} (h : Steps p trace p') :
    Steps p' trace' p'' → Steps p (trace ++ trace') p'' := by
  induction h with
  | refl p => exact id
  | cons _ ih => exact fun h' => .cons (ih h')

/-- A trace leads to one place only. -/
theorem Steps.unique {p p₁ p₂ : Prog S α} {trace : List (Event S)} (h₁ : Steps p trace p₁) :
    Steps p trace p₂ → p₁ = p₂ := by
  induction h₁ with
  | refl p =>
    intro h₂
    cases h₂
    rfl
  | cons _ ih =>
    intro h₂
    cases h₂ with
    | cons hrest => exact ih hrest

/-- Every trace can be stopped at on the way. -/
theorem Steps.split {p p'' : Prog S α} {trace' : List (Event S)} :
    ∀ {trace : List (Event S)}, Steps p (trace ++ trace') p'' →
      ∃ p', Steps p trace p' ∧ Steps p' trace' p'' := by
  intro trace
  induction trace generalizing p with
  | nil => exact fun h => ⟨p, .refl p, h⟩
  | cons ev trace ih =>
    intro h
    cases h with
    | cons hrest =>
      obtain ⟨p', hto, hfrom⟩ := ih hrest
      exact ⟨p', .cons hto, hfrom⟩

/-- The replies of a trace are those that `reply` gives after what came before. -/
def AnsweredBy (reply : List (Event S) → (e : S.Op) → S.Reply e) (trace : List (Event S)) : Prop :=
  ∀ before e r after, trace = before ++ ⟨e, r⟩ :: after → r = reply before e

/-- However a program is answered, it ends. -/
theorem ends (p : Prog S α) : ∀ reply : List (Event S) → (e : S.Op) → S.Reply e,
    ∃ trace a, Steps p trace (.ret a) ∧ AnsweredBy reply trace := by
  induction p with
  | ret a =>
    refine fun reply => ⟨[], a, .refl _, ?_⟩
    intro before e r after h
    simp at h
  | op e k ih =>
    intro reply
    obtain ⟨trace, a, hsteps, hanswered⟩ :=
      ih (reply [] e) fun before => reply (⟨e, reply [] e⟩ :: before)
    refine ⟨⟨e, reply [] e⟩ :: trace, a, .cons hsteps, ?_⟩
    rintro (_ | ⟨ev, before⟩) e' r after h
    · obtain ⟨hev, -⟩ := List.cons.inj h
      cases hev
      rfl
    · obtain ⟨rfl, htrace⟩ := List.cons.inj h
      exact hanswered before e' r after htrace

/-! ## The requests a program can make -/

/-- Every request the program can ever make satisfies `P`. -/
def Only (P : S.Op → Prop) : Prog S α → Prop
  | .ret _ => True
  | .op e k => P e ∧ ∀ r, (k r).Only P

theorem Only.mono {P P' : S.Op → Prop} {p : Prog S α} (h : ∀ e, P e → P' e) (hp : p.Only P) :
    p.Only P' := by
  induction p with
  | ret a => trivial
  | op e k ih => exact ⟨h e hp.1, fun r => ih r (hp.2 r)⟩

theorem Only.bind {P : S.Op → Prop} {p : Prog S α} {f : α → Prog S β} (hp : p.Only P)
    (hf : ∀ a, (f a).Only P) : (p >>= f).Only P := by
  induction p with
  | ret a => exact hf a
  | op e k ih => exact ⟨hp.1, fun r => ih r (hp.2 r)⟩

theorem Only.map {P : S.Op → Prop} {p : Prog S α} (f : α → β) (hp : p.Only P) :
    (f <$> p).Only P :=
  hp.bind fun _ => trivial

/-- What is left of a program makes no other requests. -/
theorem Steps.only {P : S.Op → Prop} {p p' : Prog S α} {trace : List (Event S)}
    (h : Steps p trace p') (hp : p.Only P) : p'.Only P := by
  induction h with
  | refl p => exact hp
  | cons _ ih => exact ih (hp.2 _)

/-! ## Replies that make no difference -/

/-- The program goes on alike after any two replies to one request that are related by `R`. -/
def Blind (R : (e : S.Op) → S.Reply e → S.Reply e → Prop) : Prog S α → Prop
  | .ret _ => True
  | .op e k => (∀ r r', R e r r' → k r = k r') ∧ ∀ r, (k r).Blind R

section

variable {R : (e : S.Op) → S.Reply e → S.Reply e → Prop}

theorem Blind.of_only {P : S.Op → Prop} {p : Prog S α} (hp : p.Only P)
    (hR : ∀ e, P e → ∀ r r', ¬ R e r r') : p.Blind R := by
  induction p with
  | ret a => trivial
  | op e k ih => exact ⟨fun r r' h => absurd h (hR e hp.1 r r'), fun r => ih r (hp.2 r)⟩

theorem Blind.bind {p : Prog S α} {f : α → Prog S β} (hp : p.Blind R) (hf : ∀ a, (f a).Blind R) :
    (p >>= f).Blind R := by
  induction p with
  | ret a => exact hf a
  | op e k ih => exact ⟨fun r r' h => congrArg (· >>= f) (hp.1 r r' h), fun r => ih r (hp.2 r)⟩

theorem Blind.map {p : Prog S α} (f : α → β) (hp : p.Blind R) : (f <$> p).Blind R :=
  hp.bind fun _ => trivial

/-- What is left of a blind program is blind. -/
theorem Steps.blind {p p' : Prog S α} {trace : List (Event S)} (h : Steps p trace p')
    (hp : p.Blind R) : p'.Blind R := by
  induction h with
  | refl p => exact hp
  | cons _ ih => exact ih (hp.2 _)

/-- Replies that are related lead to the same place. -/
theorem Steps.alike {p p' : Prog S α} {trace : List (Event S)} (h : Steps p trace p')
    (hp : p.Blind R) {trace' : List (Event S)}
    (halike : List.Forall₂ (Event.Alike R) trace trace') : Steps p trace' p' := by
  induction h generalizing trace' with
  | refl p =>
    cases halike
    exact .refl p
  | cons hrest ih =>
    cases halike with
    | cons hev hevs =>
      cases hev with
      | refl => exact .cons (ih (hp.2 _) hevs)
      | mk hr =>
        apply Steps.cons
        rw [← hp.1 _ _ hr]
        exact ih (hp.2 _) hevs

end

/-- The program goes on alike whatever it is replied to a request in `P`. -/
def Ignores (P : S.Op → Prop) : Prog S α → Prop
  | .ret _ => True
  | .op e k => (P e → ∀ r r', k r = k r') ∧ ∀ r, (k r).Ignores P

theorem ignores_iff_blind {P : S.Op → Prop} {p : Prog S α} :
    p.Ignores P ↔ p.Blind fun e _ _ => P e := by
  induction p with
  | ret a => rfl
  | op e k ih =>
    exact and_congr ⟨fun h r r' he => h he r r', fun h he r r' => h r r' he⟩ (forall_congr' ih)

theorem Ignores.of_only {P : S.Op → Prop} {p : Prog S α} (hp : p.Only fun e => ¬ P e) :
    p.Ignores P :=
  ignores_iff_blind.mpr (.of_only hp fun _ he _ _ => he)

/-- Another reply to an ignored request leads to the same end. -/
theorem Steps.replace {P : S.Op → Prop} {e : S.Op} (he : P e) {before after : List (Event S)}
    {p p' : Prog S α} {r : S.Reply e} (hp : p.Ignores P)
    (hs : Steps p (before ++ ⟨e, r⟩ :: after) p') (r' : S.Reply e) :
    Steps p (before ++ ⟨e, r'⟩ :: after) p' := by
  have hsame : ∀ trace : List (Event S),
      List.Forall₂ (Event.Alike fun e _ _ => P e) trace trace := fun trace =>
    List.forall₂_same.mpr fun ev _ => .refl ev
  exact hs.alike (ignores_iff_blind.mp hp)
    (List.rel_append (hsame before) (.cons (.mk he) (hsame after)))

/-! ## Evaluation -/

variable {σ : Type}

/-- Run a program to its end in an environment that answers every request from a state. -/
def eval (answer : (e : S.Op) → σ → S.Reply e × σ) : Prog S α → σ → α × σ
  | .ret a, s => (a, s)
  | .op e k, s => (k (answer e s).1).eval answer (answer e s).2

@[simp] theorem eval_bind (answer : (e : S.Op) → σ → S.Reply e × σ) (p : Prog S α)
    (f : α → Prog S β) (s : σ) :
    (p >>= f).eval answer s = (f (p.eval answer s).1).eval answer (p.eval answer s).2 := by
  induction p generalizing s with
  | ret a => rfl
  | op e k ih => exact ih (answer e s).1 (answer e s).2

/-! ## Implementing one interface by another -/

variable {S' : Effects}

/-- Replace every request by a program over another interface that computes its reply. -/
def interp (h : (e : S.Op) → Prog S' (S.Reply e)) : Prog S α → Prog S' α
  | .ret a => .ret a
  | .op e k => h e >>= fun r => (k r).interp h

@[simp] theorem interp_op (h : (e : S.Op) → Prog S' (S.Reply e)) (e : S.Op)
    (k : S.Reply e → Prog S α) :
    (Prog.op e k).interp h = h e >>= fun r => (k r).interp h := rfl

end Prog

end Interaction
