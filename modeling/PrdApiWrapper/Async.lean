import PrdApiWrapper.Protocol

/-!
# Programs that raise

`Async S ε` is `Prog S` with exceptions of type `ε`: the shape of an `async def` body. Its weakest
precondition `awp` has two postconditions, one for a normal return and one for an exception, so
that `raise`, `try`/`except` and sequencing each have a rule that is a plain equation.
-/

namespace Interaction

/-- An `async` function body: requests to the outside, ending in a result or an exception. -/
abbrev Async (S : Effects) (ε : Type) : Type → Type := ExceptT ε (Prog S)

variable {S : Effects} {ε : Type} {Q : Type} {α β : Type}

namespace Async

/-- `p.awp A ok err q`: the weakest precondition of a program that may raise; `ok` is asked of a
returned value, `err` of a raised exception. -/
def awp (A : Protocol S Q) (x : Async S ε α) (ok : α → Q → Prop) (err : ε → Q → Prop)
    (q : Q) : Prop :=
  x.run.wp A (fun r q' => match r with
    | .ok a => ok a q'
    | .error exc => err exc q') q

variable {A : Protocol S Q}

/-- A postcondition of the outcome, asked of both ways a program ends. -/
theorem awp_outcome (x : Async S ε α) (Post : Except ε α → Q → Prop) (q : Q) :
    awp A x (fun a => Post (.ok a)) (fun exc => Post (.error exc)) q ↔ x.run.wp A Post q := by
  rw [awp]
  refine iff_of_eq (congrArg (fun P => Prog.wp A x.run P q) ?_)
  funext r q'
  cases r <;> rfl

@[simp] theorem awp_pure (a : α) (ok : α → Q → Prop) (err : ε → Q → Prop) (q : Q) :
    awp A (pure a : Async S ε α) ok err q ↔ ok a q := Iff.rfl

@[simp] theorem awp_throw (exc : ε) (ok : α → Q → Prop) (err : ε → Q → Prop) (q : Q) :
    awp A (throw exc : Async S ε α) ok err q ↔ err exc q := Iff.rfl

@[simp] theorem awp_bind (x : Async S ε α) (f : α → Async S ε β) (ok : β → Q → Prop)
    (err : ε → Q → Prop) (q : Q) :
    awp A (x >>= f) ok err q ↔ awp A x (fun a q' => awp A (f a) ok err q') err q := by
  rw [awp]
  rw [ExceptT.run_bind, Prog.wp_bind]
  refine iff_of_eq (congrArg (fun P => Prog.wp A x.run P q) ?_)
  funext r q'
  cases r <;> rfl

@[simp] theorem awp_map (f : α → β) (x : Async S ε α) (ok : β → Q → Prop) (err : ε → Q → Prop)
    (q : Q) : awp A (f <$> x) ok err q ↔ awp A x (fun a q' => ok (f a) q') err q := by
  rw [← LawfulMonad.bind_pure_comp, awp_bind]
  rfl

@[simp] theorem awp_tryCatch (x : Async S ε α) (h : ε → Async S ε α) (ok : α → Q → Prop)
    (err : ε → Q → Prop) (q : Q) :
    awp A (tryCatch x h) ok err q ↔ awp A x ok (fun exc q' => awp A (h exc) ok err q') q := by
  rw [awp]
  rw [ExceptT.run_tryCatch, Prog.wp_bind]
  refine iff_of_eq (congrArg (fun P => Prog.wp A x.run P q) ?_)
  funext r q'
  cases r <;> rfl

@[simp] theorem awp_lift (p : Prog S α) (ok : α → Q → Prop) (err : ε → Q → Prop) (q : Q) :
    awp A (ExceptT.lift p : Async S ε α) ok err q ↔ p.wp A ok q := by
  rw [awp]
  rw [ExceptT.run_lift, Prog.wp_map]

@[simp] theorem awp_mk (p : Prog S (Except ε α)) (ok : α → Q → Prop) (err : ε → Q → Prop)
    (q : Q) : awp A (ExceptT.mk p) ok err q ↔ p.wp A (fun r q' => match r with
      | .ok a => ok a q'
      | .error exc => err exc q') q := Iff.rfl

/-- Consequence, on both ways a program ends. -/
theorem awp_mono {x : Async S ε α} {ok ok' : α → Q → Prop} {err err' : ε → Q → Prop} {q : Q}
    (hok : ∀ a q', ok a q' → ok' a q') (herr : ∀ exc q', err exc q' → err' exc q')
    (hx : awp A x ok err q) : awp A x ok' err' q := by
  refine Prog.wp_mono ?_ hx
  rintro (exc | a) q' h
  · exact herr exc q' h
  · exact hok a q' h

/-- A property of protocol states kept by every request holds beside whatever else does. -/
theorem awp_beside {P : S.Op → Prop} {I : Q → Prop} {x : Async S ε α} {ok : α → Q → Prop}
    {err : ε → Q → Prop} {q : Q} (hx : x.run.Only P)
    (hkeep : ∀ e, P e → ∀ q, I q → A.allows q e ∧ ∀ r q', A.next q e r q' → I q') (hq : I q)
    (h : awp A x ok err q) :
    awp A x (fun a q' => ok a q' ∧ I q') (fun exc q' => err exc q' ∧ I q') q := by
  refine Prog.wp_mono ?_ (Prog.wp_and h (Prog.wp_of_only hx hkeep hq))
  rintro (exc | a) q' h <;> exact h

/-- A property of protocol states kept by every request survives however the program ends. -/
theorem awp_of_only {P : S.Op → Prop} {I : Q → Prop} {x : Async S ε α} {q : Q}
    (hx : x.run.Only P)
    (hkeep : ∀ e, P e → ∀ q, I q → A.allows q e ∧ ∀ r q', A.next q e r q' → I q')
    (hq : I q) : awp A x (fun _ q' => I q') (fun _ q' => I q') q := by
  rw [awp_outcome x fun _ => I]
  exact Prog.wp_of_only hx hkeep hq

/-! ## Evaluation -/

section

variable {σ : Type} {answer : (e : S.Op) → σ → S.Reply e × σ}

/-- Sequencing: go on with the result, or stop with the exception. -/
theorem eval_bind (x : Async S ε α) (f : α → Async S ε β) (s : σ) :
    (x >>= f).run.eval answer s = match x.run.eval answer s with
      | (.ok a, s') => (f a).run.eval answer s'
      | (.error exc, s') => (.error exc, s') := by
  rw [ExceptT.run_bind, Prog.eval_bind]
  generalize x.run.eval answer s = r
  obtain ⟨exc | a, s'⟩ := r <;> rfl

/-- `try`/`except`. -/
theorem eval_tryCatch (x : Async S ε α) (h : ε → Async S ε α) (s : σ) :
    (tryCatch x h).run.eval answer s = match x.run.eval answer s with
      | (.ok a, s') => (.ok a, s')
      | (.error exc, s') => (h exc).run.eval answer s' := by
  rw [ExceptT.run_tryCatch, Prog.eval_bind]
  generalize x.run.eval answer s = r
  obtain ⟨exc | a, s'⟩ := r <;> rfl

end

/-! ## The requests of a program that raises -/

theorem only_of_awp {P : S.Op → Prop} {x : Async S ε α}
    (hx : awp (Protocol.permits P) x (fun _ _ => True) (fun _ _ => True) ()) : x.run.Only P :=
  Prog.only_of_wp (Prog.wp_mono (fun _ _ _ => trivial) hx)

theorem only_bind {P : S.Op → Prop} {x : Async S ε α} {f : α → Async S ε β}
    (hx : x.run.Only P) (hf : ∀ a, (f a).run.Only P) : (x >>= f).run.Only P := by
  rw [ExceptT.run_bind]
  apply hx.bind
  rintro (exc | a)
  · trivial
  · exact hf a

theorem only_map {P : S.Op → Prop} {x : Async S ε α} (f : α → β) (hx : x.run.Only P) :
    (f <$> x).run.Only P := by
  rw [← LawfulMonad.bind_pure_comp]
  exact only_bind hx fun _ => trivial

theorem only_tryCatch {P : S.Op → Prop} {x : Async S ε α} {h : ε → Async S ε α}
    (hx : x.run.Only P) (hh : ∀ exc, (h exc).run.Only P) : (tryCatch x h).run.Only P := by
  rw [ExceptT.run_tryCatch]
  apply hx.bind
  rintro (exc | a)
  · exact hh exc
  · trivial

section

variable {R : (e : S.Op) → S.Reply e → S.Reply e → Prop}

theorem blind_bind {x : Async S ε α} {f : α → Async S ε β} (hx : x.run.Blind R)
    (hf : ∀ a, (f a).run.Blind R) : (x >>= f).run.Blind R := by
  rw [ExceptT.run_bind]
  apply hx.bind
  rintro (exc | a)
  · trivial
  · exact hf a

theorem blind_map {x : Async S ε α} (f : α → β) (hx : x.run.Blind R) : (f <$> x).run.Blind R := by
  rw [← LawfulMonad.bind_pure_comp]
  exact blind_bind hx fun _ => trivial

theorem blind_tryCatch {x : Async S ε α} {h : ε → Async S ε α} (hx : x.run.Blind R)
    (hh : ∀ exc, (h exc).run.Blind R) : (tryCatch x h).run.Blind R := by
  rw [ExceptT.run_tryCatch]
  apply hx.bind
  rintro (exc | a)
  · exact hh exc
  · trivial

end

theorem ignores_bind {P : S.Op → Prop} {x : Async S ε α} {f : α → Async S ε β}
    (hx : x.run.Ignores P) (hf : ∀ a, (f a).run.Ignores P) : (x >>= f).run.Ignores P :=
  Prog.ignores_iff_blind.mpr
    (blind_bind (Prog.ignores_iff_blind.mp hx) fun a => Prog.ignores_iff_blind.mp (hf a))

theorem ignores_tryCatch {P : S.Op → Prop} {x : Async S ε α} {h : ε → Async S ε α}
    (hx : x.run.Ignores P) (hh : ∀ exc, (h exc).run.Ignores P) :
    (tryCatch x h).run.Ignores P :=
  Prog.ignores_iff_blind.mpr
    (blind_tryCatch (Prog.ignores_iff_blind.mp hx) fun exc => Prog.ignores_iff_blind.mp (hh exc))

end Async

end Interaction
