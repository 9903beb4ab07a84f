import PrdApiWrapper.Prog

/-!
# Protocols and weakest preconditions

A `Protocol` is an automaton that watches the requests of one program: in a state it allows some
requests, and each reply takes it to a next state. Read as an obligation on the program it is a
discipline (which requests may follow which); read as a promise of the environment it is a world
(`next` then relates only the replies that world can give). `Prog.wp` is the weakest precondition
over both readings at once: the program may only make allowed requests, and for every reply the
protocol admits what remains has to meet the postcondition.

`wp` composes along `bind` (`wp_bind`), follows programs from one interface to another
(`wp_interp`), and says the truth about traces (`wp_steps`, `wp_trace`).
-/

namespace Interaction

/-- An automaton over the requests of an interface. -/
structure Protocol (S : Effects) (Q : Type) where
  /-- the requests a program may make in a state -/
  allows : Q → S.Op → Prop
  /-- the states a request and its reply lead to; empty for replies that cannot occur -/
  next : Q → (e : S.Op) → S.Reply e → Q → Prop

variable {S S' : Effects} {Q Q' : Type} {α β : Type}

namespace Protocol

/-- The environment gives the replies of a trace, one protocol step each. -/
inductive Plays (A : Protocol S Q) : Q → List (Event S) → Q → Prop where
  /-- no reply yet -/
  | nil (q : Q) : Plays A q [] q
  /-- one reply, then the rest -/
  | cons {q q' q'' : Q} {e : S.Op} {r : S.Reply e} {trace : List (Event S)} :
      A.next q e r q' → Plays A q' trace q'' → Plays A q (⟨e, r⟩ :: trace) q''

/-- The protocol that allows the requests in `P`. -/
def permits (P : S.Op → Prop) : Protocol S Unit where
  allows _ e := P e
  next _ _ _ _ := True

/-- The protocol that remembers the trace so far, and allows what it allows after it. -/
def guarded (allows : List (Event S) → S.Op → Prop) : Protocol S (List (Event S)) where
  allows := allows
  next h e r h' := h' = h ++ [⟨e, r⟩]

/-- The protocol that allows everything and remembers it, where only replies that `admits` admits
occur. -/
def observed (admits : Event S → Prop) : Protocol S (List (Event S)) where
  allows _ _ := True
  next h e r h' := admits ⟨e, r⟩ ∧ h' = h ++ [⟨e, r⟩]

/-- The protocol that remembers the trace so far and allows what it allows after it, where only
replies that `admits` admits occur. -/
def watched (admits : Event S → Prop) (allows : List (Event S) → S.Op → Prop) :
    Protocol S (List (Event S)) where
  allows := allows
  next h e r h' := admits ⟨e, r⟩ ∧ h' = h ++ [⟨e, r⟩]

@[simp] theorem guarded_allows (allows : List (Event S) → S.Op → Prop) (h : List (Event S))
    (e : S.Op) : (guarded allows).allows h e ↔ allows h e := Iff.rfl

@[simp] theorem guarded_next (allows : List (Event S) → S.Op → Prop) (h h' : List (Event S))
    (e : S.Op) (r : S.Reply e) : (guarded allows).next h e r h' ↔ h' = h ++ [⟨e, r⟩] := Iff.rfl

theorem plays_guarded (allows : List (Event S) → S.Op → Prop) (trace : List (Event S)) :
    ∀ h : List (Event S), (guarded allows).Plays h trace (h ++ trace) := by
  induction trace with
  | nil => intro h; simpa using Plays.nil h
  | cons ev trace ih =>
    intro h
    obtain ⟨e, r⟩ := ev
    have := ih (h ++ [⟨e, r⟩])
    rw [List.append_assoc] at this
    exact .cons rfl this

theorem plays_watched {admits : Event S → Prop} (allows : List (Event S) → S.Op → Prop)
    (trace : List (Event S)) : ∀ h : List (Event S), (∀ ev ∈ trace, admits ev) →
      (watched admits allows).Plays h trace (h ++ trace) := by
  induction trace with
  | nil => intro h _; simpa using Plays.nil h
  | cons ev trace ih =>
    intro h hadmits
    obtain ⟨e, r⟩ := ev
    have := ih (h ++ [⟨e, r⟩]) fun ev hev => hadmits ev (List.mem_cons_of_mem _ hev)
    rw [List.append_assoc] at this
    exact .cons ⟨hadmits _ List.mem_cons_self, rfl⟩ this

theorem plays_observed {admits : Event S → Prop} (trace : List (Event S)) :
    ∀ h : List (Event S), (∀ ev ∈ trace, admits ev) →
      (observed admits).Plays h trace (h ++ trace) :=
  plays_watched (fun _ _ => True) trace

end Protocol

namespace Prog

/-- `p.wp A Post q`: started in protocol state `q`, the program only makes allowed requests, and
whenever it finishes its result and the protocol state it finishes in satisfy `Post`. -/
def wp (A : Protocol S Q) : Prog S α → (α → Q → Prop) → Q → Prop
  | .ret a, Post, q => Post a q
  | .op e k, Post, q => A.allows q e ∧ ∀ r q', A.next q e r q' → (k r).wp A Post q'

variable {A : Protocol S Q}

@[simp] theorem wp_ret (a : α) (Post : α → Q → Prop) (q : Q) :
    (Prog.ret a : Prog S α).wp A Post q ↔ Post a q := Iff.rfl

@[simp] theorem wp_op (e : S.Op) (k : S.Reply e → Prog S α) (Post : α → Q → Prop) (q : Q) :
    (Prog.op e k).wp A Post q ↔
      A.allows q e ∧ ∀ r q', A.next q e r q' → (k r).wp A Post q' := Iff.rfl

@[simp] theorem wp_bind (p : Prog S α) (f : α → Prog S β) (Post : β → Q → Prop) (q : Q) :
    (p >>= f).wp A Post q ↔ p.wp A (fun a q' => (f a).wp A Post q') q := by
  induction p generalizing q with
  | ret a => rfl
  | op e k ih =>
    simp only [op_bind, wp_op]
    exact and_congr_right fun _ => forall_congr' fun r => forall_congr' fun q' =>
      imp_congr_right fun _ => ih r q'

@[simp] theorem wp_map (f : α → β) (p : Prog S α) (Post : β → Q → Prop) (q : Q) :
    (f <$> p).wp A Post q ↔ p.wp A (fun a q' => Post (f a) q') q := by
  rw [← LawfulMonad.bind_pure_comp, wp_bind]
  rfl

/-- Consequence. -/
theorem wp_mono {p : Prog S α} {Post Post' : α → Q → Prop} {q : Q}
    (h : ∀ a q', Post a q' → Post' a q') (hp : p.wp A Post q) : p.wp A Post' q := by
  induction p generalizing q with
  | ret a => exact h a q hp
  | op e k ih => exact ⟨hp.1, fun r q' hn => ih r (hp.2 r q' hn)⟩

/-- Two obligations at once. -/
theorem wp_and {p : Prog S α} {Post Post' : α → Q → Prop} {q : Q} (hp : p.wp A Post q)
    (hp' : p.wp A Post' q) : p.wp A (fun a q' => Post a q' ∧ Post' a q') q := by
  induction p generalizing q with
  | ret a => exact ⟨hp, hp'⟩
  | op e k ih => exact ⟨hp.1, fun r q' hn => ih r (hp.2 r q' hn) (hp'.2 r q' hn)⟩

/-- A property of protocol states that every request of the program keeps. -/
theorem wp_of_only {P : S.Op → Prop} {I : Q → Prop} {p : Prog S α} {q : Q} (hp : p.Only P)
    (hkeep : ∀ e, P e → ∀ q, I q → A.allows q e ∧ ∀ r q', A.next q e r q' → I q')
    (hq : I q) : p.wp A (fun _ q' => I q') q := by
  induction p generalizing q with
  | ret a => exact hq
  | op e k ih =>
    obtain ⟨hall, hnext⟩ := hkeep e hp.1 q hq
    exact ⟨hall, fun r q' hn => ih r (hp.2 r) (hnext r q' hn)⟩

/-- Where everything is allowed there is no obligation. -/
theorem wp_true (hallows : ∀ q e, A.allows q e) (p : Prog S α) (q : Q) :
    p.wp A (fun _ _ => True) q := by
  induction p generalizing q with
  | ret a => trivial
  | op e k ih => exact ⟨hallows q e, fun r q' _ => ih r q'⟩

/-- The obligation to make only requests in `P`, as a protocol. -/
theorem only_of_wp {P : S.Op → Prop} {p : Prog S α}
    (hp : p.wp (Protocol.permits P) (fun _ _ => True) ()) : p.Only P := by
  induction p with
  | ret a => trivial
  | op e k ih => exact ⟨hp.1, fun r => ih r (hp.2 r () trivial)⟩

/-- What a guard allows after every trace, a program that keeps it only asks for. -/
theorem only_of_guarded {allows : List (Event S) → S.Op → Prop} {P : S.Op → Prop}
    (h : ∀ trace e, allows trace e → P e) {p : Prog S α} {Post : α → List (Event S) → Prop} :
    ∀ {trace}, p.wp (Protocol.guarded allows) Post trace → p.Only P := by
  induction p with
  | ret a => exact fun _ => trivial
  | op e k ih => exact fun hp => ⟨h _ e hp.1, fun r => ih r (hp.2 r _ rfl)⟩

/-! ## What a weakest precondition says about traces -/

/-- Along every trace the environment can give, the rest of the program keeps its obligation. -/
theorem wp_steps {p p' : Prog S α} {trace : List (Event S)} (hs : Steps p trace p') :
    ∀ {q q' : Q} {Post : α → Q → Prop}, p.wp A Post q → A.Plays q trace q' → p'.wp A Post q' := by
  induction hs with
  | refl p =>
    intro q q' Post hp hplay
    cases hplay
    exact hp
  | cons _ ih =>
    intro q q' Post hp hplay
    cases hplay with
    | cons hn hrest => exact ih (hp.2 _ _ hn) hrest

/-- A fact proved over `Protocol.observed` is a fact about every finished trace of such replies. -/
theorem wp_trace {admits : Event S → Prop} {p : Prog S α} {a : α} {trace : List (Event S)}
    {Post : α → List (Event S) → Prop} (hp : p.wp (Protocol.observed admits) Post [])
    (hs : Steps p trace (.ret a)) (hadmits : ∀ ev ∈ trace, admits ev) : Post a trace :=
  wp_steps hs hp (by simpa using Protocol.plays_observed trace [] hadmits)

/-- What is remembered of a program that only makes allowed requests is a trace of it. -/
theorem wp_watched (admits : Event S → Prop) {allows : List (Event S) → S.Op → Prop}
    {P : S.Op → Prop} (hallows : ∀ h e, P e → allows h e) {p : Prog S α} (hp : p.Only P)
    (h : List (Event S)) :
    p.wp (Protocol.watched admits allows)
      (fun a h' => ∃ trace, h' = h ++ trace ∧ Steps p trace (.ret a)) h := by
  induction p generalizing h with
  | ret a => exact ⟨[], by simp, .refl _⟩
  | op e k ih =>
    refine ⟨hallows h e hp.1, ?_⟩
    rintro r _ ⟨-, rfl⟩
    refine wp_mono ?_ (ih r (hp.2 r) (h ++ [⟨e, r⟩]))
    rintro a h' ⟨trace, rfl, hsteps⟩
    exact ⟨⟨e, r⟩ :: trace, by simp, .cons hsteps⟩

/-- A guard kept by a program holds of each of its requests, after the trace before it. -/
theorem wp_guard {allows : List (Event S) → S.Op → Prop} {p : Prog S α}
    {trace : List (Event S)} {e : S.Op} {k : S.Reply e → Prog S α}
    {Post : α → List (Event S) → Prop} (hp : p.wp (Protocol.guarded allows) Post [])
    (hs : Steps p trace (.op e k)) : allows trace e :=
  (wp_steps hs hp (by simpa using Protocol.plays_guarded allows trace [])).1

/-- The same where only replies that `admits` admits occurred. -/
theorem wp_watch {admits : Event S → Prop} {allows : List (Event S) → S.Op → Prop}
    {p : Prog S α} {trace : List (Event S)} {e : S.Op} {k : S.Reply e → Prog S α}
    {Post : α → List (Event S) → Prop} (hp : p.wp (Protocol.watched admits allows) Post [])
    (hs : Steps p trace (.op e k)) (hadmits : ∀ ev ∈ trace, admits ev) : allows trace e :=
  (wp_steps hs hp (by simpa using Protocol.plays_watched allows trace [] hadmits)).1

/-! ## Following a program to another protocol -/

/-- What keeps to a protocol keeps to every one that allows as much, along states that stay
related. -/
theorem wp_refine {A' : Protocol S Q'} {R : Q → Q' → Prop}
    (hop : ∀ e q q', A.allows q e → R q q' → A'.allows q' e ∧
      ∀ r q₁', A'.next q' e r q₁' → ∃ q₁, A.next q e r q₁ ∧ R q₁ q₁')
    {p : Prog S α} {Post : α → Q → Prop} :
    ∀ {q : Q} {q' : Q'}, p.wp A Post q → R q q' →
      p.wp A' (fun a q₁' => ∃ q₁, R q₁ q₁' ∧ Post a q₁) q' := by
  induction p with
  | ret a =>
    intro q q' hp hR
    exact ⟨q, hR, hp⟩
  | op e k ih =>
    intro q q' hp hR
    obtain ⟨hallows, hnext⟩ := hop e q q' hp.1 hR
    refine ⟨hallows, fun r q₁' hq₁' => ?_⟩
    obtain ⟨q₁, hq₁, hR₁⟩ := hnext r q₁' hq₁'
    exact ih r (hp.2 r q₁ hq₁) hR₁

/-! ## Following a program to another interface -/

/-- If every request of the upper interface is implemented by a program of the lower one that
keeps the two protocol states related, then so is every program. -/
theorem wp_interp {A' : Protocol S' Q'} {R : Q → Q' → Prop}
    {h : (e : S.Op) → Prog S' (S.Reply e)}
    (hop : ∀ e q q', A.allows q e → R q q' →
      (h e).wp A' (fun r q₁' => ∃ q₁, A.next q e r q₁ ∧ R q₁ q₁') q')
    {p : Prog S α} {Post : α → Q → Prop} :
    ∀ {q : Q} {q' : Q'}, p.wp A Post q → R q q' →
      (p.interp h).wp A' (fun a q₁' => ∃ q₁, R q₁ q₁' ∧ Post a q₁) q' := by
  induction p with
  | ret a =>
    intro q q' hp hR
    exact ⟨q, hR, hp⟩
  | op e k ih =>
    intro q q' hp hR
    rw [interp_op, wp_bind]
    refine wp_mono ?_ (hop e q q' hp.1 hR)
    rintro r q₁' ⟨q₁, hn, hR₁⟩
    exact ih r (hp.2 r q₁ hn) hR₁

end Prog

end Interaction
