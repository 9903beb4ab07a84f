import Mathlib.Data.List.Basic
import Mathlib.Tactic.Common

/-!
# Patterns

Regular expressions as Python's `re` matches them without flags, so far as they are anchors,
classes of characters, sequences and bounded repetitions. What a pattern does is a relation between
what is left of a text before it and what is left after it; a match begins at the start of the text
and may leave a rest.
-/

namespace Interaction

/-- A pattern. -/
inductive Pattern where
  /-- `^` -/
  | start
  /-- `$`: the end, or just before a line break that ends the text -/
  | finish
  /-- a class of characters, `[…]` -/
  | ofClass (member : Char → Bool)
  /-- one after the other -/
  | seq (first second : Pattern)
  /-- `…{min,max}` -/
  | repeated (pattern : Pattern) (min max : ℕ)

/-- `n` steps of a relation. -/
def Iterated (R : List Char → List Char → Prop) : ℕ → List Char → List Char → Prop
  | 0, rest, rest' => rest' = rest
  | n + 1, rest, rest'' => ∃ rest', R rest rest' ∧ Iterated R n rest' rest''

namespace Pattern

/-- `p.Consumes text rest rest'`: with `rest` left of the text, the pattern can leave `rest'`. -/
def Consumes (text : List Char) : Pattern → List Char → List Char → Prop
  | .start, rest, rest' => rest = text ∧ rest' = rest
  | .finish, rest, rest' => (rest = [] ∨ rest = ['\n']) ∧ rest' = rest
  | .ofClass member, rest, rest' => ∃ c, member c = true ∧ rest = c :: rest'
  | .seq first second, rest, rest'' =>
    ∃ rest', first.Consumes text rest rest' ∧ second.Consumes text rest' rest''
  | .repeated pattern min max, rest, rest' =>
    ∃ n, min ≤ n ∧ n ≤ max ∧ Iterated (pattern.Consumes text) n rest rest'

/-- `re.match(pattern, text)` finds a match. -/
def Matches (pattern : Pattern) (text : List Char) : Prop :=
  ∃ rest, pattern.Consumes text text rest

theorem iterated_ofClass {text : List Char} {member : Char → Bool} {n : ℕ}
    {rest rest' : List Char} : Iterated ((ofClass member).Consumes text) n rest rest' ↔
      ∃ run, rest = run ++ rest' ∧ run.length = n ∧ ∀ c ∈ run, member c = true := by
  induction n generalizing rest with
  | zero =>
    refine ⟨?_, ?_⟩
    · rintro rfl
      exact ⟨[], rfl, rfl, by simp⟩
    · rintro ⟨run, rfl, hrun, -⟩
      rw [List.length_eq_zero_iff.mp hrun]
      rfl
  | succ n ih =>
    refine ⟨?_, ?_⟩
    · rintro ⟨_, ⟨c, hc, rfl⟩, hiter⟩
      obtain ⟨run, rfl, rfl, hmember⟩ := ih.mp hiter
      refine ⟨c :: run, rfl, rfl, ?_⟩
      rintro d (_ | ⟨_, hd⟩)
      · exact hc
      · exact hmember d hd
    · rintro ⟨_ | ⟨c, run⟩, rfl, hlength, hmember⟩
      · cases hlength
      · exact ⟨run ++ rest', ⟨c, hmember c List.mem_cons_self, rfl⟩, ih.mpr
          ⟨run, rfl, Nat.succ.inj hlength, fun d hd => hmember d (List.mem_cons_of_mem _ hd)⟩⟩

/-- **An anchored run** of a class matches the texts that are such a run, and those that are one
followed by a line break. -/
theorem matches_anchored {member : Char → Bool} {min max : ℕ} {text : List Char} :
    (seq .start (.seq (.repeated (.ofClass member) min max) .finish)).Matches text ↔
      ∃ run, (min ≤ run.length ∧ run.length ≤ max ∧ ∀ c ∈ run, member c = true) ∧
        (text = run ∨ text = run ++ ['\n']) := by
  refine ⟨?_, ?_⟩
  · rintro ⟨_, _, ⟨-, rfl⟩, rest, ⟨n, hmin, hmax, hiter⟩, hend, -⟩
    obtain ⟨run, rfl, rfl, hmember⟩ := iterated_ofClass.mp hiter
    refine ⟨run, ⟨hmin, hmax, hmember⟩, ?_⟩
    rcases hend with rfl | rfl
    · exact .inl (List.append_nil run)
    · exact .inr rfl
  · rintro ⟨run, ⟨hmin, hmax, hmember⟩, htext⟩
    have hsplit : ∃ rest, text = run ++ rest ∧ (rest = [] ∨ rest = ['\n']) := by
      rcases htext with rfl | rfl
      · exact ⟨[], (List.append_nil _).symm, .inl rfl⟩
      · exact ⟨['\n'], rfl, .inr rfl⟩
    obtain ⟨rest, rfl, hend⟩ := hsplit
    exact ⟨rest, run ++ rest, ⟨rfl, rfl⟩, rest,
      ⟨run.length, hmin, hmax, iterated_ofClass.mpr ⟨run, rfl, rfl, hmember⟩⟩, hend, rfl⟩

end Pattern

end Interaction
