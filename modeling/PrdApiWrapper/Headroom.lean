import Mathlib.Algebra.Order.Field.Basic
import Mathlib.Order.Bounds.Basic
import Mathlib.Tactic.Ring

/-!
# A level that refills up to a cap

A level starts full, rises at a constant rate, never above its cap, and is drawn on from time to
time. It is a single number, while the law it is meant to enforce speaks of every moment of the
past: counted from any earlier start point, no more may have been drawn than the cap plus what has
accrued since.

The two are the same. Keep for each start point what has been drawn since; its **headroom** is what
may still be drawn without breaking the law for that start point. The level is exactly the greatest
lower bound of the headrooms (`Tight`): refilling for a while raises every headroom by the same
amount and adds the present moment as a start point whose headroom is the cap (`Tight.refill`),
and drawing lowers them all (`Tight.spend`). Nothing here needs the clock to run forwards.
-/

namespace Headroom

variable {K : Type*} [Field K] [LinearOrder K]

/-- A start point: a moment, and what has been drawn since. -/
structure Start (K : Type*) where
  /-- the moment -/
  time : K
  /-- what has been drawn from then on -/
  spent : K

/-- Draw `x` more since a start point. -/
def Start.charge (x : K) (s : Start K) : Start K := ⟨s.time, s.spent + x⟩

/-- What may still be drawn at `now` counting from `s`. -/
def headroom (cap rate now : K) (s : Start K) : K := cap + rate * (now - s.time) - s.spent

/-- The level is the greatest lower bound of the headrooms of all start points. -/
def Tight (cap rate now : K) (starts : List (Start K)) (level : K) : Prop :=
  IsGLB (headroom cap rate now '' {s | s ∈ starts}) level

/-- An amount is within the level exactly if it is within every headroom. -/
theorem Tight.le_iff {cap rate now level : K} {starts : List (Start K)}
    (h : Tight cap rate now starts level) (x : K) :
    x ≤ level ↔ ∀ s ∈ starts, x ≤ headroom cap rate now s := by
  rw [le_isGLB_iff h, mem_lowerBounds, Set.forall_mem_image]
  rfl

/-- To be tight is to be within the level exactly when within every headroom. -/
theorem tight_of_le_iff {cap rate now level : K} {starts : List (Start K)}
    (h : ∀ x, x ≤ level ↔ ∀ s ∈ starts, x ≤ headroom cap rate now s) :
    Tight cap rate now starts level := by
  apply isGLB_iff_le_iff.mpr
  intro x
  rw [h x, mem_lowerBounds, Set.forall_mem_image]
  rfl

/-- A full level is tight for its own beginning. -/
theorem Tight.full (cap rate now : K) : Tight cap rate now [⟨now, 0⟩] cap := by
  apply tight_of_le_iff
  intro x
  simp [headroom]

section

variable [IsStrictOrderedRing K]

/-- Refilling: the level rises at the rate up to the cap, and the present is a new start point. -/
theorem Tight.refill {cap rate now level : K} {starts : List (Start K)}
    (h : Tight cap rate now starts level) (now' : K) :
    Tight cap rate now' (⟨now', 0⟩ :: starts) (min cap (level + (now' - now) * rate)) := by
  apply tight_of_le_iff
  intro x
  have hnew : headroom cap rate now' ⟨now', 0⟩ = cap := by simp [headroom]
  have hold : x ≤ level + (now' - now) * rate ↔ ∀ s ∈ starts, x ≤ headroom cap rate now' s := by
    rw [← sub_le_iff_le_add, h.le_iff]
    refine forall₂_congr fun s _ => ?_
    rw [sub_le_iff_le_add]
    refine iff_of_eq (congrArg (x ≤ ·) ?_)
    simp only [headroom]
    ring
  rw [le_min_iff, List.forall_mem_cons, hnew, hold]

/-- Drawing `x`: every start point is charged. -/
theorem Tight.spend {cap rate now level : K} {starts : List (Start K)}
    (h : Tight cap rate now starts level) (x : K) :
    Tight cap rate now (starts.map (Start.charge x)) (level - x) := by
  apply tight_of_le_iff
  intro y
  rw [le_sub_iff_add_le, h.le_iff, List.forall_mem_map]
  refine forall₂_congr fun s _ => ?_
  rw [← le_sub_iff_add_le]
  refine iff_of_eq (congrArg (y ≤ ·) ?_)
  simp only [headroom, Start.charge]
  ring

end

end Headroom
