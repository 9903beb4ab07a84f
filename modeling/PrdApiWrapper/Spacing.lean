import Mathlib.Algebra.Order.Floor.Ring
import Mathlib.Algebra.Order.Field.Basic
import Mathlib.Data.List.Chain
import Mathlib.Tactic.Linarith

/-!
# Moments that keep a distance

A list of moments of which each, from some position on, comes at least a gap after the one before.
Such moments are rare: `SpacedFrom.count_le` bounds how many of them fall into an interval.
-/

namespace Spacing

variable {K : Type*} [Field K] [LinearOrder K]

/-- From the `n`-th moment on, each comes at least `gap` after the one before. -/
def SpacedFrom (n : ℕ) (gap : K) (moments : List K) : Prop :=
  (moments.drop (n - 1)).IsChain fun a b => a + gap ≤ b

variable {n : ℕ} {gap : K} {moments : List K}

theorem SpacedFrom.nil (n : ℕ) (gap : K) : SpacedFrom n gap [] := by
  rw [SpacedFrom, List.drop_nil]
  exact .nil

/-- One moment more: it has to keep the distance once there are `n`. -/
theorem SpacedFrom.snoc (h : SpacedFrom n gap moments) (hn : 1 ≤ n) {moment : K}
    (hlast : n ≤ moments.length → ∀ last ∈ moments.getLast?, last + gap ≤ moment) :
    SpacedFrom n gap (moments ++ [moment]) := by
  rw [SpacedFrom, List.drop_append]
  refine List.IsChain.append h ?_ ?_
  · cases n - 1 - moments.length <;> simp
  · intro last hmem next hnext
    have hmany : n ≤ moments.length := by
      by_contra hfew
      rw [List.drop_eq_nil_of_le (by omega)] at hmem
      cases hmem
    rw [List.getLast?_drop, if_neg (by omega)] at hmem
    rw [show n - 1 - moments.length = 0 by omega] at hnext
    obtain rfl : moment = next := by simpa using hnext
    exact hlast hmany last hmem

variable [IsStrictOrderedRing K]

/-- Moments that keep their distance take up time. -/
theorem length_mul_gap_le (hgap : 0 < gap) (hspaced : moments.Pairwise fun a b => a + gap ≤ b) :
    ∀ {lo hi : K}, lo ≤ hi → (∀ x ∈ moments, lo ≤ x ∧ x ≤ hi) →
      moments.length * gap ≤ hi - lo + gap := by
  induction hspaced with
  | nil =>
    intro lo hi hle _
    rw [List.length_nil, Nat.cast_zero, zero_mul]
    linarith
  | @cons x rest hx _ ih =>
    intro lo hi hle hbounds
    obtain ⟨hlo, hhi⟩ := hbounds x List.mem_cons_self
    rw [List.length_cons, Nat.cast_succ, add_mul, one_mul]
    cases rest with
    | nil =>
      rw [List.length_nil, Nat.cast_zero, zero_mul]
      linarith
    | cons y rest =>
      -- the rest lies in what is left after `x` and a gap
      have hy := hx y List.mem_cons_self
      have hyhi := (hbounds y (List.mem_cons_of_mem _ List.mem_cons_self)).2
      have hrest := ih (hy.trans hyhi) fun z hz =>
        ⟨hx z hz, (hbounds z (List.mem_cons_of_mem _ hz)).2⟩
      linarith

/-- **How many moments fall into an interval** of length `width`: the `n - 1` that need not keep the
distance, and of the others one more than there are gaps. -/
theorem SpacedFrom.count_le [FloorRing K] (h : SpacedFrom n gap moments) (hn : 1 ≤ n)
    (hgap : 0 < gap) (start : K) {width : K} (hwidth : 0 ≤ width) :
    (moments.countP (fun x => start ≤ x ∧ x ≤ start + width) : ℤ) ≤ n + ⌊width / gap⌋ := by
  have hpairwise : (moments.drop (n - 1)).Pairwise fun a b => a + gap ≤ b := by
    have : IsTrans K fun a b => a + gap ≤ b := ⟨fun a b c hab hbc => by linarith⟩
    exact List.IsChain.pairwise h
  have hearly : (moments.take (n - 1)).countP (fun x => start ≤ x ∧ x ≤ start + width) ≤ n - 1 :=
    List.countP_le_length.trans (List.length_take_le ..)
  have hlate := length_mul_gap_le hgap
    (hpairwise.filter fun x => start ≤ x ∧ x ≤ start + width)
    (le_add_of_nonneg_right hwidth) fun x hx => of_decide_eq_true (List.mem_filter.mp hx).2
  rw [← List.countP_eq_length_filter, add_sub_cancel_left] at hlate
  have hfloor : ((moments.drop (n - 1)).countP (fun x => start ≤ x ∧ x ≤ start + width) : ℤ) - 1 ≤
      ⌊width / gap⌋ := by
    rw [Int.le_floor, le_div_iff₀ hgap]
    push_cast
    linarith
  rw [← List.take_append_drop (n - 1) moments, List.countP_append]
  push_cast
  omega

end Spacing
