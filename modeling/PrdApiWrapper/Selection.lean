import Mathlib.Data.List.Basic
import Mathlib.Data.List.Induction
import Mathlib.Data.List.Range

/-!
# Some of many

The elements of a list at chosen positions, in order: `pick p l`. The element at a chosen position
`t` is found at `rank p t` there, the number of chosen positions before it. Both are used to follow
some of the programs of a pool, under the numbers they have among themselves.
-/

namespace Interaction

variable {α : Type} (p : ℕ → Bool)

/-- How many of the positions before `t` are chosen. -/
def rank (t : ℕ) : ℕ := (List.range t).countP p

/-- The elements at the chosen positions. -/
def pick (l : List α) : List α := (l.zipIdx.filter fun entry => p entry.2).map Prod.fst

variable {p}

theorem rank_succ (t : ℕ) : rank p (t + 1) = rank p t + if p t then 1 else 0 := by
  rw [rank, List.range_succ, List.countP_append, List.countP_singleton]
  rfl

theorem rank_mono {t t' : ℕ} (h : t ≤ t') : rank p t ≤ rank p t' := by
  induction h with
  | refl => exact le_rfl
  | step _ ih =>
    rw [rank_succ]
    exact Nat.le_add_right_of_le ih

/-- A chosen position counts for those after it. -/
theorem rank_lt {t t' : ℕ} (ht : p t = true) (h : t < t') : rank p t < rank p t' := by
  have hle : rank p (t + 1) ≤ rank p t' := rank_mono h
  rw [rank_succ, if_pos ht] at hle
  exact hle

/-- Chosen positions have ranks of their own. -/
theorem rank_inj {t t' : ℕ} (ht : p t = true) (ht' : p t' = true) (h : rank p t = rank p t') :
    t = t' := by
  rcases Nat.lt_trichotomy t t' with hlt | heq | hgt
  · exact absurd h (rank_lt ht hlt).ne
  · exact heq
  · exact absurd h (rank_lt ht' hgt).ne'

/-- The last element is picked or not. -/
theorem pick_concat (l : List α) (a : α) :
    pick p (l ++ [a]) = if p l.length then pick p l ++ [a] else pick p l := by
  rw [pick, List.zipIdx_append, List.filter_append, List.map_append]
  by_cases h : p l.length = true
  · simp [pick, h]
  · simp [pick, h]

theorem length_pick (l : List α) : (pick p l).length = rank p l.length := by
  induction l using List.reverseRecOn with
  | nil => rfl
  | append_singleton l a ih =>
    rw [pick_concat, List.length_append, List.length_singleton, rank_succ, ← ih]
    split
    · rw [List.length_append, List.length_singleton]
    · rfl

/-- Where a chosen element is. -/
theorem pick_getElem? {t : ℕ} (ht : p t = true) (l : List α) :
    (pick p l)[rank p t]? = l[t]? := by
  induction l using List.reverseRecOn with
  | nil => rfl
  | append_singleton l a ih =>
    rcases Nat.lt_trichotomy t l.length with hlt | rfl | hgt
    · have hrank : rank p t < (pick p l).length := by
        rw [length_pick]
        exact rank_lt ht hlt
      rw [pick_concat, List.getElem?_append_left hlt]
      split
      · rw [List.getElem?_append_left hrank, ih]
      · exact ih
    · rw [pick_concat, if_pos ht, ← length_pick, List.getElem?_concat_length,
        List.getElem?_concat_length]
    · have hlong : (l ++ [a]).length ≤ t := by
        rw [List.length_append, List.length_singleton]
        exact hgt
      rw [List.getElem?_eq_none hlong, List.getElem?_eq_none]
      rw [length_pick]
      exact rank_mono hlong

/-- Every element picked was at a chosen position. -/
theorem exists_of_pick {l : List α} {n : ℕ} {a : α} (h : (pick p l)[n]? = some a) :
    ∃ t, p t = true ∧ rank p t = n ∧ l[t]? = some a := by
  induction l using List.reverseRecOn with
  | nil => cases h
  | append_singleton l b ih =>
    have earlier : (pick p l)[n]? = some a →
        ∃ t, p t = true ∧ rank p t = n ∧ (l ++ [b])[t]? = some a := by
      intro h
      obtain ⟨t, ht, hrank, hget⟩ := ih h
      refine ⟨t, ht, hrank, ?_⟩
      rw [List.getElem?_append_left (List.getElem?_eq_some_iff.mp hget).1, hget]
    rw [pick_concat] at h
    split at h
    · next hlast =>
      rcases Nat.lt_trichotomy n (pick p l).length with hlt | rfl | hgt
      · rw [List.getElem?_append_left hlt] at h
        exact earlier h
      · rw [List.getElem?_concat_length] at h
        exact ⟨l.length, hlast, (length_pick l).symm, by rw [List.getElem?_concat_length, h]⟩
      · rw [List.getElem?_eq_none] at h
        · cases h
        · rw [List.length_append, List.length_singleton]
          exact hgt
    · exact earlier h

/-- A change at a chosen position is seen at its rank. -/
theorem pick_set {t : ℕ} (ht : p t = true) (l : List α) (a : α) :
    pick p (l.set t a) = (pick p l).set (rank p t) a := by
  induction l using List.reverseRecOn with
  | nil => rfl
  | append_singleton l b ih =>
    rcases Nat.lt_or_ge t l.length with hlt | hge
    · have hrank : rank p t < (pick p l).length := by
        rw [length_pick]
        exact rank_lt ht hlt
      rw [List.set_append_left _ _ hlt, pick_concat, pick_concat, List.length_set, ih]
      split
      · rw [List.set_append_left _ _ hrank]
      · rfl
    · have hrank : (pick p l).length ≤ rank p t := by
        rw [length_pick]
        exact rank_mono hge
      rw [List.set_append_right _ _ hge]
      rcases Nat.eq_or_lt_of_le hge with rfl | hgt
      · rw [Nat.sub_self, List.set_cons_zero, pick_concat, pick_concat, if_pos ht, if_pos ht,
          List.set_append_right _ _ hrank, length_pick, Nat.sub_self, List.set_cons_zero]
      · have hpos : t - l.length ≠ 0 := Nat.sub_ne_zero_of_lt hgt
        have hout : [b].set (t - l.length) a = [b] := List.set_eq_of_length_le
          (by rw [List.length_singleton]; omega)
        have hlong : (pick p (l ++ [b])).length ≤ rank p t := by
          rw [length_pick, List.length_append, List.length_singleton]
          exact rank_mono hgt
        rw [hout, List.set_eq_of_length_le hlong]

/-- A change at any other position is not seen. -/
theorem pick_set_of_not {t : ℕ} (ht : p t = false) (l : List α) (a : α) :
    pick p (l.set t a) = pick p l := by
  induction l using List.reverseRecOn with
  | nil => rfl
  | append_singleton l b ih =>
    rcases Nat.lt_or_ge t l.length with hlt | hge
    · rw [List.set_append_left _ _ hlt, pick_concat, pick_concat, List.length_set, ih]
    · rw [List.set_append_right _ _ hge]
      rcases Nat.eq_or_lt_of_le hge with rfl | hgt
      · rw [Nat.sub_self, List.set_cons_zero, pick_concat, pick_concat, ht]
        rfl
      · have hout : [b].set (t - l.length) a = [b] := List.set_eq_of_length_le
          (by rw [List.length_singleton]; omega)
        rw [hout]

end Interaction
