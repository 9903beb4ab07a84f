import Mathlib.Algebra.Order.Field.Power
import Mathlib.Algebra.Order.Floor.Ring
import Mathlib.Algebra.Ring.Int.Parity
import Mathlib.Data.Int.Log
import Mathlib.Tactic.Linarith
import Mathlib.Tactic.NormNum
import Mathlib.Tactic.Ring

/-!
# Rounding to a binary format

A binary format has so many digits, and a least unit. A number is rounded to a multiple of the unit
of its last digit (`Format.unit`), to the nearest one and to the even one of two that are equally
near (`nearestEven`). Numbers of a different size have a different unit, so that rounding is not one
function on a grid but one for each size; it is monotone nevertheless, because between two numbers
of different units there is always one that is a multiple of both (`Format.exists_between`).

That rounding is monotone, changes no number of the format and takes integers to integers is all
that is needed to bound what a program computes with it. The range of a format is not part of it:
a number too large is rounded as if there were no greatest exponent.
-/

namespace Rounding

variable {K : Type*} [Field K]

/-! ## Multiples of a unit -/

/-- The multiples of `2 ^ e`. -/
def Multiple (e : ℤ) (x : K) : Prop := ∃ m : ℤ, x = m * 2 ^ e

theorem Multiple.zero (e : ℤ) : Multiple e (0 : K) := ⟨0, by simp⟩

theorem Multiple.neg {e : ℤ} {x : K} (h : Multiple e x) : Multiple e (-x) := by
  obtain ⟨m, rfl⟩ := h
  exact ⟨-m, by push_cast; ring⟩

/-- A multiple of a unit is one of every smaller unit. -/
theorem Multiple.anti [NeZero (2 : K)] {e e' : ℤ} {x : K} (h : Multiple e x) (he : e' ≤ e) :
    Multiple e' x := by
  obtain ⟨m, rfl⟩ := h
  obtain ⟨k, rfl⟩ := Int.le.dest he
  refine ⟨m * 2 ^ k, ?_⟩
  push_cast
  rw [zpow_add₀ two_ne_zero, zpow_natCast, mul_comm ((2 : K) ^ e'), mul_assoc]

theorem Multiple.pow [NeZero (2 : K)] {e k : ℤ} (h : e ≤ k) : Multiple e ((2 : K) ^ k) :=
  Multiple.anti ⟨1, by simp⟩ h

/-- The integers are the multiples of one. -/
theorem multiple_zero_iff {x : K} : Multiple 0 x ↔ ∃ m : ℤ, x = m := by
  simp [Multiple]

/-! ## Formats -/

/-- A binary format: a number of it is an integer of so many digits times a power of two. -/
structure Format where
  /-- how many binary digits a number has -/
  precision : ℕ
  /-- the exponent of the least unit -/
  least : ℤ
  precision_pos : 0 < precision

namespace Format

variable {format : Format} {x : K}

/-- The numbers of the format. -/
def Representable (format : Format) (x : K) : Prop :=
  ∃ m e : ℤ, |m| ≤ 2 ^ format.precision ∧ format.least ≤ e ∧ x = m * 2 ^ e

theorem Representable.zero : format.Representable (0 : K) :=
  ⟨0, format.least, by simp, le_rfl, by simp⟩

theorem Representable.pow {k : ℤ} (hk : format.least ≤ k) :
    format.Representable ((2 : K) ^ k) := by
  refine ⟨1, k, ?_, hk, by simp⟩
  rw [abs_one]
  exact one_le_pow₀ one_le_two

theorem Representable.neg (h : format.Representable x) : format.Representable (-x) := by
  obtain ⟨m, e, hm, he, rfl⟩ := h
  exact ⟨-m, e, by rwa [abs_neg], he, by push_cast; ring⟩

end Format

variable [LinearOrder K] [FloorRing K]

/-! ## To an integer -/

/-- The nearest integer, the even one of two that are equally near. -/
def nearestEven (x : K) : ℤ :=
  if Int.fract x < 1 / 2 then ⌊x⌋
  else if 1 / 2 < Int.fract x then ⌊x⌋ + 1
  else if Even ⌊x⌋ then ⌊x⌋ else ⌊x⌋ + 1

theorem floor_le_nearestEven (x : K) : ⌊x⌋ ≤ nearestEven x := by
  unfold nearestEven
  split_ifs <;> omega

theorem nearestEven_le_floor_add_one (x : K) : nearestEven x ≤ ⌊x⌋ + 1 := by
  unfold nearestEven
  split_ifs <;> omega

variable [IsStrictOrderedRing K]

@[simp] theorem nearestEven_intCast (n : ℤ) : nearestEven (n : K) = n := by
  simp [nearestEven]

theorem nearestEven_mono {x y : K} (h : x ≤ y) : nearestEven x ≤ nearestEven y := by
  rcases (Int.floor_mono h).lt_or_eq with hlt | heq
  · calc nearestEven x ≤ ⌊x⌋ + 1 := nearestEven_le_floor_add_one x
      _ ≤ ⌊y⌋ := hlt
      _ ≤ nearestEven y := floor_le_nearestEven y
  · -- on one side of the same integer, the parts after the point decide
    have hfract : Int.fract x ≤ Int.fract y := by
      rw [Int.fract, Int.fract, heq]
      exact sub_le_sub_right h _
    unfold nearestEven
    rw [heq]
    split_ifs <;> first | omega | linarith

/-! ## To a multiple of a unit -/

/-- The nearest multiple of `2 ^ e`. -/
def toMultiple (e : ℤ) (x : K) : K := nearestEven (x / 2 ^ e) * 2 ^ e

omit [IsStrictOrderedRing K] in
theorem multiple_toMultiple (e : ℤ) (x : K) : Multiple e (toMultiple e x) := ⟨_, rfl⟩

theorem toMultiple_eq {e : ℤ} {x : K} (h : Multiple e x) : toMultiple e x = x := by
  obtain ⟨m, rfl⟩ := h
  rw [toMultiple, mul_div_cancel_right₀ _ (zpow_ne_zero e two_ne_zero), nearestEven_intCast]

theorem toMultiple_mono (e : ℤ) {x y : K} (h : x ≤ y) : toMultiple e x ≤ toMultiple e y := by
  have hunit : (0 : K) < 2 ^ e := zpow_pos two_pos e
  have hnearest : nearestEven (x / 2 ^ e) ≤ nearestEven (y / 2 ^ e) :=
    nearestEven_mono (div_le_div_of_nonneg_right h hunit.le)
  exact mul_le_mul_of_nonneg_right (by exact_mod_cast hnearest) hunit.le

/-! ## To a format -/

namespace Format

variable (format : Format)

/-- The exponent of the unit of the last digit of `x`. -/
def unit (x : K) : ℤ := max (Int.log 2 |x| + 1 - format.precision) format.least

/-- `x` rounded to the format. -/
def round (x : K) : K := toMultiple (format.unit x) x

variable {format} {x y : K}

theorem abs_lt_pow (x : K) : |x| < 2 ^ (Int.log 2 |x| + 1) := by
  have := Int.lt_zpow_succ_log_self (R := K) one_lt_two |x|
  exact_mod_cast this

theorem pow_le_abs (hx : x ≠ 0) : 2 ^ Int.log 2 |x| ≤ |x| := by
  have := Int.zpow_log_le_self (R := K) one_lt_two (abs_pos.mpr hx)
  exact_mod_cast this

omit [IsStrictOrderedRing K] in
/-- The number with the greater unit has its first digit where the other has none, and a power of
two for it that is a multiple of its unit. -/
theorem log_of_unit_lt (h : format.unit x < format.unit y) :
    Int.log 2 |x| + 1 ≤ Int.log 2 |y| ∧ format.unit y ≤ Int.log 2 |y| := by
  have hprecision := format.precision_pos
  unfold unit at h ⊢
  omega

theorem abs_lt_of_unit_lt (h : format.unit x < format.unit y) : |x| < 2 ^ Int.log 2 |y| :=
  (abs_lt_pow x).trans_le (zpow_le_zpow_right₀ one_le_two (log_of_unit_lt h).1)

/-- Between two numbers of different units there is one that is a multiple of both. -/
theorem exists_between (h : x ≤ y) (hunit : format.unit x ≠ format.unit y) :
    ∃ c, x ≤ c ∧ c ≤ y ∧ Multiple (format.unit x) c ∧ Multiple (format.unit y) c := by
  have hpow : ∀ {z : K}, 0 < z → 2 ^ Int.log 2 |z| ≤ z := fun {z} hz =>
    (pow_le_abs hz.ne').trans_eq (abs_of_pos hz)
  rcases le_or_gt x 0 with hx | hx
  · rcases le_or_gt 0 y with hy | hy
    · exact ⟨0, hx, hy, .zero _, .zero _⟩
    · -- both negative: the power of two below `|x|`, taken negative
      have hx' : x < 0 := h.trans_lt hy
      have habs : |y| ≤ |x| := by
        rw [abs_of_neg hx', abs_of_neg hy]
        exact neg_le_neg h
      have hlt : format.unit y < format.unit x := by
        refine lt_of_le_of_ne (max_le_max_right _ ?_) hunit.symm
        have := Int.log_mono_right (b := 2) (abs_pos.mpr hy.ne) habs
        omega
      have hbelow := pow_le_abs hx'.ne
      have habove := abs_lt_of_unit_lt hlt
      rw [abs_of_neg hx'] at hbelow
      rw [abs_of_neg hy] at habove
      have hfirst := (log_of_unit_lt hlt).2
      refine ⟨-2 ^ Int.log 2 |x|, ?_, ?_, (Multiple.pow hfirst).neg,
        (Multiple.pow (hlt.le.trans hfirst)).neg⟩
      · rw [abs_of_neg hx']
        linarith
      · linarith
  · have hy : 0 < y := hx.trans_le h
    have hlt : format.unit x < format.unit y := by
      refine lt_of_le_of_ne (max_le_max_right _ ?_) hunit
      have := Int.log_mono_right (b := 2) (abs_pos.mpr hx.ne')
        (abs_le_abs_of_nonneg hx.le h)
      omega
    have habove := abs_lt_of_unit_lt hlt
    rw [abs_of_pos hx] at habove
    have hfirst := (log_of_unit_lt hlt).2
    exact ⟨2 ^ Int.log 2 |y|, habove.le, hpow hy, .pow (hlt.le.trans hfirst), .pow hfirst⟩

/-- **Rounding is monotone.** -/
theorem round_mono (h : x ≤ y) : format.round x ≤ format.round y := by
  unfold round
  by_cases hunit : format.unit x = format.unit y
  · rw [hunit]
    exact toMultiple_mono _ h
  · obtain ⟨c, hx, hy, hcx, hcy⟩ := exists_between h hunit
    calc toMultiple (format.unit x) x ≤ toMultiple (format.unit x) c := toMultiple_mono _ hx
      _ = c := toMultiple_eq hcx
      _ = toMultiple (format.unit y) c := (toMultiple_eq hcy).symm
      _ ≤ toMultiple (format.unit y) y := toMultiple_mono _ hy

/-- What is rounded has no more digits than the format. -/
theorem round_representable (x : K) : format.Representable (format.round x) := by
  refine ⟨_, format.unit x, ?_, le_max_right _ _, rfl⟩
  have hunit : (0 : K) < 2 ^ format.unit x := zpow_pos two_pos _
  have hsize : |x| ≤ 2 ^ format.precision * 2 ^ format.unit x := by
    rw [← zpow_natCast, ← zpow_add₀ two_ne_zero]
    refine (abs_lt_pow x).le.trans (zpow_le_zpow_right₀ one_le_two ?_)
    have := le_max_left (Int.log 2 |x| + 1 - format.precision) format.least
    unfold unit
    omega
  have hscaled : |x / 2 ^ format.unit x| ≤ ((2 ^ format.precision : ℤ) : K) := by
    rw [abs_div, abs_of_pos hunit, div_le_iff₀ hunit]
    push_cast
    exact hsize
  obtain ⟨hlow, hhigh⟩ := abs_le.mp hscaled
  have hbelow := nearestEven_mono hlow
  have habove := nearestEven_mono hhigh
  rw [← Int.cast_neg, nearestEven_intCast] at hbelow
  rw [nearestEven_intCast] at habove
  exact abs_le.mpr ⟨hbelow, habove⟩

/-- **Rounding changes no number of the format.** -/
theorem round_of_representable (h : format.Representable x) : format.round x = x := by
  apply toMultiple_eq
  obtain ⟨m, e, hm, he, rfl⟩ := h
  rcases eq_or_ne m 0 with rfl | hne
  · simpa using Multiple.zero _
  have hpow : (0 : K) < 2 ^ e := zpow_pos two_pos e
  have hsize : |(m : K) * 2 ^ e| ≤ 2 ^ (format.precision + e) := by
    rw [abs_mul, abs_of_pos hpow, zpow_add₀ two_ne_zero, zpow_natCast]
    exact mul_le_mul_of_nonneg_right (by exact_mod_cast hm) hpow.le
  have hx : (m : K) * 2 ^ e ≠ 0 := mul_ne_zero (by exact_mod_cast hne) hpow.ne'
  have hlog : Int.log 2 |(m : K) * 2 ^ e| ≤ format.precision + e := by
    have := (pow_le_abs hx).trans hsize
    exact (zpow_le_zpow_iff_right₀ one_lt_two).mp this
  rcases hlog.lt_or_eq with hlt | heq
  · refine Multiple.anti ⟨m, rfl⟩ (max_le ?_ he)
    omega
  · -- the one number of so many digits whose unit is greater is a power of two
    have hfirst := pow_le_abs hx
    rw [heq] at hfirst
    have habs := le_antisymm hsize hfirst
    have hprecision := format.precision_pos
    have hunit : format.unit ((m : K) * 2 ^ e) ≤ format.precision + e := by
      unfold unit
      omega
    rcases abs_choice ((m : K) * 2 ^ e) with hself | hneg
    · rw [hself] at habs
      rw [habs] at hunit ⊢
      exact .pow hunit
    · rw [hneg] at habs
      rw [← neg_neg ((m : K) * 2 ^ e), habs]
      rw [neg_eq_iff_eq_neg.mp habs] at hunit
      exact (Multiple.pow hunit).neg

@[simp] theorem round_round (x : K) : format.round (format.round x) = format.round x :=
  round_of_representable (round_representable x)

@[simp] theorem round_zero : format.round (0 : K) = 0 :=
  round_of_representable .zero

theorem round_nonneg (h : 0 ≤ x) : 0 ≤ format.round x := by
  rw [← round_zero (K := K)]
  exact round_mono h

/-- **Rounding takes integers to integers.** -/
theorem round_intCast (n : ℤ) : ∃ m : ℤ, format.round (n : K) = m := by
  rcases le_or_gt 0 (format.unit (n : K)) with hunit | hunit
  · exact multiple_zero_iff.mp ((multiple_toMultiple _ _).anti hunit)
  · refine ⟨n, toMultiple_eq (Multiple.anti ?_ hunit.le)⟩
    exact multiple_zero_iff.mpr ⟨n, rfl⟩

end Format

end Rounding
