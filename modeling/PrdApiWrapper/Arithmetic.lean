import PrdApiWrapper.Errors
import PrdApiWrapper.Rounding
import Mathlib.Data.Rat.Floor

/-!
# Arithmetic on numbers

An operation on floats has an exact result, and that becomes a float. How it does is a parameter
here, `toFloat`: with `PyFloat.fin` nothing is lost, and with `double` it is what a Python float
does, rounding to 53 digits and, beyond the range, to an infinity.

A number may also be an `int`, which has no bounds. It is compared with a float as it is, and turned
into one where it is computed with: that raises if there is none.
-/

namespace PrdApiWrapper

namespace PyFloat

/-! ## Doubles -/

/-- The format of a `float`, its greatest exponent apart. -/
def binary64 : Rounding.Format := ⟨53, -1074, by decide⟩

/-- The float that a result becomes: the nearest one, or an infinity beyond the range. -/
def double (x : ℚ) : PyFloat :=
  let nearest := binary64.round x
  if 2 ^ 1024 ≤ nearest then .inf else if nearest ≤ -2 ^ 1024 then .negInf else .fin nearest

/-- `x` is a float. -/
def IsDouble (x : ℚ) : Prop := double x = .fin x

variable {x y z a b : ℚ}

theorem double_eq_fin : double x = .fin a ↔
    -2 ^ 1024 < binary64.round x ∧ binary64.round x < 2 ^ 1024 ∧ binary64.round x = a := by
  simp only [double]
  split_ifs with hhigh hlow
  · exact iff_of_false not_false fun h => absurd h.2.1 (not_lt.mpr hhigh)
  · exact iff_of_false not_false fun h => absurd h.1 (not_lt.mpr hlow)
  · rw [PyFloat.fin.injEq]
    exact ⟨fun h => ⟨not_le.mp hlow, not_le.mp hhigh, h⟩, fun h => h.2.2⟩

/-- What a result becomes is a float. -/
theorem isDouble_of_double (h : double x = .fin a) : IsDouble a := by
  obtain ⟨hlow, hhigh, rfl⟩ := double_eq_fin.mp h
  refine double_eq_fin.mpr ?_
  rw [Rounding.Format.round_round]
  exact ⟨hlow, hhigh, rfl⟩

/-- **Between results that are finite**, results are. -/
theorem double_between (hy : y ≤ x) (hz : x ≤ z) (ha : double y = .fin a) (hb : double z = .fin b) :
    ∃ c, double x = .fin c ∧ a ≤ c ∧ c ≤ b := by
  obtain ⟨hlow, -, rfl⟩ := double_eq_fin.mp ha
  obtain ⟨-, hhigh, rfl⟩ := double_eq_fin.mp hb
  have hbelow : binary64.round y ≤ binary64.round x := Rounding.Format.round_mono hy
  have habove : binary64.round x ≤ binary64.round z := Rounding.Format.round_mono hz
  exact ⟨_, double_eq_fin.mpr ⟨hlow.trans_le hbelow, habove.trans_lt hhigh, rfl⟩, hbelow, habove⟩

theorem isDouble_of_representable (h : binary64.Representable x) (hx : |x| < 2 ^ 1024) :
    IsDouble x := by
  refine double_eq_fin.mpr ?_
  rw [Rounding.Format.round_of_representable h]
  exact ⟨(abs_lt.mp hx).1, (abs_lt.mp hx).2, rfl⟩

/-- Powers of two in the range are floats, and so are their negatives. -/
theorem isDouble_pow {k : ℤ} (hleast : -1074 ≤ k) (hk : k < 1024) :
    IsDouble (2 ^ k) ∧ IsDouble (-2 ^ k) := by
  have hrange : |(2 : ℚ) ^ k| < 2 ^ 1024 := by
    rw [abs_of_pos (zpow_pos two_pos k)]
    exact_mod_cast zpow_lt_zpow_right₀ (one_lt_two : (1 : ℚ) < 2) hk
  have hpow : binary64.Representable ((2 : ℚ) ^ k) := Rounding.Format.Representable.pow hleast
  exact ⟨isDouble_of_representable hpow hrange,
    isDouble_of_representable hpow.neg (by rwa [abs_neg])⟩

theorem double_zero : double 0 = .fin 0 := by decide +kernel

theorem double_one : double 1 = .fin 1 := by
  have hpow := (isDouble_pow (k := 0) (by decide) (by decide)).1
  rwa [zpow_zero] at hpow

/-- An integer becomes a float that is one. -/
theorem double_intCast {n : ℤ} (h : double n = .fin a) : ∃ m : ℤ, a = m := by
  obtain ⟨m, hm⟩ : ∃ m : ℤ, binary64.round (n : ℚ) = m := Rounding.Format.round_intCast n
  exact ⟨m, (double_eq_fin.mp h).2.2.symm.trans hm⟩

/-- Beyond the range. -/
theorem double_inf : double (2 ^ 1024) = .inf := by
  have hround : binary64.round ((2 : ℚ) ^ (1024 : ℤ)) = 2 ^ (1024 : ℤ) :=
    Rounding.Format.round_of_representable (.pow (by decide))
  simp only [zpow_ofNat] at hround
  simp only [double, hround, le_refl, if_true]

/-! ## Operations -/

/-- An infinity with the sign of `q`. -/
def infinity (q : ℚ) : PyFloat := if 0 < q then .inf else if q < 0 then .negInf else .nan

/-- `-a`. -/
def neg : PyFloat → PyFloat
  | .fin a => .fin (-a)
  | .inf => .negInf
  | .negInf => .inf
  | .nan => .nan

/-- `a <= b`: false whenever a NaN takes part. -/
def le (a b : PyFloat) : Bool := a.lt b || (decide (a = b) && decide (a ≠ .nan))

theorem le_fin (a b : ℚ) : (fin a).le (fin b) = decide (a ≤ b) := by
  simp [le, lt, le_iff_lt_or_eq, Bool.decide_or]

section

variable (toFloat : ℚ → PyFloat)

/-- `a + b`, the result being a float. -/
def plus : PyFloat → PyFloat → PyFloat
  | .fin a, .fin b => toFloat (a + b)
  | a, b => a.add b

/-- `a - b`. -/
def minus (a b : PyFloat) : PyFloat := plus toFloat a b.neg

@[simp] theorem minus_fin (a b : ℚ) : minus toFloat (.fin a) (.fin b) = toFloat (a - b) :=
  congrArg toFloat (sub_eq_add_neg a b).symm

/-- `a * b`. -/
def times : PyFloat → PyFloat → PyFloat
  | .fin a, .fin b => toFloat (a * b)
  | .nan, _ => .nan
  | _, .nan => .nan
  | .inf, .fin b => infinity b
  | .negInf, .fin b => infinity (-b)
  | .fin a, .inf => infinity a
  | .fin a, .negInf => infinity (-a)
  | .inf, .inf => .inf
  | .negInf, .negInf => .inf
  | .inf, .negInf => .negInf
  | .negInf, .inf => .negInf

/-- `a / b` for a `b` that is not zero. -/
def quotient : PyFloat → PyFloat → PyFloat
  | .fin a, .fin b => toFloat (a / b)
  | .nan, _ => .nan
  | _, .nan => .nan
  | .inf, .fin b => infinity b
  | .negInf, .fin b => infinity (-b)
  | .fin _, _ => .fin 0
  | _, _ => .nan

/-- `a / b`, which raises for a zero before it looks at `a`. -/
def divided (a b : PyFloat) : Except Exc PyFloat :=
  if b = .fin 0 then .error (.foreign "ZeroDivisionError") else .ok (quotient toFloat a b)

end

/-! ## What is not negative -/

/-- Zero or more, infinity included. -/
def Nonneg : PyFloat → Prop
  | .fin q => 0 ≤ q
  | .inf => True
  | .negInf | .nan => False

theorem double_nonneg (h : 0 ≤ x) : (double x).Nonneg := by
  have hround : 0 ≤ binary64.round x := Rounding.Format.round_nonneg h
  have hlow : ¬ binary64.round x ≤ -2 ^ 1024 := by
    refine not_le.mpr (lt_of_lt_of_le ?_ hround)
    exact neg_lt_zero.mpr (pow_pos two_pos _)
  simp only [double, hlow, if_false]
  split_ifs
  · trivial
  · exact hround

theorem plus_nonneg {x y : PyFloat} (hx : x.Nonneg) (hy : y.Nonneg) :
    (plus double x y).Nonneg := by
  match x, y, hx, hy with
  | .fin a, .fin b, ha, hb => exact double_nonneg (add_nonneg ha hb)
  | .fin _, .inf, _, _ | .inf, .fin _, _, _ | .inf, .inf, _, _ => trivial

/-- A sum is a float, if it is finite. -/
theorem isDouble_plus {x y : PyFloat} (h : plus double x y = .fin a) : IsDouble a := by
  match x, y, h with
  | .fin x, .fin y, h => exact isDouble_of_double h

theorem times_nonneg {x : PyFloat} (hx : x.Nonneg) (hb : 0 < b) :
    (times double x (.fin b)).Nonneg := by
  match x, hx with
  | .fin a, ha => exact double_nonneg (mul_nonneg ha hb.le)
  | .inf, _ =>
    simp only [times, infinity, hb, if_true]
    trivial

theorem divided_nonneg {x : PyFloat} (hx : x.Nonneg) (hb : 0 < b) :
    ∃ y, divided double x (.fin b) = .ok y ∧ y.Nonneg := by
  have hne : PyFloat.fin b ≠ .fin 0 := fun h => hb.ne' (PyFloat.fin.inj h)
  refine ⟨quotient double x (.fin b), if_neg hne, ?_⟩
  match x, hx with
  | .fin a, ha => exact double_nonneg (div_nonneg ha hb.le)
  | .inf, _ =>
    simp only [quotient, infinity, hb, if_true]
    trivial

/-- Whatever is divided by zero raises. -/
@[simp] theorem divided_zero (toFloat : ℚ → PyFloat) (x : PyFloat) :
    divided toFloat x (.fin 0) = .error (.foreign "ZeroDivisionError") := if_pos rfl

end PyFloat

/-! ## Numbers -/

/-- A Python number: an `int` or a `float`. -/
inductive PyNumber where
  | int : ℤ → PyNumber
  | float : PyFloat → PyNumber
  deriving DecidableEq

namespace PyNumber

/-- The number itself, whatever its type. -/
def value : PyNumber → PyFloat
  | .int n => .fin n
  | .float x => x

/-- `min(a, b)`: the first argument unless the second is less. -/
def pyMin (a b : PyNumber) : PyNumber := if b.value.lt a.value then b else a

/-- `max(a, b)`: the first argument unless the second is greater. -/
def pyMax (a b : PyNumber) : PyNumber := if a.value.lt b.value then b else a

/-- `math.floor(x)`. -/
def floor : PyNumber → Except Exc ℤ
  | .int n => .ok n
  | .float (.fin x) => .ok ⌊x⌋
  | .float .nan => .error (.foreign "ValueError")
  | .float _ => .error (.foreign "OverflowError")

section

variable (toFloat : ℚ → PyFloat)

/-- `float(x)`: a number beyond the range raises. -/
def asFloat : PyNumber → Except Exc PyFloat
  | .float x => .ok x
  | .int n =>
    match toFloat n with
    | .fin x => .ok (.fin x)
    | _ => .error (.foreign "OverflowError")

/-- `a + b`. -/
def plus : PyNumber → PyNumber → Except Exc PyNumber
  | .int a, .int b => .ok (.int (a + b))
  | a, b => do
    let x ← a.asFloat toFloat
    let y ← b.asFloat toFloat
    pure (.float (x.plus toFloat y))

/-- `a - b`. -/
def minus : PyNumber → PyNumber → Except Exc PyNumber
  | .int a, .int b => .ok (.int (a - b))
  | a, b => do
    let x ← a.asFloat toFloat
    let y ← b.asFloat toFloat
    pure (.float (x.minus toFloat y))

/-- `a / b`. The quotient of two `int`s is not one of floats: it is rounded once, and raises where a
float would be infinite. -/
def divided : PyNumber → PyNumber → Except Exc PyFloat
  | .int a, .int b =>
    if b = 0 then .error (.foreign "ZeroDivisionError") else
    match toFloat (a / b) with
    | .fin x => .ok (.fin x)
    | _ => .error (.foreign "OverflowError")
  | a, b => do
    let x ← a.asFloat toFloat
    let y ← b.asFloat toFloat
    x.divided toFloat y

end

variable {toFloat : ℚ → PyFloat} {a b : PyNumber} {x y : ℚ}

/-! ## Numbers that are finite -/

theorem floor_of_value (h : a.value = .fin x) : a.floor = .ok ⌊x⌋ := by
  cases a with
  | int n =>
    cases h
    exact congrArg Except.ok (Int.floor_intCast n).symm
  | float t =>
    cases h
    rfl

theorem value_pyMin (ha : a.value = .fin x) (hb : b.value = .fin y) :
    (pyMin a b).value = .fin (min x y) := by
  rw [pyMin, ha, hb, PyFloat.lt]
  by_cases h : y < x
  · simp [h, hb, min_eq_right h.le]
  · simp [h, ha, min_eq_left (not_lt.mp h)]

theorem value_pyMax (ha : a.value = .fin x) (hb : b.value = .fin y) :
    (pyMax a b).value = .fin (max x y) := by
  rw [pyMax, ha, hb, PyFloat.lt]
  by_cases h : x < y
  · simp [h, hb, max_eq_right h.le]
  · simp [h, ha, max_eq_left (not_lt.mp h)]

/-- `max(0.0, x)` is not negative. -/
theorem pyMax_zero (x : PyFloat) :
    ∃ y, pyMax (.float (.fin 0)) (.float x) = .float y ∧ y.Nonneg := by
  rw [pyMax, value, value]
  cases hless : (PyFloat.fin 0).lt x with
  | false => exact ⟨_, rfl, le_refl (0 : ℚ)⟩
  | true =>
    refine ⟨x, rfl, ?_⟩
    match x, hless with
    | .fin q, hless => exact (by simpa [PyFloat.lt] using hless : 0 < q).le
    | .inf, _ => trivial

/-! ## With a float -/

theorem plus_float (a : PyNumber) (y : PyFloat) :
    a.plus toFloat (.float y) = (do
      let x ← a.asFloat toFloat
      pure (.float (x.plus toFloat y))) := by
  cases a <;> rfl

theorem minus_float (a : PyNumber) (y : PyFloat) :
    a.minus toFloat (.float y) = (do
      let x ← a.asFloat toFloat
      pure (.float (x.minus toFloat y))) := by
  cases a <;> rfl

theorem float_minus (x : PyFloat) (b : PyNumber) :
    (PyNumber.float x).minus toFloat b = (do
      let y ← b.asFloat toFloat
      pure (.float (x.minus toFloat y))) := by
  cases b <;> rfl

theorem divided_float (a : PyNumber) (y : PyFloat) :
    a.divided toFloat (.float y) = (do
      let x ← a.asFloat toFloat
      x.divided toFloat y) := by
  cases a <;> rfl

/-! ## Without rounding -/

theorem asFloat_fin (a : PyNumber) : a.asFloat .fin = .ok a.value := by
  cases a <;> rfl

/-- A difference of finite numbers is exact, of whichever types they are. -/
theorem minus_fin (ha : a.value = .fin x) (hb : b.value = .fin y) :
    ∃ c, a.minus .fin b = .ok c ∧ c.value = .fin (x - y) := by
  match a, b, ha, hb with
  | .int m, .int n, ha, hb =>
    cases ha
    cases hb
    exact ⟨.int (m - n), rfl, by simp [value]⟩
  | .float t, b, ha, hb =>
    cases ha
    rw [float_minus, asFloat_fin, hb]
    exact ⟨_, rfl, PyFloat.minus_fin ..⟩
  | a, .float t, ha, hb =>
    cases hb
    rw [minus_float, asFloat_fin, ha]
    exact ⟨_, rfl, PyFloat.minus_fin ..⟩

end PyNumber

end PrdApiWrapper
