import PrdApiWrapper.Decimals
import Mathlib.Data.Rat.Defs
import Mathlib.Algebra.Order.Ring.Rat

/-!
# Python values

The kinds of value the service takes from outside without a schema: floats parsed from a header,
JSON, and texts, which not every codec can encode.

A finite float is an exact rational. Rounding and the finite range of floats are not modelled here,
but with the arithmetic that the limiter needs (`Arithmetic`). What is modelled is everything the
code can meet beyond the finite numbers, infinities and NaN, with Python's comparisons (false
whenever a NaN takes part) and the argument order of `min` and `max`, which decides what they return
then.
-/

namespace PrdApiWrapper

/-! ## Floats -/

/-- A Python `float`. -/
inductive PyFloat where
  /-- a finite number -/
  | fin : ℚ → PyFloat
  /-- positive infinity -/
  | inf
  /-- negative infinity -/
  | negInf
  /-- not a number -/
  | nan
  deriving DecidableEq

namespace PyFloat

/-- `a < b`: false whenever a NaN takes part. -/
def lt : PyFloat → PyFloat → Bool
  | .nan, _ => false
  | _, .nan => false
  | .fin a, .fin b => decide (a < b)
  | .fin _, .inf => true
  | .negInf, .fin _ => true
  | .negInf, .inf => true
  | _, _ => false

/-- `a + b`. -/
def add : PyFloat → PyFloat → PyFloat
  | .nan, _ => .nan
  | _, .nan => .nan
  | .fin a, .fin b => .fin (a + b)
  | .inf, .negInf => .nan
  | .negInf, .inf => .nan
  | .inf, _ => .inf
  | _, .inf => .inf
  | .negInf, _ => .negInf
  | _, .negInf => .negInf

/-- `max(a, b)`: the first argument unless the second is greater. -/
def pyMax (a b : PyFloat) : PyFloat := if a.lt b then b else a

/-- `min(a, b)`: the first argument unless the second is less. -/
def pyMin (a b : PyFloat) : PyFloat := if b.lt a then b else a

@[simp] theorem nan_lt (b : PyFloat) : nan.lt b = false := by cases b <;> rfl

@[simp] theorem lt_nan (a : PyFloat) : a.lt nan = false := by cases a <;> rfl

@[simp] theorem add_nan (a : PyFloat) : a.add nan = nan := by cases a <;> rfl

theorem pyMin_fin (a b : ℚ) : (fin a).pyMin (fin b) = fin (min a b) := by
  by_cases h : b < a
  · simp [pyMin, lt, h, min_eq_right h.le]
  · simp [pyMin, lt, h, min_eq_left (not_lt.mp h)]

/-- A NaN is capped to a NaN: the comparison that would replace it is false. -/
theorem pyMin_eq_nan (a : PyFloat) (q : ℚ) : a.pyMin (fin q) = nan ↔ a = nan := by
  rw [pyMin]
  split
  · rename_i h
    refine ⟨?_, ?_⟩
    · intro hn
      cases hn
    · rintro rfl
      simp at h
  · exact Iff.rfl

/-- A NaN is raised to a NaN, for the same reason. -/
theorem pyMax_eq_nan (a : PyFloat) (q : ℚ) : a.pyMax (fin q) = nan ↔ a = nan := by
  rw [pyMax]
  split
  · rename_i h
    refine ⟨?_, ?_⟩
    · intro hn
      cases hn
    · rintro rfl
      simp at h
  · exact Iff.rfl

/-- Anything but a NaN is brought between zero and a bound. -/
theorem clamp_cases {a : PyFloat} (ha : a ≠ nan) {bound : ℚ} (hbound : 0 ≤ bound) :
    ∃ q, (a.pyMax (fin 0)).pyMin (fin bound) = fin q ∧ 0 ≤ q ∧ q ≤ bound := by
  have hzero : (fin 0).pyMin (fin bound) = fin 0 := by
    simp [pyMin, lt, hbound]
  cases a with
  | fin q =>
    by_cases hnegative : q < 0
    · exact ⟨0, by simp [pyMax, lt, hnegative, hzero], le_rfl, hbound⟩
    · by_cases hlarge : bound < q
      · exact ⟨bound, by simp [pyMax, pyMin, lt, hnegative, hlarge], hbound, le_rfl⟩
      · exact ⟨q, by simp [pyMax, pyMin, lt, hnegative, hlarge], not_lt.mp hnegative,
          not_lt.mp hlarge⟩
  | inf => exact ⟨bound, rfl, hbound, le_rfl⟩
  | negInf => exact ⟨0, hzero, le_rfl, hbound⟩
  | nan => exact absurd rfl ha

end PyFloat

/-- `int(x)` of a finite number: towards zero. -/
def truncate (x : ℚ) : ℤ := x.num.tdiv x.den

/-! ## Texts -/

/-- `text.isascii()`. -/
def isAscii (text : String) : Bool := text.toList.all fun c => decide (c.toNat < 128)

/-- Whether `text.encode("latin-1")` succeeds, as it has to for a header. -/
def isLatin1 (text : String) : Bool := text.toList.all fun c => decide (c.toNat < 256)

theorem isLatin1_of_isAscii {text : String} (h : isAscii text = true) : isLatin1 text = true := by
  simp only [isAscii, isLatin1, List.all_eq_true, decide_eq_true_eq] at h ⊢
  exact fun c hc => (h c hc).trans (by decide)

/-- `str(n)` is digits, and a sign. -/
theorem isAscii_toString (n : ℤ) : isAscii (toString n) = true := by
  have hdigits : ∀ m, ∀ c ∈ Nat.toDigits 10 m, c.toNat < 128 := fun m c hc =>
    (Char.isDigit_iff_toNat.mp (isDigit_of_mem_repr c hc)).2.trans_lt (by decide)
  simp only [isAscii, List.all_eq_true, decide_eq_true_eq]
  rw [toList_toString]
  split
  · exact hdigits _
  · intro c hc
    rcases List.mem_cons.mp hc with rfl | hc
    · decide
    · exact hdigits _ c hc

/-- `lower` is `str.lower` as far as ASCII goes. -/
def LowersAscii (lower : String → String) : Prop :=
  ∀ text : String, text.toList.all (·.val < 128) = true → lower text = text.toLower

/-! ## JSON -/

/-- A decoded JSON value. Python decodes integers and other numbers apart, and admits infinities
and NaN. -/
inductive Json where
  /-- `null`, decoded to `None` -/
  | null
  /-- a boolean -/
  | bool : Bool → Json
  /-- a number without fraction or exponent, decoded to an `int` -/
  | int : ℤ → Json
  /-- any other number -/
  | float : PyFloat → Json
  /-- a string -/
  | str : String → Json
  /-- an array, decoded to a `list` -/
  | arr : List Json → Json
  /-- an object, decoded to a `dict` -/
  | obj : List (String × Json) → Json

namespace Json

/-- Python's truth value. -/
def truthy : Json → Bool
  | .null => false
  | .bool b => b
  | .int n => n != 0
  | .float x => x != .fin 0
  | .str s => s != ""
  | .arr items => !items.isEmpty
  | .obj fields => !fields.isEmpty

/-- The string a value is, if it is one. -/
def asStr : Json → Option String
  | .str s => some s
  | _ => none

mutual

/-- Whether an answer can hold the value at this depth: answers are rendered recursively and with
`allow_nan=False`, and their texts are encoded. -/
def renders (encodes : String → Bool) : ℕ → Json → Bool
  | _, .null | _, .bool _ | _, .int _ | _, .float (.fin _) => true
  | _, .float _ => false
  | _, .str text => encodes text
  | 0, .arr _ | 0, .obj _ => false
  | depth + 1, .arr items => rendersItems encodes depth items
  | depth + 1, .obj fields => rendersFields encodes depth fields

/-- Each of the items. -/
def rendersItems (encodes : String → Bool) (depth : ℕ) : List Json → Bool
  | [] => true
  | item :: items => item.renders encodes depth && rendersItems encodes depth items

/-- Each of the names and values. -/
def rendersFields (encodes : String → Bool) (depth : ℕ) : List (String × Json) → Bool
  | [] => true
  | (name, value) :: fields =>
    encodes name && value.renders encodes depth && rendersFields encodes depth fields

end

end Json

/-- `headers.get(name)` or `dict.get(name)` on a string-keyed table. -/
def lookup {β : Type} (name : String) (table : List (String × β)) : Option β :=
  (table.find? fun entry => entry.1 == name).map Prod.snd

end PrdApiWrapper
