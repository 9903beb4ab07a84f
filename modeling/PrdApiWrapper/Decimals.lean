import Mathlib.Data.List.Basic
import Mathlib.Data.Int.Basic

/-!
# Integers as text

`int(text)` reads more than `str(n)` writes: white space around, a plus sign, leading zeros, single
underscores between digits, and the decimal digits of every script. Here is what it reads, and
that it reads what is written. CPython's bound on the number of digits is not modelled.
-/

namespace PrdApiWrapper

/-! ## Reading -/

/-- The code points of the decimal digits of value 0; the other nine of each script follow. -/
def decimalZeros : List ℕ :=
  [0x30, 0x660, 0x6F0, 0x7C0, 0x966, 0x9E6, 0xA66, 0xAE6, 0xB66, 0xBE6, 0xC66, 0xCE6, 0xD66, 0xDE6,
    0xE50, 0xED0, 0xF20, 0x1040, 0x1090, 0x17E0, 0x1810, 0x1946, 0x19D0, 0x1A80, 0x1A90, 0x1B50,
    0x1BB0, 0x1C40, 0x1C50, 0xA620, 0xA8D0, 0xA900, 0xA9D0, 0xA9F0, 0xAA50, 0xABF0, 0xFF10, 0x104A0,
    0x10D30, 0x10D40, 0x11066, 0x110F0, 0x11136, 0x111D0, 0x112F0, 0x11450, 0x114D0, 0x11650,
    0x116C0, 0x116D0, 0x116DA, 0x11730, 0x118E0, 0x11950, 0x11BF0, 0x11C50, 0x11D50, 0x11DA0,
    0x11F50, 0x16130, 0x16A60, 0x16AC0, 0x16B50, 0x16D70, 0x1CCF0, 0x1D7CE, 0x1D7D8, 0x1D7E2,
    0x1D7EC, 0x1D7F6, 0x1E140, 0x1E2F0, 0x1E4F0, 0x1E5F1, 0x1E950, 0x1FBF0]

/-- The value of a decimal digit, if the character is one. -/
def digitValue (c : Char) : Option ℕ :=
  (decimalZeros.find? fun first => decide (first ≤ c.toNat ∧ c.toNat < first + 10)).map
    fun first => c.toNat - first

/-- The white space `int` skips. -/
def isSpace (c : Char) : Bool :=
  let n := c.toNat
  decide (0x9 ≤ n ∧ n ≤ 0xD) || decide (0x2000 ≤ n ∧ n ≤ 0x200A) ||
    [0x20, 0x85, 0xA0, 0x1680, 0x2028, 0x2029, 0x202F, 0x205F, 0x3000].contains n

/-- The text without the white space around it. -/
def strip (chars : List Char) : List Char :=
  ((chars.dropWhile isSpace).reverse.dropWhile isSpace).reverse

/-- Digits with single underscores between them, after `acc`; `digit` says whether the character
before was a digit. -/
def readDigits (acc : ℕ) (digit : Bool) : List Char → Option ℕ
  | [] => if digit then some acc else none
  | c :: rest =>
    match digitValue c with
    | some value => readDigits (10 * acc + value) true rest
    | none => if digit && c == '_' then readDigits acc false rest else none

/-- `int(text)`; `none` for a `ValueError`. -/
def pyInt (text : String) : Option ℤ :=
  match strip text.toList with
  | '-' :: digits => (readDigits 0 false digits).map fun n : ℕ => -(n : ℤ)
  | '+' :: digits => (readDigits 0 false digits).map fun n : ℕ => (n : ℤ)
  | digits => (readDigits 0 false digits).map fun n : ℕ => (n : ℤ)

example : ["42", " +0042\n", "1_000", "-٣", "", "- 5", "1__0", "_1", "1_"].map pyInt =
    [some 42, some 42, some 1000, some (-3), none, none, none, none, none] := by decide

/-! ## What is written -/

/-- A digit of a decimal rendering. -/
theorem digitValue_of_isDigit {c : Char} (h : c.isDigit = true) :
    digitValue c = some (c.toNat - '0'.toNat) := by
  obtain ⟨hlow, hhigh⟩ := Char.isDigit_iff_toNat.mp h
  have hnine : '9'.toNat = 57 := rfl
  have hzero : '0'.toNat = 48 := rfl
  have hfound : decimalZeros.find? (fun first => decide (first ≤ c.toNat ∧ c.toNat < first + 10)) =
      some 0x30 := List.find?_cons_of_pos (decide_eq_true ⟨by omega, by omega⟩)
  rw [digitValue, hfound]
  rfl

theorem isSpace_of_isDigit {c : Char} (h : c.isDigit = true) : isSpace c = false := by
  obtain ⟨hlow, hhigh⟩ := Char.isDigit_iff_toNat.mp h
  have hnine : '9'.toNat = 57 := rfl
  have hzero : '0'.toNat = 48 := rfl
  simp [isSpace]
  omega

/-- Plain digits are read as the number they write. -/
theorem readDigits_of_isDigit {chars : List Char} (h : ∀ c ∈ chars, c.isDigit = true) :
    ∀ acc digit, digit = true ∨ chars ≠ [] →
      readDigits acc digit chars = some (Nat.ofDigitChars 10 chars acc) := by
  induction chars with
  | nil =>
    rintro acc digit (rfl | hne)
    · simp [readDigits]
    · exact absurd rfl hne
  | cons c rest ih =>
    intro acc digit _
    have hc : c.isDigit = true := h c List.mem_cons_self
    rw [readDigits, digitValue_of_isDigit hc, Nat.ofDigitChars_cons]
    exact ih (fun c' hc' => h c' (List.mem_cons_of_mem _ hc')) _ _ (.inl rfl)

theorem dropWhile_isSpace {chars : List Char} (h : ∀ c ∈ chars, isSpace c = false) :
    chars.dropWhile isSpace = chars := by
  cases chars with
  | nil => rfl
  | cons c rest => exact List.dropWhile_cons_of_neg (by simp [h c List.mem_cons_self])

/-- Nothing is stripped where there is no white space. -/
theorem strip_of_no_space {chars : List Char} (h : ∀ c ∈ chars, isSpace c = false) :
    strip chars = chars := by
  rw [strip, dropWhile_isSpace h, dropWhile_isSpace, List.reverse_reverse]
  exact fun c hc => h c (List.mem_reverse.mp hc)

theorem isDigit_of_mem_repr {n : ℕ} : ∀ c ∈ Nat.toDigits 10 n, c.isDigit = true :=
  fun _ hc => Nat.isDigit_of_mem_toDigits (by decide) (by decide) hc

/-- The characters of `str(n)`. -/
theorem toList_toString (n : ℤ) : (toString n).toList =
    if 0 ≤ n then Nat.toDigits 10 n.natAbs else '-' :: Nat.toDigits 10 n.natAbs := by
  cases n with
  | ofNat m =>
    have hpos : 0 ≤ Int.ofNat m := Int.natCast_nonneg m
    rw [if_pos hpos]
    exact Nat.toList_repr
  | negSucc m =>
    rw [if_neg (Int.not_le.mpr (Int.negSucc_lt_zero m))]
    exact String.toList_append.trans (congrArg ('-' :: ·) Nat.toList_repr)

/-- **What is written is read.** -/
theorem pyInt_toString (n : ℤ) : pyInt (toString n) = some n := by
  have hdigits : ∀ m, readDigits 0 false (Nat.toDigits 10 m) = some m := by
    intro m
    rw [readDigits_of_isDigit isDigit_of_mem_repr 0 false (.inr Nat.toDigits_ne_nil),
      Nat.ofDigitChars_ten_toDigits]
  have hspace : ∀ m, ∀ c ∈ Nat.toDigits 10 m, isSpace c = false :=
    fun m c hc => isSpace_of_isDigit (isDigit_of_mem_repr c hc)
  rw [pyInt, toList_toString]
  by_cases hn : 0 ≤ n
  · rw [if_pos hn, strip_of_no_space (hspace n.natAbs)]
    have hplain : ∀ c rest, Nat.toDigits 10 n.natAbs = c :: rest → c ≠ '-' ∧ c ≠ '+' := by
      intro c rest hchars
      have hc : c.isDigit = true := isDigit_of_mem_repr c (by rw [hchars]; exact List.mem_cons_self)
      refine ⟨?_, ?_⟩
      · rintro rfl
        cases hc
      · rintro rfl
        cases hc
    split
    · next digits hchars => exact absurd rfl (hplain _ _ hchars).1
    · next digits hchars => exact absurd rfl (hplain _ _ hchars).2
    · rw [hdigits, Option.map_some, Int.natAbs_of_nonneg hn]
  · rw [if_neg hn, strip_of_no_space]
    · simp only [hdigits, Option.map_some]
      exact congrArg some (by omega)
    · intro c hc
      rcases List.mem_cons.mp hc with rfl | hc
      · decide
      · exact hspace _ c hc

end PrdApiWrapper
