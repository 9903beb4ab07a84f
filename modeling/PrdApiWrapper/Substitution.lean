import Mathlib.Data.List.Basic
import Mathlib.Data.List.Chain
import Mathlib.Tactic.Common

/-!
# Substitution in a text

`re.sub` looks for a match at each position in turn, puts something in its place, and goes on behind
it; where there is no match it goes on at the next position. What a pattern finds is a function
here, which must consume something (`Finder.Consuming`).
-/

namespace Interaction

/-- What a pattern finds at the front of a text: what is put in its place, and what is left. -/
abbrev Finder := List Char → Option (List Char × List Char)

namespace Finder

/-- `re.sub`, as far as `n` steps go. -/
def subWithin (find : Finder) : ℕ → List Char → List Char
  | 0, text => text
  | _ + 1, [] => []
  | n + 1, c :: text =>
    match find (c :: text) with
    | some (new, rest) => new ++ find.subWithin n rest
    | none => c :: find.subWithin n text

/-- `re.sub`: no text needs more steps than it is long. -/
def sub (find : Finder) (text : List Char) : List Char := find.subWithin text.length text

/-- Every match consumes something. -/
def Consuming (find : Finder) : Prop :=
  ∀ text new rest, find text = some (new, rest) → rest.length < text.length

/-- Every match begins with the character that is found first. -/
def KeepsFirst (find : Finder) : Prop :=
  ∀ c text new rest, find (c :: text) = some (new, rest) → new.head? = some c

variable {find : Finder}

theorem subWithin_of_le (h : find.Consuming) {n : ℕ} :
    ∀ {text : List Char}, text.length ≤ n → find.subWithin n text = find.sub text := by
  induction n using Nat.strongRecOn with
  | _ n ih =>
    intro text hn
    cases text with
    | nil => cases n <;> rfl
    | cons c text =>
      obtain ⟨n, rfl⟩ : ∃ m, n = m + 1 := Nat.exists_eq_add_of_le' (Nat.one_le_of_lt hn)
      simp only [List.length_cons, Nat.add_le_add_iff_right] at hn
      simp only [sub, List.length_cons, subWithin]
      cases hfind : find (c :: text) with
      | none => simp only [ih n (Nat.lt_succ_self n) hn, sub]
      | some found =>
        obtain ⟨new, rest⟩ := found
        have hrest : rest.length ≤ text.length :=
          Nat.lt_succ_iff.mp (h (c :: text) new rest hfind)
        simp only [ih n (Nat.lt_succ_self n) (Nat.le_trans hrest hn),
          ih text.length (Nat.lt_succ_of_le hn) hrest]

@[simp] theorem sub_nil : find.sub [] = [] := rfl

theorem sub_cons_none {c : Char} {text : List Char} (hfind : find (c :: text) = none) :
    find.sub (c :: text) = c :: find.sub text := by
  simp only [sub, List.length_cons, subWithin, hfind]

theorem sub_cons_some (h : find.Consuming) {c : Char} {text new rest : List Char}
    (hfind : find (c :: text) = some (new, rest)) :
    find.sub (c :: text) = new ++ find.sub rest := by
  have hrest : rest.length ≤ text.length := Nat.lt_succ_iff.mp (h (c :: text) new rest hfind)
  rw [sub, List.length_cons, subWithin, hfind]
  simp only [subWithin_of_le h hrest]

/-- The first character stays the first. -/
theorem head?_sub (h : find.Consuming) (hfirst : find.KeepsFirst) (text : List Char) :
    (find.sub text).head? = text.head? := by
  cases text with
  | nil => rfl
  | cons c text =>
    cases hfind : find (c :: text) with
    | none => rw [sub_cons_none hfind, List.head?_cons, List.head?_cons]
    | some found =>
      obtain ⟨new, rest⟩ := found
      rw [sub_cons_some h hfind, List.head?_append, hfirst c text new rest hfind]
      rfl

end Finder

/-! ## Marking boundaries -/

/-- The underscore between a character and the text behind it, where `between` asks for one, given
the next two characters. -/
def markFor (between : Char → Char → Option Char → Bool) (c : Char) : List Char → List Char
  | [] => []
  | d :: text => if between c d text.head? then ['_'] else []

/-- An underscore between two characters wherever `between` asks for one. -/
def markBetween (between : Char → Char → Option Char → Bool) : List Char → List Char
  | [] => []
  | c :: text => c :: (markFor between c text ++ markBetween between text)

variable {between : Char → Char → Option Char → Bool}

theorem markBetween_cons_of {c d : Char} {text : List Char} (h : between c d text.head? = true) :
    markBetween between (c :: d :: text) = c :: '_' :: markBetween between (d :: text) := by
  rw [markBetween, markFor, if_pos h]
  rfl

theorem markBetween_cons_of_not {c d : Char} {text : List Char}
    (h : between c d text.head? = false) :
    markBetween between (c :: d :: text) = c :: markBetween between (d :: text) := by
  rw [markBetween, markFor, if_neg (by simp [h])]
  rfl

/-- Two texts that begin alike and are marked alike stay so behind a character. -/
theorem markBetween_cons_congr {between' : Char → Char → Option Char → Bool} {c : Char}
    {text text' : List Char} (hhead : text.head? = text'.head?)
    (htail : markBetween between text = markBetween between' text')
    (h : ∀ d rest rest', text = d :: rest → text' = d :: rest' →
      between c d rest.head? = between' c d rest'.head?) :
    markBetween between (c :: text) = markBetween between' (c :: text') := by
  cases text with
  | nil => rw [List.head?_eq_none_iff.mp hhead.symm, markBetween, markBetween]; rfl
  | cons d rest =>
    obtain ⟨rest', rfl⟩ : ∃ rest', text' = d :: rest' := List.head?_eq_some_iff.mp hhead.symm
    have hbetween : between c d rest.head? = between' c d rest'.head? := h d rest rest' rfl rfl
    cases hc : between c d rest.head? with
    | false => rw [markBetween_cons_of_not hc, markBetween_cons_of_not (hbetween ▸ hc), htail]
    | true => rw [markBetween_cons_of hc, markBetween_cons_of (hbetween ▸ hc), htail]

/-- Nothing is marked in a run of characters behind which nothing is asked for, up to its end. -/
theorem markBetween_run {run : List Char} {c : Char} {text : List Char}
    (hrun : List.IsChain (fun d e => ∀ next, between d e next = false) (run ++ [c])) :
    markBetween between (run ++ c :: text) = run ++ markBetween between (c :: text) := by
  induction run with
  | nil => rfl
  | cons d run ih =>
    have htail : markBetween between (run ++ c :: text) = run ++ markBetween between (c :: text) :=
      ih hrun.tail
    cases run with
    | nil => exact markBetween_cons_of_not ((List.isChain_cons_cons.mp hrun).1 text.head?)
    | cons e run =>
      have hnone : between d e (run ++ c :: text).head? = false :=
        (List.isChain_cons_cons.mp hrun).1 _
      rw [List.cons_append, List.cons_append, markBetween_cons_of_not hnone, List.cons_append,
        ← List.cons_append, htail]

end Interaction
