import PrdApiWrapper.Substitution
import Mathlib.Data.List.TakeWhile

/-!
# Table names

`models/base.py`: the name of a table is made from the name of its class by two substitutions and
`str.lower`. The first takes a whole capitalised word at a time, so that it passes over the
boundary behind the word, and the second adds the boundaries between a small letter or a digit and a
capital. Together they put an underscore before every capital that begins a word, whatever the text
(`camelToSnake_eq`).
-/

namespace PrdApiWrapper

open Interaction

/-- What `(.)([A-Z][a-z]+)` finds, with `\1_\2` in its place. -/
def findCapitalised : Finder
  | c :: u :: l :: rest =>
    if c ≠ '\n' ∧ u.isUpper ∧ l.isLower then
      some (c :: '_' :: u :: l :: rest.takeWhile Char.isLower, rest.dropWhile Char.isLower)
    else none
  | _ => none

/-- What `([a-z0-9])([A-Z])` finds, with `\1_\2` in its place. -/
def findCamel : Finder
  | c :: u :: rest =>
    if (c.isLower || c.isDigit) && u.isUpper then some ([c, '_', u], rest) else none
  | _ => none

/-- `camel_to_snake(name)`, with `lower` for `str.lower`. -/
def camelToSnake (lower : String → String) (name : String) : String :=
  lower (String.ofList (findCamel.sub (findCapitalised.sub name.toList)))

/-- A capital behind a small letter or a digit. -/
def camel (c u : Char) (_next : Option Char) : Bool := (c.isLower || c.isDigit) && u.isUpper

/-- A capital that begins a word: behind a small letter or a digit, or before a small letter (but
not right behind a line break). -/
def beginsWord (c u : Char) (next : Option Char) : Bool :=
  u.isUpper && (c.isLower || c.isDigit || (c ≠ '\n' && next.any Char.isLower))

/-! ## The second substitution -/

theorem findCamel_consuming : findCamel.Consuming := by
  intro text new rest hfind
  unfold findCamel at hfind
  split at hfind
  · split at hfind
    · obtain ⟨-, rfl⟩ := Prod.mk.inj (Option.some.inj hfind)
      simp only [List.length_cons]
      omega
    · exact absurd hfind nofun
  · exact absurd hfind nofun

theorem isUpper_iff {c : Char} : c.isUpper = true ↔ 65 ≤ c.toNat ∧ c.toNat ≤ 90 := by
  delta Char.isUpper
  simp [UInt32.le_iff_toNat_le]

theorem isLower_iff {c : Char} : c.isLower = true ↔ 97 ≤ c.toNat ∧ c.toNat ≤ 122 := by
  delta Char.isLower
  simp [UInt32.le_iff_toNat_le]

theorem not_small_of_isUpper {u : Char} (h : u.isUpper = true) :
    (u.isLower || u.isDigit) = false := by
  rw [isUpper_iff] at h
  have hdigit := Char.isDigit_iff_toNat (c := u)
  rw [Bool.or_eq_false_iff, Bool.eq_false_iff, Bool.eq_false_iff, ne_eq, ne_eq, isLower_iff, hdigit]
  have hzero : '9'.toNat = 57 := rfl
  omega

theorem markBetween_cons_upper {u : Char} (h : u.isUpper = true) (rest : List Char) :
    markBetween camel (u :: rest) = u :: markBetween camel rest := by
  cases rest with
  | nil => rfl
  | cons d rest => exact markBetween_cons_of_not (by simp [camel, not_small_of_isUpper h])

/-- No boundary is missed because its small letter is part of a match before. -/
theorem sub_findCamel (text : List Char) : findCamel.sub text = markBetween camel text := by
  induction hn : text.length using Nat.strongRecOn generalizing text with
  | _ n ih =>
    match text with
    | [] => rfl
    | [c] => rfl
    | c :: u :: rest =>
      simp only [List.length_cons] at hn
      by_cases hc : ((c.isLower || c.isDigit) && u.isUpper) = true
      · have hfind : findCamel (c :: u :: rest) = some ([c, '_', u], rest) := if_pos hc
        have hrest : findCamel.sub rest = markBetween camel rest :=
          ih rest.length (by omega) rest rfl
        have hu : u.isUpper = true := (Bool.and_eq_true_iff.mp hc).2
        rw [Finder.sub_cons_some findCamel_consuming hfind, hrest, markBetween_cons_of hc,
          markBetween_cons_upper hu rest]
        rfl
      · have hfind : findCamel (c :: u :: rest) = none := if_neg hc
        have hrest : findCamel.sub (u :: rest) = markBetween camel (u :: rest) :=
          ih (u :: rest).length (by simp only [List.length_cons]; omega) (u :: rest) rfl
        rw [Finder.sub_cons_none hfind, hrest,
          markBetween_cons_of_not (Bool.eq_false_iff.mpr hc)]

/-! ## The first substitution -/

/-- A match is a character, a capital, and the small letters behind it, of which there is a last. -/
theorem findCapitalised_eq_some {text new rest : List Char}
    (h : findCapitalised text = some (new, rest)) :
    ∃ c u run l, c ≠ '\n' ∧ u.isUpper = true ∧ (∀ d ∈ run ++ [l], d.isLower = true) ∧
      text = c :: u :: (run ++ l :: rest) ∧ new = c :: '_' :: u :: (run ++ [l]) := by
  unfold findCapitalised at h
  split at h
  · rename_i c u l tail
    split at h
    · rename_i hmatch
      obtain ⟨hc, hu, hl⟩ := hmatch
      obtain ⟨rfl, rfl⟩ := Prod.mk.inj (Option.some.inj h)
      have hsmall : ∀ d ∈ l :: tail.takeWhile Char.isLower, d.isLower = true := by
        intro d hd
        rcases List.mem_cons.mp hd with rfl | hd
        · exact hl
        · exact List.mem_takeWhile_imp hd
      obtain ⟨run, last, hrun⟩ : ∃ run last, l :: tail.takeWhile Char.isLower = run ++ [last] :=
        ⟨_, _, (List.dropLast_append_getLast (List.cons_ne_nil _ _)).symm⟩
      refine ⟨c, u, run, last, hc, hu, hrun ▸ hsmall, ?_, by rw [hrun]⟩
      calc c :: u :: l :: tail
          = c :: u :: (l :: tail.takeWhile Char.isLower ++ tail.dropWhile Char.isLower) := by
            rw [List.cons_append, List.takeWhile_append_dropWhile]
        _ = c :: u :: (run ++ last :: tail.dropWhile Char.isLower) := by
            rw [hrun, List.append_assoc, List.singleton_append]
    · exact absurd h nofun
  · exact absurd h nofun

theorem findCapitalised_eq_none {c u : Char} {rest : List Char}
    (h : findCapitalised (c :: u :: rest) = none) :
    ¬(c ≠ '\n' ∧ u.isUpper = true ∧ rest.head?.any Char.isLower = true) := by
  rintro ⟨hc, hu, hl⟩
  cases rest with
  | nil => exact absurd hl nofun
  | cons l rest =>
    rw [findCapitalised, if_pos ⟨hc, hu, hl⟩] at h
    exact absurd h nofun

theorem findCapitalised_consuming : findCapitalised.Consuming := by
  intro text new rest hfind
  obtain ⟨c, u, run, l, -, -, -, rfl, -⟩ := findCapitalised_eq_some hfind
  simp only [List.length_cons, List.length_append]
  omega

theorem findCapitalised_keepsFirst : findCapitalised.KeepsFirst := by
  intro c text new rest hfind
  obtain ⟨c', u, run, l, -, -, -, htext, rfl⟩ := findCapitalised_eq_some hfind
  rw [List.head?_cons, (List.cons.inj htext).1]

theorem not_upper_of_isLower {c : Char} (h : c.isLower = true) : c.isUpper = false := by
  rw [isLower_iff] at h
  rw [Bool.eq_false_iff, ne_eq, isUpper_iff]
  omega

theorem camel_of_not_upper {c u : Char} (h : u.isUpper = false) (next : Option Char) :
    camel c u next = false := by
  simp [camel, h]

theorem beginsWord_of_not_upper {c u : Char} (h : u.isUpper = false) (next : Option Char) :
    beginsWord c u next = false := by
  simp [beginsWord, h]

/-- Before small letters there is no boundary. -/
theorem isChain_small {between : Char → Char → Option Char → Bool}
    (hupper : ∀ c u, u.isUpper = false → ∀ next, between c u next = false) {run : List Char}
    (hrun : ∀ d ∈ run, d.isLower = true) (u : Char) :
    List.IsChain (fun d e => ∀ next, between d e next = false) (u :: run) := by
  induction run generalizing u with
  | nil => exact List.isChain_singleton u
  | cons d run ih =>
    obtain ⟨hd, hrun⟩ := List.forall_mem_cons.mp hrun
    exact List.isChain_cons_cons.mpr ⟨hupper u d (not_upper_of_isLower hd), ih hrun d⟩

/-- Where no capitalised word is found, the boundary is one of the second kind or none. -/
theorem camel_eq_beginsWord {c u : Char} {next : Option Char}
    (h : ¬(c ≠ '\n' ∧ u.isUpper = true ∧ next.any Char.isLower = true)) (next' : Option Char) :
    camel c u next' = beginsWord c u next := by
  rw [camel, beginsWord]
  cases hu : u.isUpper with
  | false => simp
  | true => simp_all

/-- What the first substitution leaves to the second is what it has not marked itself. -/
theorem markBetween_sub_findCapitalised (text : List Char) :
    markBetween camel (findCapitalised.sub text) = markBetween beginsWord text := by
  induction hn : text.length using Nat.strongRecOn generalizing text with
  | _ n ih =>
    match text with
    | [] => rfl
    | c :: text =>
      have hhead : ∀ rest, (findCapitalised.sub rest).head? = rest.head? :=
        Finder.head?_sub findCapitalised_consuming findCapitalised_keepsFirst
      cases hfind : findCapitalised (c :: text) with
      | none =>
        have htail : markBetween camel (findCapitalised.sub text) = markBetween beginsWord text :=
          ih text.length (by simp only [← hn, List.length_cons]; omega) text rfl
        rw [Finder.sub_cons_none hfind]
        apply markBetween_cons_congr (hhead text) htail
        rintro u rest rest' - rfl
        exact camel_eq_beginsWord (findCapitalised_eq_none hfind) rest.head?
      | some found =>
        obtain ⟨new, rest⟩ := found
        rw [Finder.sub_cons_some findCapitalised_consuming hfind]
        obtain ⟨c', u, run, l, hc, hu, hrun, htext, rfl⟩ := findCapitalised_eq_some hfind
        obtain ⟨rfl, rfl⟩ := List.cons.inj htext
        have hl : l.isLower = true := hrun l (by simp)
        have htail : markBetween camel (findCapitalised.sub rest) =
            markBetween beginsWord rest := by
          apply ih rest.length _ rest rfl
          simp only [← hn, List.length_cons, List.length_append]
          omega
        have hlast : markBetween camel (l :: findCapitalised.sub rest) =
            markBetween beginsWord (l :: rest) := by
          apply markBetween_cons_congr (hhead rest) htail
          rintro d tail tail' - rfl
          simp [camel, beginsWord, hl, Bool.and_comm]
        have hmarked : beginsWord c u (run ++ l :: rest).head? = true := by
          have hsmall : (run ++ l :: rest).head?.any Char.isLower = true := by
            cases run with
            | nil => exact hl
            | cons d run => exact hrun d List.mem_cons_self
          rw [beginsWord, hu, hsmall]
          simp [hc]
        have hfirst : List.IsChain (fun d e => ∀ next, camel d e next = false)
            (c :: '_' :: u :: (run ++ [l])) :=
          List.isChain_cons_cons.mpr ⟨camel_of_not_upper (by decide),
            List.isChain_cons_cons.mpr ⟨fun next => by simp [camel],
              isChain_small (fun c u => camel_of_not_upper) hrun u⟩⟩
        have hsecond : List.IsChain (fun d e => ∀ next, beginsWord d e next = false)
            (u :: (run ++ [l])) := isChain_small (fun c u => beginsWord_of_not_upper) hrun u
        calc markBetween camel (c :: '_' :: u :: (run ++ [l]) ++ findCapitalised.sub rest)
            = c :: '_' :: u :: run ++ markBetween camel (l :: findCapitalised.sub rest) := by
              rw [← markBetween_run hfirst]
              simp
          _ = c :: '_' :: (u :: run ++ markBetween beginsWord (l :: rest)) := by rw [hlast]; rfl
          _ = c :: '_' :: markBetween beginsWord (u :: (run ++ l :: rest)) := by
              rw [← markBetween_run hsecond]
              rfl
          _ = markBetween beginsWord (c :: u :: (run ++ l :: rest)) :=
              (markBetween_cons_of hmarked).symm

/-- **The name of a table.** An underscore stands before exactly the capitals that begin a word, and
then everything is lowered. -/
theorem camelToSnake_eq (lower : String → String) (name : String) :
    camelToSnake lower name =
      lower (String.ofList (markBetween beginsWord name.toList)) := by
  rw [camelToSnake, sub_findCamel, markBetween_sub_findCapitalised]

example : camelToSnake String.toLower "ApiKey" = "api_key" := by decide +kernel
example : camelToSnake id "HTTPReply2Xx" = "HTTP_Reply2_Xx" := by decide +kernel

end PrdApiWrapper
