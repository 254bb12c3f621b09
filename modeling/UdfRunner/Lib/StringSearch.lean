import Mathlib.Data.List.DropRight
import Mathlib.Tactic

/-!
# Searching a string

The searches of a string class, by a class of characters or for another string; no place is `none`. Each is
told by what the string is made of.
-/

namespace StringSearch
variable {α : Type} {p : α → Bool} {a w t s needle : List α} {c : α} {n : Nat}

/-- The first place from `pos` on with a character of the class. -/
def findFirst (p : α → Bool) (s : List α) (pos : Nat) : Option Nat := ((s.drop pos).findIdx? p).map (pos + ·)

/-- The last place up to `pos`. -/
def findLast (p : α → Bool) (s : List α) (pos : Nat) : Option Nat :=
  let front := s.take (pos + 1)
  (front.reverse.findIdx? p).map (front.length - 1 - ·)

/-- The first place of another string. -/
def find [DecidableEq α] (needle s : List α) : Option Nat :=
  (List.range (s.length + 1)).find? fun i => needle.isPrefixOf (s.drop i)

theorem findIdx_run (hw : ∀ x ∈ w, p x = false) (hc : p c = true) :
    (w ++ c :: t).findIdx? p = some w.length := by
  rw [List.findIdx?_append, List.findIdx?_eq_none_iff.mpr hw, List.findIdx?_cons, if_pos hc]
  simp

theorem findFirst_append (hw : ∀ x ∈ w, p x = false) (hc : p c = true) :
    findFirst p (a ++ (w ++ c :: t)) a.length = some (a.length + w.length) := by
  rw [findFirst, List.drop_left, findIdx_run hw hc]
  rfl

theorem findFirst_none (ht : ∀ x ∈ t, p x = false) : findFirst p (a ++ t) a.length = none := by
  rw [findFirst, List.drop_left, List.findIdx?_eq_none_iff.mpr ht]
  rfl

/-- A run without such a character may be left out of the search. -/
theorem findFirst_skip (hw : ∀ x ∈ w, p x = false) :
    findFirst p (a ++ (w ++ t)) a.length = findFirst p (a ++ (w ++ t)) (a.length + w.length) := by
  have hdrop : (a ++ (w ++ t)).drop (a.length + w.length) = t := by
    rw [← List.append_assoc, ← List.length_append, List.drop_left]
  rw [findFirst, findFirst, List.drop_left, hdrop, List.findIdx?_append, List.findIdx?_eq_none_iff.mpr hw,
    Option.none_or, Option.map_map]
  congr 1
  funext i
  simp only [Function.comp]
  omega

/-- The search ends after a run exactly if the run has no character of the class and the next one is in it. -/
theorem findFirst_run_iff : findFirst p (a ++ (w ++ c :: t)) a.length = some (a.length + w.length) ↔
    (∀ x ∈ w, p x = false) ∧ p c = true := by
  constructor
  · intro hfound
    rw [findFirst, List.drop_left, Option.map_eq_some_iff] at hfound
    obtain ⟨i, hi, hlen⟩ := hfound
    obtain rfl : i = w.length := Nat.add_left_cancel hlen
    obtain ⟨hlt, hp, hbefore⟩ := List.findIdx?_eq_some_iff_getElem.mp hi
    refine ⟨fun x hx => ?_, by simpa using hp⟩
    obtain ⟨j, hj, rfl⟩ := List.getElem_of_mem hx
    simpa [List.getElem_append_left hj] using hbefore j hj
  · rintro ⟨hw, hc⟩
    exact findFirst_append hw hc

theorem findLast_append (hw : ∀ x ∈ w, p x = false) (hc : p c = true) :
    findLast p (a ++ c :: (w ++ t)) (a.length + w.length) = some a.length := by
  have hfront : (a ++ c :: (w ++ t)).take (a.length + w.length + 1) = a ++ c :: w := by
    rw [show a ++ c :: (w ++ t) = (a ++ c :: w) ++ t by simp,
      List.take_left' (by rw [List.length_append, List.length_cons]; omega)]
  have hreverse : (a ++ c :: w).reverse = w.reverse ++ c :: a.reverse := by simp
  rw [findLast, hfront, hreverse, findIdx_run (by simpa using hw) hc, Option.map_some, List.length_append,
    List.length_cons, List.length_reverse]
  congr 1
  omega

theorem findLast_none (hw : ∀ x ∈ w, p x = false) (hn : n + 1 ≤ w.length) : findLast p (w ++ t) n = none := by
  have hnone : ((w ++ t).take (n + 1)).reverse.findIdx? p = none := by
    rw [List.take_append_of_le_length hn, List.findIdx?_eq_none_iff]
    intro x hx
    exact hw x (List.mem_of_mem_take (List.mem_reverse.mp hx))
  rw [findLast, hnone]
  rfl

section Find
variable [DecidableEq α]

theorem find_eq_some_iff : find needle s = some n ↔
    n ≤ s.length ∧ needle <+: s.drop n ∧ ∀ j < n, ¬needle <+: s.drop j := by
  rw [find, List.find?_range_eq_some]
  simp only [List.isPrefixOf_iff_prefix, List.mem_range, Bool.not_eq_true', Bool.eq_false_iff, Ne]
  constructor
  · rintro ⟨hpre, hlt, hfirst⟩
    exact ⟨by omega, hpre, hfirst⟩
  · rintro ⟨hle, hpre, hfirst⟩
    exact ⟨hpre, by omega, hfirst⟩

theorem find_eq_none_iff : find needle s = none ↔ ¬needle <:+: s := by
  rw [find, List.find?_eq_none]
  simp only [List.isPrefixOf_iff_prefix, List.mem_range]
  constructor
  · rintro hnone ⟨a, t, rfl⟩
    refine hnone a.length (by simp only [List.length_append]; omega) ⟨t, ?_⟩
    rw [List.append_assoc, List.drop_left]
  · rintro hnone n - ⟨t, ht⟩
    exact hnone ⟨s.take n, t, by rw [List.append_assoc, ht, List.take_append_drop]⟩

/-- It is found where it stands for the first time. -/
theorem find_append (hfirst : ∀ j < a.length, ¬needle <+: (a ++ (needle ++ t)).drop j) :
    find needle (a ++ (needle ++ t)) = some a.length :=
  find_eq_some_iff.mpr ⟨by simp, ⟨t, by rw [List.drop_left]⟩, hfirst⟩

theorem exists_of_find (h : find needle s = some n) : ∃ a t, s = a ++ (needle ++ t) ∧ a.length = n ∧
    ∀ j < a.length, ¬needle <+: s.drop j := by
  obtain ⟨hle, ⟨t, ht⟩, hfirst⟩ := find_eq_some_iff.mp h
  have hlen : (s.take n).length = n := by rw [List.length_take]; omega
  exact ⟨s.take n, t, by rw [ht, List.take_append_drop], hlen, hlen.symm ▸ hfirst⟩

end Find

/-! ### Lines -/

/-- The lines before the one a text ends in, with their line ends. -/
def linesBefore (p : α → Bool) (s : List α) : List α := s.rdropWhile fun x => !p x

/-- What a text ends in after its last line end. -/
def lastLine (p : α → Bool) (s : List α) : List α := s.rtakeWhile fun x => !p x

theorem lines_append (p : α → Bool) (s : List α) : linesBefore p s ++ lastLine p s = s :=
  List.rdropWhile_append_rtakeWhile

theorem of_mem_lastLine {x : α} (hx : x ∈ lastLine p s) : p x = false := by
  simpa using List.mem_rtakeWhile_imp hx

/-- The search for a line end backwards from a place finds where the place's line begins. -/
theorem findLast_lineStart (hc : p c = false) :
    (findLast p (a ++ c :: t) a.length).elim 0 (· + 1) = (linesBefore p a).length := by
  have hline : ∀ x ∈ lastLine p a ++ [c], p x = false := by
    intro x hx
    rcases List.mem_append.mp hx with hx | hx
    · exact of_mem_lastLine hx
    · rwa [List.mem_singleton.mp hx]
  have ha := lines_append p a
  rcases List.eq_nil_or_concat (linesBefore p a) with hnil | ⟨front, d, hfront⟩
  · rw [hnil, List.nil_append] at ha
    have hnone : findLast p ((lastLine p a ++ [c]) ++ t) a.length = none :=
      findLast_none hline (by rw [ha, List.length_append]; rfl)
    rw [show a ++ c :: t = (lastLine p a ++ [c]) ++ t by rw [ha]; simp, hnone, hnil]
    rfl
  · have hd : p d = true := by
      have hlast := List.rdropWhile_last_not (fun x => !p x) a (by
        rw [show List.rdropWhile (fun x => !p x) a = linesBefore p a from rfl, hfront]
        simp)
      simp only [show List.rdropWhile (fun x => !p x) a = linesBefore p a from rfl, hfront] at hlast
      simpa using hlast
    have hlength : front.length + (lastLine p a ++ [c]).length = a.length := by
      conv_rhs => rw [← ha, hfront]
      simp only [List.concat_eq_append, List.length_append, List.length_singleton]
      omega
    have hfound := findLast_append (a := front) (t := t) hline hd
    rw [hlength] at hfound
    rw [show a ++ c :: t = front ++ d :: ((lastLine p a ++ [c]) ++ t) by
      conv_lhs => rw [← ha, hfront]
      simp, hfound, hfront]
    simp

end StringSearch
