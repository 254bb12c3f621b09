import Mathlib.Data.List.Basic
import Mathlib.Tactic

/-!
# Texts in segments

A text in segments, some of them marked. A mark is told by its place in the text alone: `erase_marks` takes
the marked segments out of the text, the last one first.
-/

/-- A segment is marked with a label or not. -/
structure Segment (α β : Type) where
  text : List α
  label : Option β

structure Mark (β : Type) where
  label : β
  start : Nat
  size : Nat

namespace Segment
variable {α β : Type}

def joined (ss : List (Segment α β)) : List α := ss.flatMap Segment.text

/-- What is not marked. -/
def kept (ss : List (Segment α β)) : List α := ss.flatMap fun s => s.label.elim s.text fun _ => []

def marks : Nat → List (Segment α β) → List (Mark β)
  | _, [] => []
  | n, ⟨t, none⟩ :: ss => marks (n + t.length) ss
  | n, ⟨t, some b⟩ :: ss => ⟨b, n, t.length⟩ :: marks (n + t.length) ss

def substr (s : List α) (start size : Nat) : List α := (s.drop start).take size
def erase (s : List α) (start size : Nat) : List α := s.take start ++ s.drop (start + size)

variable {a t : List α} {b : β} {ss ss' : List (Segment α β)} {m : Mark β} {n : Nat}

@[simp] theorem joined_nil : joined ([] : List (Segment α β)) = [] := rfl
@[simp] theorem joined_cons {s : Segment α β} : joined (s :: ss) = s.text ++ joined ss := List.flatMap_cons
@[simp] theorem joined_append : joined (ss ++ ss') = joined ss ++ joined ss' := List.flatMap_append
@[simp] theorem kept_nil : kept ([] : List (Segment α β)) = [] := rfl
@[simp] theorem kept_none : kept (⟨t, none⟩ :: ss : List (Segment α β)) = t ++ kept ss := List.flatMap_cons
@[simp] theorem kept_some : kept (⟨t, some b⟩ :: ss) = kept ss := List.flatMap_cons
@[simp] theorem kept_append : kept (ss ++ ss') = kept ss ++ kept ss' := List.flatMap_append

theorem kept_sublist (ss : List (Segment α β)) : (kept ss).Sublist (joined ss) := by
  induction ss with
  | nil => exact List.Sublist.refl _
  | cons s ss ih =>
    obtain ⟨t, _ | b⟩ := s
    · rw [kept_none, joined_cons]
      exact ih.append_left t
    · rw [kept_some, joined_cons]
      exact ih.trans (List.sublist_append_right _ _)

theorem marks_append : marks n (ss ++ ss') = marks n ss ++ marks (n + (joined ss).length) ss' := by
  induction ss generalizing n with
  | nil => rfl
  | cons s ss ih =>
    obtain ⟨t, _ | b⟩ := s
    · rw [List.cons_append, marks, marks, ih, joined_cons, List.length_append, Nat.add_assoc]
    · rw [List.cons_append, marks, marks, ih, joined_cons, List.length_append, Nat.add_assoc, List.cons_append]

theorem substr_append {s : List α} : substr (a ++ (t ++ s)) a.length t.length = t := by
  rw [substr, List.drop_left, List.take_left]

theorem erase_append {s : List α} : erase (a ++ (t ++ s)) a.length t.length = a ++ s := by
  rw [erase, List.take_left, ← List.length_append, ← List.append_assoc, List.drop_left]

/-- The last mark is erased first, so that the places of the others stay the same. -/
theorem erase_marks (a : List α) (ss : List (Segment α β)) :
    (marks a.length ss).foldr (fun m s => erase s m.start m.size) (a ++ joined ss) = a ++ kept ss := by
  induction ss generalizing a with
  | nil => rfl
  | cons s ss ih =>
    have hrest := ih (a ++ s.text)
    rw [List.length_append, List.append_assoc, List.append_assoc] at hrest
    obtain ⟨t, _ | b⟩ := s
    · rw [marks, joined_cons, kept_none]
      exact hrest
    · rw [marks, List.foldr_cons, joined_cons, hrest, kept_some]
      exact erase_append

theorem le_start (hm : m ∈ marks n ss) : n ≤ m.start := by
  induction ss generalizing n with
  | nil => cases hm
  | cons s ss ih =>
    obtain ⟨t, _ | b⟩ := s
    · exact (Nat.le_add_right n t.length).trans (ih hm)
    · rcases List.mem_cons.mp hm with rfl | hm
      · exact le_rfl
      · exact (Nat.le_add_right n t.length).trans (ih hm)

/-- No mark begins before another one has ended. -/
theorem marks_pairwise : (marks n ss).Pairwise fun m m' => m.start + m.size ≤ m'.start := by
  induction ss generalizing n with
  | nil => exact List.Pairwise.nil
  | cons s ss ih =>
    obtain ⟨t, _ | b⟩ := s
    · exact ih
    · exact List.pairwise_cons.mpr ⟨fun m' hm' => le_start hm', ih⟩

theorem of_mem_marks (hm : m ∈ marks a.length ss) : ∃ s ∈ ss, s.label = some m.label ∧ m.size = s.text.length ∧
    substr (a ++ joined ss) m.start m.size = s.text ∧ m.start + m.size ≤ (a ++ joined ss).length := by
  induction ss generalizing a with
  | nil => cases hm
  | cons s ss ih =>
    have hlater : m ∈ marks (a.length + s.text.length) ss → ∃ s' ∈ s :: ss, s'.label = some m.label ∧
        m.size = s'.text.length ∧ substr (a ++ joined (s :: ss)) m.start m.size = s'.text ∧
        m.start + m.size ≤ (a ++ joined (s :: ss)).length := by
      intro hm
      rw [← List.length_append] at hm
      obtain ⟨s', hs', hfound⟩ := ih hm
      rw [List.append_assoc] at hfound
      exact ⟨s', List.mem_cons_of_mem _ hs', hfound⟩
    obtain ⟨t, _ | b⟩ := s
    · exact hlater hm
    · rcases List.mem_cons.mp hm with rfl | hm
      · refine ⟨⟨t, some b⟩, List.mem_cons_self .., rfl, rfl, substr_append, ?_⟩
        simp only [joined_cons, List.length_append]
        omega
      · exact hlater hm

end Segment
