import Mathlib.Data.List.Basic

/-!
# Pipes

A pipe is what was taken out of it and what is still in it; `written` is both. How much it holds is the
business of who writes.
-/

structure Pipe (α : Type) where
  taken : List α := []
  content : List α := []
deriving DecidableEq, Repr

namespace Pipe
variable {α : Type}

def written (p : Pipe α) : List α := p.taken ++ p.content

def push (p : Pipe α) (a : α) : Pipe α := { p with content := p.content ++ [a] }

/-- A read of up to `n` entries. -/
def take (p : Pipe α) (n : Nat) : Pipe α := ⟨p.taken ++ p.content.take n, p.content.drop n⟩

@[simp] theorem written_push (p : Pipe α) (a : α) : (p.push a).written = p.written ++ [a] :=
  (List.append_assoc _ _ _).symm

@[simp] theorem written_take (p : Pipe α) (n : Nat) : (p.take n).written = p.written := by
  simp [take, written]

@[simp] theorem taken_push (p : Pipe α) (a : α) : (p.push a).taken = p.taken := rfl

theorem written_empty {p : Pipe α} (h : p.content = []) : p.written = p.taken := by
  rw [written, h, List.append_nil]

theorem length_content_push (p : Pipe α) (a : α) : (p.push a).content.length = p.content.length + 1 :=
  List.length_append

theorem length_content_take {p : Pipe α} (h : p.content ≠ []) {n : Nat} :
    (p.take (n + 1)).content.length < p.content.length := by
  have hpos := List.length_pos_of_ne_nil h
  show (p.content.drop (n + 1)).length < _
  rw [List.length_drop]
  omega

end Pipe
