import UdfRunner.Lib.Proc
import UdfRunner.Messages

/-!
# `posix.hpp`: a POSIX that answers as it likes

The calls made are logged, and each takes the next of the answers `A` that POSIX will give.
-/

namespace UdfRunner
open Proc

/-- The exceptions of the runner's POSIX wrappers. -/
inductive PosixError
  | invalidArgument (what : ByteString)
  | systemError (errno : Nat) (what : ByteString)
  | runtimeError (what : ByteString)
  | logicError (what : ByteString)
deriving DecidableEq, Repr

structure PosixState (E A : Type) where
  history : List E := []
  answers : List A

namespace Posix
variable {E A : Type}

def EINTR : Nat := 4
def EBADF : Nat := 9

def record (e : E) : Proc (PosixState E A) PosixError Unit :=
  modify fun k => { k with history := k.history ++ [e] }

/-- The next answer. Without one the call has not returned. -/
def answer : Proc (PosixState E A) PosixError A := do
  let k ← get
  match k.answers with
  | [] => stop .cutOff
  | a :: answers => do
    modify fun k => { k with answers := answers }
    return a

theorem answer_triple {R : List E → Prop} {C : PosixState E A → Prop} :
    Triple (fun k => R k.history) (answer : Proc (PosixState E A) PosixError A) (fun _ k => R k.history) C := by
  intro k hk
  unfold answer
  rw [wp_bind, wp_get]
  simp only [Outcome.andThen_ok]
  cases k.answers with
  | nil => trivial
  | cons a answers => exact hk

/-- No other calls are made than `Allowed` ones. -/
def Calls (Allowed : E → Prop) (k k' : PosixState E A) : Prop :=
  ∃ calls, k'.history = k.history ++ calls ∧ ∀ e ∈ calls, Allowed e

section
variable {Allowed : E → Prop}

instance : IsPreorder (PosixState E A) (Calls Allowed) where
  refl k := ⟨[], (List.append_nil _).symm, by simp⟩
  trans _ _ _ := exists_append_trans

theorem record_calls {e : E} (he : Allowed e) :
    Moves (Calls Allowed) (record e : Proc (PosixState E A) PosixError Unit) :=
  fun _ => ⟨[e], rfl, by simpa using he⟩

theorem answer_calls : Moves (Calls Allowed) (answer : Proc (PosixState E A) PosixError A) := by
  refine .bind .get fun k => ?_
  cases k.answers with
  | nil => exact .stop _
  | cons a answers => exact .bind (fun k => ⟨[], (List.append_nil _).symm, by simp⟩) fun _ => .pure _

end

end Posix

end UdfRunner
