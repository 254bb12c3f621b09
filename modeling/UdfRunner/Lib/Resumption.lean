import UdfRunner.Lib.Threads

/-!
# Resumptions: programs as trees of atomic calls

`Resumption C A ε α`: a program that returns, throws, or makes a call of `C` and goes on with its answer. What
is left of a program is where its thread is, so that `Resumption.threads` interleaves programs call by call.
`Lasts k`: the program is not cut off before its `k`th call.
-/

inductive Resumption (C : Type) (A : C → Type) (ε α : Type)
  | ok (a : α)
  | throw (e : ε)
  | call (c : C) (next : A c → Resumption C A ε α)
  | cutOff

namespace Resumption
variable {C : Type} {A : C → Type} {ε α β : Type}

def bind : Resumption C A ε α → (α → Resumption C A ε β) → Resumption C A ε β
  | ok a, f => f a
  | throw e, _ => throw e
  | call c next, f => call c fun a => bind (next a) f
  | cutOff, _ => cutOff

instance : Monad (Resumption C A ε) where
  pure := ok
  bind := bind

def ask (c : C) : Resumption C A ε (A c) := call c ok

/-- `try`/`catch`. -/
def catching : Resumption C A ε α → (ε → Resumption C A ε α) → Resumption C A ε α
  | ok a, _ => ok a
  | throw e, f => f e
  | call c next, f => call c fun a => catching (next a) f
  | cutOff, _ => cutOff

/-- `for (;;)`, cut off after `n` rounds: the body says whether it goes on (`inl`) or leaves the loop. -/
def loop (body : β → Resumption C A ε (β ⊕ α)) : Nat → β → Resumption C A ε α
  | 0, _ => cutOff
  | n + 1, b => bind (body b) fun
    | .inl b' => loop body n b'
    | .inr a => ok a

section
variable {c : C} {next : A c → Resumption C A ε α} {f : α → Resumption C A ε β}

@[simp] theorem pure_eq (a : α) : (pure a : Resumption C A ε α) = ok a := rfl
@[simp] theorem bind_ok (a : α) : (ok a : Resumption C A ε α) >>= f = f a := rfl
@[simp] theorem bind_throw (e : ε) : (throw e : Resumption C A ε α) >>= f = throw e := rfl
@[simp] theorem bind_cutOff : (cutOff : Resumption C A ε α) >>= f = cutOff := rfl
@[simp] theorem bind_call : call c next >>= f = call c fun a => next a >>= f := rfl
@[simp] theorem bind_ask {g : A c → Resumption C A ε β} : ask c >>= g = call c g := rfl
@[simp] theorem catching_ok (a : α) (h : ε → Resumption C A ε α) : catching (ok a) h = ok a := rfl
@[simp] theorem catching_throw (e : ε) (h : ε → Resumption C A ε α) : catching (throw e) h = h e := rfl
@[simp] theorem catching_cutOff (h : ε → Resumption C A ε α) : catching cutOff h = cutOff := rfl

@[simp] theorem catching_call (h : ε → Resumption C A ε α) :
    catching (call c next) h = call c fun a => catching (next a) h := rfl

@[simp] theorem loop_zero (body : β → Resumption C A ε (β ⊕ α)) (b : β) : loop body 0 b = cutOff := rfl

theorem loop_succ (body : β → Resumption C A ε (β ⊕ α)) (n : Nat) (b : β) :
    loop body (n + 1) b = body b >>= fun
      | .inl b' => loop body n b'
      | .inr a => ok a := rfl

end

theorem bind_bind {γ : Type} (m : Resumption C A ε α) (f : α → Resumption C A ε β)
    (g : β → Resumption C A ε γ) : m >>= f >>= g = m >>= fun a => f a >>= g := by
  induction m with
  | call c next ih => exact congrArg (call c) (funext ih)
  | _ => rfl

/-! ### Cutting off -/

/-- The program is not cut off before it has made `k` calls. -/
def Lasts : Nat → Resumption C A ε α → Prop
  | 0, _ => True
  | _ + 1, ok _ | _ + 1, throw _ => True
  | k + 1, call _ next => ∀ a, Lasts k (next a)
  | _ + 1, cutOff => False

def Asks : Resumption C A ε α → Prop
  | call _ _ | cutOff => True
  | _ => False

namespace Asks
variable {m : Resumption C A ε α}

theorem bind {f : α → Resumption C A ε β} (h : m.Asks) : (m >>= f).Asks := by
  cases m with
  | call c next => trivial
  | cutOff => trivial
  | _ => exact h.elim

theorem catching {f : ε → Resumption C A ε α} (h : m.Asks) : (Resumption.catching m f).Asks := by
  cases m with
  | call c next => trivial
  | cutOff => trivial
  | _ => exact h.elim

theorem loop {body : β → Resumption C A ε (β ⊕ α)} (h : ∀ b, (body b).Asks) (n : Nat) (b : β) :
    (Resumption.loop body n b).Asks := by
  cases n with
  | zero => trivial
  | succ n => exact bind (h b)

end Asks

namespace Lasts
variable {k k' : Nat} {m : Resumption C A ε α}

theorem of_ok (a : α) : Lasts k (ok a : Resumption C A ε α) := by
  cases k <;> trivial

theorem of_throw (e : ε) : Lasts k (throw e : Resumption C A ε α) := by
  cases k <;> trivial

theorem ask (c : C) : Lasts k (ask c : Resumption C A ε (A c)) := by
  cases k with
  | zero => trivial
  | succ k => exact fun a => of_ok a

theorem mono (h : Lasts k m) (hk : k' ≤ k) : Lasts k' m := by
  induction m generalizing k k' with
  | ok a => exact of_ok a
  | throw e => exact of_throw e
  | call c next ih =>
    cases k' with
    | zero => trivial
    | succ k' =>
      obtain ⟨k, rfl⟩ : ∃ j, k = j + 1 := ⟨k - 1, by omega⟩
      exact fun a => ih a (h a) (Nat.le_of_succ_le_succ hk)
  | cutOff =>
    cases k' with
    | zero => trivial
    | succ k' =>
      obtain ⟨k, rfl⟩ : ∃ j, k = j + 1 := ⟨k - 1, by omega⟩
      exact h.elim

theorem bind {f : α → Resumption C A ε β} (h : Lasts k m) (hf : ∀ a, Lasts k (f a)) : Lasts k (m >>= f) := by
  induction m generalizing k with
  | ok a => exact hf a
  | throw e => exact of_throw e
  | call c next ih =>
    cases k with
    | zero => trivial
    | succ k => exact fun a => ih a (h a) fun b => (hf b).mono (Nat.le_succ k)
  | cutOff =>
    cases k with
    | zero => trivial
    | succ k => exact h.elim

theorem catching {f : ε → Resumption C A ε α} (h : Lasts k m) (hf : ∀ e, Lasts k (f e)) :
    Lasts k (Resumption.catching m f) := by
  induction m generalizing k with
  | ok a => exact of_ok a
  | throw e => exact hf e
  | call c next ih =>
    cases k with
    | zero => trivial
    | succ k => exact fun a => ih a (h a) fun e => (hf e).mono (Nat.le_succ k)
  | cutOff =>
    cases k with
    | zero => trivial
    | succ k => exact h.elim

theorem loop {body : β → Resumption C A ε (β ⊕ α)} (hbody : ∀ b, Lasts k (body b)) (hasks : ∀ b, (body b).Asks)
    (hk : k' ≤ k) (b : β) : Lasts k' (Resumption.loop body k' b) := by
  induction k' generalizing b with
  | zero => trivial
  | succ k' ih =>
    rw [loop_succ]
    have hround := (hbody b).mono hk
    have hround' := hasks b
    cases hb : body b with
    | ok r => exact (hb ▸ hround').elim
    | throw e => exact (hb ▸ hround').elim
    | cutOff => exact (hb ▸ hround).elim
    | call c next =>
      rw [hb] at hround
      intro a
      refine bind (hround a) fun r => ?_
      cases r with
      | inl b' => exact ih (Nat.le_of_succ_le hk) b'
      | inr a => exact of_ok a

end Lasts

/-! ### Threads -/

/-- A thread makes its next call, and `answers` says what the shared state may do with it. -/
def threads {T S : Type} (answers : T → (c : C) → S → A c → S → Prop) : Threads T (Resumption C A ε α) S :=
  ⟨fun t p s p' s' => ∃ c next a, p = call c next ∧ answers t c s a s' ∧ p' = next a⟩

section
variable {T S : Type} {answers : T → (c : C) → S → A c → S → Prop} {t : T} {s s' : S}
  {p' : Resumption C A ε α}

theorem threads_call {c : C} {next : A c → Resumption C A ε α} :
    (threads answers).Step t (call c next) s p' s' ↔ ∃ a, answers t c s a s' ∧ p' = next a := by
  constructor
  · rintro ⟨c', next', a, hp, ha, rfl⟩
    cases hp
    exact ⟨a, ha, rfl⟩
  · rintro ⟨a, ha, rfl⟩
    exact ⟨c, next, a, rfl, ha, rfl⟩

/-- A call is one of the calls left. -/
theorem Lasts.step {p : Resumption C A ε α} {k : Nat} (hp : Lasts (k + 1) p)
    (h : (threads answers).Step t p s p' s') : Lasts k p' := by
  obtain ⟨c, next, a, rfl, -, rfl⟩ := h
  exact hp a

theorem Lasts.path [DecidableEq T] {c c' : Threads.Config T (Resumption C A ε α) S} {l : List T} {k : Nat}
    (h : (threads answers).interleave.Path c l c') (hlasts : ∀ t, Lasts k (c.place t)) (hk : l.length < k) (t : T) :
    c'.place t ≠ cutOff := by
  have hleft := h.invariant (I := fun l c => l.length ≤ k → ∀ t, Lasts (k - l.length) (c.place t))
    (fun _ => hlasts) ?_ ?_
  · intro hcut
    have hone : Lasts 1 (c'.place t) := (hleft hk.le t).mono (by omega)
    rw [hcut] at hone
    exact hone
  · rintro l c u _ ih ⟨hs⟩ hl v
    rw [List.length_append, List.length_singleton] at hl ⊢
    have hv := ih (by omega) v
    rw [show k - l.length = k - (l.length + 1) + 1 by omega] at hv
    show Lasts _ (Function.update c.place u _ v)
    by_cases hvu : v = u
    · subst hvu
      rw [Function.update_self]
      exact hv.step hs
    · rw [Function.update_of_ne hvu]
      exact hv.mono (by omega)
  · rintro l c c' _ ⟨⟩

theorem not_threads_ok {a : α} : ¬(threads (ε := ε) answers).Step t (ok a) s p' s' := by
  rintro ⟨c, next, a', hp, -⟩
  cases hp

theorem not_threads_cutOff : ¬(threads (ε := ε) (α := α) answers).Step t cutOff s p' s' := by
  rintro ⟨c, next, a', hp, -⟩
  cases hp

end

end Resumption
