import Mathlib.Tactic

/-!
# Labelled transition systems with silent steps

`Path p l q`: the system gets from `p` to `q` showing the events `l`. A path grows at its end, as a log
does; `Path.split` cuts it at an event.
-/

structure Lts (P E : Type) where
  Step : P → E → P → Prop
  Silent : P → P → Prop

namespace Lts
variable {P E : Type} {L : Lts P E}

inductive Path (L : Lts P E) (p : P) : List E → P → Prop
  | nil : Path L p [] p
  | step {l : List E} {q r : P} {e : E} (h : Path L p l q) (hstep : L.Step q e r) :
    Path L p (l ++ [e]) r
  | silent {l : List E} {q r : P} (h : Path L p l q) (hsilent : L.Silent q r) : Path L p l r

namespace Path
variable {p q r : P} {e : E} {l l' : List E}

theorem split (h : L.Path p (l ++ e :: l') r) :
    ∃ q q', L.Path p l q ∧ L.Step q e q' ∧ L.Path q' l' r := by
  generalize hl : l ++ e :: l' = log at h
  induction h generalizing l' with
  | nil => simp at hl
  | @step log q r e' h hstep ih =>
    rcases List.eq_nil_or_concat l' with rfl | ⟨l', e'', rfl⟩
    · obtain ⟨rfl, rfl⟩ : l = log ∧ e = e' := by
        have hl' : l ++ [e] = log ++ [e'] := hl
        obtain ⟨h₁, h₂⟩ := List.append_inj' hl' rfl
        exact ⟨h₁, by simpa using h₂⟩
      exact ⟨q, r, h, hstep, .nil⟩
    · rw [List.concat_eq_append, ← List.cons_append, ← List.append_assoc] at hl
      rw [List.concat_eq_append]
      obtain ⟨hl', he⟩ := List.append_inj' hl rfl
      obtain rfl : e'' = e' := by simpa using he
      obtain ⟨q₁, q₂, h₁, h₂, h₃⟩ := ih hl'
      exact ⟨q₁, q₂, h₁, h₂, h₃.step hstep⟩
  | silent h hsilent ih =>
    obtain ⟨q₁, q₂, h₁, h₂, h₃⟩ := ih hl
    exact ⟨q₁, q₂, h₁, h₂, h₃.silent hsilent⟩

/-- The run rule: what holds at the start and is kept by every step holds all along. -/
theorem invariant {I : List E → P → Prop} (h : L.Path p l q) (hnil : I [] p)
    (hstep : ∀ l q e r, I l q → L.Step q e r → I (l ++ [e]) r)
    (hsilent : ∀ l q r, I l q → L.Silent q r → I l r) : I l q := by
  induction h with
  | nil => exact hnil
  | step _ hs ih => exact hstep _ _ _ _ ih hs
  | silent _ hs ih => exact hsilent _ _ _ ih hs

/-- In a closed set of states only the events the set allows are seen. -/
theorem stays {X : P → Prop} {A : E → Prop} (h : L.Path p l q) (hp : X p)
    (hstep : ∀ q e r, X q → L.Step q e r → A e ∧ X r) (hsilent : ∀ q r, X q → L.Silent q r → X r) :
    (∀ e ∈ l, A e) ∧ X q := by
  refine h.invariant (I := fun l q => (∀ e ∈ l, A e) ∧ X q) ⟨by simp, hp⟩ ?_ ?_
  · rintro l q e r ⟨hl, hq⟩ hs
    obtain ⟨he, hr⟩ := hstep q e r hq hs
    refine ⟨fun e' he' => ?_, hr⟩
    rcases List.mem_append.mp he' with he' | he'
    · exact hl e' he'
    · obtain rfl := List.mem_singleton.mp he'
      exact he
  · rintro l q r ⟨hl, hq⟩ hs
    exact ⟨hl, hsilent q r hq hs⟩

theorem append {s : P} {l'' : List E} (h : L.Path p l q) (h' : L.Path q l'' s) : L.Path p (l ++ l'') s := by
  induction h' with
  | nil => rwa [List.append_nil]
  | step _ hstep ih =>
    rw [← List.append_assoc]
    exact ih.step hstep
  | silent _ hsilent ih => exact ih.silent hsilent

theorem mono {L' : Lts P E} (h : L.Path p l q) (hstep : ∀ q e r, L.Step q e r → L'.Step q e r)
    (hsilent : ∀ q r, L.Silent q r → L'.Silent q r) : L'.Path p l q := by
  induction h with
  | nil => exact .nil
  | step _ hs ih => exact ih.step (hstep _ _ _ hs)
  | silent _ hs ih => exact ih.silent (hsilent _ _ hs)

/-- The variant rule: where every step lowers the rank, the rank bounds the steps of a path. -/
theorem ranked {R : P → Nat → Prop} {k : Nat} (h : L.Path p l q) (hp : R p k)
    (hstep : ∀ q e r k, R q k → L.Step q e r → ∃ k' < k, R r k')
    (hsilent : ∀ q r k, R q k → L.Silent q r → R r k) : ∃ k', R q k' ∧ l.length + k' ≤ k := by
  induction h with
  | nil => exact ⟨k, hp, by simp⟩
  | step _ hs ih =>
    obtain ⟨k₁, hk₁, hle⟩ := ih
    obtain ⟨k₂, hlt, hk₂⟩ := hstep _ _ _ _ hk₁ hs
    refine ⟨k₂, hk₂, ?_⟩
    rw [List.length_append, List.length_singleton]
    omega
  | silent _ hs ih =>
    obtain ⟨k₁, hk₁, hle⟩ := ih
    exact ⟨k₁, hsilent _ _ _ hk₁ hs, hle⟩

/-- The same of a rank that is a number of the state. -/
theorem length_add_le {m : P → Nat} {I : P → Prop} (h : L.Path p l q) (hp : I p)
    (hstep : ∀ q e r, I q → L.Step q e r → I r ∧ m r < m q)
    (hsilent : ∀ q r, I q → L.Silent q r → I r ∧ m r ≤ m q) : I q ∧ l.length + m q ≤ m p := by
  obtain ⟨k, ⟨hq, hk⟩, hle⟩ := h.ranked (R := fun q k => I q ∧ m q ≤ k) ⟨hp, le_rfl⟩
    (fun q e r k hq hs => by
      obtain ⟨hr, hlt⟩ := hstep q e r hq.1 hs
      exact ⟨m r, hlt.trans_le hq.2, hr, le_rfl⟩)
    (fun q r k hq hs => by
      obtain ⟨hr, hle⟩ := hsilent q r hq.1 hs
      exact ⟨hr, hle.trans hq.2⟩)
  exact ⟨hq, (Nat.add_le_add_left hk _).trans hle⟩

end Path

end Lts
