import UdfRunner.Lib.Proc

/-!
# Loops that come to an end

The rounds after which a `Proc.loop` is cut off stand for no behaviour of a program. `Concludes` is total
correctness, a cut-off being a stop as any other, and `Concludes.loop` is its variant rule. `Agrees m m'`
says that `m'` does what `m` does wherever that is not cut off: it is closed under the constructs of
programs, and a loop agrees with the same loop of more rounds. Together they show a program to come to the
same end however many rounds it is given, once they are enough.
-/

namespace Proc
variable {σ ε α β : Type}

/-- `Q` after a value, `E` after an exception, and `P` after a stop and of its reason. -/
def Concludes (P : Stop → σ → Prop) (Q : α → σ → Prop) (E : σ → Prop) : Outcome ε α → σ → Prop
  | .ok a, s => Q a s
  | .throw _, s => E s
  | .stop r, s => P r s

namespace Concludes
variable {P P' : Stop → σ → Prop} {Q Q' : α → σ → Prop} {E E' : σ → Prop} {m : Proc σ ε α} {s : σ}

theorem mono (hm : wp m (Concludes P Q E) s) (hP : ∀ r s', P r s' → P' r s') (hQ : ∀ a s', Q a s' → Q' a s')
    (hE : ∀ s', E s' → E' s') : wp m (Concludes P' Q' E') s := by
  refine wp_mono hm fun o s' ho => ?_
  cases o with
  | ok a => exact hQ a s' ho
  | throw e => exact hE s' ho
  | stop r => exact hP r s' ho

theorem bind {R : β → σ → Prop} {f : α → Proc σ ε β} (hm : wp m (Concludes P Q E) s)
    (hf : ∀ a s', Q a s' → wp (f a) (Concludes P R E) s') : wp (m >>= f) (Concludes P R E) s := by
  rw [wp_bind]
  refine wp_mono hm fun o s' ho => ?_
  cases o with
  | ok a => exact hf a s' ho
  | throw e => exact ho
  | stop r => exact ho

theorem catching {f : ε → Proc σ ε α} (hm : wp m (Concludes P Q E') s)
    (hf : ∀ e s', E' s' → wp (f e) (Concludes P Q E) s') : wp (Proc.catching m f) (Concludes P Q E) s := by
  rw [wp_catching]
  refine wp_mono hm fun o s' ho => ?_
  cases o with
  | ok a => exact ho
  | throw e => exact hf e s' ho
  | stop r => exact ho

/-- The variant rule: a round that goes on keeps `I` and brings `rank` down. -/
theorem loop {I : β → σ → Prop} (rank : β → σ → Nat) {body : β → Proc σ ε (β ⊕ α)}
    (hbody : ∀ b s, I b s → wp (body b)
      (Concludes P (Sum.elim (fun b' s' => I b' s' ∧ rank b' s' < rank b s) Q) E) s)
    {n : Nat} {b : β} (h : I b s) (hn : rank b s < n) : wp (Proc.loop body n b) (Concludes P Q E) s := by
  induction n generalizing b s with
  | zero => exact absurd hn (Nat.not_lt_zero _)
  | succ n ih =>
    rw [loop_succ]
    refine bind (hbody b s h) fun r s' hr => ?_
    rcases r with b' | a
    · obtain ⟨hI, hlt⟩ := hr
      exact ih hI (by omega)
    · exact hr

end Concludes

/-- `m'` does what `m` does, where that is not cut off. -/
def Agrees (m m' : Proc σ ε α) : Prop := ∀ s, (m s).1 = .stop .cutOff ∨ m' s = m s

namespace Agrees
variable {m m' : Proc σ ε α}

theorem refl (m : Proc σ ε α) : Agrees m m := fun _ => .inr rfl

theorem ite {c : Prop} [Decidable c] {n n' : Proc σ ε α} (hm : Agrees m m') (hn : Agrees n n') :
    Agrees (if c then m else n) (if c then m' else n') := by
  split_ifs
  · exact hm
  · exact hn

theorem bind {f f' : α → Proc σ ε β} (hm : Agrees m m') (hf : ∀ a, Agrees (f a) (f' a)) :
    Agrees (m >>= f) (m' >>= f') := by
  intro s
  show (Proc.bind m f s).1 = _ ∨ Proc.bind m' f' s = Proc.bind m f s
  unfold Proc.bind
  rcases hm s with hcut | heq
  · left
    rcases hms : m s with ⟨a | e | r, s'⟩ <;> rw [hms] at hcut <;> cases hcut
    rfl
  · rw [heq]
    rcases m s with ⟨a | e | r, s'⟩
    · exact hf a s'
    · exact .inr rfl
    · exact .inr rfl

theorem catching {f f' : ε → Proc σ ε α} (hm : Agrees m m') (hf : ∀ e, Agrees (f e) (f' e)) :
    Agrees (Proc.catching m f) (Proc.catching m' f') := by
  intro s
  unfold Proc.catching
  rcases hm s with hcut | heq
  · left
    rcases hms : m s with ⟨a | e | r, s'⟩ <;> rw [hms] at hcut <;> cases hcut
    rfl
  · rw [heq]
    rcases m s with ⟨a | e | r, s'⟩
    · exact .inr rfl
    · exact hf e s'
    · exact .inr rfl

theorem loop {body body' : β → Proc σ ε (β ⊕ α)} (hbody : ∀ b, Agrees (body b) (body' b)) {n n' : Nat}
    (hn : n ≤ n') (b : β) : Agrees (Proc.loop body n b) (Proc.loop body' n' b) := by
  induction n generalizing n' b with
  | zero => exact fun _ => .inl rfl
  | succ n ih =>
    obtain ⟨n', rfl⟩ := Nat.exists_eq_add_of_lt hn
    rw [loop_succ, loop_succ]
    refine bind (hbody b) fun r => ?_
    rcases r with b' | a
    · exact ih (by omega) b'
    · exact refl _

/-- Of a program that is not cut off, `m'` is the same. -/
theorem eq {s : σ} (h : Agrees m m') (hcut : (m s).1 ≠ .stop .cutOff) : m' s = m s :=
  (h s).resolve_left hcut

end Agrees

end Proc
