import Mathlib.Tactic
import Mathlib.Data.List.Basic

/-!
# Programs with state, exceptions and cut-offs

`Proc σ ε α` is a deterministic program over a state `σ`: it returns an `α`, throws an `ε`, or stops
for good (`Stop`). `wp m Q s` says that running `m` from `s` ends in `Q`; every program construct has
one `wp` equation, and `wp_loop` is the invariant rule of a loop that is cut off after `n` rounds.
-/

/-- Why a program neither returns nor throws: its loop was cut off, it aborted the process, or its
behaviour is undefined from here on. -/
inductive Stop
  | cutOff
  | aborted
  | undefined
deriving DecidableEq, Repr

inductive Outcome (ε α : Type)
  | ok (a : α)
  | throw (e : ε)
  | stop (r : Stop)
deriving DecidableEq, Repr

namespace Outcome
variable {ε α β : Type}

/-- What follows an outcome: `f` after a value, `g` after anything else. -/
def andThen (f : α → Prop) (g : Outcome ε β → Prop) : Outcome ε α → Prop
  | ok a => f a
  | throw e => g (throw e)
  | stop r => g (stop r)

@[simp] theorem andThen_ok (f : α → Prop) (g : Outcome ε β → Prop) (a : α) :
    andThen f g (ok a) = f a := rfl
@[simp] theorem andThen_throw (f : α → Prop) (g : Outcome ε β → Prop) (e : ε) :
    andThen f g (throw e) = g (throw e) := rfl
@[simp] theorem andThen_stop (f : α → Prop) (g : Outcome ε β → Prop) (r : Stop) :
    andThen f g (stop r) = g (stop r) := rfl

def Stopped : Outcome ε α → Prop
  | stop _ => True
  | _ => False

@[simp] theorem stopped_ok (a : α) : ¬ Stopped (ok a : Outcome ε α) := id
@[simp] theorem stopped_throw (e : ε) : ¬ Stopped (throw e : Outcome ε α) := id
@[simp] theorem stopped_stop (r : Stop) : Stopped (stop r : Outcome ε α) := trivial

end Outcome

def Proc (σ ε α : Type) := σ → Outcome ε α × σ

namespace Proc
variable {σ τ ε α β : Type}

def pure (a : α) : Proc σ ε α := fun s => (.ok a, s)

def bind (m : Proc σ ε α) (f : α → Proc σ ε β) : Proc σ ε β := fun s =>
  match m s with
  | (.ok a, s') => f a s'
  | (.throw e, s') => (.throw e, s')
  | (.stop r, s') => (.stop r, s')

instance : Monad (Proc σ ε) where
  pure := Proc.pure
  bind := Proc.bind

def throw (e : ε) : Proc σ ε α := fun s => (.throw e, s)
def stop (r : Stop) : Proc σ ε α := fun s => (.stop r, s)
def get : Proc σ ε σ := fun s => (.ok s, s)
def modify (f : σ → σ) : Proc σ ε Unit := fun s => (.ok (), f s)

/-- `try m catch h`: only an exception reaches `h`, and the state changes of `m` stay. -/
def catching (m : Proc σ ε α) (h : ε → Proc σ ε α) : Proc σ ε α := fun s =>
  match m s with
  | (.throw e, s') => h e s'
  | r => r

/-- Run a program on a part of the state. -/
def zoom (view : σ → τ) (put : σ → τ → σ) (m : Proc τ ε α) : Proc σ ε α := fun s =>
  ((m (view s)).1, put s (m (view s)).2)

/-- What makes `view` and `put` a part of the state. -/
structure IsLens (view : σ → τ) (put : σ → τ → σ) : Prop where
  view_put : ∀ s t, view (put s t) = t
  put_view : ∀ s, put s (view s) = s
  put_put : ∀ s t t', put (put s t) t' = put s t'

/-- Construct an object beside the state, and return it. -/
def construct (init : τ) (m : Proc (τ × σ) ε Unit) : Proc σ ε τ := fun s =>
  match m (init, s) with
  | (.ok (), t, s') => (.ok t, s')
  | (.throw e, _, s') => (.throw e, s')
  | (.stop r, _, s') => (.stop r, s')

/-- `for (;;)`, cut off after `n` rounds: the body says whether it goes on (`inl`) or leaves the
loop (`inr`). -/
def loop (body : β → Proc σ ε (β ⊕ α)) : Nat → β → Proc σ ε α
  | 0, _ => stop .cutOff
  | n + 1, b => body b >>= fun
    | .inl b' => loop body n b'
    | .inr a => Proc.pure a

/-- Running `m` from `s` ends in `Q`. -/
def wp (m : Proc σ ε α) (Q : Outcome ε α → σ → Prop) (s : σ) : Prop := Q (m s).1 (m s).2

section
variable {Q : Outcome ε α → σ → Prop} {R : Outcome ε β → σ → Prop} {s : σ}

@[simp] theorem wp_pure (a : α) : wp (Pure.pure a : Proc σ ε α) Q s ↔ Q (.ok a) s := Iff.rfl
@[simp] theorem wp_pure' (a : α) : wp (Proc.pure a : Proc σ ε α) Q s ↔ Q (.ok a) s := Iff.rfl
@[simp] theorem wp_throw (e : ε) : wp (throw e : Proc σ ε α) Q s ↔ Q (.throw e) s := Iff.rfl
@[simp] theorem wp_stop (r : Stop) : wp (stop r : Proc σ ε α) Q s ↔ Q (.stop r) s := Iff.rfl

@[simp] theorem wp_get {Q : Outcome ε σ → σ → Prop} : wp get Q s ↔ Q (.ok s) s := Iff.rfl

@[simp] theorem wp_modify {Q : Outcome ε Unit → σ → Prop} (f : σ → σ) :
    wp (modify f) Q s ↔ Q (.ok ()) (f s) := Iff.rfl

@[simp] theorem wp_bind (m : Proc σ ε α) (f : α → Proc σ ε β) :
    wp (m >>= f) R s ↔ wp m (fun o s' => o.andThen (fun a => wp (f a) R s') (R · s')) s := by
  show wp (Proc.bind m f) R s ↔ _
  unfold wp Proc.bind
  rcases m s with ⟨_ | _ | _, s'⟩ <;> rfl

@[simp] theorem wp_catching (m : Proc σ ε α) (h : ε → Proc σ ε α) :
    wp (catching m h) Q s ↔
      wp m (fun o s' => match o with | .throw e => wp (h e) Q s' | o => Q o s') s := by
  unfold wp catching
  rcases m s with ⟨_ | _ | _, s'⟩ <;> rfl

@[simp] theorem wp_zoom {Q : Outcome ε α → σ → Prop} (view : σ → τ) (put : σ → τ → σ)
    (m : Proc τ ε α) :
    wp (zoom view put m) Q s ↔ wp m (fun o t => Q o (put s t)) (view s) := Iff.rfl

@[simp] theorem wp_construct {Q : Outcome ε τ → σ → Prop} (init : τ) (m : Proc (τ × σ) ε Unit) :
    wp (construct init m) Q s ↔
      wp m (fun o t => o.andThen (fun _ => Q (.ok t.1) t.2) (Q · t.2)) (init, s) := by
  unfold wp construct
  rcases m (init, s) with ⟨⟨⟨⟩⟩ | _ | _, t, s'⟩ <;> rfl

@[simp] theorem wp_ite {c : Prop} [Decidable c] (m m' : Proc σ ε α) :
    wp (if c then m else m') Q s ↔ if c then wp m Q s else wp m' Q s := by
  split <;> rfl

theorem wp_mono {Q' : Outcome ε α → σ → Prop} {m : Proc σ ε α} (h : wp m Q s)
    (hQ : ∀ o s', Q o s' → Q' o s') : wp m Q' s := hQ _ _ h

theorem wp_and {Q' : Outcome ε α → σ → Prop} {m : Proc σ ε α} (h : wp m Q s) (h' : wp m Q' s) :
    wp m (fun o s' => Q o s' ∧ Q' o s') s := ⟨h, h'⟩

theorem wp_eq {m : Proc σ ε α} {r : Outcome ε α × σ} (h : m s = r) : wp m Q s ↔ Q r.1 r.2 := by
  rw [wp, h]

end

theorem IsLens.zoom_pure {view : σ → τ} {put : σ → τ → σ} (h : IsLens view put) (a : α) :
    zoom view put (Pure.pure a : Proc τ ε α) = Pure.pure a := by
  funext s
  show (Outcome.ok a, put s (view s)) = (.ok a, s)
  rw [h.put_view]

theorem IsLens.zoom_bind {view : σ → τ} {put : σ → τ → σ} (h : IsLens view put) (m : Proc τ ε α)
    (f : α → Proc τ ε β) :
    zoom view put (m >>= f) = zoom view put m >>= fun a => zoom view put (f a) := by
  funext s
  show zoom view put (Proc.bind m f) s = Proc.bind (zoom view put m) (fun a => zoom view put (f a)) s
  unfold Proc.bind zoom
  rcases hm : m (view s) with ⟨a | e | r, t⟩ <;> simp only [hm, h.view_put, h.put_put]

theorem run_bind (m : Proc σ ε α) (f : α → Proc σ ε β) {s s' : σ} {a : α} (h : m s = (.ok a, s')) :
    (m >>= f) s = f a s' := by
  show Proc.bind m f s = _
  simp only [Proc.bind, h]

theorem eq_of_run_bind_pure {m : Proc σ ε α} {b b' : β} {s : σ}
    (h : ((m >>= fun _ => Pure.pure b : Proc σ ε β) s).1 = .ok b') : b' = b := by
  have h' : (Proc.bind m (fun _ => Pure.pure b) s).1 = .ok b' := h
  unfold Proc.bind at h'
  rcases hm : m s with ⟨a | e | r, s'⟩ <;> rw [hm] at h'
  · exact (Outcome.ok.inj h').symm
  · cases h'
  · cases h'

@[simp] theorem run_pure (a : α) (s : σ) : (Pure.pure a : Proc σ ε α) s = (.ok a, s) := rfl

/-- The invariant rule of a cut-off loop: a round keeps `I` or leaves in `Q`, and being cut off in
`I` is in `Q`. -/
theorem wp_loop {body : β → Proc σ ε (β ⊕ α)} {Q : Outcome ε α → σ → Prop} (I : β → σ → Prop)
    (hcut : ∀ b s, I b s → Q (.stop .cutOff) s)
    (hbody : ∀ b s, I b s → wp (body b) (fun o s' =>
      o.andThen (fun | .inl b' => I b' s' | .inr a => Q (.ok a) s') (Q · s')) s)
    (n : Nat) {b : β} {s : σ} (h : I b s) : wp (loop body n b) Q s := by
  induction n generalizing b s with
  | zero => exact hcut b s h
  | succ n ih =>
    show wp (body b >>= _) Q s
    rw [wp_bind]
    refine wp_mono (hbody b s h) fun o s' ho => ?_
    cases o with
    | ok r => cases r with
      | inl b' => exact ih ho
      | inr a => exact ho
    | throw e => exact ho
    | stop r => exact ho

/-- `Q` after a value, `E` after an exception, and `H` after a stop. -/
def Yields (Q : α → σ → Prop) (E H : σ → Prop) : Outcome ε α → σ → Prop
  | .ok a, s => Q a s
  | .throw _, s => E s
  | .stop _, s => H s

/-- The same where nothing is said of a program that stops. -/
def Returns (Q : α → σ → Prop) (E : σ → Prop) : Outcome ε α → σ → Prop := Yields Q E fun _ => True

section
variable {Q : α → σ → Prop} {E H : σ → Prop} {m : Proc σ ε α} {s : σ}

theorem Yields.mono {Q' : α → σ → Prop} {E' H' : σ → Prop} (hm : wp m (Yields Q E H) s)
    (hQ : ∀ a s', Q a s' → Q' a s') (hE : ∀ s', E s' → E' s') (hH : ∀ s', H s' → H' s') :
    wp m (Yields Q' E' H') s := by
  refine wp_mono hm fun o s' ho => ?_
  cases o with
  | ok a => exact hQ a s' ho
  | throw e => exact hE s' ho
  | stop r => exact hH s' ho

theorem Yields.bind {Q' : β → σ → Prop} {f : α → Proc σ ε β} (hm : wp m (Yields Q E H) s)
    (hf : ∀ a s', Q a s' → wp (f a) (Yields Q' E H) s') : wp (m >>= f) (Yields Q' E H) s := by
  rw [wp_bind]
  refine wp_mono hm fun o s' ho => ?_
  cases o with
  | ok a => exact hf a s' ho
  | throw e => exact ho
  | stop r => exact ho

/-- What holds however `m` ends. -/
theorem Yields.same_iff : wp m (Yields (fun _ => E) E E) s ↔ wp m (fun _ => E) s := by
  unfold wp
  rcases m s with ⟨a | e | r, s'⟩ <;> rfl

/-- The invariant rule of a loop for such a result. -/
theorem Yields.loop {I : β → σ → Prop} {body : β → Proc σ ε (β ⊕ α)} (hcut : ∀ b s, I b s → H s)
    (hbody : ∀ b s, I b s → wp (body b) (Yields (Sum.elim I Q) E H) s) (n : Nat) {b : β} (h : I b s) :
    wp (Proc.loop body n b) (Yields Q E H) s := by
  refine wp_loop I hcut (fun b s h => wp_mono (hbody b s h) fun o s' ho => ?_) n h
  rcases o with (b' | a) | e | r <;> exact ho

theorem Returns.mono {Q' : α → σ → Prop} {E' : σ → Prop} (hm : wp m (Returns Q E) s)
    (hQ : ∀ a s', Q a s' → Q' a s') (hE : ∀ s', E s' → E' s') : wp m (Returns Q' E') s :=
  Yields.mono hm hQ hE fun _ h => h

theorem Returns.bind {Q' : β → σ → Prop} {f : α → Proc σ ε β} (hm : wp m (Returns Q E) s)
    (hf : ∀ a s', Q a s' → wp (f a) (Returns Q' E) s') : wp (m >>= f) (Returns Q' E) s :=
  Yields.bind hm hf

theorem Returns.loop {I : β → σ → Prop} {body : β → Proc σ ε (β ⊕ α)}
    (hbody : ∀ b s, I b s → wp (body b) (Returns (Sum.elim I Q) E) s) (n : Nat) {b : β} (h : I b s) :
    wp (Proc.loop body n b) (Returns Q E) s :=
  Yields.loop (fun _ _ _ => trivial) hbody n h

end

/-- Wherever `m` starts, `R` leads from there to where it ends. -/
def Moves (R : σ → σ → Prop) (m : Proc σ ε α) : Prop := ∀ s, R s (m s).2

namespace Moves
variable {R : σ → σ → Prop}

theorem ite {c : Prop} [Decidable c] {m m' : Proc σ ε α} (hm : Moves R m) (hm' : Moves R m') :
    Moves R (if c then m else m') := by
  split_ifs
  · exact hm
  · exact hm'

section
variable [IsPreorder σ R]

theorem pure (a : α) : Moves R (Pure.pure a : Proc σ ε α) := fun s => refl_of R s
theorem throw (e : ε) : Moves R (Proc.throw e : Proc σ ε α) := fun s => refl_of R s
theorem stop (r : Stop) : Moves R (Proc.stop r : Proc σ ε α) := fun s => refl_of R s
theorem get : Moves R (Proc.get : Proc σ ε σ) := fun s => refl_of R s

theorem bind {m : Proc σ ε α} {f : α → Proc σ ε β} (hm : Moves R m) (hf : ∀ a, Moves R (f a)) :
    Moves R (m >>= f) := by
  intro s
  show R s (Proc.bind m f s).2
  have h := hm s
  unfold Proc.bind
  rcases hms : m s with ⟨_ | _ | _, s'⟩ <;> rw [hms] at h
  · exact trans_of R h (hf _ s')
  · exact h
  · exact h

theorem catching {m : Proc σ ε α} {f : ε → Proc σ ε α} (hm : Moves R m) (hf : ∀ e, Moves R (f e)) :
    Moves R (Proc.catching m f) := by
  intro s
  have h := hm s
  unfold Proc.catching
  rcases hms : m s with ⟨_ | _ | _, s'⟩ <;> rw [hms] at h
  · exact h
  · exact trans_of R h (hf _ s')
  · exact h

/-- What moves along `R` stays beyond where the run began. -/
theorem returns {m : Proc σ ε α} (hm : Moves R m) {s₀ s : σ} (h : R s₀ s) :
    wp m (Returns (fun _ s' => R s₀ s') (R s₀)) s := by
  have hs := trans_of R h (hm s)
  unfold wp
  rcases hms : m s with ⟨a | e | r, s'⟩ <;> rw [hms] at hs
  · exact hs
  · exact hs
  · trivial

end

theorem mono {R' : σ → σ → Prop} {m : Proc σ ε α} (hm : Moves R m) (h : ∀ s s', R s s' → R' s s') :
    Moves R' m := fun s => h _ _ (hm s)

end Moves

theorem loop_succ (body : β → Proc σ ε (β ⊕ α)) (n : Nat) (b : β) :
    loop body (n + 1) b = body b >>= fun
      | .inl b' => loop body n b'
      | .inr a => Proc.pure a := rfl

theorem Moves.zoom {R : σ → σ → Prop} {R' : τ → τ → Prop} {view : σ → τ} {put : σ → τ → σ}
    {m : Proc τ ε α} (hm : Moves R' m) (h : ∀ s t, R' (view s) t → R s (put s t)) :
    Moves R (Proc.zoom view put m) := fun s => h s _ (hm (view s))

theorem Moves.loop {R : σ → σ → Prop} [IsPreorder σ R] {body : β → Proc σ ε (β ⊕ α)}
    (hbody : ∀ b, Moves R (body b)) (n : Nat) (b : β) : Moves R (loop body n b) := by
  induction n generalizing b with
  | zero => exact .stop _
  | succ n ih =>
    rw [loop_succ]
    refine .bind (hbody b) fun r => ?_
    cases r with
    | inl b' => exact ih b'
    | inr a => exact .pure a

theorem exists_append_trans {β : Type} {A : β → Prop} {l l' l'' : List β}
    (h : ∃ post, l' = l ++ post ∧ ∀ e ∈ post, A e) (h' : ∃ post, l'' = l' ++ post ∧ ∀ e ∈ post, A e) :
    ∃ post, l'' = l ++ post ∧ ∀ e ∈ post, A e := by
  obtain ⟨post, rfl, hpost⟩ := h
  obtain ⟨post', rfl, hpost'⟩ := h'
  refine ⟨post ++ post', List.append_assoc .., fun e he => ?_⟩
  rcases List.mem_append.mp he with he | he
  · exact hpost e he
  · exact hpost' e he

/-- What `m` throws is in `P`. -/
def Throws (P : ε → Prop) (m : Proc σ ε α) : Prop := ∀ s e, (m s).1 = .throw e → P e

namespace Throws
variable {P : ε → Prop} {m : Proc σ ε α}

theorem pure (a : α) : Throws P (Pure.pure a : Proc σ ε α) := fun _ _ h => nomatch h
theorem stop (r : Stop) : Throws P (Proc.stop r : Proc σ ε α) := fun _ _ h => nomatch h
theorem get : Throws P (Proc.get : Proc σ ε σ) := fun _ _ h => nomatch h
theorem modify (f : σ → σ) : Throws P (Proc.modify f : Proc σ ε Unit) := fun _ _ h => nomatch h

theorem throw {e : ε} (he : P e) : Throws P (Proc.throw e : Proc σ ε α) := by
  rintro s _ ⟨⟩
  exact he

theorem ite {c : Prop} [Decidable c] {m' : Proc σ ε α} (hm : Throws P m) (hm' : Throws P m') :
    Throws P (if c then m else m') := by
  split_ifs
  · exact hm
  · exact hm'

theorem bind {f : α → Proc σ ε β} (hm : Throws P m) (hf : ∀ a, Throws P (f a)) : Throws P (m >>= f) := by
  intro s e he
  have he' : (Proc.bind m f s).1 = .throw e := he
  unfold Proc.bind at he'
  rcases hms : m s with ⟨a | e' | r, s'⟩ <;> rw [hms] at he'
  · exact hf a s' e he'
  · obtain rfl : e' = e := by simpa using he'
    exact hm s e' (by rw [hms])
  · cases he'

theorem zoom {view : τ → σ} {put : τ → σ → τ} (hm : Throws P m) : Throws P (Proc.zoom view put m) :=
  fun s e he => hm (view s) e he

theorem loop {body : β → Proc σ ε (β ⊕ α)} (hbody : ∀ b, Throws P (body b)) (n : Nat) (b : β) :
    Throws P (Proc.loop body n b) := by
  induction n generalizing b with
  | zero => exact .stop _
  | succ n ih =>
    rw [loop_succ]
    refine .bind (hbody b) fun r => ?_
    cases r with
    | inl b' => exact ih b'
    | inr a => exact .pure a

/-- What throws nothing and moves along `R`. -/
theorem returns (ht : Throws (fun _ => False) m) {R : σ → σ → Prop} (hm : Moves R m) (s : σ) :
    wp m (Returns (fun _ s' => R s s') fun _ => False) s := by
  have hR := hm s
  have hnone := ht s
  unfold wp
  rcases hms : m s with ⟨a | e | r, s'⟩ <;> rw [hms] at hR hnone
  · exact hR
  · exact hnone e rfl
  · trivial

end Throws

/-- From a state in `A` a program that returns does so in `B`, and one that throws in `C`. -/
def Triple (A : σ → Prop) (m : Proc σ ε α) (B : α → σ → Prop) (C : σ → Prop) : Prop :=
  ∀ s, A s → wp m (Returns B C) s

namespace Triple
variable {A C : σ → Prop} {B : α → σ → Prop} {m : Proc σ ε α}

theorem pure {a : α} (h : ∀ s, A s → B a s) : Triple A (Pure.pure a : Proc σ ε α) B C := h
theorem throw {e : ε} (h : ∀ s, A s → C s) : Triple A (Proc.throw e : Proc σ ε α) B C := h
theorem stop (r : Stop) : Triple A (Proc.stop r : Proc σ ε α) B C := fun _ _ => trivial

theorem get {B : σ → σ → Prop} (h : ∀ s, A s → B s s) : Triple A (Proc.get : Proc σ ε σ) B C := h

theorem modify {B : Unit → σ → Prop} {f : σ → σ} (h : ∀ s, A s → B () (f s)) :
    Triple A (Proc.modify f : Proc σ ε Unit) B C := h

theorem mono {A' C' : σ → Prop} {B' : α → σ → Prop} (hm : Triple A m B C) (hA : ∀ s, A' s → A s)
    (hB : ∀ a s, B a s → B' a s) (hC : ∀ s, C s → C' s) : Triple A' m B' C' :=
  fun s h => Returns.mono (hm s (hA s h)) hB hC

theorem bind {B' : β → σ → Prop} {f : α → Proc σ ε β} (hm : Triple A m B C)
    (hf : ∀ a, Triple (B a) (f a) B' C) : Triple A (m >>= f) B' C :=
  fun s h => Returns.bind (hm s h) hf

theorem of_and {p : Prop} (hm : p → Triple A m B C) : Triple (fun s => p ∧ A s) m B C :=
  fun s h => hm h.1 s h.2

theorem ite {c : Prop} [Decidable c] {m' : Proc σ ε α} (hm : c → Triple A m B C)
    (hm' : ¬ c → Triple A m' B C) : Triple A (if c then m else m') B C := by
  split_ifs with hc
  · exact hm hc
  · exact hm' hc

theorem catching {C' : σ → Prop} {f : ε → Proc σ ε α} (hm : Triple A m B C') (hf : ∀ e, Triple C' (f e) B C) :
    Triple A (Proc.catching m f) B C := by
  intro s h
  rw [wp_catching]
  refine wp_mono (hm s h) fun o s' ho => ?_
  cases o with
  | ok a => exact ho
  | throw e => exact hf e s' ho
  | stop r => exact ho

theorem loop {I : β → σ → Prop} {body : β → Proc σ ε (β ⊕ α)}
    (hbody : ∀ b, Triple (I b) (body b) (Sum.elim I B) C) (n : Nat) (b : β) :
    Triple (I b) (Proc.loop body n b) B C :=
  fun _ h => Returns.loop hbody n h

end Triple

end Proc
