import Mathlib.Computability.Language

/-!
# Deterministic automata with missing transitions

What an automaton accepts from each of its states, and what becomes of that when the transitions of a state
are added to other states: union, concatenation and iteration, as long as no character is asked for twice.
-/

structure PartialDfa (Q A : Type) where
  step : Q → A → Option Q
  final : Q → Bool

namespace PartialDfa
open Computability

variable {Q Q' A : Type} {M N : PartialDfa Q A} {b q t : Q} {a : A} {w : List A} {S : Q → Prop}

def accepts (M : PartialDfa Q A) : Q → List A → Prop
  | q, [] => M.final q
  | q, a :: w => ∃ t, M.step q a = some t ∧ M.accepts t w

def lang (M : PartialDfa Q A) (q : Q) : Language A := {w | M.accepts q w}

theorem mem_lang : w ∈ M.lang q ↔ M.accepts q w := Iff.rfl

theorem accepts_some (h : M.step q a = some t) : M.accepts q (a :: w) ↔ M.accepts t w := by
  simp [accepts, h]

theorem not_accepts_none (h : M.step q a = none) : ¬ M.accepts q (a :: w) := by
  simp [accepts, h]

/-- No transition leaves the states. -/
def Closed (M : PartialDfa Q A) (S : Q → Prop) : Prop := ∀ q a t, S q → M.step q a = some t → S t

/-- An automaton that looks the same on a closed set of states, which may have other names there. -/
theorem accepts_map {N : PartialDfa Q' A} (f : Q → Q') (hclosed : M.Closed S)
    (hstep : ∀ q a, S q → N.step (f q) a = (M.step q a).map f) (hfinal : ∀ q, S q → N.final (f q) = M.final q)
    (hq : S q) (w : List A) : N.accepts (f q) w ↔ M.accepts q w := by
  induction w generalizing q with
  | nil => rw [accepts, accepts, hfinal q hq]
  | cons a w ih =>
    cases h : M.step q a with
    | none =>
      have hnone : N.step (f q) a = none := by rw [hstep q a hq, h, Option.map_none]
      exact iff_of_false (not_accepts_none hnone) (not_accepts_none h)
    | some t =>
      have hsome : N.step (f q) a = some (f t) := by rw [hstep q a hq, h, Option.map_some]
      rw [accepts_some hsome, accepts_some h]
      exact ih (hclosed q a t hq h)

theorem accepts_congr (hclosed : M.Closed S) (hstep : ∀ q a, S q → N.step q a = M.step q a)
    (hfinal : ∀ q, S q → N.final q = M.final q) (hq : S q) (w : List A) : N.accepts q w ↔ M.accepts q w :=
  accepts_map id hclosed (fun q a hq => by rw [id, hstep q a hq, Option.map_id]; rfl) hfinal hq w

theorem lang_congr (hclosed : M.Closed S) (hstep : ∀ q a, S q → N.step q a = M.step q a)
    (hfinal : ∀ q, S q → N.final q = M.final q) (hq : S q) : N.lang q = M.lang q :=
  Set.ext (accepts_congr hclosed hstep hfinal hq)

/-- The state `q` gets the transitions of `b` where it has none of its own. -/
def Joins (M N : PartialDfa Q A) (q b : Q) : Prop := ∀ a, N.step q a = (M.step q a).or (M.step b a)

/-- No character leads anywhere from both states. -/
def Disjoint (M : PartialDfa Q A) (q b : Q) : Prop := ∀ a, M.step q a ≠ none → M.step b a = none

theorem Joins.of_some (h : M.Joins N q b) (ha : M.step q a = some t) : N.step q a = some t := by
  rw [h a, ha, Option.some_or]

theorem Joins.of_none (h : M.Joins N q b) (ha : M.step q a = none) : N.step q a = M.step b a := by
  rw [h a, ha, Option.none_or]

/-! ### Union -/

/-- The state `q`, which nothing leads to, is joined with `b`. -/
theorem lang_union {T : Q → Prop} (hS : M.Closed S) (hT : M.Closed T) (hb : T b)
    (hfresh : ∀ q' a t, S q' → M.step q' a = some t → t ≠ q) (hq : S q)
    (hstepS : ∀ q' a, S q' → q' ≠ q → N.step q' a = M.step q' a) (hstepT : ∀ q' a, T q' → N.step q' a = M.step q' a)
    (hfinalS : ∀ q', S q' → q' ≠ q → N.final q' = M.final q') (hfinalT : ∀ q', T q' → N.final q' = M.final q')
    (hjoins : M.Joins N q b) (hfinal : N.final q = (M.final q || M.final b)) (hdisjoint : M.Disjoint q b) :
    N.lang q = M.lang q + M.lang b := by
  have hafter : M.Closed fun t => S t ∧ t ≠ q := fun q' a t h ht => ⟨hS q' a t h.1 ht, hfresh q' a t h.1 ht⟩
  ext w
  rw [Language.mem_add, mem_lang, mem_lang, mem_lang]
  cases w with
  | nil => simp [accepts, hfinal]
  | cons a w =>
    cases ha : M.step q a with
    | none =>
      cases hb' : M.step b a with
      | none =>
        have hnone : N.step q a = none := (hjoins.of_none ha).trans hb'
        exact iff_of_false (not_accepts_none hnone) (by simp [not_accepts_none ha, not_accepts_none hb'])
      | some t =>
        rw [accepts_some ((hjoins.of_none ha).trans hb'), accepts_some hb',
          accepts_congr hT hstepT hfinalT (hT b a t hb hb')]
        simp [not_accepts_none ha]
    | some t =>
      have hb' : M.step b a = none := hdisjoint a (by simp [ha])
      rw [accepts_some (hjoins.of_some ha), accepts_some ha]
      have ht : S t ∧ t ≠ q := ⟨hS q a t hq ha, hfresh q a t hq ha⟩
      rw [accepts_congr hafter (fun q' a h => hstepS q' a h.1 h.2) (fun q' h => hfinalS q' h.1 h.2) ht]
      simp [not_accepts_none hb']

/-! ### Concatenation -/

/-- A word of a concatenation: the first word is empty, or it has the first character. -/
theorem exists_append_cons {l : Language A} : (∃ u ∈ M.lang q, ∃ v ∈ l, u ++ v = a :: w) ↔
    (M.final q = true ∧ a :: w ∈ l) ∨ ∃ t, M.step q a = some t ∧ ∃ u ∈ M.lang t, ∃ v ∈ l, u ++ v = w := by
  constructor
  · rintro ⟨u, hu, v, hv, huv⟩
    cases u with
    | nil =>
      rw [List.nil_append] at huv
      exact .inl ⟨hu, huv ▸ hv⟩
    | cons c u =>
      obtain ⟨rfl, rfl⟩ := List.cons.inj huv
      obtain ⟨t, ht, hut⟩ := hu
      exact .inr ⟨t, ht, u, hut, v, hv, rfl⟩
  · rintro (⟨hfinal, hw⟩ | ⟨t, ht, u, hu, v, hv, rfl⟩)
    · exact ⟨[], hfinal, a :: w, hw, rfl⟩
    · exact ⟨a :: u, ⟨t, ht, hu⟩, v, hv, rfl⟩

/-- From `S` a word leads to an end of `M`, and what is left of it is in `l`. -/
theorem accepts_goesOn {l : Language A} (hS : M.Closed S)
    (hstep : ∀ q a t, S q → M.step q a = some t → N.step q a = some t)
    (hstuck : ∀ q a w, S q → M.step q a = none → (N.accepts q (a :: w) ↔ M.final q = true ∧ a :: w ∈ l))
    (hdisjoint : ∀ q a w, S q → M.final q = true → a :: w ∈ l → M.step q a = none)
    (hfinal : ∀ q, S q → (N.final q = true ↔ M.final q = true ∧ [] ∈ l)) (hq : S q) (w : List A) :
    N.accepts q w ↔ ∃ u ∈ M.lang q, ∃ v ∈ l, u ++ v = w := by
  induction w generalizing q with
  | nil =>
    have hnil : (∃ u ∈ M.lang q, ∃ v ∈ l, u ++ v = []) ↔ M.final q = true ∧ [] ∈ l := by
      simp [mem_lang, accepts]
    rw [hnil]
    exact hfinal q hq
  | cons a w ih =>
    rw [exists_append_cons]
    cases ha : M.step q a with
    | none =>
      rw [hstuck q a w hq ha]
      simp
    | some t =>
      have hnone : ¬(M.final q = true ∧ a :: w ∈ l) := by
        intro h
        rw [hdisjoint q a w hq h.1 h.2] at ha
        exact absurd ha (by simp)
      rw [accepts_some (hstep q a t hq ha), ih (hS q a t hq ha)]
      simp [hnone]

/-- Where the final states of `S` are joined with `b`, they are final as `b` is. -/
theorem lang_cat {T : Q → Prop} (hS : M.Closed S) (hT : M.Closed T) (hb : T b)
    (hstepS : ∀ q a, S q → M.final q = false → N.step q a = M.step q a)
    (hjoins : ∀ q, S q → M.final q = true → M.Joins N q b)
    (hdisjoint : ∀ q, S q → M.final q = true → M.Disjoint q b)
    (hfinalS : ∀ q, S q → N.final q = (M.final q && M.final b))
    (hstepT : ∀ q a, T q → N.step q a = M.step q a) (hfinalT : ∀ q, T q → N.final q = M.final q) (hq : S q) :
    N.lang q = M.lang q * M.lang b := by
  refine Set.ext fun w => (accepts_goesOn hS (fun q a t hq ha => ?_) (fun q a w hq ha => ?_)
    (fun q a w hq hf hw => ?_) (fun q hq => ?_) hq w).trans Language.mem_mul.symm
  · cases hf : M.final q with
    | false => exact (hstepS q a hq hf).trans ha
    | true => exact (hjoins q hq hf).of_some ha
  · cases hf : M.final q with
    | false =>
      have hstep : N.step q a = none := (hstepS q a hq hf).trans ha
      exact iff_of_false (not_accepts_none hstep) (by simp)
    | true =>
      have hstep : N.step q a = M.step b a := (hjoins q hq hf).of_none ha
      have hsame : N.accepts q (a :: w) ↔ N.accepts b (a :: w) := by
        rw [accepts, accepts, hstep, hstepT b a hb]
      rw [hsame, accepts_congr hT hstepT hfinalT hb]
      exact (and_iff_right rfl).symm
  · by_contra hsome
    exact not_accepts_none (hdisjoint q hq hf a hsome) hw
  · rw [hfinalS q hq, Bool.and_eq_true]
    rfl

/-! ### Iteration -/

/-- The words of a language that are not empty. -/
def nonempty (l : Language A) : Language A := {w | w ∈ l ∧ w ≠ []}

theorem cons_mem_one_add {l : Language A} : a :: w ∈ 1 + l ↔ a :: w ∈ l :=
  (Language.mem_add _ _ _).trans (or_iff_right (by simp))

theorem kstar_nonempty (l : Language A) : (nonempty l)∗ = l∗ := by
  ext w
  rw [Language.mem_kstar_iff_exists_nonempty, Language.mem_kstar_iff_exists_nonempty]
  refine exists_congr fun L => and_congr_right fun _ => forall₂_congr fun y _ => ?_
  exact ⟨fun h => ⟨h.1.1, h.2⟩, fun h => ⟨h, h.2⟩⟩

/-- Where the final states are joined with the state `b`, which nothing leads to: what leads from `b` back to
it, or to an end. -/
theorem lang_loop (hS : M.Closed S) (hb : S b) (hfresh : ∀ q a t, S q → M.step q a = some t → t ≠ b)
    (hstep : ∀ q a, S q → M.final q = false → N.step q a = M.step q a)
    (hjoins : ∀ q, S q → M.final q = true → q ≠ b → M.Joins N q b) (hstepb : ∀ a, N.step b a = M.step b a)
    (hdisjoint : ∀ q, S q → M.final q = true → q ≠ b → M.Disjoint q b)
    (hfinal : ∀ q, S q → q ≠ b → N.final q = M.final q) : 1 + N.lang b = (M.lang b)∗ := by
  let J : Language A := 1 + N.lang b
  have hnil : [] ∈ J := .inl rfl
  have hJ : ∀ a w, a :: w ∈ J ↔ N.accepts b (a :: w) := fun a w => cons_mem_one_add
  -- from any other state a word leads to an end of `M`, and then from `b` on
  have hother : ∀ (w : List A) q, S q → q ≠ b → (N.accepts q w ↔ ∃ u ∈ M.lang q, ∃ v ∈ J, u ++ v = w) := by
    have hafter : M.Closed fun q => S q ∧ q ≠ b := fun q a t hq ht => ⟨hS q a t hq.1 ht, hfresh q a t hq.1 ht⟩
    refine fun w q hq hne => accepts_goesOn hafter (fun q a t hq ha => ?_) (fun q a w hq ha => ?_)
      (fun q a w hq hf hw => ?_) (fun q hq => ?_) ⟨hq, hne⟩ w
    · cases hf : M.final q with
      | false => exact (hstep q a hq.1 hf).trans ha
      | true => exact (hjoins q hq.1 hf hq.2).of_some ha
    · cases hf : M.final q with
      | false =>
        have hstepq : N.step q a = none := (hstep q a hq.1 hf).trans ha
        exact iff_of_false (not_accepts_none hstepq) (by simp)
      | true =>
        have hstepq : N.step q a = N.step b a := ((hjoins q hq.1 hf hq.2).of_none ha).trans (hstepb a).symm
        have hsame : N.accepts q (a :: w) ↔ N.accepts b (a :: w) := by rw [accepts, accepts, hstepq]
        rw [hsame, hJ]
        exact (and_iff_right rfl).symm
    · by_contra hsome
      exact not_accepts_none ((hstepb a).trans (hdisjoint q hq.1 hf hq.2 a hsome)) ((hJ a w).mp hw)
    · rw [hfinal q hq.1 hq.2]
      exact (and_iff_left hnil).symm
  have hround : J = nonempty (M.lang b) * J + 1 := by
    ext w
    rw [add_comm]
    cases w with
    | nil => exact iff_of_true hnil (.inl rfl)
    | cons a w =>
      have hsplit : (∃ u ∈ nonempty (M.lang b), ∃ v ∈ J, u ++ v = a :: w) ↔
          ∃ t, M.step b a = some t ∧ ∃ u ∈ M.lang t, ∃ v ∈ J, u ++ v = w := by
        constructor
        · rintro ⟨u, ⟨hu, hne⟩, v, hv, huv⟩
          obtain ⟨c, u, rfl⟩ := List.exists_cons_of_ne_nil hne
          obtain ⟨rfl, rfl⟩ := List.cons.inj huv
          obtain ⟨t, ht, hut⟩ := hu
          exact ⟨t, ht, u, hut, v, hv, rfl⟩
        · rintro ⟨t, ht, u, hu, v, hv, rfl⟩
          exact ⟨a :: u, ⟨⟨t, ht, hu⟩, List.cons_ne_nil a u⟩, v, hv, rfl⟩
      rw [hJ, cons_mem_one_add, Language.mem_mul, hsplit, accepts, hstepb]
      exact exists_congr fun t => and_congr_right fun ht => hother w t (hS b a t hb ht) (hfresh b a t hb ht)
  have hne : [] ∉ nonempty (M.lang b) := fun h => h.2 rfl
  have harden := (Language.self_eq_mul_add_iff hne).mp hround
  rw [mul_one, kstar_nonempty] at harden
  exact harden

theorem lang_star (hloop : 1 + N.lang b = (M.lang b)∗) (hfinal : N.final b = true) : N.lang b = (M.lang b)∗ := by
  rw [← hloop]
  ext w
  rw [Language.mem_add, iff_or_self]
  rintro ⟨⟩
  exact hfinal

theorem lang_plus (hloop : 1 + N.lang b = (M.lang b)∗) (hfinal : N.final b = M.final b) :
    N.lang b = M.lang b * (M.lang b)∗ := by
  have hstar := Language.one_add_self_mul_kstar_eq_kstar (M.lang b)
  ext w
  cases w with
  | nil =>
    rw [mem_lang, accepts, hfinal, Language.mem_mul]
    simp [mem_lang, accepts, Language.nil_mem_kstar]
  | cons a w =>
    have hsame : a :: w ∈ 1 + N.lang b ↔ a :: w ∈ 1 + M.lang b * (M.lang b)∗ := by rw [hloop, hstar]
    exact cons_mem_one_add.symm.trans (hsame.trans cons_mem_one_add)

end PartialDfa
