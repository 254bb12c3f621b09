import UdfRunner.Lib.Lts

/-!
# Interleaved threads

`Threads T P S`: threads `T` at places `P` of their program that share a state `S`. `interleave` runs
them in any order. `Threads.owicki_gries` is the rule for thread by thread assertions: a step keeps the
shared invariant and its own assertion, and does not interfere with another's. `Threads.simulation` carries
a simulation of single threads over to the interleavings.
-/

/-- The steps of a thread, from its place and the shared state. -/
structure Threads (T P S : Type) where
  Step : T → P → S → P → S → Prop

namespace Threads
variable {T P S : Type}

/-- A shared state and where every thread is. -/
structure Config (T P S : Type) where
  shared : S
  place : T → P

variable [DecidableEq T]

/-- One thread takes a step. -/
inductive Config.Step (M : Threads T P S) : Config T P S → T → Config T P S → Prop
  | step {c : Config T P S} {t : T} {p : P} {s : S} (h : M.Step t (c.place t) c.shared p s) :
    Config.Step M c t ⟨s, Function.update c.place t p⟩

def interleave (M : Threads T P S) : Lts (Config T P S) T := ⟨Config.Step M, fun _ _ => False⟩

variable {M : Threads T P S} {c c' : Config T P S} {l : List T}

theorem invariant {I : Config T P S → Prop} (h : M.interleave.Path c l c') (hc : I c)
    (hstep : ∀ c t p s, I c → M.Step t (c.place t) c.shared p s →
      I ⟨s, Function.update c.place t p⟩) : I c' := by
  refine h.invariant (I := fun _ => I) hc ?_ ?_
  · rintro l c t _ hI ⟨hs⟩
    exact hstep c t _ _ hI hs
  · rintro l c c' hI ⟨⟩

/-- The shared invariant `I` and the assertion `A` of every thread. -/
theorem owicki_gries {I : S → Prop} {A : T → P → S → Prop} (h : M.interleave.Path c l c')
    (hI : I c.shared) (hA : ∀ t, A t (c.place t) c.shared)
    (hown : ∀ t p s p' s', I s → A t p s → M.Step t p s p' s' → I s' ∧ A t p' s')
    (hother : ∀ t p s p' s' u q, I s → A t p s → M.Step t p s p' s' → u ≠ t → A u q s → A u q s') :
    I c'.shared ∧ ∀ t, A t (c'.place t) c'.shared := by
  refine invariant h (I := fun c => I c.shared ∧ ∀ t, A t (c.place t) c.shared) ⟨hI, hA⟩ ?_
  rintro c t p s ⟨hI, hA⟩ hs
  obtain ⟨hI', ht⟩ := hown _ _ _ _ _ hI (hA t) hs
  refine ⟨hI', fun u => ?_⟩
  show A u (Function.update c.place t p u) s
  by_cases hu : u = t
  · subst hu
    rwa [Function.update_self]
  · rw [Function.update_of_ne hu]
    exact hother _ _ _ _ _ u _ hI (hA t) hs hu (hA u)

/-! ### Simulation -/

/-- The steps of one thread, one after another. -/
def Runs (M : Threads T P S) (t : T) : P × S → P × S → Prop :=
  Relation.ReflTransGen fun x y => M.Step t x.1 x.2 y.1 y.2

omit [DecidableEq T] in
theorem Runs.one {t : T} {p p' : P} {s s' : S} (h : M.Step t p s p' s') : M.Runs t (p, s) (p', s') := .single h

theorem Runs.path {t : T} {x : P × S} (h : M.Runs t (c.place t, c.shared) x) :
    ∃ l, M.interleave.Path c l ⟨x.2, Function.update c.place t x.1⟩ := by
  induction h with
  | refl =>
    refine ⟨[], ?_⟩
    rw [Function.update_eq_self]
    exact .nil
  | @tail y z _ hstep ih =>
    obtain ⟨l, hl⟩ := ih
    have hmoved : M.interleave.Step ⟨y.2, Function.update c.place t y.1⟩ t
        ⟨z.2, Function.update (Function.update c.place t y.1) t z.1⟩ := by
      refine .step ?_
      show M.Step t (Function.update c.place t y.1 t) y.2 z.1 z.2
      rwa [Function.update_self]
    rw [Function.update_idem] at hmoved
    exact ⟨l ++ [t], hl.step hmoved⟩

/-- Threads `M` simulate threads `M'` if a step of one is a run of the other, between related places. -/
theorem simulation {P' S' : Type} (M' : Threads T P' S') {R : T → P → P' → Prop} (view : S → S')
    {d : Config T P' S'} (h : M.interleave.Path c l c') (hview : view c.shared = d.shared)
    (hR : ∀ t, R t (c.place t) (d.place t))
    (hstep : ∀ t p s p' s' q, R t p q → M.Step t p s p' s' →
      ∃ q', M'.Runs t (q, view s) (q', view s') ∧ R t p' q') :
    ∃ l' d', M'.interleave.Path d l' d' ∧ view c'.shared = d'.shared ∧ ∀ t, R t (c'.place t) (d'.place t) := by
  refine invariant h (I := fun c' => ∃ l' d', M'.interleave.Path d l' d' ∧ view c'.shared = d'.shared ∧
    ∀ t, R t (c'.place t) (d'.place t)) ⟨[], d, .nil, hview, hR⟩ ?_
  rintro c' t p s ⟨l', d', hpath, hview', hR'⟩ hs
  obtain ⟨q', hruns, hq'⟩ := hstep t _ _ _ _ _ (hR' t) hs
  rw [hview'] at hruns
  obtain ⟨l'', hl''⟩ := hruns.path
  refine ⟨l' ++ l'', _, hpath.append hl'', rfl, fun u => ?_⟩
  show R u (Function.update c'.place t p u) (Function.update d'.place t q' u)
  by_cases hu : u = t
  · subst hu
    rwa [Function.update_self, Function.update_self]
  · rw [Function.update_of_ne hu, Function.update_of_ne hu]
    exact hR' u

end Threads
