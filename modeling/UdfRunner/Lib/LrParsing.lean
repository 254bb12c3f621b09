import Mathlib.Data.List.Basic

/-!
# LR parsing

The derivations of an attributed grammar carry the values its rules compute; a rule may refuse its
arguments. `Stacked` is a stack that follows the moves of an automaton while what was read derives from
the symbols moved on. Where every advanced item comes from the state that was left (`Justified`), a
complete item finds its right side on top of the stack.
-/

namespace Lr
variable {X R T V Q L : Type}

structure Attributed (X R T V : Type) where
  left : R → X
  right : R → List X
  symbol : T → X
  leaf : T → V
  act : R → List V → Option V

/-- The symbols derive the tokens, with a value for each symbol. -/
inductive Attributed.Derives (G : Attributed X R T V) : List X → List T → List V → Prop
  | nil : G.Derives [] [] []
  | leaf {xs : List X} {ts : List T} {vs : List V} (t : T) (h : G.Derives xs ts vs) :
      G.Derives (G.symbol t :: xs) (t :: ts) (G.leaf t :: vs)
  | node {xs : List X} {r : R} {ts ts' : List T} {vs vs' : List V} {v : V}
      (hright : G.Derives (G.right r) ts vs) (hv : G.act r vs = some v) (h : G.Derives xs ts' vs') :
      G.Derives (G.left r :: xs) (ts ++ ts') (v :: vs')

/-- `Item q r k l`: in the state, the rule has the mark after `k` symbols, with a lookahead. -/
structure Automaton (X R Q L : Type) where
  start : Q
  root : R
  next : Q → X → Option Q
  Item : Q → R → Nat → L → Prop

structure Automaton.Justified (A : Automaton X R Q L) (G : Attributed X R T V) : Prop where
  fresh : ∀ {q x}, A.next q x ≠ some A.start
  start : ∀ {r k l}, ¬ A.Item A.start r (k + 1) l
  advanced : ∀ {q q' x r k l}, A.next q x = some q' → A.Item q' r (k + 1) l →
    (G.right r)[k]? = some x ∧ A.Item q r k l
  root : ∀ {q l}, A.Item q A.root 0 l → q = A.start
  origin : ∀ {q r l}, A.Item q r 0 l → r ≠ A.root →
    ∃ r' k l', A.Item q r' k l' ∧ (G.right r')[k]? = some (G.left r)
  moves : ∀ {q r k l x}, A.Item q r k l → (G.right r)[k]? = some x → ∃ q', A.next q x = some q'

/-- The states and values have their last one first. -/
inductive Stacked (G : Attributed X R T V) (A : Automaton X R Q L) : List Q → List T → List V → Prop
  | bottom : Stacked G A [A.start] [] []
  | push {q q' : Q} {qs : List Q} {ts ts' : List T} {vs : List V} {v : V} {x : X}
      (h : Stacked G A (q :: qs) ts vs) (hnext : A.next q x = some q') (hv : G.Derives [x] ts' [v]) :
      Stacked G A (q' :: q :: qs) (ts ++ ts') (v :: vs)

namespace Attributed
variable {G : Attributed X R T V} {xs xs' : List X} {ts ts' : List T} {vs vs' : List V}

theorem Derives.append (h : G.Derives xs ts vs) (h' : G.Derives xs' ts' vs') :
    G.Derives (xs ++ xs') (ts ++ ts') (vs ++ vs') := by
  induction h with
  | nil => exact h'
  | leaf t _ ih => exact .leaf t ih
  | node hright hv _ _ ih =>
    rw [List.append_assoc]
    exact .node hright hv ih

theorem Derives.token (t : T) : G.Derives [G.symbol t] [t] [G.leaf t] := .leaf t .nil

theorem Derives.rule {r : R} {v : V} (h : G.Derives (G.right r) ts vs) (hv : G.act r vs = some v) :
    G.Derives [G.left r] ts [v] := by
  have hnode := Derives.node h hv .nil
  rwa [List.append_nil] at hnode

/-- The tokens of a derivation are of symbols of the start or of a rule. -/
theorem Derives.symbol (h : G.Derives xs ts vs) {t : T} (ht : t ∈ ts) :
    G.symbol t ∈ xs ∨ ∃ r, G.symbol t ∈ G.right r := by
  induction h with
  | nil => cases ht
  | leaf t' _ ih =>
    rcases List.mem_cons.mp ht with rfl | ht
    · exact .inl List.mem_cons_self
    · exact (ih ht).imp_left (List.mem_cons_of_mem _)
  | @node _ r _ _ _ _ _ _ _ _ ihright ih =>
    rcases List.mem_append.mp ht with ht | ht
    · exact .inr ((ihright ht).elim (fun hr => ⟨r, hr⟩) id)
    · exact (ih ht).imp_left (List.mem_cons_of_mem _)

end Attributed

namespace Stacked
variable {G : Attributed X R T V} {A : Automaton X R Q L} {q : Q} {qs : List Q} {ts : List T} {vs : List V}
    {r : R} {k : Nat} {l : L}

/-- The symbols before the mark of an item are on top of the stack. -/
theorem split (hA : A.Justified G) (h : Stacked G A (q :: qs) ts vs) (hitem : A.Item q r k l) :
    ∃ q₀ qs₀ ts₀ ts₁, (q :: qs).drop k = q₀ :: qs₀ ∧ A.Item q₀ r 0 l ∧ ts = ts₀ ++ ts₁ ∧
      Stacked G A (q₀ :: qs₀) ts₀ (vs.drop k) ∧ G.Derives ((G.right r).take k) ts₁ (vs.take k).reverse := by
  induction k generalizing q qs ts vs with
  | zero => exact ⟨q, qs, ts, [], rfl, hitem, (List.append_nil ts).symm, h, .nil⟩
  | succ k ih =>
    cases h with
    | bottom => exact absurd hitem hA.start
    | @push q' _ qs ts ts' vs v x h hnext hv =>
      obtain ⟨hx, hprev⟩ := hA.advanced hnext hitem
      obtain ⟨q₀, qs₀, ts₀, ts₁, hqs, hitem₀, rfl, hstack, hright⟩ := ih h hprev
      refine ⟨q₀, qs₀, ts₀, ts₁ ++ ts', hqs, hitem₀, List.append_assoc .., hstack, ?_⟩
      rw [List.take_add_one, hx, List.take_succ_cons, List.reverse_cons]
      exact hright.append hv

/-- A reduction finds a move for what it leaves. -/
theorem reduce (hA : A.Justified G) (h : Stacked G A (q :: qs) ts vs)
    (hitem : A.Item q r (G.right r).length l) (hroot : r ≠ A.root) :
    ∃ q₀ qs₀ q' ts₁, (q :: qs).drop (G.right r).length = q₀ :: qs₀ ∧ A.next q₀ (G.left r) = some q' ∧
      G.Derives (G.right r) ts₁ (vs.take (G.right r).length).reverse ∧
      ∀ v, G.act r (vs.take (G.right r).length).reverse = some v →
        Stacked G A (q' :: q₀ :: qs₀) ts (v :: vs.drop (G.right r).length) := by
  obtain ⟨q₀, qs₀, ts₀, ts₁, hqs, hitem₀, rfl, hstack, hright⟩ := h.split hA hitem
  obtain ⟨r', k', l', hitem', hleft⟩ := hA.origin hitem₀ hroot
  obtain ⟨q', hnext⟩ := hA.moves hitem' hleft
  rw [List.take_length] at hright
  exact ⟨q₀, qs₀, q', ts₁, hqs, hnext, hright, fun v hv => hstack.push hnext (hright.rule hv)⟩

/-- At the end of the root rule the whole stack is its right side. -/
theorem accept (hA : A.Justified G) (h : Stacked G A (q :: qs) ts vs) {x : X} (hroot : G.right A.root = [x])
    (hitem : A.Item q A.root 1 l) : ∃ v, vs = [v] ∧ G.Derives [x] ts [v] := by
  cases h with
  | bottom => exact absurd hitem hA.start
  | @push q' _ qs ts ts' vs v x' h hnext hv =>
    obtain ⟨hx, hprev⟩ := hA.advanced hnext hitem
    obtain rfl := hA.root hprev
    obtain rfl : x = x' := by simpa [hroot] using hx
    cases h with
    | bottom => exact ⟨v, rfl, hv⟩
    | push _ hnext' _ => exact absurd hnext' hA.fresh

theorem pop {q' : Q} (h : Stacked G A (q' :: q :: qs) ts vs) :
    ∃ ts₀ ts₁, ts = ts₀ ++ ts₁ ∧ Stacked G A (q :: qs) ts₀ vs.tail := by
  cases h with
  | push h _ _ => exact ⟨_, _, rfl, h⟩

end Stacked

end Lr
