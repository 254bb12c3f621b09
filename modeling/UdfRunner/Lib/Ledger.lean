import Mathlib.Tactic
import Mathlib.Data.Multiset.Count

/-!
# Ledgers

What a log says of resources: each entry gains one, loses one or is about none. `Ledger entry l m`: by
the log `l` exactly the resources `m` are held, and nothing was lost that was not held.
-/

inductive Entry (R : Type)
  | gain (r : R)
  | lose (r : R)
  | other
deriving DecidableEq

variable {E R : Type} {entry : E → Entry R}

inductive Ledger (entry : E → Entry R) : List E → Multiset R → Prop
  | nil : Ledger entry [] 0
  | gain {l m e r} (h : Ledger entry l m) (he : entry e = .gain r) : Ledger entry (l ++ [e]) (r ::ₘ m)
  | lose {l m e r} (h : Ledger entry l (r ::ₘ m)) (he : entry e = .lose r) : Ledger entry (l ++ [e]) m
  | other {l m e} (h : Ledger entry l m) (he : entry e = .other) : Ledger entry (l ++ [e]) m

/-- The gains and losses of `r` take turns: `held` says whose turn is next. -/
inductive Life (entry : E → Entry R) (r : R) : Bool → List E → Prop
  | unborn : Life entry r false []
  | gained {l e} (h : Life entry r false l) (he : entry e = .gain r) : Life entry r true (l ++ [e])
  | lost {l e} (h : Life entry r true l) (he : entry e = .lose r) : Life entry r false (l ++ [e])
  | elsewhere {held l e} (h : Life entry r held l) (hgain : entry e ≠ .gain r) (hlose : entry e ≠ .lose r) :
    Life entry r held (l ++ [e])

section
variable [DecidableEq R] {l l' : List E} {m : Multiset R} {r : R} {held : Bool} {e : E}

def gains (entry : E → Entry R) (r : R) (l : List E) : Nat := l.countP (entry · = .gain r)
def losses (entry : E → Entry R) (r : R) (l : List E) : Nat := l.countP (entry · = .lose r)

/-- The log's last word on `r` is a gain. -/
def outstanding (entry : E → Entry R) (r : R) (l : List E) : Bool :=
  l.foldl (fun held e => if entry e = .gain r then true else if entry e = .lose r then false else held) false

/-- No one is given an `r` that is still held. -/
def NotReused (entry : E → Entry R) (r : R) (l : List E) : Prop :=
  ∀ l₁ e l₂, l = l₁ ++ e :: l₂ → entry e = .gain r → outstanding entry r l₁ = false

theorem outstanding_snoc : outstanding entry r (l ++ [e]) =
    if entry e = .gain r then true else if entry e = .lose r then false else outstanding entry r l := by
  simp [outstanding]

theorem NotReused.init (h : NotReused entry r (l ++ l')) : NotReused entry r l := by
  intro l₁ e l₂ hl he
  exact h l₁ e (l₂ ++ l') (by simp [hl]) he

theorem NotReused.of_take
    (h : ∀ (n : Nat) e, l[n]? = some e → entry e = .gain r → outstanding entry r (l.take n) = false) :
    NotReused entry r l := by
  rintro l₁ e l₂ rfl he
  simpa using h l₁.length e (by simp) he

/-- What was gained was lost or is held. -/
theorem Ledger.count (h : Ledger entry l m) (r : R) : gains entry r l = losses entry r l + m.count r := by
  induction h with
  | nil => rfl
  | @gain l m e r' h he ih =>
    have hcount := Multiset.count_cons r r' m
    by_cases hr : r = r'
    · simp [gains, losses, he, hr] at ih hcount ⊢
      omega
    · simp [gains, losses, he, hr, Ne.symm hr] at ih hcount ⊢
      omega
  | @lose l m e r' h he ih =>
    have hcount := Multiset.count_cons r r' m
    by_cases hr : r = r'
    · simp [gains, losses, he, hr] at ih hcount ⊢
      omega
    · simp [gains, losses, he, hr, Ne.symm hr] at ih hcount ⊢
      omega
  | other h he ih => simpa [gains, losses, he] using ih

/-- Of a resource that is not given out while it is held, one is held or none, and its gains and losses
take turns. -/
theorem Ledger.life (h : Ledger entry l m) (hr : NotReused entry r l) :
    m.count r = (if outstanding entry r l then 1 else 0) ∧ Life entry r (outstanding entry r l) l := by
  induction h with
  | nil => exact ⟨rfl, .unborn⟩
  | @gain l m e r' h he ih =>
    obtain ⟨hcount, hlife⟩ := ih hr.init
    rw [outstanding_snoc, he, Multiset.count_cons]
    by_cases hrr : r' = r
    · subst hrr
      have hnot : outstanding entry r' l = false := hr l e [] rfl he
      rw [hnot] at hcount hlife
      exact ⟨by simp [hcount], by simpa using hlife.gained he⟩
    · simp only [Entry.gain.injEq, hrr, Ne.symm hrr, reduceCtorEq, if_false, Nat.add_zero]
      exact ⟨hcount, hlife.elsewhere (by simp [he, hrr]) (by simp [he])⟩
  | @lose l m e r' h he ih =>
    obtain ⟨hcount, hlife⟩ := ih hr.init
    rw [Multiset.count_cons] at hcount
    rw [outstanding_snoc, he]
    by_cases hrr : r' = r
    · subst hrr
      cases hheld : outstanding entry r' l with
      | false => simp [hheld] at hcount
      | true =>
        rw [hheld] at hcount hlife
        exact ⟨by simpa using hcount, by simpa using hlife.lost he⟩
    · simp only [Entry.lose.injEq, hrr, Ne.symm hrr, reduceCtorEq, if_false, Nat.add_zero] at hcount ⊢
      exact ⟨hcount, hlife.elsewhere (by simp [he]) (by simp [he, hrr])⟩
  | other h he ih =>
    obtain ⟨hcount, hlife⟩ := ih hr.init
    rw [outstanding_snoc, he]
    exact ⟨by simpa using hcount, by simpa using hlife.elsewhere (by simp [he]) (by simp [he])⟩

end

/-! ### What a table of owners holds -/

section
variable {W : Type} {f : W → Multiset R}

def heldBy (f : W → Multiset R) (l : List W) : Multiset R := (l.map f).sum

@[simp] theorem heldBy_cons (x : W) (l : List W) : heldBy f (x :: l) = f x + heldBy f l := rfl

theorem heldBy_snoc (l : List W) (x : W) : heldBy f (l ++ [x]) = heldBy f l + f x := by
  simp [heldBy]

/-- What one place holds beside what the others hold. -/
theorem heldBy_split {l : List W} {i : Nat} {x : W} (h : l[i]? = some x) :
    ∃ rest, heldBy f l = f x + rest ∧ ∀ y, heldBy f (l.set i y) = f y + rest := by
  induction l generalizing i with
  | nil => cases h
  | cons z l ih =>
    cases i with
    | zero =>
      obtain rfl : z = x := by simpa using h
      exact ⟨heldBy f l, rfl, fun _ => rfl⟩
    | succ i =>
      obtain ⟨rest, hl, hset⟩ := ih (i := i) (by simpa using h)
      refine ⟨f z + rest, ?_, fun y => ?_⟩
      · rw [heldBy_cons, hl, add_left_comm]
      · rw [List.set_cons_succ, heldBy_cons, hset, add_left_comm]

/-- What two places hold beside what the others hold. -/
theorem heldBy_split_two {l : List W} {i j : Nat} {x y : W} (hi : l[i]? = some x) (hj : l[j]? = some y)
    (h : i ≠ j) : ∃ rest, heldBy f l = f x + (f y + rest) ∧
      ∀ x' y', heldBy f ((l.set i x').set j y') = f x' + (f y' + rest) := by
  induction l generalizing i j with
  | nil => cases hi
  | cons z l ih =>
    cases i with
    | zero =>
      obtain rfl : z = x := by simpa using hi
      cases j with
      | zero => exact absurd rfl h
      | succ j =>
        obtain ⟨rest, hl, hset⟩ := heldBy_split (f := f) (i := j) (by simpa using hj)
        exact ⟨rest, by rw [heldBy_cons, hl], fun x' y' => by
          rw [List.set_cons_zero, List.set_cons_succ, heldBy_cons, hset]⟩
    | succ i =>
      cases j with
      | zero =>
        obtain rfl : z = y := by simpa using hj
        obtain ⟨rest, hl, hset⟩ := heldBy_split (f := f) (i := i) (by simpa using hi)
        refine ⟨rest, by rw [heldBy_cons, hl, add_left_comm], fun x' y' => ?_⟩
        rw [List.set_cons_succ, List.set_cons_zero, heldBy_cons, hset, add_left_comm]
      | succ j =>
        obtain ⟨rest, hl, hset⟩ := ih (i := i) (j := j) (by simpa using hi) (by simpa using hj) (by omega)
        refine ⟨f z + rest, by rw [heldBy_cons, hl]; abel, fun x' y' => ?_⟩
        rw [List.set_cons_succ, List.set_cons_succ, heldBy_cons, hset]
        abel

/-- Two places of one resource of which there is one are the same place. -/
theorem eq_of_count_heldBy [DecidableEq R] {l : List W} {i j : Nat} {x y : W} {r : R}
    (hcount : (heldBy f l).count r ≤ 1) (hi : l[i]? = some x) (hj : l[j]? = some y) (hx : r ∈ f x)
    (hy : r ∈ f y) : i = j := by
  by_contra h
  obtain ⟨rest, hl, -⟩ := heldBy_split_two (f := f) hi hj h
  have h₁ := Multiset.one_le_count_iff_mem.mpr hx
  have h₂ := Multiset.one_le_count_iff_mem.mpr hy
  rw [hl, Multiset.count_add, Multiset.count_add] at hcount
  omega

end
