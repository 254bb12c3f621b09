import Mathlib.Tactic
import Mathlib.Data.Set.Basic

/-!
# A buffer that is emptied when it is heavy enough

Items have a weight each; the buffer is emptied by the item that brings it to `limit`. An item without weight
can only wait: `bounded_iff`, what waits is bounded exactly if the stretches without weight are.
-/

/-- How many items wait, and their weight. -/
structure WeightedBuffer where
  pending : Nat := 0
  weight : Nat := 0
deriving DecidableEq, Repr

namespace WeightedBuffer
variable {α : Type} (limit : Nat) (weigh : α → Nat)

def add (b : WeightedBuffer) (x : α) : WeightedBuffer :=
  if limit ≤ b.weight + weigh x then {} else ⟨b.pending + 1, b.weight + weigh x⟩

def fill (b : WeightedBuffer) (xs : List α) : WeightedBuffer := xs.foldl (add limit weigh) b

variable {limit weigh} {b : WeightedBuffer} {x : α} {xs ys : List α} {N : Nat}

@[simp] theorem fill_nil : fill limit weigh b [] = b := rfl

@[simp] theorem fill_cons : fill limit weigh b (x :: xs) = fill limit weigh (add limit weigh b x) xs := rfl

theorem fill_append : fill limit weigh b (xs ++ ys) = fill limit weigh (fill limit weigh b xs) ys :=
  List.foldl_append

theorem fill_snoc : fill limit weigh b (xs ++ [x]) = add limit weigh (fill limit weigh b xs) x := fill_append

theorem weight_add_lt (hlimit : 0 < limit) : (add limit weigh b x).weight < limit := by
  unfold add
  split_ifs with h
  · exact hlimit
  · exact Nat.lt_of_not_le h

theorem weight_fill_lt (hb : b.weight < limit) : (fill limit weigh b xs).weight < limit := by
  induction xs generalizing b with
  | nil => exact hb
  | cons x xs ih => exact ih (weight_add_lt (Nat.zero_lt_of_lt hb))

theorem fill_light (hb : b.weight < limit) (hxs : ∀ x ∈ xs, weigh x = 0) :
    fill limit weigh b xs = ⟨b.pending + xs.length, b.weight⟩ := by
  induction xs generalizing b with
  | nil => rfl
  | cons x xs ih =>
    have hx : weigh x = 0 := hxs x (by simp)
    rw [fill_cons, add, hx, Nat.add_zero, if_neg (Nat.not_le.mpr hb),
      ih (b := ⟨b.pending + 1, b.weight⟩) hb fun y hy => hxs y (by simp [hy])]
    simp only [List.length_cons, mk.injEq, and_true]
    omega

/-- Every item with weight makes room for `N` more. -/
theorem pending_le (hstretch : ∀ ys, ys <:+: xs → (∀ x ∈ ys, weigh x = 0) → ys.length ≤ N) :
    ∃ ys, ys <:+ xs ∧ (∀ x ∈ ys, weigh x = 0) ∧
      (fill limit weigh {} xs).pending ≤ (fill limit weigh {} xs).weight * (N + 1) + ys.length := by
  induction xs using List.reverseRecOn with
  | nil => exact ⟨[], List.suffix_refl _, by simp, by simp⟩
  | append_singleton xs x ih =>
    obtain ⟨ys, hsuffix, hlight, hle⟩ := ih fun ys hys => hstretch ys (hys.trans (List.infix_append' [] xs [x]))
    rw [fill_snoc]
    set b := fill limit weigh {} xs
    unfold add
    split_ifs with hfull
    · exact ⟨[], List.nil_suffix, by simp, by simp⟩
    by_cases hx : weigh x = 0
    · refine ⟨ys ++ [x], ?_, ?_, ?_⟩
      · obtain ⟨front, rfl⟩ := hsuffix
        exact ⟨front, by simp⟩
      · intro y hy
        rcases List.mem_append.mp hy with hy | hy
        · exact hlight y hy
        · rwa [List.mem_singleton.mp hy]
      · simp only [hx, Nat.add_zero, List.length_append, List.length_singleton]
        omega
    · have hys : ys.length ≤ N :=
        hstretch ys (hsuffix.isInfix.trans (List.infix_append' [] xs [x])) hlight
      refine ⟨[], List.nil_suffix, by simp, ?_⟩
      have hweight : (b.weight + 1) * (N + 1) ≤ (b.weight + weigh x) * (N + 1) :=
        Nat.mul_le_mul_right _ (by omega)
      rw [Nat.succ_mul] at hweight
      simp only [List.length_nil, Nat.add_zero]
      omega

theorem pending_le_mul (hlimit : 0 < limit)
    (hstretch : ∀ ys, ys <:+: xs → (∀ x ∈ ys, weigh x = 0) → ys.length ≤ N) :
    (fill limit weigh {} xs).pending ≤ limit * (N + 1) := by
  obtain ⟨ys, hsuffix, hlight, hle⟩ : ∃ ys, ys <:+ xs ∧ (∀ x ∈ ys, weigh x = 0) ∧
      (fill limit weigh {} xs).pending ≤ (fill limit weigh {} xs).weight * (N + 1) + ys.length :=
        pending_le hstretch
  have hys := hstretch ys hsuffix.isInfix hlight
  have hweight : (fill limit weigh {} xs).weight < limit := weight_fill_lt hlimit
  have : ((fill limit weigh {} xs).weight + 1) * (N + 1) ≤ limit * (N + 1) := Nat.mul_le_mul_right _ hweight
  rw [Nat.succ_mul] at this
  omega

/-- Over a set of runs: what waits at any moment is bounded exactly if the stretches without weight are. -/
theorem bounded_iff (hlimit : 0 < limit) (runs : Set (List α)) :
    (∃ B, ∀ xs ∈ runs, ∀ pre, pre <+: xs → (fill limit weigh {} pre).pending ≤ B) ↔
      ∃ N, ∀ xs ∈ runs, ∀ ys, ys <:+: xs → (∀ x ∈ ys, weigh x = 0) → ys.length ≤ N := by
  constructor
  · rintro ⟨B, hB⟩
    refine ⟨B, fun xs hxs ys ⟨front, back, heq⟩ hlight => ?_⟩
    have hle := hB xs hxs (front ++ ys) ⟨back, heq⟩
    rw [fill_append, fill_light (weight_fill_lt hlimit) hlight] at hle
    exact (Nat.le_add_left _ _).trans hle
  · rintro ⟨N, hN⟩
    refine ⟨limit * (N + 1), fun xs hxs pre hpre => pending_le_mul hlimit fun ys hys hlight => ?_⟩
    exact hN xs hxs ys (hys.trans hpre.isInfix) hlight

end WeightedBuffer
