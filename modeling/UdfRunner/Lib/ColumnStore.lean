import Mathlib.Tactic
import Mathlib.Data.List.ReduceOption
import Mathlib.Data.List.Forall2

/-!
# Row-major columns

A batch of nullable cells is stored as its null flags and, for every storage class `k`, the non-null
cells of that class, all in row-major order. The classes of the positions are known to both sides.
-/

namespace ColumnStore

section Rows
variable {α : Type} {w n : Nat}

/-- The first `n` rows of width `w`. -/
def chunks (w : Nat) : Nat → List α → List (List α)
  | 0, _ => []
  | n + 1, l => l.take w :: chunks w n (l.drop w)

theorem chunks_flatten {rows : List (List α)} (h : ∀ row ∈ rows, row.length = w) :
    chunks w rows.length rows.flatten = rows := by
  induction rows with
  | nil => rfl
  | cons row rows ih =>
    obtain rfl : row.length = w := h row (by simp)
    simp only [List.length_cons, chunks, List.flatten_cons, List.take_left, List.drop_left]
    rw [ih fun r hr => h r (by simp [hr])]

theorem flatten_chunks {l : List α} (h : l.length = n * w) : (chunks w n l).flatten = l := by
  induction n generalizing l with
  | zero => simpa [chunks, eq_comm] using h
  | succ n ih =>
    have : (l.drop w).length = n * w := by rw [List.length_drop, h, Nat.succ_mul]; omega
    rw [chunks, List.flatten_cons, ih this, List.take_append_drop]

@[simp] theorem length_chunks (l : List α) : (chunks w n l).length = n := by
  induction n generalizing l with
  | zero => rfl
  | succ n ih => simp [chunks, ih]

end Rows

variable {κ C : Type} (cls : C → κ)

def nulls (cells : List (Option C)) : List Bool := cells.map Option.isNone

/-- Every cell that is there has the class of its position. -/
def Typed (ks : List κ) (cells : List (Option C)) : Prop :=
  List.Forall₂ (fun k cell => ∀ c ∈ cell, cls c = k) ks cells

namespace Typed
variable {cls} {a b cells row : List (Option C)} {ks ks' : List κ}

theorem length_eq (h : Typed cls ks cells) : ks.length = cells.length := List.Forall₂.length_eq h

theorem append (ha : Typed cls ks a) (hb : Typed cls ks' b) : Typed cls (ks ++ ks') (a ++ b) :=
  List.rel_append ha hb

theorem flatten {rows : List (List (Option C))} (h : ∀ row ∈ rows, Typed cls ks row) :
    Typed cls (List.replicate rows.length ks).flatten rows.flatten := by
  induction rows with
  | nil => exact .nil
  | cons row rows ih =>
    simp only [List.length_cons, List.replicate_succ, List.flatten_cons]
    exact (h row (by simp)).append (ih fun r hr => h r (by simp [hr]))

theorem of_mem_chunks {n : Nat} (h : Typed cls (List.replicate n ks).flatten cells)
    (hrow : row ∈ chunks ks.length n cells) : Typed cls ks row := by
  induction n generalizing cells with
  | zero => simp [chunks] at hrow
  | succ n ih =>
    rw [List.replicate_succ, List.flatten_cons] at h
    rcases List.mem_cons.mp hrow with rfl | hrow
    · simpa [Typed] using List.forall₂_take ks.length h
    · refine ih ?_ hrow
      simpa [Typed] using List.forall₂_drop ks.length h

end Typed

variable [DecidableEq κ]

/-- The class-`k` column of a list of cells. -/
def column (k : κ) (cells : List (Option C)) : List C := cells.reduceOption.filter (cls · = k)

/-- Reads cells back: a position that is not null takes the next entry of its class. -/
def decode : List (κ × Bool) → (κ → List C) → Option (List (Option C))
  | [], _ => some []
  | (_, true) :: l, data => (decode l data).map (none :: ·)
  | (k, false) :: l, data => match data k with
    | [] => none
    | c :: cs => (decode l (Function.update data k cs)).map (some c :: ·)

/-- How many of the positions hold a cell of class `k`. -/
def cellCount (k : κ) (l : List (κ × Bool)) : Nat := l.countP fun p => p.1 = k ∧ p.2 = false

section
variable {cls} {k : κ} {c : C} {a b cells : List (Option C)} {ks : List κ}

omit [DecidableEq κ] in
@[simp] theorem nulls_length : (nulls cells).length = cells.length := by simp [nulls]
@[simp] theorem nulls_nil : nulls ([] : List (Option C)) = [] := rfl
@[simp] theorem nulls_append : nulls (a ++ b) = nulls a ++ nulls b := by simp [nulls]
@[simp] theorem nulls_none_cons : nulls (none :: cells) = true :: nulls cells := rfl
@[simp] theorem nulls_some_cons : nulls (some c :: cells) = false :: nulls cells := rfl

@[simp] theorem column_nil : column cls k [] = [] := rfl

@[simp] theorem column_append : column cls k (a ++ b) = column cls k a ++ column cls k b := by
  simp [column, List.reduceOption_append]

@[simp] theorem column_none_cons : column cls k (none :: cells) = column cls k cells := rfl

theorem column_some_cons : column cls k (some c :: cells) =
    if cls c = k then c :: column cls k cells else column cls k cells := by
  simp only [column, List.reduceOption_cons_of_some, List.filter_cons, decide_eq_true_eq]

@[simp] theorem column_some_cons_self :
    column cls (cls c) (some c :: cells) = c :: column cls (cls c) cells := by
  simp [column_some_cons]

omit [DecidableEq κ] in
@[simp] theorem nulls_map (f : C → C) : nulls (cells.map (Option.map f)) = nulls cells := by
  simp [nulls, Function.comp_def]

theorem column_map {f : C → C} (hf : ∀ c, cls (f c) = cls c) :
    column cls k (cells.map (Option.map f)) = (column cls k cells).map f := by
  induction cells with
  | nil => rfl
  | cons cell cells ih =>
    cases cell with
    | none => exact ih
    | some c =>
      rw [List.map_cons, Option.map_some, column_some_cons, column_some_cons, hf, ih]
      split_ifs <;> rfl

theorem column_getElem? :
    (column cls (cls c) (a ++ some c :: b))[(column cls (cls c) a).length]? = some c := by
  simp

@[simp] theorem cellCount_nil : cellCount k [] = 0 := rfl

theorem cellCount_null_cons (k' : κ) (l : List (κ × Bool)) :
    cellCount k ((k', true) :: l) = cellCount k l := by
  simp [cellCount]

theorem cellCount_cell_cons (k' : κ) (l : List (κ × Bool)) :
    cellCount k ((k', false) :: l) = (if k' = k then 1 else 0) + cellCount k l := by
  by_cases h : k' = k <;> simp [cellCount, h, Nat.add_comm]

theorem Typed.column_length (h : Typed cls ks cells) :
    (column cls k cells).length = cellCount k (ks.zip (nulls cells)) := by
  induction h with
  | nil => rfl
  | @cons k' cell ks cells hc _ ih =>
    cases cell with
    | none => simpa [cellCount_null_cons] using ih
    | some c =>
      obtain rfl : cls c = k' := hc c rfl
      rw [column_some_cons, nulls_some_cons, List.zip_cons_cons, cellCount_cell_cons]
      split <;> simp [ih, Nat.add_comm]

theorem update_column (c : C) (cells : List (Option C)) :
    Function.update (column cls · (some c :: cells)) (cls c) (column cls (cls c) cells) =
      (column cls · cells) := by
  funext k
  by_cases h : k = cls c
  · subst h; simp
  · simp [h, column_some_cons, Ne.symm h]

theorem decode_column (h : Typed cls ks cells) :
    decode (ks.zip (nulls cells)) (column cls · cells) = some cells := by
  induction h with
  | nil => rfl
  | @cons k cell ks cells hc _ ih =>
    cases cell with
    | none => simpa [decode] using ih
    | some c =>
      obtain rfl : cls c = k := hc c rfl
      simp only [nulls_some_cons, List.zip_cons_cons, decode, column_some_cons_self, update_column,
        ih, Option.map_some]

theorem exists_cells {flags : List Bool} {data : κ → List C} (hlen : ks.length = flags.length)
    (hcls : ∀ k, ∀ c ∈ data k, cls c = k)
    (hdata : ∀ k, (data k).length = cellCount k (ks.zip flags)) :
    ∃ cells, Typed cls ks cells ∧ nulls cells = flags ∧ ∀ k, column cls k cells = data k := by
  induction ks generalizing flags data with
  | nil =>
    obtain rfl : flags = [] := by simpa using hlen.symm
    exact ⟨[], .nil, rfl, fun k => (List.length_eq_zero_iff.mp (by simpa using hdata k)).symm⟩
  | cons k ks ih =>
    obtain - | ⟨flag, flags⟩ := flags
    · simp at hlen
    have hlen' : ks.length = flags.length := by simpa using hlen
    cases flag with
    | true =>
      obtain ⟨cells, ht, hn, hc⟩ := ih hlen' hcls fun k' => by
        rw [hdata k', List.zip_cons_cons, cellCount_null_cons]
      exact ⟨none :: cells, .cons (by simp) ht, by simp [hn], fun k => by simp [hc]⟩
    | false =>
      have hk := hdata k
      rw [List.zip_cons_cons, cellCount_cell_cons, if_pos rfl] at hk
      obtain ⟨c, cs, hcs⟩ := List.exists_cons_of_length_pos (l := data k) (by omega)
      obtain rfl : cls c = k := hcls k c (by simp [hcs])
      -- The rest of the positions is stored in the columns without `c`.
      have hcls' : ∀ k', ∀ c' ∈ Function.update data (cls c) cs k', cls c' = k' := by
        intro k' c' hc'
        by_cases h : k' = cls c
        · subst h
          rw [Function.update_self] at hc'
          exact hcls _ c' (hcs ▸ List.mem_cons_of_mem c hc')
        · rw [Function.update_of_ne h] at hc'
          exact hcls k' c' hc'
      have hdata' : ∀ k', (Function.update data (cls c) cs k').length =
          cellCount k' (ks.zip flags) := by
        intro k'
        have := hdata k'
        rw [List.zip_cons_cons, cellCount_cell_cons] at this
        by_cases h : k' = cls c
        · subst h
          rw [hcs, List.length_cons, if_pos rfl] at this
          rw [Function.update_self]
          omega
        · rw [if_neg (Ne.symm h)] at this
          rw [Function.update_of_ne h]
          omega
      obtain ⟨cells, ht, hn, hc⟩ := ih hlen' hcls' hdata'
      refine ⟨some c :: cells, .cons (by simp) ht, by simp [hn], fun k' => ?_⟩
      rw [column_some_cons, hc k']
      by_cases h : k' = cls c
      · subst h; simp [hcs]
      · simp [h, Ne.symm h]

end

end ColumnStore
