import UdfRunner.EmitFailures

/-!
# How much waits

Rows without a value weigh nothing (`m_message_size` counts the values only), so nothing but a row with a value
makes the handler send: `pending_bounded_iff`.
-/

namespace UdfRunner
open Proc ColumnStore

def EmitOp.storeAll (types : List Datatype) (sets : List EmitOp) (r : RowData) : RowData :=
  sets.foldl (fun r op => EmitOp.store types op r) r

/-- The calls for one row of the script: its cells are set in any order, then comes `next`. -/
structure EmittedRow (types : List Datatype) where
  sets : List EmitOp
  currentRow : UInt64
  cells : List (Option Cell)
  sets_only : ∀ op ∈ sets, op.IsSet
  complete : (EmitOp.storeAll types sets {}).cells 0 types = some cells

namespace EmittedRow
variable {types : List Datatype}

def calls (row : EmittedRow types) : List EmitOp := row.sets ++ [.next row.currentRow]

def row (row : EmittedRow types) : Row := ⟨row.currentRow, row.cells⟩

def size (row : EmittedRow types) : Nat := cellsSize row.cells

def AllNull (row : EmittedRow types) : Prop := ∀ cell ∈ row.cells, cell = none

theorem size_eq_zero {row : EmittedRow types} : row.size = 0 ↔ row.AllNull := cellsSize_eq_zero

end EmittedRow

namespace EmitOp
open ResultHandler
variable {S : Session} {s : ResultHandler × Channel} {ops ops' : List EmitOp} {row : EmittedRow S.outputTypes}

theorem final_append : final S (ops ++ ops') s = final S ops' (final S ops s) := by
  induction ops generalizing s with
  | nil => rfl
  | cons op ops ih => rw [List.cons_append, final_cons, ih, final_cons]

theorem final_sets (hops : ∀ op ∈ ops, op.IsSet) : (final S ops s).1 =
    { s.1 with rowdata := storeAll S.outputTypes ops s.1.rowdata } := by
  induction ops generalizing s with
  | nil => rfl
  | cons op ops ih =>
    have hstored : (op.run S s).2.1 = { s.1 with rowdata := op.store S.outputTypes s.1.rowdata } :=
      (run_set (h := s.1) (c := s.2) (hops op (by simp))).2.2
    rw [final_cons, ih fun op' hop => hops op' (by simp [hop]), hstored]
    rfl

/-- The handler between two rows, as a buffer. -/
def waiting (h : ResultHandler) : WeightedBuffer := ⟨h.table.rowCount, h.messageSize⟩

theorem final_row (hbetween : s.1.rowdata = {}) : (final S row.calls s).1 =
    if Sends S s.1 row.row then flushed S (s.1.taking row.row) else s.1.taking row.row := by
  have hsets := final_sets (S := S) (s := s) row.sets_only
  rw [hbetween] at hsets
  rw [EmittedRow.calls, final_append]
  generalize final S row.sets s = s' at hsets
  have hcells : s'.1.rowdata.cells 0 S.outputTypes = some row.cells := by
    rw [hsets]
    exact row.complete
  have hnext : ¬(EmitOp.next row.currentRow).Fails S s'.1 := fun hfails => by
    rw [show s'.1.rowdata.cells 0 S.outputTypes = none from hfails] at hcells
    cases hcells
  rw [final_cons]
  show ((EmitOp.next row.currentRow).run S s').2.1 = _
  rw [(run_result hnext).2.1]
  simp only [result, hcells, Option.elim_some]
  rw [show s'.1.taking ⟨row.currentRow, row.cells⟩ = s.1.taking row.row by rw [hsets]; rfl]
  exact if_congr (show Sends S s'.1 row.row ↔ Sends S s.1 row.row by rw [hsets]; rfl) rfl rfl

theorem taking_rowCount (h : ResultHandler) (row : Row) :
    (h.taking row).table.rowCount = h.table.rowCount + 1 := h.table.addRow_rowCount row

theorem waiting_row (honce : ¬(S.inpIterType = .exactlyOnce ∧ S.outIterType = .exactlyOnce))
    (hserializes : ∀ t, S.serializes t = true) (hbetween : s.1.rowdata = {}) :
    (final S row.calls s).1.rowdata = {} ∧
      waiting (final S row.calls s).1 = (waiting s.1).add swigMaxVarDatasize EmittedRow.size row := by
  rw [final_row hbetween, WeightedBuffer.add]
  by_cases hfull : swigMaxVarDatasize ≤ s.1.messageSize + cellsSize row.cells
  · have hsend : 0 < (s.1.taking row.row).table.rowCount ∧ S.serializes (s.1.taking row.row).table = true :=
      ⟨by rw [taking_rowCount]; omega, hserializes _⟩
    rw [if_pos ⟨hfull, honce⟩, flushed, if_pos hsend]
    exact ⟨rfl, (if_pos hfull).symm⟩
  · rw [if_neg fun hsends => hfull hsends.1]
    refine ⟨rfl, Eq.trans ?_ (if_neg hfull).symm⟩
    rw [waiting, taking_rowCount]
    rfl

theorem waiting_rows (honce : ¬(S.inpIterType = .exactlyOnce ∧ S.outIterType = .exactlyOnce))
    (hserializes : ∀ t, S.serializes t = true) (rows : List (EmittedRow S.outputTypes))
    (hbetween : s.1.rowdata = {}) : waiting (final S (rows.flatMap EmittedRow.calls) s).1 =
      (waiting s.1).fill swigMaxVarDatasize EmittedRow.size rows := by
  induction rows generalizing s with
  | nil => rfl
  | cons row rows ih =>
    obtain ⟨hbetween', hrow⟩ := waiting_row honce hserializes hbetween
    rw [List.flatMap_cons, final_append, ih hbetween', hrow, WeightedBuffer.fill_cons]

end EmitOp

/-- The rows in the unsent table of a fresh handler after some rows. -/
def pendingAfter (S : Session) (c : Channel) (rows : List (EmittedRow S.outputTypes)) : Nat :=
  (EmitOp.final S (rows.flatMap EmittedRow.calls) ({}, c)).1.table.rowCount

/-- What waits is bounded exactly if the stretches of rows that are NULL in every column are. -/
theorem pending_bounded_iff (S : Session) (c : Channel)
    (honce : ¬(S.inpIterType = .exactlyOnce ∧ S.outIterType = .exactlyOnce))
    (hserializes : ∀ t, S.serializes t = true) :
    (∀ N rows, (∀ ys, ys <:+: rows → (∀ row ∈ ys, row.AllNull) → ys.length ≤ N) →
      pendingAfter S c rows ≤ swigMaxVarDatasize * (N + 1)) ∧
    ∀ runs : Set (List (EmittedRow S.outputTypes)),
      (∃ bound, ∀ rows ∈ runs, ∀ front, front <+: rows → pendingAfter S c front ≤ bound) ↔
        ∃ N, ∀ rows ∈ runs, ∀ ys, ys <:+: rows → (∀ row ∈ ys, row.AllNull) → ys.length ≤ N := by
  have hpending : ∀ rows, pendingAfter S c rows =
      (WeightedBuffer.fill swigMaxVarDatasize EmittedRow.size {} rows).pending := fun rows =>
    congrArg WeightedBuffer.pending (EmitOp.waiting_rows (s := ({}, c)) honce hserializes rows rfl)
  simp only [hpending, ← EmittedRow.size_eq_zero]
  have hlimit : 0 < swigMaxVarDatasize := by decide
  exact ⟨fun N rows hN => WeightedBuffer.pending_le_mul hlimit hN, WeightedBuffer.bounded_iff hlimit⟩

def nullRow : EmittedRow intSession.outputTypes where
  sets := [.setNull 0]
  currentRow := 0
  cells := [none]
  sets_only := by decide
  complete := rfl

theorem pending_bounded_iff_null : pendingAfter intSession {} [nullRow] ≤ swigMaxVarDatasize * (1 + 1) :=
  (pending_bounded_iff intSession {} (by decide) fun _ => rfl).1 1 [nullRow] fun _ hys _ => hys.length_le

/-- Rows of NULL wait for ever. -/
theorem pending_bounded_fail : ¬∃ bound : Nat → Nat → Nat,
    ∀ (S : Session) (c : Channel) (rows : List (EmittedRow S.outputTypes)), 0 < S.outputTypes.length →
      ¬(S.inpIterType = .exactlyOnce ∧ S.outIterType = .exactlyOnce) → (∀ t, S.serializes t = true) →
      AcceptsEmits S → pendingAfter S c rows ≤ bound S.outputTypes.length swigMaxVarDatasize := by
  rintro ⟨bound, hbound⟩
  set rows := List.replicate (bound 1 swigMaxVarDatasize + 1) nullRow
  have hle := hbound intSession {} rows (by decide) (by decide) (fun _ => rfl) fun _ _ => ⟨_, rfl, rfl, rfl⟩
  have hlight : ∀ row ∈ rows, row.size = 0 := fun row hrow => by
    rw [List.eq_of_mem_replicate hrow]
    decide
  have hfilled : EmitOp.waiting (EmitOp.final intSession (rows.flatMap EmittedRow.calls) ({}, {})).1 =
      ⟨0 + rows.length, 0⟩ :=
    (EmitOp.waiting_rows (S := intSession) (s := ({}, {})) (by decide) (fun _ => rfl) rows rfl).trans
      (WeightedBuffer.fill_light (by decide) hlight)
  have hpending : pendingAfter intSession {} rows = 0 + rows.length := congrArg WeightedBuffer.pending hfilled
  rw [hpending, List.length_replicate] at hle
  have : bound intSession.outputTypes.length swigMaxVarDatasize = bound 1 swigMaxVarDatasize := rfl
  omega

end UdfRunner
