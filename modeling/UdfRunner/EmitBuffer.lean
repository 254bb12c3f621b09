import UdfRunner.EmitPath
import UdfRunner.Lib.WeightedBuffer

/-!
# The table that waits

`next_takes`, `next_fails`, `flush_sends` and `run_set` say what the calls of the result handler do to its
table, whatever its state.
-/

namespace UdfRunner
open Proc ColumnStore

theorem cellsSize_eq_zero {cells : List (Option Cell)} : cellsSize cells = 0 ↔ ∀ cell ∈ cells, cell = none := by
  have hsize : ∀ cell : Option Cell, cell.elim 0 Cell.size = 0 ↔ cell = none := by
    rintro (_ | c)
    · simp
    · cases c <;> simp [Cell.size]
  simp only [cellsSize, List.sum_eq_zero_iff, List.forall_mem_map, hsize]

namespace ResultHandler
variable {S : Session} {h : ResultHandler} {c : Channel} {types : List Datatype} {col : Nat}

theorem wp_addColumn_none {type : Datatype} (hcell : h.rowdata.cell col type = none) :
    wp (addColumn col type) (fun o s => o = .ok false ∧ s.2.past = c.past ∧ s.1.rowdata = h.rowdata ∧
      s.1.table = { h.table with dataNulls := h.table.dataNulls ++ [false] } ∧ s.1.rowsEmited = h.rowsEmited)
      (h, c) := by
  have hnull : h.rowdata.nullData col = false := by
    by_contra hnull
    rw [RowData.cell, if_pos (by simpa using hnull)] at hcell
    cases hcell
  simp only [addColumn, wp_bind, wp_get, Outcome.andThen_ok, wp_update]
  rw [RowData.cell, hnull, if_neg (by decide)] at hcell
  rw [hnull, if_neg (by decide)]
  cases type <;> simp only [Datatype.storage, Option.map_eq_none_iff] at hcell <;>
    first | exact ⟨rfl, rfl, rfl, rfl, rfl⟩ | (rw [hcell]; exact ⟨rfl, rfl, rfl, rfl, rfl⟩)

/-- A failed row leaves a piece of itself: null flags and nothing that would count it as a row. -/
structure Spoiled (h h' : ResultHandler) : Prop where
  nulls : h.table.dataNulls.length < h'.table.dataNulls.length
  rows : h'.table.rows = h.table.rows
  rowNumber : h'.table.rowNumber = h.table.rowNumber
  rowdata : h'.rowdata = h.rowdata
  rowsEmited : h'.rowsEmited = h.rowsEmited

theorem wp_addColumns_none (hcells : h.rowdata.cells col types = none) :
    wp (addColumns col types) (fun o s => o = .ok false ∧ s.2.past = c.past ∧ Spoiled h s.1) (h, c) := by
  induction types generalizing h col with
  | nil => cases hcells
  | cons type types ih =>
    rw [addColumns, wp_bind]
    rcases hcell : h.rowdata.cell col type with _ | cell
    · refine wp_mono (wp_addColumn_none hcell) fun o s ho => ?_
      obtain ⟨rfl, hpast, hrowdata, htable, hemited⟩ := ho
      exact ⟨rfl, hpast, by simp [htable], by simp [htable], by simp [htable], hrowdata, hemited⟩
    · have hrest : h.rowdata.cells (col + 1) types = none := by
        by_contra hne
        obtain ⟨rest, hrest⟩ := Option.ne_none_iff_exists'.mp hne
        simp [RowData.cells, hcell, hrest] at hcells
      rw [wp_addColumn_some hcell, Outcome.andThen_ok, if_pos rfl]
      refine wp_mono (ih (h := { h with
        messageSize := h.messageSize + cell.elim 0 Cell.size,
        table := h.table.addCell cell }) hrest) fun o s ho => ?_
      obtain ⟨rfl, hpast, hspoiled⟩ := ho
      refine ⟨rfl, hpast, ?_, ?_, ?_, hspoiled.rowdata, hspoiled.rowsEmited⟩
      · have := hspoiled.nulls
        simp only [TableData.addCell_dataNulls, List.length_append, List.length_singleton] at this
        omega
      · rw [hspoiled.rows, TableData.addCell_rows]
      · rw [hspoiled.rowNumber, TableData.addCell_rowNumber]

/-! ### Sending -/

/-- What a `flush` sends. -/
def outgoing (S : Session) (h : ResultHandler) : List TableData :=
  if 0 < h.table.rowCount ∧ S.serializes h.table = true then [h.table] else []

def flushed (S : Session) (h : ResultHandler) : ResultHandler :=
  if 0 < h.table.rowCount ∧ S.serializes h.table = true then { h with table := {}, messageSize := 0 } else h

/-- What is recorded of some tables sent. -/
def requests (S : Session) (sent : List TableData) : List Request :=
  sent.map fun t => Channel.request S (.emit t)

theorem flush_sends : wp (flush S) (fun o s => o = .ok () ∧ s.1 = flushed S h ∧
    s.2.past = c.past ++ requests S (outgoing S h)) (h, c) := by
  by_cases hsends : 0 < h.table.rowCount ∧ S.serializes h.table = true
  · rw [outgoing, flushed, if_pos hsends, if_pos hsends]
    refine wp_mono (wp_flush hsends.1 hsends.2) fun o s ho => ?_
    obtain ⟨rfl, exch, rfl⟩ := ho
    exact ⟨rfl, rfl, rfl⟩
  · rw [outgoing, flushed, if_neg hsends, if_neg hsends]
    refine wp_mono (wp_flush_keeps hsends) fun o s ho => ?_
    obtain ⟨rfl, exch, rfl⟩ := ho
    exact ⟨rfl, rfl, (List.append_nil _).symm⟩

/-- The handler with one more row. -/
def taking (h : ResultHandler) (row : Row) : ResultHandler :=
  { messageSize := h.messageSize + cellsSize row.cells
    table := h.table.addRow row
    rowsEmited := h.rowsEmited + 1 }

def Sends (S : Session) (h : ResultHandler) (row : Row) : Prop :=
  swigMaxVarDatasize ≤ h.messageSize + cellsSize row.cells ∧
    ¬(S.inpIterType = .exactlyOnce ∧ S.outIterType = .exactlyOnce)

instance (S : Session) (h : ResultHandler) (row : Row) : Decidable (Sends S h row) :=
  inferInstanceAs (Decidable (_ ∧ _))

/-- A row whose cells are all there is taken, and perhaps sent. -/
theorem next_takes (row : Row) (hcells : h.rowdata.cells 0 S.outputTypes = some row.cells) :
    wp (next S row.rowNumber) (fun o s => o = .ok true ∧
      s.1 = (if Sends S h row then flushed S (h.taking row) else h.taking row) ∧
      s.2.past = c.past ++ requests S (if Sends S h row then outgoing S (h.taking row) else [])) (h, c) := by
  have hnil : ∀ {c' : Channel}, c'.past = c.past → c'.past = c.past ++ requests S [] :=
    fun hpast => hpast.trans (List.append_nil _).symm
  simp only [next, wp_bind, wp_update, Outcome.andThen_ok]
  rw [wp_addColumns_some (h := { h with rowsEmited := h.rowsEmited + 1 }) hcells]
  simp only [Outcome.andThen_ok, if_true, wp_bind, wp_update, wp_get]
  by_cases hfull : swigMaxVarDatasize ≤ h.messageSize + cellsSize row.cells
  · by_cases honce : S.inpIterType = .exactlyOnce ∧ S.outIterType = .exactlyOnce
    · rw [if_pos hfull, if_pos honce, if_neg (fun h => h.2 honce), if_neg (fun h => h.2 honce)]
      exact ⟨rfl, rfl, hnil rfl⟩
    · rw [if_pos hfull, if_neg honce, if_pos ⟨hfull, honce⟩, if_pos ⟨hfull, honce⟩, wp_bind]
      refine wp_mono (flush_sends (S := S) (h := h.taking row) (c := c)) fun o s ho => ?_
      obtain ⟨rfl, hh, hpast⟩ := ho
      exact ⟨rfl, hh, hpast⟩
  · rw [if_neg hfull, if_neg (fun h => hfull h.1), if_neg (fun h => hfull h.1)]
    exact ⟨rfl, rfl, hnil rfl⟩

/-- What a `next` that returns `false` was meant to leave as it was. -/
def Untouched (h h' : ResultHandler) : Prop :=
  h'.table = h.table ∧ h'.messageSize = h.messageSize ∧ h'.rowsEmited = h.rowsEmited

theorem next_fails (hcells : h.rowdata.cells 0 S.outputTypes = none) (currentRow : UInt64) :
    wp (next S currentRow) (fun o s => o = .ok false ∧ s.2.past = c.past ∧
      Spoiled { h with rowsEmited := h.rowsEmited + 1 } s.1) (h, c) := by
  simp only [next, wp_bind, wp_update, Outcome.andThen_ok]
  refine wp_mono (wp_addColumns_none (h := { h with rowsEmited := h.rowsEmited + 1 }) hcells) fun o s ho => ?_
  obtain ⟨rfl, ho⟩ := ho
  exact ⟨rfl, ho⟩

end ResultHandler

/-! ### Set calls -/

namespace EmitOp
open ResultHandler

def IsSet : EmitOp → Prop
  | next _ | flush => False
  | _ => True

instance : DecidablePred IsSet := fun op => by cases op <;> unfold IsSet <;> infer_instance

def store (types : List Datatype) (op : EmitOp) (r : RowData) : RowData :=
  match op.assign types with
  | some (col, some c) => r.put col c.cut
  | some (col, none) => { r with nullData := Function.update r.nullData col true }
  | none => r

variable {S : Session} {h : ResultHandler} {c : Channel}

theorem setCell_stores {expected : Datatype} {typeName noColumn wrongType : String} {col : Nat} {cell : Cell}
    {change : RowData → RowData} (hchange : ∀ r : RowData,
      change { r with nullData := Function.update r.nullData col false } = r.put col cell.cut) :
    wp (setCell S expected typeName noColumn wrongType col change) (fun o s => o = .ok () ∧ s.2.past = c.past ∧
      s.1 = { h with rowdata := match assign.typed S.outputTypes col expected cell with
        | some (col, some c) => h.rowdata.put col c.cut
        | some (col, none) => { h.rowdata with nullData := Function.update h.rowdata.nullData col true }
        | none => h.rowdata }) (h, c) := by
  unfold setCell assign.typed
  cases htype : S.outputTypes[col]? with
  | none => exact ⟨rfl, rfl, rfl⟩
  | some type =>
    by_cases heq : type = expected
    · subst heq
      rw [if_pos rfl]
      simp only [ne_eq, not_true_eq_false, if_false, wp_update, hchange]
      exact ⟨trivial, trivial, trivial⟩
    · simp only [ne_eq, heq, not_false_eq_true, if_true, Option.some.injEq, if_false]
      exact ⟨rfl, rfl, rfl⟩

theorem run_set {op : EmitOp} (hset : op.IsSet) : wp (op.run S) (fun o s => o = .ok [] ∧ s.2.past = c.past ∧
    s.1 = { h with rowdata := op.store S.outputTypes h.rowdata }) (h, c) := by
  have hunit : ∀ {m : Emitting Unit}, wp m (fun o s => o = .ok () ∧ s.2.past = c.past ∧
      s.1 = { h with rowdata := op.store S.outputTypes h.rowdata }) (h, c) →
      wp (do m; return ([] : List Bool)) (fun o s => o = .ok [] ∧ s.2.past = c.past ∧
        s.1 = { h with rowdata := op.store S.outputTypes h.rowdata }) (h, c) := by
    intro m hm
    rw [wp_bind]
    refine wp_mono hm fun o s ho => ?_
    obtain ⟨rfl, ho⟩ := ho
    exact ⟨rfl, ho⟩
  cases op with
  | setNull col => exact hunit ⟨rfl, rfl, rfl⟩
  | next _ => exact hset.elim
  | flush => exact hset.elim
  | _ => exact hunit (setCell_stores fun _ => rfl)

end EmitOp

end UdfRunner
