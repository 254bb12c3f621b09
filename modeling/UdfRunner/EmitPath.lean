import UdfRunner.ResultHandler

/-!
# The emit path keeps every row

A script drives the result handler by a list of `EmitOp`s. `EmitView` is what it means to it: the
cells set since the last row and the rows accepted so far. `EmitInv` ties the handler to the view:
the sent tables and the pending one hold the accepted rows, in order.
-/

namespace UdfRunner
open Proc ColumnStore

/-- A call of the result handler; `next` comes with the iterator's current row at that moment. -/
inductive EmitOp
  | setDouble (col : Nat) (v : Double)
  | setString (col : Nat) (v : ByteString) (l : Nat)
  | setInt32 (col : Nat) (v : Int32)
  | setInt64 (col : Nat) (v : Int64)
  | setNumeric (col : Nat) (v : ByteString)
  | setTimestamp (col : Nat) (v : ByteString)
  | setDate (col : Nat) (v : ByteString)
  | setBoolean (col : Nat) (v : Bool)
  | setNull (col : Nat)
  | next (currentRow : UInt64)
  | flush

namespace EmitOp
open ResultHandler

/-- What a call does; `next` reports whether it took the row. -/
def run (S : Session) : EmitOp → Emitting (List Bool)
  | setDouble col v => do ResultHandler.setDouble S col v; return []
  | setString col v l => do ResultHandler.setString S col v l; return []
  | setInt32 col v => do ResultHandler.setInt32 S col v; return []
  | setInt64 col v => do ResultHandler.setInt64 S col v; return []
  | setNumeric col v => do ResultHandler.setNumeric S col v; return []
  | setTimestamp col v => do ResultHandler.setTimestamp S col v; return []
  | setDate col v => do ResultHandler.setDate S col v; return []
  | setBoolean col v => do ResultHandler.setBoolean S col v; return []
  | setNull col => do ResultHandler.setNull col; return []
  | next currentRow => do return [← ResultHandler.next S currentRow]
  | flush => do ResultHandler.flush S; return []

def runAll (S : Session) : List EmitOp → Emitting (List Bool)
  | [] => return []
  | op :: ops => do
    let taken ← op.run S
    return taken ++ (← runAll S ops)

/-- The cell a call sets, if the column is of the call's type. -/
def assign (types : List Datatype) : EmitOp → Option (Nat × Option Cell)
  | setDouble col v => typed col .double (.double v)
  | setString col v _ => typed col .string (.string v)
  | setInt32 col v => typed col .int32 (.int32 v)
  | setInt64 col v => typed col .int64 (.int64 v)
  | setNumeric col v => typed col .numeric (.string v)
  | setTimestamp col v => typed col .timestamp (.string v)
  | setDate col v => typed col .date (.string v)
  | setBoolean col v => typed col .boolean (.bool v)
  | setNull col => some (col, none)
  | next _ | flush => none
where
  typed (col : Nat) (expected : Datatype) (cell : Cell) : Option (Nat × Option Cell) :=
    if types[col]? = some expected then some (col, some cell) else none

/-- A text the call sets has no NUL in it. -/
def NulFree (types : List Datatype) (op : EmitOp) : Prop :=
  ∀ col s, op.assign types = some (col, some (.string s)) → (0 : UInt8) ∉ s

end EmitOp

/-- What `setString` makes of a cell. -/
def Cell.cut : Cell → Cell
  | .string s => .string (cstr s)
  | c => c

/-- What the calls so far come to: the cells set since the last row and the rows taken. -/
structure EmitView where
  cells : Nat → Option (Option Cell) := fun _ => none
  rows : List Row := []

namespace EmitView
variable {types : List Datatype}

def Complete (types : List Datatype) (v : EmitView) : Prop :=
  ∀ col < types.length, (v.cells col).isSome

def row (types : List Datatype) (v : EmitView) (currentRow : UInt64) : Row :=
  ⟨currentRow, (List.range types.length).map fun col => (v.cells col).getD none⟩

def assigned (v : EmitView) : Option (Nat × Option Cell) → EmitView
  | some (col, cell) => { v with cells := Function.update v.cells col (some cell) }
  | none => v

def step (types : List Datatype) (v : EmitView) : EmitOp → EmitView
  | .next currentRow => { cells := fun _ => none, rows := v.rows ++ [v.row types currentRow] }
  | op => v.assigned (op.assign types)

def steps (types : List Datatype) (v : EmitView) (ops : List EmitOp) : EmitView :=
  ops.foldl (step types) v

/-- Every `next` of the calls finds its row complete. -/
def CompleteAtNext (types : List Datatype) : EmitView → List EmitOp → Prop
  | _, [] => True
  | v, op :: ops =>
    (∀ currentRow, op = .next currentRow → v.Complete types) ∧ CompleteAtNext types (v.step types op) ops

end EmitView

namespace RowData

/-- What `next` would emit for a column: `none` if it was never set, `some none` for NULL. -/
def cell (r : RowData) (col : Nat) (type : Datatype) : Option (Option Cell) :=
  if r.nullData col then some none
  else match type.storage with
    | some .double => (r.doubleData col).map (some ∘ .double)
    | some .int32 => (r.int32Data col).map (some ∘ .int32)
    | some .int64 => (r.int64Data col).map (some ∘ .int64)
    | some .string => (r.stringData col).map (some ∘ .string)
    | some .bool => (r.boolData col).map (some ∘ .bool)
    | none => none

/-- The row data after a `set` call of a cell's kind. -/
def put (r : RowData) (col : Nat) (c : Cell) : RowData :=
  let r := { r with nullData := Function.update r.nullData col false }
  match c with
  | .string s => { r with stringData := Function.update r.stringData col (some s) }
  | .bool b => { r with boolData := Function.update r.boolData col (some b) }
  | .int32 n => { r with int32Data := Function.update r.int32Data col (some n) }
  | .int64 n => { r with int64Data := Function.update r.int64Data col (some n) }
  | .double x => { r with doubleData := Function.update r.doubleData col (some x) }

variable {r : RowData} {col col' : Nat} {c : Cell} {type : Datatype}

theorem cell_put_self (h : type.storage = c.storage) : (r.put col c).cell col type = some (some c) := by
  cases c <;> simp_all [cell, put, Cell.storage]

theorem cell_put_ne (h : col' ≠ col) : (r.put col c).cell col' type = r.cell col' type := by
  cases c <;> simp [cell, put, h]

theorem storage_of_cell (h : r.cell col type = some (some c)) : c.storage = type.storage := by
  unfold cell at h
  split at h
  · simp at h
  · split at h <;> rename_i hs <;> simp only [Option.map_eq_some_iff, Function.comp_apply,
      Option.some.injEq, reduceCtorEq] at h
    all_goals obtain ⟨_, _, rfl⟩ := h; exact hs.symm

/-- The cells of the row, unless one was never set. -/
def cells (r : RowData) : Nat → List Datatype → Option (List (Option Cell))
  | _, [] => some []
  | col, type :: types => do return (← r.cell col type) :: (← r.cells (col + 1) types)

section
variable {types : List Datatype} {cells : List (Option Cell)}

theorem cells_of_forall₂
    (h : List.Forall₂ (fun p cell => r.cell p.2 p.1 = some cell) (types.zipIdx col) cells) :
    r.cells col types = some cells := by
  induction types generalizing col cells with
  | nil =>
    cases h
    rfl
  | cons type types ih =>
    rw [List.zipIdx_cons] at h
    obtain ⟨cell, rest, hcell, hrest, rfl⟩ := List.forall₂_cons_left_iff.mp h
    rw [RowData.cells, hcell, ih hrest]
    rfl

theorem cells_typed (h : r.cells col types = some cells) :
    Typed Cell.storage (types.map Datatype.storage) cells := by
  induction types generalizing col cells with
  | nil =>
    obtain rfl := Option.some.inj h
    exact .nil
  | cons type types ih =>
    simp only [RowData.cells, Option.bind_eq_bind, Option.bind_eq_some_iff, Option.pure_def] at h
    obtain ⟨cell, hcell, rest, hrest, heq⟩ := h
    obtain rfl := Option.some.inj heq
    exact .cons (fun c hc => storage_of_cell (by rw [hcell, hc])) (ih hrest)

end

end RowData

namespace TableData

/-- The table with one more cell of the row being filled. -/
def addCell (t : TableData) (cell : Option Cell) : TableData :=
  let t := { t with dataNulls := t.dataNulls ++ [cell.isNone] }
  match cell with
  | none => t
  | some (.string s) => { t with dataString := t.dataString ++ [s] }
  | some (.bool b) => { t with dataBool := t.dataBool ++ [b] }
  | some (.int32 n) => { t with dataInt32 := t.dataInt32 ++ [n] }
  | some (.int64 n) => { t with dataInt64 := t.dataInt64 ++ [n] }
  | some (.double x) => { t with dataDouble := t.dataDouble ++ [x] }

def addCells (t : TableData) (cells : List (Option Cell)) : TableData := cells.foldl addCell t

@[simp] theorem addCell_rows (t : TableData) (cell) : (t.addCell cell).rows = t.rows := by
  rcases cell with _ | (_ | _ | _ | _ | _) <;> rfl
@[simp] theorem addCell_rowNumber (t : TableData) (cell) :
    (t.addCell cell).rowNumber = t.rowNumber := by
  rcases cell with _ | (_ | _ | _ | _ | _) <;> rfl
@[simp] theorem addCell_dataNulls (t : TableData) (cell) :
    (t.addCell cell).dataNulls = t.dataNulls ++ [cell.isNone] := by
  rcases cell with _ | (_ | _ | _ | _ | _) <;> rfl

theorem addCell_columnOf (t : TableData) (cell : Option Cell) (k : Option Storage) :
    (t.addCell cell).columnOf k = t.columnOf k ++ column Cell.storage k [cell] := by
  rcases cell with _ | (_ | _ | _ | _ | _) <;> rcases k with _ | (_ | _ | _ | _ | _) <;>
    simp [addCell, columnOf, column_some_cons, Cell.storage]

theorem addCells_cons (t : TableData) (cell : Option Cell) (cells : List (Option Cell)) :
    t.addCells (cell :: cells) = (t.addCell cell).addCells cells := rfl

@[simp] theorem addCells_rows (t : TableData) (cells) : (t.addCells cells).rows = t.rows := by
  induction cells generalizing t with
  | nil => rfl
  | cons cell cells ih => rw [addCells_cons, ih, addCell_rows]

@[simp] theorem addCells_rowNumber (t : TableData) (cells) :
    (t.addCells cells).rowNumber = t.rowNumber := by
  induction cells generalizing t with
  | nil => rfl
  | cons cell cells ih => rw [addCells_cons, ih, addCell_rowNumber]

theorem addCells_dataNulls (t : TableData) (cells) :
    (t.addCells cells).dataNulls = t.dataNulls ++ nulls cells := by
  induction cells generalizing t with
  | nil => simp [addCells]
  | cons cell cells ih => rw [addCells_cons, ih, addCell_dataNulls, List.append_assoc]; rfl

theorem addCells_columnOf (t : TableData) (cells : List (Option Cell)) (k : Option Storage) :
    (t.addCells cells).columnOf k = t.columnOf k ++ column Cell.storage k cells := by
  induction cells generalizing t with
  | nil => simp [addCells]
  | cons cell cells ih =>
    rw [addCells_cons, ih, addCell_columnOf, List.append_assoc, ← column_append]; rfl

def addRow (t : TableData) (row : Row) : TableData :=
  { t.addCells row.cells with
    rowNumber := (t.addCells row.cells).rowNumber ++ [row.rowNumber]
    rows := some ((t.addCells row.cells).rowCount + 1)
    rowsInGroup := 0 }

@[simp] theorem addRow_rowCount (t : TableData) (row : Row) : (t.addRow row).rowCount = t.rowCount + 1 := by
  show (t.addCells row.cells).rowCount + 1 = _
  rw [TableData.rowCount, addCells_rows]
  rfl

theorem Holds.addRow {types : List Datatype} {t : TableData} {rows : List Row} {row : Row}
    (h : Holds types t rows) (hrow : row.Typed types) : Holds types (t.addRow row) (rows ++ [row]) where
  typed r hr := by
    rcases List.mem_append.mp hr with hr | hr
    · exact h.typed r hr
    · obtain rfl := List.mem_singleton.mp hr
      exact hrow
  rowCount := by rw [addRow_rowCount, h.rowCount, List.length_append, List.length_singleton]
  rowNumber := by simp [TableData.addRow, h.rowNumber]
  nulls_eq := by
    rw [show (t.addRow row).dataNulls = _ from addCells_dataNulls t row.cells, h.nulls_eq]
    simp
  column_eq k := by
    have : (t.addRow row).columnOf k = (t.addCells row.cells).columnOf k := by
      rcases k with _ | (_ | _ | _ | _ | _) <;> rfl
    rw [this, addCells_columnOf, h.column_eq]
    simp

end TableData

/-- What a cell adds to `m_message_size`. -/
def Cell.size : Cell → Nat
  | string s => 4 + s.length
  | bool _ => 1
  | int32 _ => 4
  | int64 _ => 8
  | double _ => 8

def cellsSize (cells : List (Option Cell)) : Nat := (cells.map fun cell => cell.elim 0 Cell.size).sum

namespace ResultHandler
variable {S : Session} {h : ResultHandler} {c : Channel} {types : List Datatype} {col : Nat}

@[simp] theorem wp_update {Q : Outcome Exception Unit → ResultHandler × Channel → Prop}
    (f : ResultHandler → ResultHandler) : wp (update f) Q (h, c) ↔ Q (.ok ()) (f h, c) := Iff.rfl

@[simp] theorem wp_onChannel {α : Type} {Q : Outcome Exception α → ResultHandler × Channel → Prop}
    (m : Proc Channel Exception α) : wp (onChannel m) Q (h, c) ↔ wp m (fun o c => Q o (h, c)) c :=
  Iff.rfl

@[simp] theorem wp_setException {Q : Outcome Exception Unit → ResultHandler × Channel → Prop}
    (msg : ByteString) :
    wp (setException msg) Q (h, c) ↔ Q (.ok ()) (h, { c with exch := ⟨msg, true⟩ }) := Iff.rfl

theorem wp_addCell_found {α : Type} {Q : Outcome Exception Bool → ResultHandler × Channel → Prop}
    {missing : String} {size : α → Nat} {add : α → TableData → TableData} {found : Option α} {v : α}
    (hfound : found = some v) :
    wp (addCell missing found size add) Q (h, c) ↔
      Q (.ok true) ({ h with messageSize := h.messageSize + size v, table := add v h.table }, c) := by
  subst hfound
  rfl

theorem wp_addColumn_some {Q : Outcome Exception Bool → ResultHandler × Channel → Prop} {type : Datatype}
    {cell : Option Cell} (hcell : h.rowdata.cell col type = some cell) :
    wp (addColumn col type) Q (h, c) ↔ Q (.ok true) ({ h with
      messageSize := h.messageSize + cell.elim 0 Cell.size, table := h.table.addCell cell }, c) := by
  simp only [addColumn, wp_bind, wp_get, Outcome.andThen_ok, wp_update]
  unfold RowData.cell at hcell
  by_cases hnull : h.rowdata.nullData col = true
  · rw [if_pos hnull] at hcell ⊢
    obtain rfl := Option.some.inj hcell
    rw [wp_pure, hnull]
    rfl
  · rw [if_neg hnull] at hcell ⊢
    rw [Bool.eq_false_of_not_eq_true hnull]
    cases type <;> simp only [Datatype.storage, Option.map_eq_some_iff, reduceCtorEq] at hcell <;>
      obtain ⟨v, hv, rfl⟩ := hcell <;> rw [wp_addCell_found hv] <;> rfl

theorem wp_addColumns_some {Q : Outcome Exception Bool → ResultHandler × Channel → Prop}
    {cells : List (Option Cell)} (hcells : h.rowdata.cells col types = some cells) :
    wp (addColumns col types) Q (h, c) ↔ Q (.ok true) ({ h with
      messageSize := h.messageSize + cellsSize cells, table := h.table.addCells cells }, c) := by
  induction types generalizing h col cells with
  | nil =>
    obtain rfl := Option.some.inj hcells
    rfl
  | cons type types ih =>
    simp only [RowData.cells, Option.bind_eq_bind, Option.bind_eq_some_iff, Option.pure_def] at hcells
    obtain ⟨cell, hcell, rest, hrest, heq⟩ := hcells
    obtain rfl := Option.some.inj heq
    rw [addColumns, wp_bind, wp_addColumn_some hcell, Outcome.andThen_ok, if_pos rfl,
      ih (h := { h with
        messageSize := h.messageSize + cell.elim 0 Cell.size, table := h.table.addCell cell }) hrest]
    simp only [cellsSize, List.map_cons, List.sum_cons, TableData.addCells_cons, Nat.add_assoc]

theorem wp_checkReply (reply : Reply) :
    wp (checkReply S reply) (fun o s => o = .ok () ∧ ∃ exch, s = (h, { c with exch := exch })) (h, c) := by
  cases reply with
  | unparsable _ => exact ⟨rfl, _, rfl⟩
  | message r =>
    simp only [checkReply, wp_ite]
    split_ifs
    · exact ⟨rfl, _, rfl⟩
    · cases r.close <;> exact ⟨rfl, _, rfl⟩
    · exact ⟨rfl, _, rfl⟩
    · exact ⟨rfl, c.exch, rfl⟩

theorem wp_flush (hrows : 0 < h.table.rowCount) (hser : S.serializes h.table = true) :
    wp (flush S) (fun o s => o = .ok () ∧ ∃ exch,
      s = ({ h with table := {}, messageSize := 0 }, { c.after S (.emit h.table) with exch := exch })) (h, c) := by
  simp only [flush, wp_bind, wp_get, Outcome.andThen_ok, if_pos hrows, if_pos hser, wp_update, wp_onChannel,
    Channel.wp_exchange]
  exact wp_checkReply _

theorem wp_flush_keeps (h' : ¬(0 < h.table.rowCount ∧ S.serializes h.table = true)) :
    wp (flush S) (fun o s => o = .ok () ∧ ∃ exch, s = (h, { c with exch := exch })) (h, c) := by
  simp only [flush, wp_bind, wp_get, Outcome.andThen_ok]
  by_cases hrows : 0 < h.table.rowCount
  · rw [if_pos hrows, if_neg (fun hser => h' ⟨hrows, hser⟩)]
    exact ⟨rfl, _, rfl⟩
  · rw [if_neg hrows]
    exact ⟨rfl, c.exch, rfl⟩

theorem flush_empties (hser : S.serializes h.table = true) :
    wp (flush S) (fun _ s => s.1.table.rowCount = 0) (h, c) := by
  by_cases hrows : 0 < h.table.rowCount
  · refine wp_mono (wp_flush hrows hser) fun o s ho => ?_
    obtain ⟨-, exch, rfl⟩ := ho
    rfl
  · refine wp_mono (wp_flush_keeps fun h' => hrows h'.1) fun o s ho => ?_
    obtain ⟨-, exch, rfl⟩ := ho
    exact Nat.eq_zero_of_not_pos hrows

end ResultHandler

/-- The rows that left the handler and those that wait in it: `start` is the channel the calls
started with. -/
structure Delivered (S : Session) (start : Channel) (rows : List Row) (table : TableData)
    (c : Channel) (sent : List TableData) (sentRows : List (List Row)) (waiting : List Row) :
    Prop where
  rows_eq : rows = sentRows.flatten ++ waiting
  holds : List.Forall₂ (TableData.Holds S.outputTypes) sent sentRows
  nonempty : ∀ r ∈ sentRows, r ≠ []
  waiting : table.Holds S.outputTypes waiting
  past : c.past = start.past ++ sent.map fun t => Channel.request S (.emit t)
  exchanges : c.exchanges.map Prod.fst = start.exchanges.map Prod.fst ++ sent.map VmRequest.emit

/-- The handler and the view of the calls agree. -/
structure EmitInv (S : Session) (start : Channel) (v : EmitView) (s : ResultHandler × Channel) :
    Prop where
  cells : ∀ col type, S.outputTypes[col]? = some type → ∀ x, v.cells col = some x →
    s.1.rowdata.cell col type = some x
  delivered : ∃ sent sentRows waiting,
    Delivered S start v.rows s.1.table s.2 sent sentRows waiting
  force : (S.inpIterType = .exactlyOnce ∧ S.outIterType = .exactlyOnce) ∨
    s.2.inpForceFinish = start.inpForceFinish

namespace EmitInv
open ResultHandler
variable {S : Session} {start : Channel} {v : EmitView} {h : ResultHandler} {c : Channel}

theorem init {h : ResultHandler} {waiting : List Row} (hw : h.table.Holds S.outputTypes waiting)
    (start : Channel) : EmitInv S start { rows := waiting } (h, start) where
  cells := by simp
  delivered := ⟨[], [], waiting, rfl, .nil, by simp, hw, by simp, by simp⟩
  force := .inr rfl

theorem of_channel {c' : Channel} (hi : EmitInv S start v (h, c)) (hp : c'.past = c.past)
    (he : c'.exchanges = c.exchanges)
    (hf : (S.inpIterType = .exactlyOnce ∧ S.outIterType = .exactlyOnce) ∨
      c'.inpForceFinish = c.inpForceFinish) : EmitInv S start v (h, c') where
  cells := hi.cells
  delivered := by
    obtain ⟨sent, sentRows, waiting, hd⟩ := hi.delivered
    exact ⟨sent, sentRows, waiting, hd.rows_eq, hd.holds, hd.nonempty, hd.waiting, hp ▸ hd.past,
      he ▸ hd.exchanges⟩
  force := by
    rcases hf with hf | hf
    · exact .inl hf
    · exact hi.force.imp id fun hforce => hf.trans hforce

theorem setException (hi : EmitInv S start v (h, c)) (msg : ByteString) :
    EmitInv S start v (h, { c with exch := ⟨msg, true⟩ }) := hi.of_channel rfl rfl (.inr rfl)

theorem flush (hi : EmitInv S start v (h, c)) :
    wp (ResultHandler.flush S) (fun o s => o = .ok () ∧ EmitInv S start v s) (h, c) := by
  by_cases hsends : 0 < h.table.rowCount ∧ S.serializes h.table = true
  · refine wp_mono (wp_flush hsends.1 hsends.2) fun o s ho => ?_
    obtain ⟨rfl, exch, rfl⟩ := ho
    refine ⟨rfl, hi.cells, ?_, hi.force⟩
    obtain ⟨sent, sentRows, waiting, hd⟩ := hi.delivered
    have hne : waiting ≠ [] := by
      rintro rfl
      exact absurd hsends.1 (by simp [hd.waiting.rowCount])
    refine ⟨sent ++ [h.table], sentRows ++ [waiting], [], ?_, ?_, ?_, .empty _, ?_, ?_⟩
    · simp [hd.rows_eq]
    · exact List.rel_append hd.holds (.cons hd.waiting .nil)
    · intro r hr
      rcases List.mem_append.mp hr with hr | hr
      · exact hd.nonempty r hr
      · obtain rfl := List.mem_singleton.mp hr
        exact hne
    · have : c.past = _ := hd.past
      simp [Channel.after, this]
    · have : c.exchanges.map Prod.fst = _ := hd.exchanges
      simp [Channel.after, this]
  · refine wp_mono (wp_flush_keeps hsends) fun o s ho => ?_
    obtain ⟨rfl, exch, rfl⟩ := ho
    exact ⟨rfl, hi.of_channel rfl rfl (.inr rfl)⟩

/-- A complete view gives `next` a cell for every column. -/
theorem row_cells (hi : EmitInv S start v (h, c)) (hcomplete : v.Complete S.outputTypes)
    (currentRow : UInt64) :
    h.rowdata.cells 0 S.outputTypes = some (v.row S.outputTypes currentRow).cells := by
  refine RowData.cells_of_forall₂ ?_
  rw [List.forall₂_iff_get]
  refine ⟨by simp [EmitView.row], fun i hi₁ hi₂ => ?_⟩
  have hlt : i < S.outputTypes.length := by simpa using hi₁
  obtain ⟨x, hx⟩ := Option.isSome_iff_exists.mp (hcomplete i hlt)
  simpa [EmitView.row, hx] using hi.cells i _ (List.getElem?_eq_getElem hlt) x hx

theorem row_typed (hi : EmitInv S start v (h, c)) (hcomplete : v.Complete S.outputTypes)
    (currentRow : UInt64) : (v.row S.outputTypes currentRow).Typed S.outputTypes :=
  RowData.cells_typed (hi.row_cells hcomplete currentRow)

theorem next (hi : EmitInv S start v (h, c)) (hcomplete : v.Complete S.outputTypes)
    (currentRow : UInt64) :
    wp (ResultHandler.next S currentRow) (fun o s =>
      o = .ok true ∧ EmitInv S start (v.step S.outputTypes (.next currentRow)) s) (h, c) := by
  simp only [ResultHandler.next, wp_bind, wp_update, Outcome.andThen_ok]
  rw [wp_addColumns_some (h := { h with rowsEmited := h.rowsEmited + 1 }) (hi.row_cells hcomplete currentRow)]
  set row := v.row S.outputTypes currentRow
  have htaken : ∀ h' : ResultHandler, h'.rowdata = {} → h'.table = h.table.addRow row →
      EmitInv S start (v.step S.outputTypes (.next currentRow)) (h', c) := by
    intro h' hr ht
    refine ⟨by simp [EmitView.step], ?_, hi.force⟩
    obtain ⟨sent, sentRows, waiting, hd⟩ := hi.delivered
    refine ⟨sent, sentRows, waiting ++ [row], ?_, hd.holds, hd.nonempty, ?_, hd.past, hd.exchanges⟩
    · simp [EmitView.step, hd.rows_eq, row]
    · rw [ht]
      exact hd.waiting.addRow (hi.row_typed hcomplete currentRow)
  simp only [Outcome.andThen_ok, if_pos, wp_bind, wp_update, wp_get, wp_ite, wp_onChannel, wp_modify,
    wp_pure]
  have hinv := htaken { h with
      rowsEmited := h.rowsEmited + 1, rowdata := {}, messageSize := h.messageSize + cellsSize row.cells
      table := h.table.addRow row } rfl rfl
  split_ifs with _ honce
  · exact ⟨trivial, hinv.of_channel rfl rfl (.inl honce)⟩
  · refine wp_mono hinv.flush fun o s ho => ?_
    obtain ⟨rfl, ho⟩ := ho
    exact ⟨trivial, ho⟩
  · exact ⟨trivial, hinv⟩

theorem setCell (hi : EmitInv S start v (h, c)) {expected : Datatype} {cell : Cell} {col : Nat}
    (typeName noColumn wrongType : String) {store : RowData → RowData}
    (hstorage : expected.storage = cell.storage)
    (hstore : S.outputTypes[col]? = some expected → ∀ r : RowData,
      store { r with nullData := Function.update r.nullData col false } = r.put col cell) :
    wp (ResultHandler.setCell S expected typeName noColumn wrongType col store) (fun o s =>
      o = .ok () ∧ EmitInv S start (v.assigned (EmitOp.assign.typed S.outputTypes col expected cell)) s)
      (h, c) := by
  unfold ResultHandler.setCell EmitOp.assign.typed
  cases htype : S.outputTypes[col]? with
  | none => exact ⟨rfl, hi.setException _⟩
  | some type =>
    by_cases heq : type = expected
    · subst heq
      rw [if_pos rfl]
      simp only [ne_eq, not_true_eq_false, if_false, wp_update]
      refine ⟨trivial, fun col' type' htype' x hx => ?_, hi.delivered, hi.force⟩
      simp only [EmitView.assigned] at hx
      rw [hstore htype]
      by_cases hcol : col' = col
      · subst hcol
        rw [Function.update_self] at hx
        obtain rfl : type = type' := by simpa [htype] using htype'
        obtain rfl := Option.some.inj hx
        exact RowData.cell_put_self hstorage
      · rw [Function.update_of_ne hcol] at hx
        rw [RowData.cell_put_ne hcol]
        exact hi.cells col' type' htype' x hx
    · simp only [ne_eq, heq, not_false_eq_true, if_true, Option.some.injEq, if_false]
      exact ⟨rfl, hi.setException _⟩

theorem setText_cstr (hi : EmitInv S start v (h, c)) {expected : Datatype} (col : Nat) (s : ByteString)
    (typeName noColumn wrongType : String) (hstorage : expected.storage = some .string) :
    wp (ResultHandler.setText S expected typeName noColumn wrongType col s) (fun o s' =>
      o = .ok () ∧ EmitInv S start
        (v.assigned (EmitOp.assign.typed S.outputTypes col expected (.string (cstr s)))) s') (h, c) :=
  hi.setCell typeName noColumn wrongType hstorage fun _ _ => rfl

theorem setText (hi : EmitInv S start v (h, c)) {expected : Datatype} {col : Nat} {s : ByteString}
    (typeName noColumn wrongType : String) (hstorage : expected.storage = some .string)
    (hnul : S.outputTypes[col]? = some expected → (0 : UInt8) ∉ s) :
    wp (ResultHandler.setText S expected typeName noColumn wrongType col s) (fun o s' =>
      o = .ok () ∧
        EmitInv S start (v.assigned (EmitOp.assign.typed S.outputTypes col expected (.string s))) s')
      (h, c) := by
  have := hi.setText_cstr col s typeName noColumn wrongType hstorage
  unfold EmitOp.assign.typed at this ⊢
  by_cases htype : S.outputTypes[col]? = some expected
  · rwa [cstr_eq_self (hnul htype)] at this
  · simpa only [if_neg htype] using this

theorem setNull (hi : EmitInv S start v (h, c)) (col : Nat) :
    wp (ResultHandler.setNull col) (fun o s =>
      o = .ok () ∧ EmitInv S start (v.assigned (some (col, none))) s) (h, c) := by
  simp only [ResultHandler.setNull, wp_update]
  refine ⟨trivial, fun col' type' htype' x hx => ?_, hi.delivered, hi.force⟩
  simp only [EmitView.assigned] at hx
  by_cases hcol : col' = col
  · subst hcol
    rw [Function.update_self] at hx
    obtain rfl := Option.some.inj hx
    simp [RowData.cell]
  · rw [Function.update_of_ne hcol] at hx
    have := hi.cells col' type' htype' x hx
    simpa [RowData.cell, hcol] using this

theorem of_unit {m : Emitting Unit} {v' : EmitView}
    (hm : wp m (fun o s => o = .ok () ∧ EmitInv S start v' s) (h, c)) :
    wp (do m; return ([] : List Bool)) (fun o s =>
      (∃ taken, o = .ok taken ∧ ∀ b ∈ taken, b = true) ∧ EmitInv S start v' s) (h, c) := by
  rw [wp_bind]
  refine wp_mono hm fun o s ho => ?_
  obtain ⟨rfl, ho⟩ := ho
  exact ⟨⟨[], rfl, by simp⟩, ho⟩

theorem run (hi : EmitInv S start v (h, c)) (op : EmitOp) (hnul : op.NulFree S.outputTypes)
    (hcomplete : ∀ currentRow, op = .next currentRow → v.Complete S.outputTypes) :
    wp (op.run S) (fun o s => (∃ taken, o = .ok taken ∧ ∀ b ∈ taken, b = true) ∧
      EmitInv S start (v.step S.outputTypes op) s) (h, c) := by
  have htext : ∀ {col : Nat} {expected : Datatype} {s : ByteString},
      op.assign S.outputTypes = EmitOp.assign.typed S.outputTypes col expected (.string s) →
      S.outputTypes[col]? = some expected → (0 : UInt8) ∉ s := by
    intro col expected s hop htype
    exact hnul col s (by rw [hop, EmitOp.assign.typed, if_pos htype])
  cases op with
  | setDouble col x => exact of_unit (hi.setCell _ _ _ rfl fun _ _ => rfl)
  | setString col s l => exact of_unit (hi.setText _ _ _ rfl (htext rfl))
  | setInt32 col n => exact of_unit (hi.setCell _ _ _ rfl fun _ _ => rfl)
  | setInt64 col n => exact of_unit (hi.setCell _ _ _ rfl fun _ _ => rfl)
  | setNumeric col s => exact of_unit (hi.setText _ _ _ rfl (htext rfl))
  | setTimestamp col s => exact of_unit (hi.setText _ _ _ rfl (htext rfl))
  | setDate col s => exact of_unit (hi.setText _ _ _ rfl (htext rfl))
  | setBoolean col b => exact of_unit (hi.setCell _ _ _ rfl fun _ _ => rfl)
  | setNull col => exact of_unit (hi.setNull col)
  | next currentRow =>
    simp only [EmitOp.run, wp_bind]
    refine wp_mono (hi.next (hcomplete currentRow rfl) currentRow) fun o s ho => ?_
    obtain ⟨rfl, ho⟩ := ho
    exact ⟨⟨[true], rfl, by simp⟩, ho⟩
  | flush => exact of_unit hi.flush

theorem runAll {ops : List EmitOp} {s : ResultHandler × Channel} (hi : EmitInv S start v s)
    (hnul : ∀ op ∈ ops, op.NulFree S.outputTypes) (hcomplete : v.CompleteAtNext S.outputTypes ops) :
    wp (EmitOp.runAll S ops) (fun o s => (∃ taken, o = .ok taken ∧ ∀ b ∈ taken, b = true) ∧
      EmitInv S start (v.steps S.outputTypes ops) s) s := by
  induction ops generalizing v s with
  | nil => exact ⟨⟨[], rfl, by simp⟩, hi⟩
  | cons op ops ih =>
    simp only [EmitOp.runAll, wp_bind]
    refine wp_mono (hi.run op (hnul op (by simp)) hcomplete.1) fun o s' ho => ?_
    obtain ⟨⟨taken, rfl, htaken⟩, hi'⟩ := ho
    simp only [Outcome.andThen_ok]
    refine wp_mono (ih hi' (fun op' hop => hnul op' (by simp [hop])) hcomplete.2) fun o' s'' ho' => ?_
    obtain ⟨⟨rest, rfl, hrest⟩, hi''⟩ := ho'
    refine ⟨⟨taken ++ rest, rfl, fun b hb => ?_⟩, hi''⟩
    rcases List.mem_append.mp hb with hb | hb
    exacts [htaken b hb, hrest b hb]

end EmitInv

/-- Every list of calls on a fresh handler that completes its rows: `next` takes each row, every table
sent is well formed, and the sent tables followed by the pending one read as exactly the rows taken. -/
theorem emitPath_keepsRows (S : Session) (ops : List EmitOp)
    (hnul : ∀ op ∈ ops, op.NulFree S.outputTypes)
    (hcomplete : EmitView.CompleteAtNext S.outputTypes {} ops) (start : Channel) :
    wp (EmitOp.runAll S ops) (fun o s =>
      (∃ taken, o = .ok taken ∧ ∀ b ∈ taken, b = true) ∧
      ∃ sent : List TableData,
        s.2.past = start.past ++ sent.map (fun t => Channel.request S (.emit t)) ∧
        s.2.exchanges.map Prod.fst = start.exchanges.map Prod.fst ++ sent.map VmRequest.emit ∧
        (∀ t ∈ sent, t.WellFormed S.outputTypes) ∧
        TableData.decodeAll S.outputTypes (sent ++ [s.1.table]) =
          some (EmitView.steps S.outputTypes {} ops).rows)
      ({}, start) := by
  refine wp_mono ((EmitInv.init (.empty _) start).runAll hnul hcomplete) fun o s ho => ?_
  obtain ⟨htaken, hi⟩ := ho
  obtain ⟨sent, sentRows, waiting, hd⟩ := hi.delivered
  refine ⟨htaken, sent, hd.past, hd.exchanges, fun t ht => ?_, ?_⟩
  · obtain ⟨i, hi', rfl⟩ := List.getElem_of_mem ht
    have hlen : i < sentRows.length := hd.holds.length_eq ▸ hi'
    exact (List.Forall₂.get hd.holds hi' hlen).wellFormed (hd.nonempty _ (List.getElem_mem hlen))
  · have : List.Forall₂ (TableData.Holds S.outputTypes) (sent ++ [s.1.table])
        (sentRows ++ [waiting]) := List.rel_append hd.holds (.cons hd.waiting .nil)
    rw [TableData.decodeAll_of_forall₂ this, hd.rows_eq]
    simp

/-- A VARCHAR and a DOUBLE column, and a database that answers everything by closing. -/
def closingSession : Session where
  server := fun _ => .message { type := .mtClose, close := some (str "no space left") }
  serializes := fun _ => true
  outTypes := [{ type := .string }, { type := .double }]

theorem emitPath_keepsRows_closing :
    wp (EmitOp.runAll closingSession [.setString 0 (str "ab") 2, .setInt32 0 5, .setNull 1, .next 7, .flush,
        .setNull 0, .setDouble 1 1, .setDouble 1 3, .next 8])
      (fun _ s => ∃ sent : List TableData, (∀ t ∈ sent, t.WellFormed closingSession.outputTypes) ∧
        TableData.decodeAll [.string, .double] (sent ++ [s.1.table]) =
          some [⟨7, [some (.string [97, 98]), none]⟩, ⟨8, [none, some (.double 3)]⟩]) ({}, {}) := by
  refine wp_mono (emitPath_keepsRows closingSession _ ?_ ?_ {}) fun o s ho => ?_
  · intro op hop col s hs
    simp only [List.mem_cons, List.not_mem_nil, or_false] at hop
    rcases hop with rfl | rfl | rfl | rfl | rfl | rfl | rfl | rfl | rfl <;>
      simp [EmitOp.assign, EmitOp.assign.typed, closingSession, Session.outputTypes] at hs
    rw [← hs.2]
    decide
  · simp [EmitView.CompleteAtNext, EmitView.Complete, EmitView.step, EmitView.assigned, EmitOp.assign,
      EmitOp.assign.typed, closingSession, Session.outputTypes, Function.update]
    constructor <;> intro col hcol <;> interval_cases col <;> rfl
  · obtain ⟨-, sent, -, -, hwf, hrows⟩ := ho
    exact ⟨sent, hwf, hrows⟩

end UdfRunner
