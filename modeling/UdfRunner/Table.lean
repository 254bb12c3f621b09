import UdfRunner.Lib.ColumnStore
import UdfRunner.Messages

/-!
# Tables and the rows they stand for

`TableData.decode` reads the rows of an `exascript_table_data` message. `Holds t rows` says that `t`
is the row-major encoding of `rows`; `WellFormed` says the same through lengths alone.
-/

namespace UdfRunner
open ColumnStore

/-- The typed arrays of `exascript_table_data`. -/
inductive Storage
  | string | bool | int32 | int64 | double
deriving DecidableEq, Repr

/-- `NUMERIC`, `TIMESTAMP`, `DATE` and `STRING` share `data_string`. -/
def Datatype.storage : Datatype → Option Storage
  | .double => some .double
  | .int32 => some .int32
  | .int64 => some .int64
  | .numeric | .timestamp | .date | .string => some .string
  | .boolean => some .bool
  | .unsupported | .intervalYm | .intervalDs | .geometry => none

/-- One of the eight types a column can be emitted or read with. -/
def Datatype.Supported (t : Datatype) : Prop := t.storage.isSome

instance (t : Datatype) : Decidable t.Supported := inferInstanceAs (Decidable (_ = true))

inductive Cell
  | string (s : ByteString)
  | bool (b : Bool)
  | int32 (n : Int32)
  | int64 (n : Int64)
  | double (x : Double)
deriving DecidableEq, Repr

def Cell.storage : Cell → Option Storage
  | string _ => some .string
  | bool _ => some .bool
  | int32 _ => some .int32
  | int64 _ => some .int64
  | double _ => some .double

/-- A row with its local row number; a cell is `none` where it is null. -/
structure Row where
  rowNumber : UInt64
  cells : List (Option Cell)
deriving DecidableEq, Repr

def Row.Typed (types : List Datatype) (row : Row) : Prop :=
  ColumnStore.Typed Cell.storage (types.map Datatype.storage) row.cells

def cellsOf (rows : List Row) : List (Option Cell) := (rows.map Row.cells).flatten

@[simp] theorem cellsOf_nil : cellsOf [] = [] := rfl

@[simp] theorem cellsOf_cons (row : Row) (rows : List Row) :
    cellsOf (row :: rows) = row.cells ++ cellsOf rows := rfl

@[simp] theorem cellsOf_append (rows rows' : List Row) :
    cellsOf (rows ++ rows') = cellsOf rows ++ cellsOf rows' := by
  simp [cellsOf]

namespace TableData

def columnOf (t : TableData) : Option Storage → List Cell
  | some .string => t.dataString.map .string
  | some .bool => t.dataBool.map .bool
  | some .int32 => t.dataInt32.map .int32
  | some .int64 => t.dataInt64.map .int64
  | some .double => t.dataDouble.map .double
  | none => []

theorem storage_of_mem_columnOf (t : TableData) {k : Option Storage} {c : Cell}
    (h : c ∈ t.columnOf k) : c.storage = k := by
  rcases k with _ | (_ | _ | _ | _ | _) <;> simp only [columnOf, List.not_mem_nil, List.mem_map] at h
  all_goals obtain ⟨_, _, rfl⟩ := h; rfl

def rowCount (t : TableData) : Nat := t.rows.getD 0

/-- The storage class of every position of the table. -/
def positions (types : List Datatype) (t : TableData) : List (Option Storage) :=
  (List.replicate t.rowCount (types.map Datatype.storage)).flatten

/-- The rows of a table. -/
def decode (types : List Datatype) (t : TableData) : Option (List Row) :=
  (ColumnStore.decode ((t.positions types).zip t.dataNulls) t.columnOf).map fun cells =>
    (t.rowNumber.zip (chunks types.length t.rowCount cells)).map fun p => ⟨p.1, p.2⟩

/-- Every array has exactly the entries its place in the table asks for. -/
structure WellFormed (types : List Datatype) (t : TableData) : Prop where
  rows_pos : 0 < t.rowCount
  nulls_length : t.dataNulls.length = t.rowCount * types.length
  rowNumber_length : t.rowNumber.length = t.rowCount
  column_length : ∀ k, (t.columnOf k).length = cellCount k ((t.positions types).zip t.dataNulls)

/-- `t` is the row-major encoding of `rows`. -/
structure Holds (types : List Datatype) (t : TableData) (rows : List Row) : Prop where
  typed : ∀ row ∈ rows, row.Typed types
  rowCount : t.rowCount = rows.length
  rowNumber : t.rowNumber = rows.map Row.rowNumber
  nulls_eq : t.dataNulls = nulls (cellsOf rows)
  column_eq : ∀ k, t.columnOf k = column Cell.storage k (cellsOf rows)

namespace Holds
variable {types : List Datatype} {t : TableData} {rows : List Row}

theorem empty (types : List Datatype) : Holds types {} [] where
  typed := by simp
  rowCount := rfl
  rowNumber := rfl
  nulls_eq := rfl
  column_eq k := by rcases k with _ | (_ | _ | _ | _ | _) <;> rfl

theorem cells_length (h : Holds types t rows) {row : Row} (hrow : row ∈ rows) :
    row.cells.length = types.length := by
  have := (h.typed row hrow).length_eq
  rw [← this, List.length_map]

theorem positions_typed (h : Holds types t rows) :
    Typed Cell.storage (t.positions types) (cellsOf rows) := by
  rw [positions, h.rowCount]
  have : ∀ cells ∈ rows.map Row.cells,
      Typed Cell.storage (types.map Datatype.storage) cells := by
    intro cells hc
    obtain ⟨row, hrow, rfl⟩ := List.mem_map.mp hc
    exact h.typed row hrow
  simpa [cellsOf] using Typed.flatten this

theorem decode_eq (h : Holds types t rows) : t.decode types = some rows := by
  have hc : t.columnOf = (column Cell.storage · (cellsOf rows)) := funext h.column_eq
  rw [decode, hc, h.nulls_eq, decode_column h.positions_typed, Option.map_some, h.rowNumber, h.rowCount]
  have hwidth : ∀ cells ∈ rows.map Row.cells, cells.length = types.length := by
    intro cells hc
    obtain ⟨row, hrow, rfl⟩ := List.mem_map.mp hc
    exact h.cells_length hrow
  have := chunks_flatten hwidth
  rw [List.length_map] at this
  rw [cellsOf, this, List.zip_map', List.map_map]
  exact congrArg some (List.map_id rows)

theorem length_flatten (h : Holds types t rows) :
    (cellsOf rows).length = rows.length * types.length := by
  have := h.positions_typed.length_eq
  rw [← this, positions, h.rowCount]
  simp

theorem wellFormed (h : Holds types t rows) (hne : rows ≠ []) : WellFormed types t where
  rows_pos := h.rowCount ▸ List.length_pos_iff.mpr hne
  nulls_length := by rw [h.nulls_eq, nulls_length, h.length_flatten, h.rowCount]
  rowNumber_length := by rw [h.rowNumber, List.length_map, h.rowCount]
  column_length k := by rw [h.column_eq, h.nulls_eq, h.positions_typed.column_length]

end Holds

theorem WellFormed.exists_holds {types : List Datatype} {t : TableData} (h : WellFormed types t) :
    ∃ rows, Holds types t rows := by
  have hpos : (t.positions types).length = t.dataNulls.length := by
    rw [h.nulls_length, positions]; simp
  obtain ⟨cells, htyped, hnulls, hcol⟩ := exists_cells hpos
    (fun k c hc => t.storage_of_mem_columnOf hc) h.column_length
  set parts := chunks types.length t.rowCount cells with hparts
  have hlen : cells.length = t.rowCount * types.length := by
    rw [← ColumnStore.nulls_length, hnulls, h.nulls_length]
  have hzip : t.rowNumber.length = parts.length := by
    rw [h.rowNumber_length, hparts, length_chunks]
  have hcells : ((t.rowNumber.zip parts).map fun p => Row.mk p.1 p.2).map Row.cells = parts := by
    rw [List.map_map]
    exact List.map_snd_zip hzip.ge
  refine ⟨(t.rowNumber.zip parts).map fun p => ⟨p.1, p.2⟩, ?_, ?_, ?_, ?_, ?_⟩
  · intro row hrow
    have hmem : row.cells ∈ parts := hcells ▸ List.mem_map_of_mem hrow
    have hwidth : (types.map Datatype.storage).length = types.length := List.length_map ..
    rw [hparts, ← hwidth] at hmem
    exact Typed.of_mem_chunks htyped hmem
  · rw [List.length_map, List.length_zip, hzip, min_self, hparts, length_chunks]
  · rw [List.map_map]
    exact (List.map_fst_zip hzip.le).symm
  · rw [cellsOf, hcells, hparts, flatten_chunks hlen, hnulls]
  · intro k
    rw [cellsOf, hcells, hparts, flatten_chunks hlen, hcol]

def decodeAll (types : List Datatype) : List TableData → Option (List Row)
  | [] => some []
  | t :: ts => do return (← t.decode types) ++ (← decodeAll types ts)

theorem decodeAll_of_forall₂ {types : List Datatype} {ts : List TableData} {rows : List (List Row)}
    (h : List.Forall₂ (Holds types) ts rows) : decodeAll types ts = some rows.flatten := by
  induction h with
  | nil => rfl
  | cons ht _ ih => simp [decodeAll, ht.decode_eq, ih]

theorem exists_holds {types : List Datatype} {ts : List TableData}
    (h : ∀ t ∈ ts, t.WellFormed types) :
    ∃ rows, List.Forall₂ (Holds types) ts rows ∧ ∀ r ∈ rows, r ≠ [] := by
  induction ts with
  | nil => exact ⟨[], .nil, by simp⟩
  | cons t ts ih =>
    have ht := h t (by simp)
    obtain ⟨r, hr⟩ := ht.exists_holds
    obtain ⟨rows, hrows, hne⟩ := ih fun t' ht' => h t' (by simp [ht'])
    refine ⟨r :: rows, .cons hr hrows, fun r' hr' => ?_⟩
    rcases List.mem_cons.mp hr' with rfl | hr'
    · rintro rfl
      exact absurd ht.rows_pos (by simp [hr.rowCount])
    · exact hne r' hr'

end TableData

end UdfRunner
