import UdfRunner.Channel
import UdfRunner.Table

/-!
# `SWIGTableIterator_Impl`

`m_column_count` is the length of `m_types`, and `m_col_offsets` a vector of that length. Indices are
naturals, `none` where the source has `-1`; an index outside a protobuf array is undefined behaviour.
-/

namespace UdfRunner
open Proc

/-- `values_per_row_t`: the cells of each storage class up to the current row. -/
structure ValuesPerRow where
  strings : Nat := 0
  bools : Nat := 0
  int32s : Nat := 0
  int64s : Nat := 0
  doubles : Nat := 0
deriving DecidableEq, Repr

namespace ValuesPerRow

def count (v : ValuesPerRow) : Storage → Nat
  | .string => v.strings
  | .bool => v.bools
  | .int32 => v.int32s
  | .int64 => v.int64s
  | .double => v.doubles

def increment (v : ValuesPerRow) : Storage → ValuesPerRow
  | .string => { v with strings := v.strings + 1 }
  | .bool => { v with bools := v.bools + 1 }
  | .int32 => { v with int32s := v.int32s + 1 }
  | .int64 => { v with int64s := v.int64s + 1 }
  | .double => { v with doubles := v.doubles + 1 }

@[simp] theorem count_empty (k : Storage) : count {} k = 0 := by cases k <;> rfl

@[simp] theorem count_increment_self (v : ValuesPerRow) (k : Storage) :
    (v.increment k).count k = v.count k + 1 := by cases k <;> rfl

theorem count_increment_ne (v : ValuesPerRow) {k k' : Storage} (h : k' ≠ k) :
    (v.increment k).count k' = v.count k' := by
  cases k <;> cases k' <;> first | rfl | exact absurd rfl h

end ValuesPerRow

/-- The state the constructor starts from. -/
structure TableIterator (types : List Datatype) where
  nextResponse : Response := { type := .mtUnknown }
  rowsReceived : Nat := 0
  valuesPerRow : ValuesPerRow := {}
  colOffsets : Vector Nat types.length := .replicate types.length 0
  rowsInGroup : Nat := 0
  currentRow : UInt64 := 0xFFFFFFFFFFFFFFFF
  rowsCompleted : Nat := 0
  rowsGroupCompleted : Nat := 1
  wasNull : Bool := false
deriving DecidableEq, Repr

abbrev Iterating (types : List Datatype) := Proc (TableIterator types × Channel) Exception

namespace TableIterator
variable {types : List Datatype}

def table (it : TableIterator types) : TableData := it.nextResponse.next

def eot (it : TableIterator types) : Bool := it.rowsReceived = 0

def onChannel {α : Type} (m : Proc Channel Exception α) : Iterating types α :=
  zoom Prod.snd (fun s c => (s.1, c)) m

def update (f : TableIterator types → TableIterator types) : Iterating types Unit :=
  modify fun s => (f s.1, s.2)

def setException (msg : ByteString) : Iterating types Unit := onChannel (Channel.setException msg)

/-- An element of a protobuf array. -/
def element {α : Type} (data : List α) (index : Nat) : Iterating types α :=
  match data[index]? with
  | some v => return v
  | none => stop .undefined

/-- `m_col_offsets[col] = m_values_per_row.…++`. -/
def takeOffset (col : Nat) (k : Storage) : Iterating types Unit :=
  update fun it => { it with
    colOffsets := it.colOffsets.setIfInBounds col (it.valuesPerRow.count k)
    valuesPerRow := it.valuesPerRow.increment k }

/-- The loop of `increment_col_offsets` over the columns. -/
def advanceColumns : Nat → Nat → List Datatype → Iterating types Unit
  | _, _, [] => return ()
  | col, nullIndex, type :: rest => do
    let (it, _) ← get
    if ← element it.table.dataNulls nullIndex then advanceColumns (col + 1) (nullIndex + 1) rest
    else match type with
    | .unsupported => setException (str "F-UDF-CL-LIB-1057: Unsupported data type found")
    | .double => do
      takeOffset col .double
      advanceColumns (col + 1) (nullIndex + 1) rest
    | .int32 => do
      takeOffset col .int32
      advanceColumns (col + 1) (nullIndex + 1) rest
    | .int64 => do
      takeOffset col .int64
      advanceColumns (col + 1) (nullIndex + 1) rest
    | .numeric | .timestamp | .date | .string => do
      takeOffset col .string
      advanceColumns (col + 1) (nullIndex + 1) rest
    | .boolean => do
      takeOffset col .bool
      advanceColumns (col + 1) (nullIndex + 1) rest
    -- The type's code is added to the literal's address.
    | type => setException ((str "F-UDF-CL-LIB-1058: Unknown data type found, got ").drop type.code)

def incrementColOffsets (reset : Bool) : Iterating types Unit := do
  let (it, _) ← get
  let currentRow ← element it.table.rowNumber it.rowsCompleted
  update fun it => { it with
    currentRow := currentRow
    valuesPerRow := if reset then {} else it.valuesPerRow }
  let nullIndex := it.rowsCompleted * types.length
  -- Signed, so that a row without columns passes.
  if (it.table.dataNulls.length : Int) ≤ nullIndex + types.length - 1 then
    setException (str "F-UDF-CL-LIB-1056: Internal error: not enough nulls in packet: wanted index "
      ++ str (toString (nullIndex + types.length - 1)) ++ str " but have "
      ++ str (toString it.table.dataNulls.length) ++ str " elements")
  else advanceColumns 0 nullIndex types

/-- A request without data always serializes. -/
def receiveNextData (S : Session) (reset : Bool) : Iterating types Unit := do
  update fun it => { it with rowsReceived := 0, rowsCompleted := 0 }
  match ← onChannel (Channel.exchange S (if reset then .reset else .next)) with
  | .unparsable leftover => do
    update fun it => { it with nextResponse := leftover }
    setException (str "F-UDF-CL-LIB-1060: Communication error: failed to parse data")
  | .message r => do
    update fun it => { it with nextResponse := r }
    if r.connectionId ≠ S.connectionId then
      setException (str "F-UDF-CL-LIB-1061: Communication error: wrong connection id, expected "
        ++ str (toString S.connectionId.toNat) ++ str " got "
        ++ str (toString r.connectionId.toNat))
    else if r.type = .mtDone then return ()
    else if r.type = .mtClose then
      match r.close with
      | none => do
        let (it, _) ← get
        if it.rowsCompleted = 0 then return ()
        else setException (str "F-UDF-CL-LIB-1062: Unknown error occured")
      | some msg => setException (cstr msg)
    else if (reset ∧ r.type ≠ .mtReset) ∨ (¬ reset ∧ r.type ≠ .mtNext) then
      setException (str "F-UDF-CL-LIB-1063: Communication error: wrong message type, got "
        ++ convertMessageTypeToString r.type)
    else do
      update fun it => { it with
        rowsReceived := r.next.rowCount, rowsInGroup := r.next.rowsInGroup }
      incrementColOffsets true

def construct (S : Session) : Iterating types Unit := receiveNextData S false

def reinitialize (S : Session) : Iterating types Unit := do
  update fun it => { it with rowsCompleted := 0, rowsGroupCompleted := 1, valuesPerRow := {} }
  receiveNextData S false

def next (S : Session) : Iterating types Bool := do
  let (it, c) ← get
  if it.rowsReceived = 0 then do
    setException (str "E-UDF-CL-LIB-1065: Iteration finished")
    return false
  else do
    update fun it => { it with
      rowsCompleted := it.rowsCompleted + 1, rowsGroupCompleted := it.rowsGroupCompleted + 1 }
    if c.inpForceFinish then return false
    else if it.rowsReceived ≤ it.rowsCompleted + 1 then do
      receiveNextData S false
      let (it, _) ← get
      return it.rowsReceived ≠ 0
    else do
      incrementColOffsets false
      return true

def reset (S : Session) : Iterating types Unit := do
  update fun it => { it with rowsGroupCompleted := 1 }
  onChannel (modify fun c => { c with inpForceFinish := false })
  receiveNextData S true

def checkIndex (index available : Nat) (tp otype ts : String) : Iterating types (Option Nat) := do
  if index < available then return some index
  else do
    let (it, _) ← get
    setException (str "F-UDF-CL-LIB-1064: Internal error: not enough " ++ str tp ++ str otype
      ++ str ts ++ str " in packet: wanted index " ++ str (toString index) ++ str " but have "
      ++ str (toString available) ++ str " elements (on " ++ str (toString it.rowsReceived)
      ++ str "/" ++ str (toString it.rowsCompleted) ++ str " of received/completed rows")
    update fun it => { it with wasNull := true }
    return none

/-- Where the current row's cell of a column is; `none`, with `m_was_null` set, for a null cell. -/
def checkValue (col available : Nat) (otype : String) : Iterating types (Option Nat) := do
  update fun it => { it with wasNull := false }
  let (it, _) ← get
  match ← checkIndex (types.length * it.rowsCompleted + col) it.table.dataNulls.length
      "nulls for " otype "" with
  | none => return none
  | some index => do
    let isNull ← element it.table.dataNulls index
    update fun it => { it with wasNull := isNull }
    if isNull then return none
    else checkIndex (it.colOffsets[col]?.getD 0) available "" otype "s"

/-- What the `get` functions share: the checks of the column and its type, with the numbers of their
messages, then the cell. -/
def getCell {α : Type} (expected : Datatype) (typeName noColumn wrongType otype : String)
    (onError onNull : α) (data : TableData → List α) (col : Nat) : Iterating types α :=
  match types[col]? with
  | none => do
    setException (str "E-UDF-CL-LIB-" ++ str noColumn ++ str ": Input column "
      ++ str (toString col) ++ str " does not exist")
    update fun it => { it with wasNull := true }
    return onError
  | some type =>
    if type ≠ expected then do
      setException (str "E-UDF-CL-LIB-" ++ str wrongType
        ++ str ": Wrong input column type, expected " ++ str typeName ++ str ", got "
        ++ convertTypeToString type)
      update fun it => { it with wasNull := true }
      return onError
    else do
      let (it, _) ← get
      match ← checkValue col (data it.table).length otype with
      | none => return onNull
      | some index => element (data it.table) index

def getDouble (col : Nat) : Iterating types Double :=
  getCell .double "DOUBLE" "1066" "1067" "double" 0 0 TableData.dataDouble col

/-- The string and what is written to `*length`, which a null cell and an error leave alone. -/
def getString (col : Nat) : Iterating types (ByteString × Option Nat) :=
  getCell .string "STRING" "1068" "1069" "string" ([], none) ([], none)
    (fun t => t.dataString.map fun s => (s, some s.length)) col

def getInt32 (col : Nat) : Iterating types Int32 :=
  getCell .int32 "INT32" "1070" "1071" "int32" 0 0 TableData.dataInt32 col

def getInt64 (col : Nat) : Iterating types Int64 :=
  getCell .int64 "INT64" "1072" "1073" "int64" 0 0 TableData.dataInt64 col

def getNumeric (col : Nat) : Iterating types ByteString :=
  getCell .numeric "NUMERIC" "1074" "1075" "string" [] (str "0") TableData.dataString col

def getTimestamp (col : Nat) : Iterating types ByteString :=
  getCell .timestamp "TIMESTAMP" "1076" "1077" "string" [] (str "1970-01-01 00:00:00.00 0000")
    TableData.dataString col

def getDate (col : Nat) : Iterating types ByteString :=
  getCell .date "DATE" "1078" "1079" "string" [] (str "1970-01-01") TableData.dataString col

/-- On an error the source returns `""`, a pointer that converts to `true`. -/
def getBoolean (col : Nat) : Iterating types Bool :=
  getCell .boolean "BOOLEAN" "1080" "1081" "bool" true false TableData.dataBool col

end TableIterator

end UdfRunner
