import UdfRunner.Channel
import UdfRunner.Table

/-!
# `SWIGResultHandler_Impl`

The pending table is that of `m_emit_request`; the request's type and connection id are only set
when it is sent. `m_rowdata` is read through `operator[]` (`null_data`) or after `find` (the rest).
-/

namespace UdfRunner
open Proc

/-- `SWIG_MAX_VAR_DATASIZE`. -/
def swigMaxVarDatasize : Nat := 4000000

/-- `rowdata_t`. -/
structure RowData where
  nullData : Nat → Bool := fun _ => false
  boolData : Nat → Option Bool := fun _ => none
  doubleData : Nat → Option Double := fun _ => none
  int32Data : Nat → Option Int32 := fun _ => none
  int64Data : Nat → Option Int64 := fun _ => none
  stringData : Nat → Option ByteString := fun _ => none

structure ResultHandler where
  messageSize : Nat := 0
  rowdata : RowData := {}
  table : TableData := {}
  rowsEmited : Nat := 1

abbrev Emitting := Proc (ResultHandler × Channel) Exception

namespace ResultHandler

def onChannel {α : Type} (m : Proc Channel Exception α) : Emitting α :=
  zoom Prod.snd (fun s c => (s.1, c)) m

def update (f : ResultHandler → ResultHandler) : Emitting Unit := modify fun s => (f s.1, s.2)

def setException (msg : ByteString) : Emitting Unit := onChannel (Channel.setException msg)

def reinitialize : Emitting Unit :=
  update fun _ => { rowsEmited := 0 }

def checkReply (S : Session) : Reply → Emitting Unit
  | .unparsable _ =>
    setException (str "F-UDF-CL-LIB-1083: Communication error: failed to parse data")
  | .message r =>
    if r.connectionId ≠ S.connectionId then
      setException (str "F-UDF-CL-LIB-1084: Received wrong connection id "
        ++ str (toString r.connectionId.toNat) ++ str ", should be "
        ++ str (toString S.connectionId.toNat))
    else if r.type = .mtClose then
      match r.close with
      | none => setException (str "F-UDF-CL-LIB-1085: Unknown error occured")
      | some msg => setException (cstr msg)
    else if r.type ≠ .mtEmit then
      setException (str "F-UDF-CL-LIB-1086: Wrong response type, got "
        ++ convertMessageTypeToString r.type)
    else return ()

def flush (S : Session) : Emitting Unit := do
  let (h, _) ← get
  if 0 < h.table.rowCount then
    if S.serializes h.table then
      -- The emit request is cleared between the send and the receive.
      update fun h => { h with table := {}, messageSize := 0 }
      let reply ← onChannel (Channel.exchange S (.emit h.table))
      checkReply S reply
    else
      setException (str "F-UDF-CL-LIB-1082: Communication error: failed to serialize data")
  else return ()

/-- A column that is not null: its value is `found`, or was never set. -/
def addCell {α : Type} (missing : String) (found : Option α) (size : α → Nat)
    (add : α → TableData → TableData) : Emitting Bool :=
  match found with
  | none => do
    setException (str missing)
    return false
  | some v => do
    update fun h => { h with messageSize := h.messageSize + size v, table := add v h.table }
    return true

def addColumn (col : Nat) (type : Datatype) : Emitting Bool := do
  let (h, _) ← get
  let nullData := h.rowdata.nullData col
  update fun h => { h with table.dataNulls := h.table.dataNulls ++ [nullData] }
  if nullData then return true
  else match type with
  | .unsupported => do
    setException (str "F-UDF-CL-LIB-1087: Unsupported data type found")
    return false
  | .double =>
    addCell "F-UDF-CL-LIB-1088: Not enough double columns emited" (h.rowdata.doubleData col)
      (fun _ => 8) fun v t => { t with dataDouble := t.dataDouble ++ [v] }
  | .int32 =>
    addCell "F-UDF-CL-LIB-1089: Not enough int32 columns emited" (h.rowdata.int32Data col)
      (fun _ => 4) fun v t => { t with dataInt32 := t.dataInt32 ++ [v] }
  | .int64 =>
    addCell "F-UDF-CL-LIB-1090: Not enough int64 columns emited" (h.rowdata.int64Data col)
      (fun _ => 8) fun v t => { t with dataInt64 := t.dataInt64 ++ [v] }
  | .numeric | .timestamp | .date | .string =>
    addCell "F-UDF-CL-LIB-1091: Not enough string columns emited" (h.rowdata.stringData col)
      (fun v => 4 + v.length) fun v t => { t with dataString := t.dataString ++ [v] }
  | .boolean =>
    addCell "F-UDF-CL-LIB-1092: Not enough boolean columns emited" (h.rowdata.boolData col)
      (fun _ => 1) fun v t => { t with dataBool := t.dataBool ++ [v] }
  | type => do
    setException (str "F-UDF-CL-LIB-1093: Unknown data type found, got " ++ convertTypeToString type)
    return false

def addColumns : Nat → List Datatype → Emitting Bool
  | _, [] => return true
  | col, type :: types => do
    if ← addColumn col type then addColumns (col + 1) types
    else return false

/-- `currentRow` is `m_table_iterator->get_current_row()`. -/
def next (S : Session) (currentRow : UInt64) : Emitting Bool := do
  update fun h => { h with rowsEmited := h.rowsEmited + 1 }
  if ← addColumns 0 S.outputTypes then
    update fun h => { h with
      table.rowNumber := h.table.rowNumber ++ [currentRow]
      rowdata := {}
      table.rows := some (h.table.rowCount + 1)
      table.rowsInGroup := 0 }
    let (h, _) ← get
    if swigMaxVarDatasize ≤ h.messageSize then
      if S.inpIterType = .exactlyOnce ∧ S.outIterType = .exactlyOnce then
        onChannel (modify fun c => { c with inpForceFinish := true })
      else flush S
    return true
  else return false

/-- What the `set` functions share: the checks of the column and its type, with the numbers of their
messages, and the null flag. -/
def setCell (S : Session) (expected : Datatype) (typeName noColumn wrongType : String) (col : Nat)
    (store : RowData → RowData) : Emitting Unit :=
  match S.outputTypes[col]? with
  | none =>
    setException (str "E-UDF-CL-LIB-" ++ str noColumn ++ str ": Output column does "
      ++ str (toString col) ++ str " not exist")
  | some type =>
    if type ≠ expected then
      setException (str "E-UDF-CL-LIB-" ++ str wrongType
        ++ str ": Wrong output column type, expected " ++ str typeName ++ str ", got "
        ++ convertTypeToString type)
    else
      update fun h => { h with
        rowdata := store { h.rowdata with nullData := Function.update h.rowdata.nullData col false } }

def setText (S : Session) (expected : Datatype) (typeName noColumn wrongType : String) (col : Nat)
    (v : ByteString) : Emitting Unit :=
  setCell S expected typeName noColumn wrongType col fun r =>
    { r with stringData := Function.update r.stringData col (some (cstr v)) }

def setDouble (S : Session) (col : Nat) (v : Double) : Emitting Unit :=
  setCell S .double "DOUBLE" "1094" "1095" col fun r =>
    { r with doubleData := Function.update r.doubleData col (some v) }

/-- The length is not looked at: `std::string::operator=(const char*)` stops at the first NUL. -/
def setString (S : Session) (col : Nat) (v : ByteString) (_l : Nat) : Emitting Unit :=
  setText S .string "STRING" "1096" "1097" col v

def setInt32 (S : Session) (col : Nat) (v : Int32) : Emitting Unit :=
  setCell S .int32 "INT32" "1098" "1099" col fun r =>
    { r with int32Data := Function.update r.int32Data col (some v) }

def setInt64 (S : Session) (col : Nat) (v : Int64) : Emitting Unit :=
  setCell S .int64 "INT64" "1100" "1101" col fun r =>
    { r with int64Data := Function.update r.int64Data col (some v) }

def setNumeric (S : Session) (col : Nat) (v : ByteString) : Emitting Unit :=
  setText S .numeric "NUMERIC" "1102" "1103" col v

def setTimestamp (S : Session) (col : Nat) (v : ByteString) : Emitting Unit :=
  setText S .timestamp "TIMESTAMP" "1104" "1105" col v

def setDate (S : Session) (col : Nat) (v : ByteString) : Emitting Unit :=
  setText S .date "DATE" "1106" "1107" col v

def setBoolean (S : Session) (col : Nat) (v : Bool) : Emitting Unit :=
  setCell S .boolean "BOOLEAN" "1108" "1109" col fun r =>
    { r with boolData := Function.update r.boolData col (some v) }

/-- Neither the column nor its type is checked. -/
def setNull (col : Nat) : Emitting Unit :=
  update fun h => { h with
    rowdata := { h.rowdata with nullData := Function.update h.rowdata.nullData col true } }

end ResultHandler

end UdfRunner
