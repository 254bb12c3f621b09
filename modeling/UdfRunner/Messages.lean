import Mathlib.Tactic
import Mathlib.Data.List.TakeWhile

/-!
# Messages between the client and the database (`zmqcontainer.proto`, `swig_common.h`)

Strings are byte lists. A `double` is only copied, so it stands for its 64 bits. An absent optional
submessage reads as its default instance.
-/

abbrev ByteString := List UInt8

/-- The bytes of an ASCII literal. -/
def str (s : String) : ByteString := s.toList.map fun c => UInt8.ofNat c.toNat

/-- What a reader of a `const char*` sees of a buffer: everything up to the first NUL. -/
def cstr (s : ByteString) : ByteString := s.takeWhile (· != 0)

theorem cstr_eq_self {s : ByteString} (h : (0 : UInt8) ∉ s) : cstr s = s := by
  rw [cstr, List.takeWhile_eq_self_iff]
  intro b hb
  simp only [bne_iff_ne]
  rintro rfl
  exact h hb

theorem zero_not_mem_cstr (s : ByteString) : (0 : UInt8) ∉ cstr s := by
  intro h
  have := List.mem_takeWhile_imp h
  simp at this

theorem cstr_eq_self_iff {s : ByteString} : cstr s = s ↔ (0 : UInt8) ∉ s :=
  ⟨fun h => h ▸ zero_not_mem_cstr s, cstr_eq_self⟩

namespace UdfRunner

abbrev Double := UInt64

/-- `message_type`. -/
inductive MessageType
  | mtUnknown | mtClient | mtInfo | mtMeta | mtClose | mtImport | mtNext | mtReset | mtEmit | mtRun
  | mtDone | mtCleanup | mtFinished | mtPingPong | mtTryAgain | mtCall | mtReturn | mtUndefinedCall
deriving DecidableEq, Repr

/-- `SWIGVM_datatype_e`. -/
inductive Datatype
  | unsupported | double | int32 | int64 | numeric | timestamp | date | string | boolean
  | intervalYm | intervalDs | geometry
deriving DecidableEq, Repr

def Datatype.code : Datatype → Nat
  | unsupported => 0 | double => 1 | int32 => 2 | int64 => 3 | numeric => 4 | timestamp => 5
  | date => 6 | string => 7 | boolean => 8 | intervalYm => 9 | intervalDs => 10 | geometry => 11

/-- `column_type`. -/
inductive ColumnType
  | pbUnsupported | pbDouble | pbInt32 | pbInt64 | pbNumeric | pbTimestamp | pbDate | pbString
  | pbBoolean
deriving DecidableEq, Repr

/-- `SWIGVM_itertype_e`. -/
inductive Itertype
  | exactlyOnce | multiple
deriving DecidableEq, Repr

/-- `msg_conversion::convert_message_type_to_string`. Its default branch is unreachable: a message
of any other type does not parse. -/
def convertMessageTypeToString : MessageType → ByteString
  | .mtUnknown => str "MT_UNKNOWN"
  | .mtClient => str "MT_CLIENT"
  | .mtInfo => str "MT_INFO"
  | .mtMeta => str "MT_META"
  | .mtClose => str "MT_CLOSE"
  | .mtImport => str "MT_IMPORT"
  | .mtNext => str "MT_NEXT"
  | .mtReset => str "MT_RESET"
  | .mtEmit => str "MT_EMIT"
  | .mtRun => str "MT_RUN"
  | .mtDone => str "MT_DONE"
  | .mtCleanup => str "MT_CLEANUP"
  | .mtFinished => str "MT_FINISHED"
  | .mtPingPong => str "MT_PING_PONG"
  | .mtTryAgain => str "MT_TRY_AGAIN"
  | .mtCall => str "MT_CALL"
  | .mtReturn => str "MT_RETURN"
  | .mtUndefinedCall => str "MT_UNDEFINED_CALL"

/-- `msg_conversion::convert_type_to_string`. The default branch adds the code to the literal's
address, which skips that many of its characters. -/
def convertTypeToString : Datatype → ByteString
  | .unsupported => str "PB_UNSUPPORTED"
  | .double => str "PB_DOUBLE"
  | .int32 => str "PB_INT32"
  | .int64 => str "PB_INT64"
  | .numeric => str "PB_NUMERIC"
  | .timestamp => str "PB_TIMESTAMP"
  | .date => str "PB_DATE"
  | .string => str "PB_STRING"
  | .boolean => str "PB_BOOLEAN"
  | t => (str "unknown: ").drop t.code

/-- `exascript_table_data`. -/
structure TableData where
  rows : Option Nat := none
  rowsInGroup : Nat := 0
  dataString : List ByteString := []
  dataNulls : List Bool := []
  dataBool : List Bool := []
  dataInt32 : List Int32 := []
  dataInt64 : List Int64 := []
  dataDouble : List Double := []
  rowNumber : List UInt64 := []
deriving DecidableEq, Repr

/-- `connection_information_rep`. -/
structure ConnectionInformationRep where
  kind : ByteString
  address : ByteString
  user : ByteString
  password : ByteString
deriving DecidableEq, Repr

/-- `exascript_metadata.column_definition`. -/
structure ColumnDefinition where
  name : ByteString
  type : ColumnType := .pbUnsupported
  typeName : ByteString
  size : Nat := 0
  precision : Nat := 0
  scale : Nat := 0
deriving DecidableEq, Repr

/-- `exascript_metadata`. -/
structure Metadata where
  inputIterType : Itertype := .exactlyOnce
  outputIterType : Itertype := .exactlyOnce
  inputColumns : List ColumnDefinition := []
  outputColumns : List ColumnDefinition := []
  singleCallMode : Bool := false
deriving DecidableEq, Repr

/-- `exascript_info`, as far as `writeScriptParams` and `send_init` read it. -/
structure Info where
  databaseName : ByteString := []
  databaseVersion : ByteString := []
  scriptName : ByteString := []
  scriptSchema : ByteString := []
  currentUser : ByteString := []
  scopeUser : ByteString := []
  currentSchema : ByteString := []
  sourceCode : ByteString := []
  sessionId : Nat := 0
  statementId : Nat := 0
  nodeCount : Nat := 0
  nodeId : Nat := 0
  vmId : Nat := 0
  maximalMemoryLimit : Nat := 0
deriving DecidableEq, Repr

/-- `single_call_function_id_e`. -/
inductive SingleCallFunctionId
  | scFnNil | scFnDefaultOutputColumns | scFnVirtualSchemaAdapterCall
  | scFnGenerateSqlForImportSpec | scFnGenerateSqlForExportSpec
deriving DecidableEq, Repr

structure KeyValuePair where
  key : ByteString
  value : ByteString
deriving DecidableEq, Repr

/-- `import_specification_rep`. -/
structure ImportSpecificationRep where
  isSubselect : Bool
  connectionInformation : Option ConnectionInformationRep := none
  connectionName : Option ByteString := none
  subselectColumnSpecification : List ColumnDefinition := []
  parameters : List KeyValuePair := []
deriving DecidableEq, Repr

/-- `export_specification_rep`. -/
structure ExportSpecificationRep where
  hasTruncate : Bool
  hasReplace : Bool
  createdBy : Option ByteString := none
  sourceColumnNames : List ByteString := []
  connectionInformation : Option ConnectionInformationRep := none
  connectionName : Option ByteString := none
  parameters : List KeyValuePair := []
deriving DecidableEq, Repr

/-- `exascript_single_call_rep`. -/
structure SingleCallRep where
  fn : SingleCallFunctionId := .scFnNil
  importSpecification : Option ImportSpecificationRep := none
  jsonArg : Option ByteString := none
  exportSpecification : Option ExportSpecificationRep := none
deriving DecidableEq, Repr

/-- `exascript_response`; `close` is the exception message of the close part, if it has one. -/
structure Response where
  type : MessageType
  connectionId : UInt64 := 0
  info : Info := {}
  metadata : Metadata := {}
  close : Option ByteString := none
  next : TableData := {}
  call : SingleCallRep := {}
deriving DecidableEq, Repr

/-- What arrives for a request. A buffer that does not parse may leave a part of itself in the
message object. -/
inductive Reply
  | message (r : Response)
  | unparsable (leftover : Response)
deriving DecidableEq, Repr

/-- Requests of the running script: those of the iterator, the result handler and the metadata
object. -/
inductive VmRequest
  | next
  | reset
  | emit (table : TableData)
  | importScript (scriptName : ByteString) (connection : Bool)
deriving DecidableEq, Repr

/-- Requests of the session loop itself (`socket_high_level.cc`). -/
inductive ClientRequest
  | client (clientName : ByteString)
  | metadata
  | run
  | done
  | callResult (result : ByteString)
  | undefinedCall (remoteFn : ByteString)
  | finished
  | close (exceptionMessage : Option ByteString)
deriving DecidableEq, Repr

/-- `exascript_request`: the type, the connection and the part that goes with the type. -/
structure Request where
  connectionId : UInt64
  content : VmRequest ⊕ ClientRequest
deriving DecidableEq, Repr

/-- `SWIGVMExceptionHandler`. -/
structure ExceptionHandler where
  exmsg : ByteString := []
  exthrowed : Bool := false
deriving DecidableEq, Repr

def ExceptionHandler.setException (_ : ExceptionHandler) (msg : ByteString) : ExceptionHandler :=
  ⟨msg, true⟩

/-- What can be thrown: a `SWIGVM::exception`, another `std::exception` with its text, or anything
else. -/
inductive Exception
  | swigvm (reason : ByteString)
  | std (what : ByteString)
  | other
deriving DecidableEq, Repr

/-- The database's side: its reply to the last request of a history. -/
abbrev Server := List Request → Reply

end UdfRunner
