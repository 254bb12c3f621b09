import UdfRunner.Channel
import UdfRunner.ScriptDto

/-!
# `socket_high_level.cc`: the requests of the session

`World` is the client's process: `exaudflib::global`, the VM object and a log of what happened. The log grows
through `logEvent` alone, and `calls` through `noted`; no function reads either. Every control message is
small enough to serialize.
-/

namespace UdfRunner
open Proc

/-- How a call of the VM ended. -/
inductive RunOutcome
  | returned (done : Bool) (exceptionMsg : ByteString)
  | raised (e : Exception)
deriving DecidableEq, Repr

/-- What the log keeps: the session's requests and their replies, the exchanges of the VM, and marks
for the end of a handshake, of a `vm->run()` and of a `vm->singleCall()`. -/
inductive Event
  | sent (q : ClientRequest)
  | received (r : Reply)
  | vm (q : VmRequest) (r : Reply)
  | connected (singleCallMode : Bool)
  | ran (o : RunOutcome)
  | called (o : Option Exception)
deriving DecidableEq, Repr

/-- A call of the VM that ended: of `singleCall`, made when the log was that long, with the VM's two strings
after it, or of `shutdown`, by `handle_error` or at the end of the loops. -/
inductive VmCall
  | singleCall (logged : Nat) (fn : SingleCallFunctionId) (arg : ScriptDto)
    (o : Outcome Exception (Option ByteString)) (exceptionMsg calledUndefinedSingleCall : ByteString)
  | shutdown (forError : Bool) (o : Outcome Exception Unit)
deriving DecidableEq

/-- A `SWIGVM`: its own state and the two strings the session reads. -/
structure VmObject (σ : Type) where
  state : σ
  exceptionMsg : ByteString := []
  calledUndefinedSingleCall : ByteString := []
deriving DecidableEq, Repr

def VmCall.ofSingleCall {σ : Type} (logged : Nat) (fn : SingleCallFunctionId) (arg : ScriptDto)
    (vm : Option (VmObject σ)) (o : Outcome Exception (Option ByteString)) : VmCall :=
  .singleCall logged fn arg o (vm.elim [] VmObject.exceptionMsg) (vm.elim [] VmObject.calledUndefinedSingleCall)

abbrev VmProc (σ : Type) := Proc (VmObject σ × Channel) Exception

/-- A language container: `vmMaker` and the virtual functions of what it makes. A run may do anything,
`shutdown` comes to an end, and a destructor returns. -/
structure Container (σ : Type) where
  make : Session → Proc Channel Exception (Option (VmObject σ))
  run : Session → VmProc σ Bool
  singleCall : Session → SingleCallFunctionId → ScriptDto → VmProc σ (Option ByteString)
  shutdown : Session → VmProc σ Unit
  destroy : Session → VmProc σ Unit
  shutdown_ends : ∀ S s, ¬ (shutdown S s).1.Stopped
  destroy_returns : ∀ S s, (destroy S s).1 = .ok ()

/-- A resource limit that `send_init` sets, soft and hard. That of open files may depend on the old one. -/
inductive ResourceLimit
  | rss (limit : Nat)
  | core
  | nofile
  | nproc (limit : Nat)
deriving DecidableEq, Repr

/-- The process's surroundings. `timesOut`: the reply to `MT_CLIENT` does not come in time. `setrlimit`: the
limit can be set. -/
structure Environment where
  server : Server
  serializes : TableData → Bool := fun _ => true
  timesOut : List Request → Bool := fun _ => false
  setrlimit : List Request → ResourceLimit → Bool := fun _ _ => true
  ndebug : Bool := false

structure World (σ : Type) where
  exchandler : ExceptionHandler := {}
  params : Params := {}
  inpForceFinish : Bool := false
  singleCallMode : Bool := false
  singleCallFunction : SingleCallFunctionId := .scFnNil
  singleCallImportSpecificationArg : ImportSpecification := {}
  singleCallExportSpecificationArg : ExportSpecification := {}
  singleCallStringArg : ByteString := []
  vm : Option (VmObject σ) := none
  shutdownVmInCaseOfError : Bool := false
  past : List Request := []
  log : List Event := []
  calls : List VmCall := []
deriving DecidableEq

abbrev Client (σ : Type) := Proc (World σ) Exception

namespace World
variable {σ : Type}

def session (env : Environment) (w : World σ) : Session :=
  { w.params with server := env.server, serializes := env.serializes }

/-- The channel the VM gets: it appends its exchanges to it. -/
def channel (w : World σ) : Channel :=
  { exch := w.exchandler, inpForceFinish := w.inpForceFinish, past := w.past }

/-- The world after the VM used the channel: `c` is what became of it. -/
def afterVm (w : World σ) (env : Environment) (c : Channel) : World σ :=
  { w with
    exchandler := c.exch
    inpForceFinish := c.inpForceFinish
    past := w.past ++ c.exchanges.map fun e => Channel.request (w.session env) e.1
    log := w.log ++ c.exchanges.map fun e => .vm e.1 e.2 }

end World

namespace Client
variable {σ : Type} (env : Environment)

def logEvent (e : Event) : Client σ Unit := modify fun w => { w with log := w.log ++ [e] }

def setException (msg : ByteString) : Client σ Unit :=
  modify fun w => { w with exchandler := w.exchandler.setException msg }

/-- `socket_send`. -/
def send (connectionId : UInt64) (q : ClientRequest) : Client σ Unit := do
  logEvent (.sent q)
  modify fun w => { w with past := w.past ++ [⟨connectionId, .inr q⟩] }

/-- `socket_recv`. -/
def recv : Client σ Reply := do
  let w ← get
  let r := env.server w.past
  logEvent (.received r)
  return r

def exchange (q : ClientRequest) : Client σ Reply := do
  let w ← get
  send w.params.connectionId q
  recv env

def throwSwigvm {α : Type} (msg : ByteString) : Client σ α := throw (.swigvm msg)

/-- The exception for an `MT_CLOSE` reply: its message, or `empty`. -/
def throwClose {α : Type} (empty : String) (r : Response) : Client σ α :=
  throwSwigvm (match r.close with
    | some msg => cstr msg
    | none => str empty)

/-! ### The handshake -/

/-- `writeScriptParams` and `initSwigParams`. Without a scope user the current user stands in. -/
def writeScriptParams (rep : Info) : Client σ Unit :=
  modify fun w => { w with params := { w.params with
    dbname := rep.databaseName
    dbversion := rep.databaseVersion
    scriptName := rep.scriptName
    scriptSchema := rep.scriptSchema
    currentUser := rep.currentUser
    scopeUser := if rep.scopeUser.length = 0 then rep.currentUser else rep.scopeUser
    currentSchema := rep.currentSchema
    scriptCode := rep.sourceCode
    sessionId := rep.sessionId
    statementId := rep.statementId
    nodeCount := rep.nodeCount
    nodeId := rep.nodeId
    vmId := rep.vmId } }

/-- The column type of a definition, if it is supported. -/
def columnType (c : ColumnDefinition) : Option SwigColumntype :=
  let plain (t : Datatype) : SwigColumntype := { type := t, typeName := c.typeName }
  let scaled (t : Datatype) : SwigColumntype := { plain t with prec := c.precision, scale := c.scale }
  match c.type with
  | .pbUnsupported => none
  | .pbDouble => some (plain .double)
  | .pbInt32 => some (scaled .int32)
  | .pbInt64 => some (scaled .int64)
  | .pbNumeric => some (scaled .numeric)
  | .pbTimestamp => some (plain .timestamp)
  | .pbDate => some (plain .date)
  | .pbString => some { plain .string with len := c.size }
  | .pbBoolean => some (plain .boolean)

/-- The loop over the column definitions of one side: `push` appends a name and a type. A column of an
unsupported type is appended before it is turned down. -/
def addColumns (push : ByteString → SwigColumntype → Params → Params) (unsupported : String) :
    List ColumnDefinition → Client σ Bool
  | [] => return true
  | c :: cs =>
    match columnType c with
    | none => do
      modify fun w => { w with params := push c.name { typeName := c.typeName } w.params }
      setException (str unsupported)
      return false
    | some t => do
      modify fun w => { w with params := push c.name t w.params }
      addColumns push unsupported cs

def pushInput (name : ByteString) (t : SwigColumntype) (p : Params) : Params :=
  { p with inpNames := p.inpNames ++ [name], inpTypes := p.inpTypes ++ [t] }

def pushOutput (name : ByteString) (t : SwigColumntype) (p : Params) : Params :=
  { p with outNames := p.outNames ++ [name], outTypes := p.outTypes ++ [t] }

/-- The part of `send_init` after the metadata arrived. -/
def readMetadata (rep : Metadata) : Client σ Bool := do
  modify fun w => { w with
    singleCallMode := rep.singleCallMode
    params := { w.params with
      singleCallMode := rep.singleCallMode
      inpIterType := rep.inputIterType
      outIterType := rep.outputIterType } }
  if ← addColumns pushInput "F-UDF-CL-LIB-1020: Unsupported input column type found" rep.inputColumns
  then addColumns pushOutput "F-UDF-CL-LIB-1022: Unsupported output column type found" rep.outputColumns
  else return false

/-- A reply of the handshake: exceptions go to the handler, and the handshake fails. -/
def checkInitReply (close wrong : String) (expected : MessageType) (r : Response) : Client σ Bool :=
  if r.type = .mtClose then do
    setException (match r.close with
      | some msg => cstr msg
      | none => str close)
    return false
  else if r.type ≠ expected then do
    setException (str wrong ++ convertMessageTypeToString r.type)
    return false
  else return true

/-- No `try` is around these exceptions. -/
def setLimits (maximalMemoryLimit : Nat) : Client σ Unit := do
  let w ← get
  let set := env.setrlimit w.past
  if set (.rss maximalMemoryLimit) = false then throwSwigvm (str "F-UDF-CL-LIB-1007: Failed to set memory limit")
  else if set .core = false then throwSwigvm (str "F-UDF-CL-LIB-1009: Failed to set core dump size limit")
  else if set .nofile = false then throwSwigvm (str "F-UDF-CL-LIB-1012: Failed to set nofile limit")
  else if set (.nproc 32768) = false ∧ set (.nproc 8192) = false then
    throwSwigvm (str "F-UDF-CL-LIB-1015: Failed to set nproc limit")
  else return ()

def sendInit (clientName : ByteString) : Client σ Bool := do
  send 0 (.client clientName)
  let w ← get
  if env.timesOut w.past then return false
  else match ← recv env with
  | .unparsable _ => do
    setException (str "F-UDF-CL-LIB-1003: Failed to parse data")
    return false
  | .message r => do
    modify fun w => { w with params.connectionId := r.connectionId }
    if ← checkInitReply "F-UDF-CL-LIB-1004: Connection closed by server"
        "F-UDF-CL-LIB-1005: Wrong message type, should be MT_INFO got " .mtInfo r then do
      writeScriptParams r.info
      modify fun w => { w with params.maximalMemoryLimit := r.info.maximalMemoryLimit }
      setLimits env r.info.maximalMemoryLimit
      match ← exchange env .metadata with
      | .unparsable _ => do
        setException (str "F-UDF-CL-LIB-1017: Communication error: failed to parse data")
        return false
      | .message r => do
        if ← checkInitReply "F-UDF-CL-LIB-1018: Connection closed by server"
            "F-UDF-CL-LIB-1019: Wrong message type, should be META, got " .mtMeta r then
          readMetadata r.metadata
        else return false
    else return false

/-! ### The session -/

def sendClose (exmsg : ByteString) : Client σ Unit := do
  match ← exchange env (.close (if exmsg ≠ [] then some exmsg else none)) with
  | .unparsable _ =>
    throwSwigvm (str "F-UDF-CL-LIB-1024: Communication error: failed to parse data")
  | .message r =>
    if r.type ≠ .mtFinished then
      throwSwigvm (str "F-UDF-CL-LIB-1025: Wrong response type, should be MT_FINISHED, got "
        ++ convertMessageTypeToString r.type)
    else return ()

/-- The replies to `MT_RETURN` and `MT_DONE`: `MT_CLEANUP` gives `false`, the expected type `true`. -/
def checkReply (parse close wrong : String) (expected : MessageType) : Reply → Client σ Bool
  | .unparsable _ => throwSwigvm (str parse)
  | .message r =>
    if r.type = .mtClose then throwClose close r
    else if r.type = .mtCleanup then return false
    else if r.type ≠ expected then throwSwigvm (str wrong ++ convertMessageTypeToString r.type)
    else return true

def assert (c : Bool) : Client σ Unit := if env.ndebug || c then return () else stop .aborted

def ofDto {α : Type} : DtoResult α → Client σ α
  | .ok a => return a
  | .error e => throw e

def updateImport (f : ImportSpecification → DtoResult ImportSpecification) : Client σ Unit := do
  let w ← get
  let s ← ofDto (f w.singleCallImportSpecificationArg)
  modify fun w => { w with singleCallImportSpecificationArg := s }

def updateExport (f : ExportSpecification → DtoResult ExportSpecification) : Client σ Unit := do
  let w ← get
  let s ← ofDto (f w.singleCallExportSpecificationArg)
  modify fun w => { w with singleCallExportSpecificationArg := s }

def readImportSpecification (rep : ImportSpecificationRep) : Client σ Unit := do
  modify fun w => { w with
    singleCallImportSpecificationArg := { isEmptySpec := false, isSubselect := rep.isSubselect } }
  rep.connectionInformation.forM fun c => updateImport (·.setConnectionInformation c.toDto)
  rep.connectionName.forM fun n => updateImport (·.setConnectionName n)
  rep.subselectColumnSpecification.forM fun c => do
    updateImport (·.appendSubselectColumnName c.name)
    updateImport (·.appendSubselectColumnType c.typeName)
  rep.parameters.forM fun p => updateImport (·.addParameter p.key p.value)

def readExportSpecification (rep : ExportSpecificationRep) : Client σ Unit := do
  modify fun w => { w with singleCallExportSpecificationArg := {} }
  rep.connectionInformation.forM fun c => updateExport (·.setConnectionInformation c.toDto)
  rep.connectionName.forM fun n => updateExport (·.setConnectionName n)
  rep.parameters.forM fun p => updateExport (·.addParameter p.key p.value)
  updateExport fun s => .ok (s.setTruncate rep.hasTruncate)
  updateExport fun s => .ok (s.setReplace rep.hasReplace)
  rep.createdBy.forM fun c => updateExport (·.setCreatedBy c)
  rep.sourceColumnNames.forM fun n => updateExport fun s => .ok (s.addSourceColumnName n)

/-- The argument of a single call, from the `MT_CALL` reply. -/
def readCall (sc : SingleCallRep) : Client σ Unit := do
  modify fun w => { w with singleCallFunction := sc.fn }
  match sc.fn with
  | .scFnNil | .scFnDefaultOutputColumns => return ()
  | .scFnGenerateSqlForImportSpec =>
    match sc.importSpecification with
    | none => throwSwigvm (str ("F-UDF-CL-LIB-1029: internal error SC_FN_GENERATE_SQL_FOR_IMPORT_SPEC "
        ++ "without import specification"))
    | some rep => readImportSpecification rep
  | .scFnGenerateSqlForExportSpec =>
    match sc.exportSpecification with
    | none => throwSwigvm (str ("F-UDF-CL-LIB-1030: internal error SC_FN_GENERATE_SQL_FOR_EXPORT_SPEC "
        ++ "without export specification"))
    | some rep => readExportSpecification rep
  | .scFnVirtualSchemaAdapterCall =>
    match sc.jsonArg with
    | none => throwSwigvm (str ("F-UDF-CL-LIB-1031: internal error SC_FN_VIRTUAL_SCHEMA_ADAPTER_CALL "
        ++ "without json arg"))
    | some json => modify fun w => { w with singleCallStringArg := json }

def sendRun : Client σ Bool := do
  match ← exchange env .run with
  | .unparsable _ =>
    throwSwigvm (str "F-UDF-CL-LIB-1027: Communication error: failed to parse data")
  | .message r => do
    let w ← get
    if r.type = .mtClose then
      throwClose "F-UDF-CL-LIB-1028: Wrong response type, got empty MT_CLOSE" r
    else if r.type = .mtCleanup then return false
    else if w.singleCallMode ∧ r.type = .mtCall then do
      readCall r.call
      return true
    else if r.type ≠ .mtRun then
      throwSwigvm (str "F-UDF-CL-LIB-1032: Wrong response type, should be MT_RUN, got "
        ++ convertMessageTypeToString r.type)
    else return true

/-- `result` is a pointer; behind the assertion it is read as a C string. -/
def sendReturn (result : Option ByteString) : Client σ Bool := do
  assert env result.isSome
  match result with
  | none => stop .undefined
  | some result => do
    let reply ← exchange env (.callResult (cstr result))
    checkReply "F-UDF-CL-LIB-1034: Communication error: failed to parse data"
      "F-UDF-CL-LIB-1035: Wrong response type, got empty close response"
      "F-UDF-CL-LIB-1036: Wrong response type, should be MT_RETURN, got " .mtReturn reply

def sendUndefinedCall (fn : ByteString) : Client σ Unit := do
  match ← exchange env (.undefinedCall fn) with
  | .unparsable _ =>
    throwSwigvm (str "F-UDF-CL-LIB-1038: Communication error: failed to parse data")
  | .message r =>
    if r.type ≠ .mtUndefinedCall then
      throwSwigvm (str "F-UDF-CL-LIB-1039: Wrong response type, should be MT_UNDEFINED_CALL, got "
        ++ convertMessageTypeToString r.type)
    else return ()

def sendDone : Client σ Bool := do
  let reply ← exchange env .done
  checkReply "F-UDF-CL-LIB-1041: Communication error: failed to parse data"
    "F-UDF-CL-LIB-1042: Wrong response type, got empty close response"
    "F-UDF-CL-LIB-1043: Wrong response type, should be MT_DONE, got " .mtDone reply

def sendFinished : Client σ Unit := do
  match ← exchange env .finished with
  | .unparsable _ =>
    throwSwigvm (str "F-UDF-CL-LIB-1045: Communication error: failed to parse data")
  | .message r =>
    if r.type = .mtClose then
      throwClose "F-UDF-CL-LIB-1046: Wrong response type, got empty MT_CLOSE" r
    else if r.type ≠ .mtFinished then
      throwSwigvm (str "F-UDF-CL-LIB-1047: Wrong response type, should be MT_FINISHED, got"
        ++ convertMessageTypeToString r.type)
    else return ()

end Client

end UdfRunner
