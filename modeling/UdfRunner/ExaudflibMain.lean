import UdfRunner.SocketHighLevel

/-!
# `exaudflib_main.cc`: the session loop

`fuel` cuts off the four endless loops: `goto reinit`, the two `for (;;)` and `while (!vm->run_())`.
-/

namespace UdfRunner
open Proc

namespace Client
variable {σ : Type} (env : Environment) (container : Container σ)

/-- A virtual call of the VM. -/
def callVm {α : Type} (m : Session → VmProc σ α) : Client σ α := fun w =>
  match w.vm with
  | none => (.stop .undefined, w)
  | some vm =>
    let (o, vm', c) := m (w.session env) (vm, w.channel)
    (o, { w.afterVm env c with vm := some vm' })

def noted {α : Type} (note : Option (VmObject σ) → Outcome Exception α → VmCall) (m : Client σ α) :
    Client σ α := fun w =>
  let (o, w') := m w
  (o, { w' with calls := w'.calls ++ [note w'.vm o] })

/-- `vmMaker()`, with the VM it made, if any. -/
def callVmMaker : Client σ Unit := fun w =>
  match container.make (w.session env) w.channel with
  | (.ok vm, c) => (.ok (), { w.afterVm env c with vm := vm })
  | (.throw e, c) => (.throw e, w.afterVm env c)
  | (.stop r, c) => (.stop r, w.afterVm env c)

def exceptionMsg : Client σ ByteString := fun w =>
  match w.vm with
  | none => (.stop .undefined, w)
  | some vm => (.ok vm.exceptionMsg, w)

def setExceptionMsg (msg : ByteString) : Client σ Unit :=
  modify fun w => { w with vm := w.vm.map fun vm => { vm with exceptionMsg := msg } }

def deleteVm : Client σ Unit := do
  let w ← get
  if w.vm.isSome then do
    callVm env container.destroy
    modify fun w => { w with vm := none }
  else return ()

def what : Exception → ByteString
  | .swigvm reason => cstr reason
  | .std text => cstr text
  | .other => []

/-- `handle_error` shuts the VM down; what it complains about joins the message. -/
def shutdownForError (msg : ByteString) : Client σ ByteString := do
  setExceptionMsg []
  noted (fun _ => .shutdown true) (callVm env container.shutdown)
  let exmsg ← exceptionMsg
  if 0 < exmsg.length then
    return str "F-UDF-CL-LIB-1111: Caught exception\n\n" ++ msg
      ++ str "\n\n and caught another exception during cleanup\n\n" ++ exmsg
  else return msg

/-- The first `try` of `handle_error`: the message to close with. -/
def endVm (msg : ByteString) (shutdown : Bool) : Client σ ByteString := do
  let w ← get
  let msg ← if w.vm.isSome ∧ shutdown then shutdownForError env container msg else Pure.pure msg
  deleteVm env container
  return msg

/-- The exceptions of the three `try` blocks are only printed. -/
def handleError (msg : ByteString) (shutdown : Bool) : Client σ Nat := do
  let msg ← catching (endVm env container msg shutdown) fun _ => return msg
  catching (sendClose env msg) fun _ => return ()
  return 1

/-- `SWIGVM::run_`: an exception of the VM's own kind ends the run like any other. -/
def run_ : Client σ Bool :=
  catching
    (do let done ← callVm env container.run
        let msg ← exceptionMsg
        logEvent (.ran (.returned done msg))
        return done)
    fun e => do
      logEvent (.ran (.raised e))
      match e with
      | .swigvm reason => do
        setExceptionMsg (cstr reason)
        return true
      | e => throw e

/-- `while (!vm->run_())`: `some code` is a `return` out of it. -/
def runUntilDone (fuel : Nat) : Client σ (Option Nat) :=
  loop (fun _ : Unit => do
    if ← run_ env container then return .inr none
    else do
      let msg ← exceptionMsg
      if 0 < msg.length then
        return .inr (some (← handleError env container (str "F-UDF-CL-LIB-1127: " ++ msg) true))
      else return .inl ()) fuel ()

/-- The end of a round: `inl` goes on, `inr none` is a `break`. -/
def doneRound : Client σ (Unit ⊕ Option Nat) := do
  if ← sendDone env then return .inl ()
  else return .inr none

def runRound (fuel : Nat) : Client σ (Unit ⊕ Option Nat) := do
  if ← sendRun env then do
    modify fun w => { w with inpForceFinish := false }
    match ← runUntilDone env container fuel with
    | some code => return .inr (some code)
    | none => doneRound env
  else return .inr none

def dispatchCall : Client σ (Option ByteString) := do
  let w ← get
  let singleCall (arg : ScriptDto) : Client σ (Option ByteString) :=
    noted (.ofSingleCall w.log.length w.singleCallFunction arg)
      (callVm env fun S => container.singleCall S w.singleCallFunction arg)
  match w.singleCallFunction with
  | .scFnNil => return none
  | .scFnDefaultOutputColumns => singleCall .empty
  | .scFnGenerateSqlForImportSpec => do
    assert env (!w.singleCallImportSpecificationArg.isEmptySpec)
    let result ← singleCall (.importSpecification w.singleCallImportSpecificationArg)
    modify fun w => { w with singleCallImportSpecificationArg := {} }
    return result
  | .scFnGenerateSqlForExportSpec => do
    assert env (!w.singleCallExportSpecificationArg.isEmptySpec)
    let result ← singleCall (.exportSpecification w.singleCallExportSpecificationArg)
    modify fun w => { w with singleCallExportSpecificationArg := {} }
    return result
  | .scFnVirtualSchemaAdapterCall => singleCall (.string w.singleCallStringArg)

def calledUndefinedSingleCall : Client σ ByteString := fun w =>
  match w.vm with
  | none => (.stop .undefined, w)
  | some vm => (.ok vm.calledUndefinedSingleCall, w)

/-- What follows the `switch`: `result` goes back, or the name of the missing function. -/
def answerCall (result : Option ByteString) : Client σ (Unit ⊕ Option Nat) := do
  let msg ← exceptionMsg
  if 0 < msg.length then
    return .inr (some (← handleError env container (str "F-UDF-CL-LIB-1126: " ++ msg) true))
  else do
    let fn ← calledUndefinedSingleCall
    if 0 < fn.length then sendUndefinedCall env fn
    else do
      let _ ← sendReturn env result
    doneRound env

/-- The inner `try` of the single-call loop. -/
def singleCallBody : Client σ (Unit ⊕ Option Nat) := do
  let result ← catching (dispatchCall env container) fun e => do
    logEvent (.called (some e))
    throw e
  logEvent (.called none)
  answerCall env container result

/-- One round of the single-call loop: `catch (...) {}` goes on with the next round. -/
def singleCallRound : Client σ (Unit ⊕ Option Nat) := do
  if ← sendRun env then do
    let w ← get
    assert env (w.singleCallFunction ≠ .scFnNil)
    catching (singleCallBody env container) fun _ => return .inl ()
  else return .inr none

/-- The loop of the session: `some code` is a `return` inside it. -/
def sessionLoop (fuel : Nat) : Client σ (Option Nat) := do
  let w ← get
  if w.singleCallMode then loop (fun _ : Unit => singleCallRound env container) fuel ()
  else loop (fun _ : Unit => runRound env container fuel) fuel ()

/-- What follows the loop. -/
def finishSession : Client σ (Option Nat) := do
  noted (fun _ => .shutdown false) (callVm env container.shutdown)
  let msg ← exceptionMsg
  if 0 < msg.length then
    return some (← handleError env container (str "F-UDF-CL-LIB-1128: " ++ msg) false)
  else do
    sendFinished env
    return none

/-- The outer `try`. -/
def sessionBody (fuel : Nat) : Client σ (Option Nat) := do
  callVmMaker env container
  let w ← get
  match w.vm with
  | none =>
    return some (← handleError env container
      (str "F-UDF-CL-LIB-1124: Unknown or unsupported VM type") false)
  | some vm =>
    if 0 < vm.exceptionMsg.length then
      return some (← handleError env container
        (str "F-UDF-CL-LIB-1125: " ++ vm.exceptionMsg) false)
    else do
      modify fun w => { w with shutdownVmInCaseOfError := true }
      match ← sessionLoop env container fuel with
      | some code => return some code
      | none => finishSession env container

/-- The three outer `catch` clauses. -/
def errorMessage : Exception → ByteString
  | .swigvm reason => str "F-UDF-CL-LIB-1129: " ++ cstr reason
  | .std text => str "F-UDF-CL-LIB-1130: " ++ cstr text
  | .other => str "F-UDF-CL-LIB-1131: Internal/Unknown error"

/-- Everything after the handshake. -/
def session (fuel : Nat) : Client σ Nat := do
  let code ← catching (sessionBody env container fuel) fun e => do
    let w ← get
    return some (← handleError env container (errorMessage e) w.shutdownVmInCaseOfError)
  match code with
  | some code => return code
  | none => do
    deleteVm env container
    return 0

/-- One round of `goto reinit`. -/
def reinitRound (socketName : ByteString) (fuel : Nat) : Client σ (Unit ⊕ Nat) := do
  modify fun w => { w with vm := none }
  if ← sendInit env socketName then do
    let w ← get
    logEvent (.connected w.singleCallMode)
    return .inr (← session env container fuel)
  else do
    let w ← get
    let remote := socketName.take 4 = str "tcp:"
    if ¬ remote ∧ w.exchandler.exthrowed then
      return .inr (← handleError env container (str "F-UDF-CL-LIB-1123: " ++ w.exchandler.exmsg) false)
    else return .inl ()

def exaudfclientMain (socketName : ByteString) (fuel : Nat) : Client σ Nat :=
  if socketName.length < 5 then stop .aborted
  else loop (fun _ : Unit => reinitRound env container socketName fuel) fuel ()

end Client

end UdfRunner
