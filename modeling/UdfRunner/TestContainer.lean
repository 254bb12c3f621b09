import UdfRunner.ExaudflibMain
import UdfRunner.ResultHandler
import UdfRunner.TableIterator

/-!
# `test_container.cc`: the TEST language container

A `TestVM` owns an input iterator and a result handler; the exceptions these store are never looked
at. `fuel` cuts off the loop of `forwardInput`.
-/

namespace UdfRunner
open Proc

structure TestVM (types : List Datatype) where
  input : TableIterator types
  output : ResultHandler := {}

abbrev Testing (types : List Datatype) := Proc (TestVM types × Channel) Exception

namespace TestVM
variable {types : List Datatype} {α : Type}

def emitMetadataStrategy : ByteString := str "emit_metadata"
def forwardInputStrategy : ByteString := str "forward_input"

def onInput (m : Iterating types α) : Testing types α :=
  zoom (fun s => (s.1.input, s.2)) (fun s t => ({ s.1 with input := t.1 }, t.2)) m

def onOutput (m : Emitting α) : Testing types α :=
  zoom (fun s => (s.1.output, s.2)) (fun s t => ({ s.1 with output := t.1 }, t.2)) m

def throwSwigvm (reason : ByteString) : Testing types α := throw (.swigvm reason)

def columnType (columns : List SwigColumntype) (column : Nat) : Datatype :=
  (columns[column]?.map (·.type)).getD .unsupported

def requireStringColumn (S : Session) (column : Nat) (input : Bool) (strategy : ByteString) :
    Testing types Unit :=
  if columnType (if input then S.inpTypes else S.outTypes) column ≠ .string then
    throwSwigvm (strategy ++ str " requires VARCHAR " ++ str (if input then "input" else "output")
      ++ str " columns")
  else return ()

def emitMetadata (S : Session) : Testing types Unit := do
  if S.outNames.length ≠ 2 then
    throwSwigvm (str "emit_metadata requires exactly two VARCHAR output columns")
  else do
    requireStringColumn S 0 false emitMetadataStrategy
    requireStringColumn S 1 false emitMetadataStrategy
    let scriptUser := cstr S.scopeUser
    let scriptCode := cstr S.scriptCode
    onOutput (ResultHandler.setString S 0 scriptUser scriptUser.length)
    onOutput (ResultHandler.setString S 1 scriptCode scriptCode.length)
    let (vm, _) ← get
    let _ ← onOutput (ResultHandler.next S vm.input.currentRow)
    onOutput (ResultHandler.flush S)

def forwardCell (S : Session) : Testing types Unit := do
  let (value, length) ← onInput (TableIterator.getString 0)
  let (vm, _) ← get
  if vm.input.wasNull then onOutput (ResultHandler.setNull 0)
  else onOutput (ResultHandler.setString S 0 value (length.getD 0))

def forwardRow (S : Session) : Testing types Unit := do
  forwardCell S
  let (vm, _) ← get
  let _ ← onOutput (ResultHandler.next S vm.input.currentRow)
  let _ ← onInput (TableIterator.next S)

def forwardRows (S : Session) (fuel : Nat) : Testing types Unit :=
  loop (fun _ : Unit => do
    let (vm, _) ← get
    if vm.input.eot then return .inr ()
    else do
      forwardRow S
      return .inl ()) fuel ()

def forwardInput (S : Session) (fuel : Nat) : Testing types Unit := do
  if S.inpNames.length ≠ 1 ∨ S.outNames.length ≠ 1 then
    throwSwigvm (str "forward_input requires exactly one VARCHAR input and output column")
  else do
    requireStringColumn S 0 true forwardInputStrategy
    requireStringColumn S 0 false forwardInputStrategy
    forwardRows S fuel
    onOutput (ResultHandler.flush S)

def run (S : Session) (fuel : Nat) : Testing types Bool := do
  let strategy := cstr S.scriptCode
  if strategy = emitMetadataStrategy then emitMetadata S
  else if strategy = forwardInputStrategy then forwardInput S fuel
  else throwSwigvm (str "unsupported test strategy: " ++ strategy)
  return true

/-- The constructor: the members come first, so the iterator asks for data before the check. -/
def create (S : Session) : Testing S.inputTypes Unit := do
  onInput (TableIterator.construct S)
  if S.inpIterType ≠ .multiple ∨ S.outIterType ≠ .multiple then
    throwSwigvm (str "TEST language container only supports SET-EMITS UDFs")
  else return ()

/-- A method of the object behind the VM pointer. -/
def method (m : ∀ types, Testing types α) : VmProc (Sigma TestVM) α := fun s =>
  let r := m s.1.state.1 (s.1.state.2, s.2)
  (r.1, { s.1 with state := ⟨_, r.2.1⟩ }, r.2.2)

end TestVM

/-- `new TestVM(false)` and its virtual functions. -/
def testContainer (fuel : Nat) : Container (Sigma TestVM) where
  make S := do
    let vm ← construct { input := {} } (TestVM.create S)
    return some { state := ⟨_, vm⟩ }
  run S := TestVM.method fun _ => TestVM.run S fuel
  singleCall _ _ _ :=
    throw (.swigvm (str "singleCall is not supported for the TEST language container"))
  shutdown _ := return ()
  destroy _ := return ()
  shutdown_ends _ _ h := h
  destroy_returns _ _ := rfl

end UdfRunner
