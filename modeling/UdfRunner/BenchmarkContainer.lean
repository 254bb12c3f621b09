import UdfRunner.TestContainer

/-!
# `benchmark_container.cc`: the BENCHMARK language container

A `BenchmarkVM` reads all rows and then emits two of its own. What it prints, and the count of empty values
nobody reads, are left out. `fuel` cuts off the loop that fetches.
-/

namespace UdfRunner
open Proc

structure BenchmarkVM (types : List Datatype) where
  inp : TableIterator types
  outp : ResultHandler := {}

abbrev Benchmarking (types : List Datatype) := Proc (BenchmarkVM types × Channel) Exception

namespace BenchmarkVM
variable {types : List Datatype} {α : Type}

def onInp (m : Iterating types α) : Benchmarking types α :=
  zoom (fun s => (s.1.inp, s.2)) (fun s t => ({ s.1 with inp := t.1 }, t.2)) m

def onOutp (m : Emitting α) : Benchmarking types α :=
  zoom (fun s => (s.1.outp, s.2)) (fun s t => ({ s.1 with outp := t.1 }, t.2)) m

/-- The `switch` over the type of a column: a value is looked at and forgotten. -/
def fetchColumn (S : Session) (col : Nat) : Benchmarking types Unit :=
  match TestVM.columnType S.inpTypes col with
  | .double => do
    let _ ← onInp (TableIterator.getDouble col)
  | .int32 => do
    let _ ← onInp (TableIterator.getInt32 col)
  | .int64 => do
    let _ ← onInp (TableIterator.getInt64 col)
  | .string => do
    let _ ← onInp (TableIterator.getString col)
  | _ => return ()

def fetchColumns (S : Session) : List Nat → Benchmarking types Unit
  | [] => return ()
  | col :: cols => do
    fetchColumn S col
    fetchColumns S cols

/-- The `do` loop: the first row is read without a look at `eot()`. -/
def fetch (S : Session) (fuel : Nat) : Benchmarking types Unit :=
  loop (fun _ : Unit => do
    fetchColumns S (List.range S.inpNames.length)
    if ← onInp (TableIterator.next S) then return .inl ()
    else return .inr ()) fuel ()

def emitRow (S : Session) (text : ByteString) : Benchmarking types Unit := do
  onOutp (ResultHandler.setString S 0 text text.length)
  let (vm, _) ← get
  let _ ← onOutp (ResultHandler.next S vm.inp.currentRow)

def emit (S : Session) : Benchmarking types Unit := do
  emitRow S (str "test1")
  emitRow S (str "test2")
  onOutp (ResultHandler.flush S)

/-- The constructor: the members come first, so the iterator asks for data before the check. -/
def create (S : Session) : Benchmarking S.inputTypes Unit := do
  onInp (TableIterator.construct S)
  if S.inpIterType ≠ .multiple ∨ S.outIterType ≠ .multiple then
    throw (.swigvm (str "BENCHMARK language container only support SET-EMITS UDFs"))
  else return ()

def method (m : ∀ types, Benchmarking types α) : VmProc (Sigma BenchmarkVM) α := fun s =>
  let r := m s.1.state.1 (s.1.state.2, s.2)
  (r.1, { s.1 with state := ⟨_, r.2.1⟩ }, r.2.2)

/-- `try { … } catch (std::exception& err)`: what was caught is the VM's exception message. -/
def caught (m : VmProc (Sigma BenchmarkVM) Unit) : VmProc (Sigma BenchmarkVM) Unit :=
  catching m fun e => match e with
    | .other => throw .other
    | e => modify fun s => ({ s.1 with exceptionMsg := Client.what e }, s.2)

def run (S : Session) (fuel : Nat) : VmProc (Sigma BenchmarkVM) Bool := do
  caught do
    caught (method fun _ => fetch S fuel)
    caught (method fun _ => emit S)
    let (vm, _) ← get
    if 0 < vm.exceptionMsg.length then throw (.swigvm (cstr vm.exceptionMsg))
    else return ()
  return true

end BenchmarkVM

def benchmarkContainer (fuel : Nat) : Container (Sigma BenchmarkVM) where
  make S := do
    let vm ← construct { inp := {} } (BenchmarkVM.create S)
    return some { state := ⟨_, vm⟩ }
  run S := BenchmarkVM.run S fuel
  singleCall _ _ _ :=
    throw (.swigvm (str "singleCall not supported for the STREAMING language container"))
  shutdown _ := return ()
  destroy _ := return ()
  shutdown_ends _ _ h := h
  destroy_returns _ _ := rfl

end UdfRunner
