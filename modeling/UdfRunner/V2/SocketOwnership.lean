import UdfRunner.Lib.Ledger
import UdfRunner.V2.SocketLibrary

/-!
# Who owns a descriptor, and who a path

The log of the POSIX calls is a ledger: acquisitions and successful binds are gains, closings, hand outs and
unlinkings are losses, and what is held is what the objects hold. Every function has a triple that says
what its variables hold before and after it, also where it throws. `socketOwnership_exact`: nothing is
closed or unlinked twice, and nothing is left over.
-/

namespace UdfRunner
open Proc

variable {P : Type}

inductive SocketResource
  | descriptor (fd : Nat)
  | path (path : ByteString)
deriving DecidableEq

/-- What a call means for the books. -/
def PosixEvent.entry : PosixEvent P → Entry SocketResource
  | acquired _ fd => .gain (.descriptor fd)
  | handedOut fd => .lose (.descriptor fd)
  | close _ fd => .lose (.descriptor fd)
  | bind _ _ path succeeded => if succeeded then .gain (.path path) else .other
  | unlink _ path => .lose (.path path)
  | _ => .other

theorem PosixEvent.entry_eq_gain_path {e : PosixEvent P} {path : ByteString}
    (h : e.entry = .gain (.path path)) : ∃ posix fd, e = .bind posix fd path true := by
  cases e with
  | bind posix fd path' succeeded =>
    cases succeeded with
    | true =>
      obtain rfl : path' = path := by simpa [entry] using h
      exact ⟨posix, fd, rfl⟩
    | false => simp [entry] at h
  | _ => simp [entry] at h

/-- The objects and variables at hand hold `m`. -/
def Owns (m : Multiset SocketResource) (k : PosixState (PosixEvent P) PosixAnswer) : Prop :=
  Ledger PosixEvent.entry k.history m

def OwnedFileDescriptor.holds (x : OwnedFileDescriptor P) : Multiset SocketResource :=
  x.fileDescriptor.elim 0 fun fd => {.descriptor fd}

def UnixSocket.holds (x : UnixSocket P) : Multiset SocketResource := x.fileDescriptor.holds

def UnixSocketListener.holds (x : UnixSocketListener P) : Multiset SocketResource :=
  x.fileDescriptor.holds + if x.boundPath ≠ [] then {.path x.boundPath} else 0

def Wrapper.holds : Wrapper P → Multiset SocketResource
  | descriptor x => x.holds
  | socket x => x.holds
  | listener x => x.holds

/-- `m`, and what a call that succeeds adds to it. -/
def withResult {α : Type} (f : α → SocketResource) (m : Multiset SocketResource) :
    Except Nat α → Multiset SocketResource
  | .ok a => {f a} + m
  | .error _ => m

section
variable {m : Multiset SocketResource} {C : PosixState (PosixEvent P) PosixAnswer → Prop} {α : Type}

namespace Posix

theorem record_gains {e : PosixEvent P} {r : SocketResource} (he : e.entry = .gain r) :
    Triple (Owns m) (record e) (fun _ => Owns ({r} + m)) C :=
  Triple.modify fun _ h => Ledger.gain h he

theorem record_loses {e : PosixEvent P} {r : SocketResource} (he : e.entry = .lose r) :
    Triple (Owns ({r} + m)) (record e) (fun _ => Owns m) C :=
  Triple.modify fun _ h => Ledger.lose h he

theorem record_other {e : PosixEvent P} (he : e.entry = .other) :
    Triple (Owns m) (record e) (fun _ => Owns m) C :=
  Triple.modify fun _ h => Ledger.other h he

theorem answer_owns : Triple (Owns m) (answer : Posixly P PosixAnswer) (fun _ => Owns m) C :=
  answer_triple (R := fun l => Ledger PosixEvent.entry l m)

theorem newDescriptor_owns (posix : P) : Triple (Owns m) (newDescriptor posix)
    (fun r => Owns (withResult .descriptor m r)) C := by
  unfold newDescriptor
  refine answer_owns.bind fun a => ?_
  cases a with
  | fails errno => exact .pure fun _ h => h
  | descriptor fd => exact (record_gains rfl).bind fun _ => .pure fun _ h => h
  | done => exact .stop _
  | value v => exact .stop _

theorem accept4_owns (posix : P) (fd : Option Nat) (flags : Int) : Triple (Owns m) (accept4 posix fd flags)
    (fun r => Owns (withResult .descriptor m r)) C :=
  (record_other rfl).bind fun _ => newDescriptor_owns posix

theorem succeeds_owns {e : PosixEvent P} (he : e.entry = .other) :
    Triple (Owns m) (succeeds e) (fun _ => Owns m) C := by
  unfold succeeds
  refine (record_other he).bind fun _ => answer_owns.bind fun a => ?_
  cases a with
  | fails errno => exact .pure fun _ h => h
  | done => exact .pure fun _ h => h
  | descriptor fd => exact .stop _
  | value v => exact .stop _

theorem bind_owns (posix : P) (fd : Option Nat) (path : ByteString) : Triple (Owns m) (bind posix fd path)
    (fun r => Owns (withResult (fun _ => .path path) m r)) C := by
  unfold bind
  refine answer_owns.bind fun a => ?_
  cases a with
  | fails errno => exact (record_other rfl).bind fun _ => .pure fun _ h => h
  | done => exact (record_gains rfl).bind fun _ => .pure fun _ h => h
  | descriptor fd => exact .stop _
  | value v => exact .stop _

theorem getsockopt_owns (posix : P) (fd : Option Nat) (option : Nat) :
    Triple (Owns m) (getsockopt posix fd option) (fun _ => Owns m) C := by
  unfold getsockopt
  refine (record_other rfl).bind fun _ => answer_owns.bind fun a => ?_
  cases a with
  | fails errno => exact .pure fun _ h => h
  | value v => exact .pure fun _ h => h
  | descriptor fd => exact .stop _
  | done => exact .stop _

end Posix

namespace OwnedFileDescriptor

@[simp] theorem holds_empty (posix : Option P) : (empty posix).holds = 0 := rfl
@[simp] theorem holds_emptied (x : OwnedFileDescriptor P) : x.emptied.holds = 0 := rfl

theorem holds_of_open {x : OwnedFileDescriptor P} (h : x.isOpen) :
    x.holds = {.descriptor (x.fileDescriptor.get h)} := by
  rcases x with ⟨_ | fd, posix, hposix⟩
  · cases h
  · rfl

theorem holds_of_closed {x : OwnedFileDescriptor P} (h : ¬ x.isOpen) : x.holds = 0 := by
  rcases x with ⟨_ | fd, posix, hposix⟩
  · rfl
  · exact absurd rfl h

@[simp] theorem holds_moveConstruct (x : OwnedFileDescriptor P) :
    x.moveConstruct.1.holds = x.holds ∧ x.moveConstruct.2.holds = 0 := ⟨rfl, rfl⟩

theorem adopt_owns (fd : Nat) (posix : P) : Triple (Owns ({.descriptor fd} + m))
    (adoptNativeHandle fd posix) (fun x => Owns (x.holds + m)) C := by
  unfold adoptNativeHandle
  refine .ite (fun h => ?_) fun _ => .pure fun _ h => h
  omega

theorem close_owns (x : OwnedFileDescriptor P) : Triple (Owns (x.holds + m)) x.close (fun _ => Owns m) C := by
  unfold close
  split_ifs with h
  · rw [holds_of_open h]
    exact Posix.record_loses rfl
  · rw [holds_of_closed h, zero_add]
    exact .pure fun _ h => h

theorem moveAssign_owns (x y : OwnedFileDescriptor P) : Triple (Owns (x.holds + (y.holds + m)))
    (x.moveAssign y) (fun r => Owns (r.1.holds + (r.2.holds + m))) C := by
  refine x.close_owns.bind fun _ => .pure fun _ h => ?_
  simpa [moveConstruct] using h

theorem holding_owns {x : OwnedFileDescriptor P} {A : PosixState (PosixEvent P) PosixAnswer → Prop}
    {B : α → PosixState (PosixEvent P) PosixAnswer → Prop}
    {body : Posixly P α} (hbody : Triple A body B (Owns (x.holds + m))) :
    Triple A (x.holding body) B (Owns m) :=
  hbody.catching fun _ => x.close_owns.bind fun _ => .throw fun _ h => h

end OwnedFileDescriptor

theorem createSocket_owns (posix : P) :
    Triple (Owns m) (createSocket posix) (fun x => Owns (x.holds + m)) (Owns m) := by
  unfold createSocket
  refine (Posix.newDescriptor_owns posix).bind fun r => ?_
  cases r with
  | error errno => exact .throw fun _ h => h
  | ok fd => exact OwnedFileDescriptor.adopt_owns fd posix

namespace UnixSocket

theorem checkUnixStreamSocket_owns (fd : Option Nat) (posix : P) :
    Triple (Owns m) (checkUnixStreamSocket fd posix) (fun _ => Owns m) (Owns m) := by
  unfold checkUnixStreamSocket
  refine (Posix.getsockopt_owns posix fd _).bind fun r => ?_
  cases r with
  | error errno => exact .throw fun _ h => h
  | ok domain =>
    refine (Posix.getsockopt_owns posix fd _).bind fun r => ?_
    cases r with
    | error errno => exact .throw fun _ h => h
    | ok type => exact .ite (fun _ => .throw fun _ h => h) fun _ => .pure fun _ h => h

theorem connectLoop_owns (posix : P) (fd : Option Nat) (path : ByteString) :
    Triple (Owns m) (connectLoop posix fd path) (fun _ => Owns m) (Owns m) := by
  unfold connectLoop
  refine (Triple.get (B := fun _ => Owns m) fun _ h => h).bind fun k => ?_
  refine Triple.loop (I := fun _ => Owns m) (fun _ => ?_) _ ()
  refine (Posix.succeeds_owns rfl).bind fun r => ?_
  cases r with
  | ok u => exact .pure fun _ h => h
  | error errno => exact .ite (fun _ => .throw fun _ h => h) fun _ => .pure fun _ h => h

theorem moveOut_owns (x : OwnedFileDescriptor P) : Triple (Owns (x.holds + m))
    (do
      x.moveConstruct.2.destroy
      return ⟨x.moveConstruct.1⟩ : Posixly P (UnixSocket P))
    (fun s => Owns (s.holds + m)) C := by
  refine Triple.bind (B := fun _ => Owns (x.holds + m)) ?_ fun _ => .pure fun _ h => h
  have h := x.moveConstruct.2.close_owns (m := x.holds + m) (C := C)
  rwa [OwnedFileDescriptor.moveConstruct, OwnedFileDescriptor.holds_empty, zero_add] at h

theorem connect_owns (path : ByteString) (posix : P) :
    Triple (Owns m) (connect path posix) (fun s => Owns (s.holds + m)) (Owns m) := by
  unfold connect
  refine Triple.bind (B := fun _ => Owns m) ?_ fun _ => (createSocket_owns posix).bind fun x => ?_
  · exact .ite (fun _ => .throw fun _ h => h) fun _ => .pure fun _ h => h
  · exact (OwnedFileDescriptor.holding_owns (connectLoop_owns posix _ path)).bind fun _ => moveOut_owns x

theorem adopt_owns (x : OwnedFileDescriptor P) :
    Triple (Owns (x.holds + m)) (adoptNativeHandle x) (fun s => Owns (s.holds + m)) (Owns m) := by
  unfold adoptNativeHandle
  refine (OwnedFileDescriptor.holding_owns (B := fun _ => Owns (x.holds + m)) ?_).bind
    fun _ => moveOut_owns x
  split_ifs with h
  · exact checkUnixStreamSocket_owns _ _
  · exact .throw fun _ h => h

theorem close_owns (x : UnixSocket P) :
    Triple (Owns (x.holds + m)) x.close (fun s => Owns (s.holds + m)) C := by
  refine x.fileDescriptor.close_owns.bind fun _ => .pure fun _ h => ?_
  simpa [holds] using h

theorem destroy_owns (x : UnixSocket P) : Triple (Owns (x.holds + m)) x.destroy (fun _ => Owns m) C :=
  x.close_owns.bind fun x => x.fileDescriptor.close_owns

theorem moveAssign_owns (x y : UnixSocket P) : Triple (Owns (x.holds + (y.holds + m)))
    (x.moveAssign y) (fun r => Owns (r.1.holds + (r.2.holds + m))) C :=
  (x.fileDescriptor.moveAssign_owns y.fileDescriptor).bind fun _ => .pure fun _ h => h

theorem release_owns (x : UnixSocket P) : Triple (Owns (x.holds + m)) x.releaseNativeHandle
    (fun r => Owns (r.2.holds + (r.1.holds + m))) C := by
  unfold releaseNativeHandle
  split_ifs with h
  · rw [holds, OwnedFileDescriptor.holds_of_open h]
    refine (OwnedFileDescriptor.adopt_owns _ _).bind fun y => .pure fun _ h => ?_
    simpa [holds] using h
  · refine .pure fun _ hx => ?_
    rw [holds, OwnedFileDescriptor.holds_of_closed h] at hx
    simpa [holds] using hx

end UnixSocket

namespace UnixSocketListener

theorem unlinkSocketPath_owns {path : ByteString} (h : path ≠ []) (posix : P) :
    Triple (Owns ({.path path} + m)) (unlinkSocketPath path posix) (fun _ => Owns m) C := by
  unfold unlinkSocketPath
  rw [if_pos h]
  exact Posix.record_loses rfl

theorem listenOrUnlink_owns {path : ByteString} (h : path ≠ []) (x : OwnedFileDescriptor P) (posix : P)
    (backlog : Int) : Triple (Owns ({.path path} + m)) (listenOrUnlink x path posix backlog)
      (fun _ => Owns ({.path path} + m)) (Owns m) := by
  unfold listenOrUnlink
  refine Triple.catching ?_ fun _ => (unlinkSocketPath_owns h posix).bind fun _ => .throw fun _ h => h
  refine (Posix.succeeds_owns rfl).bind fun r => ?_
  cases r with
  | error errno => exact .throw fun _ h => h
  | ok u => exact .pure fun _ h => h

/-- `make_socket_address` lets no empty path through, which `close` would not unlink. -/
theorem bind_owns (path : ByteString) (posix : P) (backlog : Int) :
    Triple (Owns m) (bind path posix backlog) (fun x => Owns (x.holds + m)) (Owns m) := by
  unfold bind
  refine Triple.bind (B := fun _ k => path ≠ [] ∧ Owns m k) ?_ fun _ => ?_
  · exact .ite (fun _ => .throw fun _ h => h) fun hpath =>
      .pure fun _ h => ⟨fun hnil => hpath (.inl hnil), h⟩
  rintro k ⟨hpath, hk⟩
  refine (createSocket_owns posix).bind (fun x => ?_) k hk
  refine (OwnedFileDescriptor.holding_owns
    (B := fun _ => Owns ({.path path} + (x.holds + m))) ?_).bind fun _ => ?_
  · refine (Posix.bind_owns posix _ path).bind fun r => ?_
    cases r with
    | error errno => exact .throw fun _ h => h
    | ok u => exact listenOrUnlink_owns hpath x posix backlog
  · have hleft := x.moveConstruct.2.close_owns (m := {.path path} + (x.holds + m)) (C := Owns m)
    rw [OwnedFileDescriptor.moveConstruct, OwnedFileDescriptor.holds_empty, zero_add] at hleft
    refine hleft.bind fun _ => .pure fun _ h => ?_
    rw [holds, if_pos hpath, add_assoc, add_left_comm]
    exact h

@[simp] theorem holds_empty (posix : Option P) : (empty posix).holds = 0 := rfl
@[simp] theorem holds_emptied (x : UnixSocketListener P) : x.emptied.holds = 0 := rfl

theorem unlinkPath_owns (x : UnixSocketListener P) :
    Triple (Owns ((if x.boundPath ≠ [] then {.path x.boundPath} else 0) + m)) x.unlinkPath
      (fun _ => Owns m) C := by
  unfold unlinkPath
  split_ifs with h
  · exact unlinkSocketPath_owns h _
  · rw [zero_add]
    exact .pure fun _ h => h

theorem close_owns (x : UnixSocketListener P) :
    Triple (Owns (x.holds + m)) x.close (fun _ => Owns m) C := by
  unfold close
  rw [holds, add_assoc]
  exact x.fileDescriptor.close_owns.bind fun _ => x.unlinkPath_owns

theorem emptied_close_owns (x : UnixSocketListener P) :
    Triple (Owns m) x.emptied.fileDescriptor.close (fun _ => Owns m) C := by
  have h := x.emptied.fileDescriptor.close_owns (m := m) (C := C)
  rwa [emptied, OwnedFileDescriptor.holds_emptied, zero_add] at h

theorem destroy_owns (x : UnixSocketListener P) :
    Triple (Owns (x.holds + m)) x.destroy (fun _ => Owns m) C :=
  x.close_owns.bind fun _ => x.emptied_close_owns

theorem moveAssign_owns (x y : UnixSocketListener P) : Triple (Owns (x.holds + (y.holds + m)))
    (x.moveAssign y) (fun r => Owns (r.1.holds + (r.2.holds + m))) C := by
  unfold moveAssign
  refine x.close_owns.bind fun _ => ?_
  refine Triple.bind (B := fun _ => Owns (y.holds + m)) ?_ fun _ => .pure fun _ h => ?_
  · exact x.emptied_close_owns.bind fun _ => .pure fun _ h => h
  · simpa [moveConstruct] using h

theorem release_owns (x : UnixSocketListener P) : Triple (Owns (x.holds + m)) x.releaseNativeHandle
    (fun r => Owns (r.2.holds + (r.1.holds + m))) C := by
  unfold releaseNativeHandle
  rw [holds, add_assoc, add_left_comm]
  refine x.unlinkPath_owns.bind fun _ => ?_
  split_ifs with h
  · rw [OwnedFileDescriptor.holds_of_open h]
    refine (OwnedFileDescriptor.adopt_owns _ _).bind fun y => .pure fun _ h => ?_
    simpa using h
  · rw [OwnedFileDescriptor.holds_of_closed h]
    refine .pure fun _ h => ?_
    simpa using h

theorem acceptLoop_owns (posix : P) (fd : Option Nat) (flags : Int) : Triple (Owns m)
    (acceptLoop posix fd flags) (fun fd => Owns ({.descriptor fd} + m)) (Owns m) := by
  unfold acceptLoop
  refine (Triple.get (B := fun _ => Owns m) fun _ h => h).bind fun k => ?_
  refine Triple.loop (I := fun _ => Owns m) (fun _ => ?_) _ ()
  refine (Posix.accept4_owns posix fd flags).bind fun r => ?_
  cases r with
  | ok fd => exact .pure fun _ h => h
  | error errno => exact .ite (fun _ => .pure fun _ h => h) fun _ => .throw fun _ h => h

theorem accept_owns (x : UnixSocketListener P) (flags : Int) :
    Triple (Owns m) (x.accept flags) (fun s => Owns (s.holds + m)) (Owns m) := by
  unfold accept
  cases x.posixPointer with
  | none => exact .stop _
  | some posix =>
    refine (acceptLoop_owns posix _ flags).bind fun fd => ?_
    exact (OwnedFileDescriptor.adopt_owns fd posix).bind fun y => UnixSocket.adopt_owns y

end UnixSocketListener

/-- What a place in the table holds. -/
def holdsAt (o : Option (Wrapper P)) : Multiset SocketResource := o.elim 0 Wrapper.holds

@[simp] theorem holdsAt_some (x : Wrapper P) : holdsAt (some x) = x.holds := rfl
@[simp] theorem holdsAt_none : holdsAt (none : Option (Wrapper P)) = 0 := rfl

namespace Wrapper

@[simp] theorem holds_descriptor (x : OwnedFileDescriptor P) : (descriptor x).holds = x.holds := rfl
@[simp] theorem holds_socket (x : UnixSocket P) : (socket x).holds = x.holds := rfl
@[simp] theorem holds_listener (x : UnixSocketListener P) : (listener x).holds = x.holds := rfl

def nativeHandle : Wrapper P → Option Nat
  | descriptor x => x.fileDescriptor
  | socket x => x.fileDescriptor.fileDescriptor
  | listener x => x.fileDescriptor.fileDescriptor

theorem mem_holds_of_nativeHandle {x : Wrapper P} {fd : Nat} (h : x.nativeHandle = some fd) :
    .descriptor fd ∈ x.holds := by
  have hfd {y : OwnedFileDescriptor P} (hy : y.fileDescriptor = some fd) : .descriptor fd ∈ y.holds := by
    simp [OwnedFileDescriptor.holds, hy]
  cases x with
  | descriptor x => exact hfd h
  | socket x => exact hfd h
  | listener x => exact Multiset.mem_add.mpr (.inl (hfd h))

/-- The path of a listener, as long as it has one. -/
def boundPath : Wrapper P → Option ByteString
  | listener x => if x.boundPath ≠ [] then some x.boundPath else none
  | _ => none

theorem count_path (x : Wrapper P) (path : ByteString) :
    x.holds.count (.path path) = if x.boundPath = some path then 1 else 0 := by
  have hfd (y : OwnedFileDescriptor P) : y.holds.count (.path path) = 0 := by
    rcases y with ⟨_ | fd, posix, hposix⟩ <;> simp [OwnedFileDescriptor.holds]
  cases x with
  | descriptor x => simp [boundPath, hfd]
  | socket x => simp [boundPath, UnixSocket.holds, hfd]
  | listener x =>
    simp only [holds_listener, UnixSocketListener.holds, Multiset.count_add, hfd, boundPath]
    split_ifs <;> simp_all [eq_comm]

theorem moveConstruct_holds (x : Wrapper P) : x.moveConstruct.1.holds = x.holds ∧ x.moveConstruct.2.holds = 0 := by
  cases x <;> exact ⟨rfl, rfl⟩

theorem moveAssign_owns (x y : Wrapper P) : Triple (Owns (x.holds + (y.holds + m))) (x.moveAssign y)
    (fun r => Owns (r.1.holds + (r.2.holds + m))) C := by
  cases x with
  | descriptor x =>
    cases y with
    | descriptor y => exact (x.moveAssign_owns y).bind fun _ => .pure fun _ h => h
    | socket y => exact .stop _
    | listener y => exact .stop _
  | socket x =>
    cases y with
    | socket y => exact (x.moveAssign_owns y).bind fun _ => .pure fun _ h => h
    | descriptor y => exact .stop _
    | listener y => exact .stop _
  | listener x =>
    cases y with
    | listener y => exact (x.moveAssign_owns y).bind fun _ => .pure fun _ h => h
    | descriptor y => exact .stop _
    | socket y => exact .stop _

theorem close_owns (x : Wrapper P) :
    Triple (Owns (x.holds + m)) x.close (fun y => Owns (y.holds + m)) C := by
  cases x with
  | descriptor x =>
    refine x.close_owns.bind fun _ => .pure fun _ h => ?_
    simpa [holds] using h
  | socket x => exact x.close_owns.bind fun _ => .pure fun _ h => h
  | listener x =>
    refine x.close_owns.bind fun _ => .pure fun _ h => ?_
    simpa [holds] using h

theorem destroy_owns (x : Wrapper P) : Triple (Owns (x.holds + m)) x.destroy (fun _ => Owns m) C := by
  cases x with
  | descriptor x => exact x.close_owns
  | socket x => exact x.destroy_owns
  | listener x => exact x.destroy_owns

theorem release_owns (x : Wrapper P) : Triple (Owns (x.holds + m)) x.release
    (fun r => Owns (r.1.holds + (holdsAt r.2 + m))) C := by
  cases x with
  | descriptor x =>
    refine Triple.bind (B := fun _ => Owns m) ?_ fun _ => .pure fun _ h => ?_
    · rcases x with ⟨_ | fd, posix, hposix⟩
      · refine .pure fun _ h => ?_
        simpa [holds, OwnedFileDescriptor.holds] using h
      · exact Posix.record_loses rfl
    · simpa [holds, holdsAt, OwnedFileDescriptor.releaseNativeHandle] using h
  | socket x => exact x.release_owns.bind fun _ => .pure fun _ h => h
  | listener x => exact x.release_owns.bind fun _ => .pure fun _ h => h

end Wrapper

namespace SocketWorld

/-- The objects hold everything but `m`, which is at hand. -/
def Owns (m : Multiset SocketResource) (w : SocketWorld P) : Prop :=
  UdfRunner.Owns (m + heldBy holdsAt w.objects) w.posix

theorem onPosix_owns {f : Posixly P α} {A : α → Multiset SocketResource} {before thrown}
    (hf : ∀ m, Triple (UdfRunner.Owns (before + m)) f (fun a => UdfRunner.Owns (A a + m))
      (UdfRunner.Owns (thrown + m))) :
    Triple (Owns before) (onPosix f) (fun a => Owns (A a)) (Owns thrown) := by
  intro w hw
  refine Proc.Returns.mono (wp_onPosix (hf _ w.posix hw)) ?_ ?_
  · rintro a w' ⟨hobjects, hk⟩
    rwa [Owns, hobjects]
  · rintro w' ⟨hobjects, hk⟩
    rwa [Owns, hobjects]

theorem create_owns {C : SocketWorld P → Prop} (x : Wrapper P) :
    Triple (Owns x.holds) (create x) (fun _ => Owns 0) C := by
  refine .modify fun w hw => ?_
  rw [Owns, zero_add, heldBy_snoc, add_comm]
  exact hw

/-- What is done to an object is done to what it holds. -/
theorem onObject_owns {f : Wrapper P → Posixly P (Option (Wrapper P) × α)} {A : α → Multiset SocketResource}
    (hf : ∀ x m, Triple (UdfRunner.Owns (x.holds + m)) (f x)
      (fun r => UdfRunner.Owns (holdsAt r.1 + (A r.2 + m))) (UdfRunner.Owns (x.holds + m))) (o : Nat) :
    Triple (Owns 0) (onObject o f) (fun a => Owns (A a)) (Owns 0) := by
  refine fun w hw => wp_onObject fun x hx => ?_
  obtain ⟨rest, hheld, hset⟩ := heldBy_split (f := holdsAt) hx
  rw [Owns, zero_add, hheld] at hw
  refine Proc.Returns.mono (hf x rest w.posix hw) ?_ ?_
  · rintro ⟨left, a⟩ k hk
    show UdfRunner.Owns (A a + heldBy holdsAt (w.objects.set o left)) k
    rw [hset, add_left_comm]
    exact hk
  · intro k hk
    show UdfRunner.Owns (0 + heldBy holdsAt w.objects) k
    rwa [zero_add, hheld]

theorem onObjects_owns {f : Wrapper P → Wrapper P → Posixly P (Wrapper P × Wrapper P)}
    {C : SocketWorld P → Prop}
    (hf : ∀ x y m, Triple (UdfRunner.Owns (x.holds + (y.holds + m))) (f x y)
      (fun r => UdfRunner.Owns (r.1.holds + (r.2.holds + m))) fun _ => False) {o₁ o₂ : Nat} (h : o₁ ≠ o₂) :
    Triple (Owns 0) (onObjects o₁ o₂ f) (fun _ => Owns 0) C := by
  refine fun w hw => wp_onObjects fun x y hx hy => ?_
  obtain ⟨rest, hheld, hset⟩ := heldBy_split_two (f := holdsAt) hx hy h
  rw [Owns, zero_add, hheld] at hw
  refine Proc.Returns.mono (hf x y rest w.posix hw) ?_ fun _ hk => hk.elim
  rintro ⟨x', y'⟩ k hk
  show UdfRunner.Owns (0 + heldBy holdsAt ((w.objects.set o₁ (some x')).set o₂ (some y'))) k
  rw [hset, zero_add]
  exact hk

end SocketWorld

theorem adoptFromCaller_owns (fd : Int) (posix : P) :
    Triple (Owns m) (adoptFromCaller fd posix) (fun x => Owns (x.holds + m)) (Owns m) := by
  unfold adoptFromCaller OwnedFileDescriptor.adoptNativeHandle
  split_ifs
  · exact .throw fun _ h => h
  · show Triple (Owns m) (Posix.record _ >>= fun _ => Pure.pure _)
      (fun x : OwnedFileDescriptor P => Owns (x.holds + m)) _
    exact (Posix.record_gains rfl).bind fun _ => .pure fun _ h => h

open SocketWorld in
/-- Every operation, also one that throws, keeps the books. -/
theorem SocketOp.run_owns (op : SocketOp P) :
    Triple (SocketWorld.Owns 0) op.run (fun _ => SocketWorld.Owns 0) (SocketWorld.Owns 0) := by
  cases op with
  | makeEmpty posix => exact create_owns (.descriptor (.empty posix))
  | adopt fd posix =>
    exact (onPosix_owns fun m => by simpa using adoptFromCaller_owns fd posix).bind fun x =>
      create_owns (.descriptor x)
  | connect path posix =>
    exact (onPosix_owns fun m => by simpa using UnixSocket.connect_owns path posix).bind fun x =>
      create_owns (.socket x)
  | bind path posix backlog =>
    exact (onPosix_owns fun m => by simpa using UnixSocketListener.bind_owns path posix backlog).bind
      fun x => create_owns (.listener x)
  | accept o flags =>
    refine (onObject_owns (A := fun _ => 0) (fun x m => ?_) o).bind fun x => ?_
    · cases x with
      | listener x => exact .pure fun _ h => by simpa using h
      | descriptor x => exact .stop _
      | socket x => exact .stop _
    · exact (onPosix_owns fun m => by simpa using x.accept_owns flags).bind fun x =>
        create_owns (.socket x)
  | adoptSocket o =>
    refine (onObject_owns (A := OwnedFileDescriptor.holds) (fun x m => ?_) o).bind fun x => ?_
    · cases x with
      | descriptor x => exact .pure fun _ h => by simpa using h
      | listener x => exact .stop _
      | socket x => exact .stop _
    · exact (onPosix_owns fun m => by simpa using UnixSocket.adopt_owns x).bind fun x =>
        create_owns (.socket x)
  | moveConstruct o =>
    refine (onObject_owns (A := Wrapper.holds) (fun x m => ?_) o).bind fun x => create_owns x
    refine .pure fun _ h => ?_
    simpa [holdsAt, x.moveConstruct_holds] using h
  | moveAssign target source =>
    refine .ite (fun h => ?_) fun _ => .pure fun _ h => h
    exact onObjects_owns (fun x y m => x.moveAssign_owns y) h
  | close o =>
    refine onObject_owns (fun x m => ?_) o
    exact x.close_owns.bind fun y => .pure fun _ h => by simpa using h
  | release o =>
    refine (onObject_owns (A := holdsAt) (fun x m => ?_) o).bind fun x => ?_
    · exact x.release_owns.bind fun r => .pure fun _ h => h
    · cases x with
      | none => exact .pure fun _ h => h
      | some x => exact create_owns x
  | destroy o =>
    refine onObject_owns (fun x m => ?_) o
    exact x.destroy_owns.bind fun y => .pure fun _ h => by simpa [holdsAt] using h

end

namespace SocketWorld
variable {w w' : SocketWorld P}

theorem after_owns {ops : List (SocketOp P)} (hw : Owns 0 w) (h : w.after ops = some w') : Owns 0 w' := by
  induction ops generalizing w with
  | nil =>
    obtain rfl : w = w' := by simpa [after] using h
    exact hw
  | cons op ops ih =>
    have hrun := op.run_owns w hw
    unfold after at h
    unfold wp at hrun
    rcases hop : op.run w with ⟨u | e | r, w₁⟩ <;> rw [hop] at h hrun
    · exact ih hrun h
    · exact ih hrun h
    · cases h

/-- The descriptor an object has open. -/
def nativeHandle (w : SocketWorld P) (o : Nat) : Option Nat := w.objects[o]?.join.bind Wrapper.nativeHandle

theorem mem_of_nativeHandle {o fd : Nat} (h : w.nativeHandle o = some fd) :
    ∃ x, w.objects[o]? = some x ∧ .descriptor fd ∈ holdsAt x := by
  unfold nativeHandle at h
  rcases hx : w.objects[o]? with _ | _ | x
  · simp [hx] at h
  · simp [hx] at h
  · rw [hx] at h
    exact ⟨some x, rfl, x.mem_holds_of_nativeHandle h⟩

def boundPaths (w : SocketWorld P) : List ByteString := w.objects.filterMap (·.bind Wrapper.boundPath)

theorem count_boundPaths (path : ByteString) :
    w.boundPaths.count path = (heldBy holdsAt w.objects).count (.path path) := by
  unfold boundPaths
  induction w.objects with
  | nil => rfl
  | cons x l ih =>
    rw [heldBy_cons, Multiset.count_add, ← ih, List.filterMap_cons]
    cases x with
    | none => simp
    | some x =>
      rw [holdsAt_some, x.count_path, Option.bind_some]
      cases x.boundPath with
      | none => simp
      | some path' => simp [List.count_cons, add_comm]

def history (w : SocketWorld P) : List (PosixEvent P) := w.posix.history

def AllDestroyed (w : SocketWorld P) : Prop := ∀ x ∈ w.objects, x = none

instance : Decidable w.AllDestroyed :=
  decidable_of_iff (∀ x ∈ w.objects, x.isNone) (by simp [AllDestroyed])

theorem AllDestroyed.held (h : w.AllDestroyed) : heldBy holdsAt w.objects = 0 := by
  refine List.sum_eq_zero fun m hm => ?_
  obtain ⟨x, hx, rfl⟩ := List.mem_map.mp hm
  rw [h x hx]
  rfl

end SocketWorld

/-- Descriptors and paths are owned exactly, as long as POSIX and the callers of `adopt_native_handle` give
no descriptor that an object still has: a descriptor has one owner at most; its acquisitions and its
closings, or hand outs, take turns; and a path is unlinked once for each `bind` of it that succeeded. -/
theorem socketOwnership_exact (answers : List PosixAnswer) (ops : List (SocketOp P)) (w : SocketWorld P)
    (hrun : (SocketWorld.start answers).after ops = some w)
    (hposix : ∀ fd, NotReused PosixEvent.entry (.descriptor fd) w.history) :
    (∀ o₁ o₂ fd, w.nativeHandle o₁ = some fd → w.nativeHandle o₂ = some fd → o₁ = o₂) ∧
      (∀ o fd, w.nativeHandle o = some fd → Life PosixEvent.entry (.descriptor fd) true w.history) ∧
      (w.AllDestroyed → (∀ fd, Life PosixEvent.entry (.descriptor fd) false w.history) ∧
        ∀ path, losses PosixEvent.entry (.path path) w.history =
          gains PosixEvent.entry (.path path) w.history) ∧
      (∀ path, losses PosixEvent.entry (.path path) w.history + w.boundPaths.count path =
        gains PosixEvent.entry (.path path) w.history) ∧
      ∀ path, (∀ posix fd, .bind posix fd path true ∉ w.history) → ∀ posix, .unlink posix path ∉ w.history := by
  have howns : Ledger PosixEvent.entry w.history (heldBy holdsAt w.objects) := by
    have h := SocketWorld.after_owns (w := SocketWorld.start answers) Ledger.nil hrun
    rwa [SocketWorld.Owns, zero_add] at h
  have hone (fd : Nat) := howns.life (hposix fd)
  refine ⟨?_, ?_, ?_, fun path => ?_, ?_⟩
  · intro o₁ o₂ fd h₁ h₂
    obtain ⟨x, hx, hxfd⟩ := SocketWorld.mem_of_nativeHandle h₁
    obtain ⟨y, hy, hyfd⟩ := SocketWorld.mem_of_nativeHandle h₂
    refine eq_of_count_heldBy ?_ hx hy hxfd hyfd
    rw [(hone fd).1]
    split_ifs <;> omega
  · intro o fd h
    obtain ⟨x, hx, hxfd⟩ := SocketWorld.mem_of_nativeHandle h
    obtain ⟨hcount, hlife⟩ := hone fd
    cases hout : outstanding PosixEvent.entry (.descriptor fd) w.history with
    | true => rwa [hout] at hlife
    | false =>
      rw [hout] at hcount
      obtain ⟨rest, hheld, -⟩ := heldBy_split (f := holdsAt) hx
      have hmem := Multiset.one_le_count_iff_mem.mpr hxfd
      rw [hheld, Multiset.count_add] at hcount
      simp only [Bool.false_eq_true, if_false] at hcount
      omega
  · intro hall
    rw [hall.held] at howns hone
    refine ⟨fun fd => ?_, fun path => ?_⟩
    · obtain ⟨hcount, hlife⟩ := hone fd
      cases hout : outstanding PosixEvent.entry (.descriptor fd) w.history with
      | false => rwa [hout] at hlife
      | true => simp [hout] at hcount
    · simpa using (howns.count (.path path)).symm
  · rw [howns.count, SocketWorld.count_boundPaths]
  · intro path hbind posix hunlink
    have hcount := howns.count (.path path)
    have hnone : gains PosixEvent.entry (.path path) w.history = 0 := by
      refine List.countP_eq_zero.mpr fun e he hgain => ?_
      obtain ⟨posix, fd, rfl⟩ := PosixEvent.entry_eq_gain_path (of_decide_eq_true hgain)
      exact hbind posix fd he
    have hsome : 0 < losses PosixEvent.entry (.path path) w.history :=
      List.countP_pos_iff.mpr ⟨_, hunlink, by simp [PosixEvent.entry]⟩
    omega

/-- A `bind` fails, the next one is given the same number, and the listener moves before it goes. -/
theorem socketOwnership_exact_bind :
    let answers : List PosixAnswer := [.descriptor 3, .fails 98, .descriptor 3, .done, .done]
    let ops : List (SocketOp Unit) :=
      [.bind (str "s") () 1, .bind (str "s") () 1, .moveConstruct 0, .destroy 0, .destroy 1]
    ∃ w, (SocketWorld.start answers).after ops = some w ∧ w.AllDestroyed ∧
      losses PosixEvent.entry (.path (str "s")) w.history = 1 ∧
      losses PosixEvent.entry (.path (str "s")) w.history =
        gains PosixEvent.entry (.path (str "s")) w.history := by
  intro answers ops
  have hhistory : ((SocketWorld.start answers).after ops).map SocketWorld.history = some
      [.acquired () 3, .bind () (some 3) (str "s") false, .close () 3, .acquired () 3,
        .bind () (some 3) (str "s") true, .listen () (some 3) 1, .close () 3, .unlink () (str "s")] := rfl
  have hall : ((SocketWorld.start answers).after ops).all fun w => decide w.AllDestroyed := by decide +kernel
  rcases hrun : (SocketWorld.start answers).after ops with _ | w
  · simp [hrun] at hhistory
  obtain hw : w.history = _ := by simpa only [hrun, Option.map_some, Option.some.injEq] using hhistory
  have hdestroyed : w.AllDestroyed := by simpa [hrun] using hall
  have hposix : ∀ fd, NotReused PosixEvent.entry (.descriptor fd) w.history := ?_
  have hexact := (socketOwnership_exact answers ops w hrun hposix).2.2.1 hdestroyed
  refine ⟨w, rfl, hdestroyed, ?_, hexact.2 _⟩
  · rw [hw]
    decide
  intro fd
  rw [hw]
  refine .of_take fun n e he hgain => ?_
  have hn : n < 8 := (List.getElem?_eq_some_iff.mp he).1
  interval_cases n <;> simp at he <;> subst he <;> simp [PosixEvent.entry] at hgain
  · rfl
  · subst hgain
    rfl

end UdfRunner
