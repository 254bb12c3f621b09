import UdfRunner.V2.Posix

/-!
# The socket library

`owned_file_descriptor.cc`, `unix_socket.cc`, `unix_socket_listener.cc` and `unix_socket_detail.cc` over a
POSIX that answers as it likes, and programs that make, move, close, release and destroy such objects.
-/

namespace UdfRunner
open Proc

/-- What a POSIX call gives: -1 and an `errno`, 0, a value or a new descriptor. -/
inductive PosixAnswer
  | fails (errno : Nat)
  | done
  | value (v : Int)
  | descriptor (fd : Nat)
deriving DecidableEq, Repr

structure Iovec where
  iovBase : UInt64
  iovLen : UInt64
deriving DecidableEq, Repr

/-- The calls that were made, through which facade, and the descriptors that came from a caller or were
handed out to one. -/
inductive PosixEvent (P : Type)
  | acquired (posix : P) (fd : Nat)
  | handedOut (fd : Nat)
  | close (posix : P) (fd : Nat)
  | connect (posix : P) (fd : Option Nat) (path : ByteString)
  | bind (posix : P) (fd : Option Nat) (path : ByteString) (succeeded : Bool)
  | listen (posix : P) (fd : Option Nat) (backlog : Int)
  | accept4 (posix : P) (fd : Option Nat) (flags : Int)
  | getsockopt (posix : P) (fd : Option Nat) (option : Nat)
  | unlink (posix : P) (path : ByteString)
  | shutdown (posix : P) (fd : Option Nat) (how : Nat)
  | readv (posix : P) (fd : Option Nat) (buffers : List Iovec) (bufferCount : Int)
  | sendmsg (posix : P) (fd : Option Nat) (buffers : List Iovec) (bufferCount : UInt64) (flags : Nat)
deriving DecidableEq

abbrev Posixly (P : Type) := Proc (PosixState (PosixEvent P) PosixAnswer) PosixError

variable {P : Type}

namespace Posix

def EPROTOTYPE : Nat := 91
def AF_UNIX : Int := 1
def SOCK_STREAM : Int := 1
def SO_TYPE : Nat := 3
def SO_DOMAIN : Nat := 39

def newDescriptor (posix : P) : Posixly P (Except Nat Nat) := do
  match ← answer with
  | .fails errno => return .error errno
  | .descriptor fd => do
    record (.acquired posix fd)
    return .ok fd
  | _ => stop .undefined

def socket (posix : P) : Posixly P (Except Nat Nat) := newDescriptor posix

def accept4 (posix : P) (fd : Option Nat) (flags : Int) : Posixly P (Except Nat Nat) := do
  record (.accept4 posix fd flags)
  newDescriptor posix

def succeeds (e : PosixEvent P) : Posixly P (Except Nat Unit) := do
  record e
  match ← answer with
  | .fails errno => return .error errno
  | .done => return .ok ()
  | _ => stop .undefined

def connect (posix : P) (fd : Option Nat) (path : ByteString) : Posixly P (Except Nat Unit) :=
  succeeds (.connect posix fd path)

def listen (posix : P) (fd : Option Nat) (backlog : Int) : Posixly P (Except Nat Unit) :=
  succeeds (.listen posix fd backlog)

def bind (posix : P) (fd : Option Nat) (path : ByteString) : Posixly P (Except Nat Unit) := do
  match ← answer with
  | .fails errno => do
    record (.bind posix fd path false)
    return .error errno
  | .done => do
    record (.bind posix fd path true)
    return .ok ()
  | _ => stop .undefined

def getsockopt (posix : P) (fd : Option Nat) (option : Nat) : Posixly P (Except Nat Int) := do
  record (.getsockopt posix fd option)
  match ← answer with
  | .fails errno => return .error errno
  | .value v => return .ok v
  | _ => stop .undefined

end Posix

/-- `none` is -1. The facade is there as long as the descriptor is. -/
structure OwnedFileDescriptor (P : Type) where
  fileDescriptor : Option Nat := none
  posixPointer : Option P
  hposix : fileDescriptor.isSome → posixPointer.isSome

namespace OwnedFileDescriptor

def empty (posix : Option P) : OwnedFileDescriptor P := ⟨none, posix, by simp⟩

def isOpen (x : OwnedFileDescriptor P) : Bool := x.fileDescriptor.isSome

/-- `posix_facade()` of an open descriptor. -/
def posixFacade (x : OwnedFileDescriptor P) (h : x.isOpen) : P := x.posixPointer.get (x.hposix h)

def adoptNativeHandle (ownedFd : Int) (posix : P) : Posixly P (OwnedFileDescriptor P) :=
  if ownedFd < 0 then throw (.invalidArgument (str "adopt invalid file descriptor"))
  else return ⟨some ownedFd.toNat, some posix, by simp⟩

/-- What `close` and `release_native_handle` leave. -/
def emptied (this : OwnedFileDescriptor P) : OwnedFileDescriptor P := empty this.posixPointer

/-- The move constructor: the new object, and what is left of the other. -/
def moveConstruct (other : OwnedFileDescriptor P) : OwnedFileDescriptor P × OwnedFileDescriptor P :=
  (other, empty none)

def close (this : OwnedFileDescriptor P) : Posixly P Unit :=
  if h : this.isOpen then Posix.record (.close (this.posixFacade h) (this.fileDescriptor.get h))
  else return ()

def destroy (this : OwnedFileDescriptor P) : Posixly P Unit := this.close

def moveAssign (this other : OwnedFileDescriptor P) :
    Posixly P (OwnedFileDescriptor P × OwnedFileDescriptor P) := do
  this.close
  return other.moveConstruct

def releaseNativeHandle (this : OwnedFileDescriptor P) : Option Nat × OwnedFileDescriptor P :=
  (this.fileDescriptor, this.emptied)

/-- The body of a block that holds `x`: an exception destroys `x` on its way out. -/
def holding {α : Type} (x : OwnedFileDescriptor P) (body : Posixly P α) : Posixly P α :=
  catching body fun e => do
    x.destroy
    throw e

end OwnedFileDescriptor

/-! ### `unix_socket_detail.cc` -/

/-- `sizeof(sockaddr_un::sun_path)`. -/
def sunPathSize : Nat := 108

def makeSocketAddress (path : ByteString) : Posixly P Unit :=
  if path = [] ∨ 0 ∈ path ∨ sunPathSize ≤ path.length then
    throw (.invalidArgument (str "invalid Unix socket path: " ++ path))
  else return ()

def createSocket (posix : P) : Posixly P (OwnedFileDescriptor P) := do
  match ← Posix.socket posix with
  | .error errno => throw (.systemError errno (str "create Unix socket"))
  | .ok fd => OwnedFileDescriptor.adoptNativeHandle fd posix

/-! ### `unix_socket.cc` -/

structure UnixSocket (P : Type) where
  fileDescriptor : OwnedFileDescriptor P

namespace UnixSocket

def checkUnixStreamSocket (fd : Option Nat) (posix : P) : Posixly P Unit := do
  match ← Posix.getsockopt posix fd Posix.SO_DOMAIN with
  | .error errno => throw (.systemError errno (str "inspect socket domain"))
  | .ok domain =>
    match ← Posix.getsockopt posix fd Posix.SO_TYPE with
    | .error errno => throw (.systemError errno (str "inspect socket type"))
    | .ok type =>
      if domain ≠ Posix.AF_UNIX ∨ type ≠ Posix.SOCK_STREAM then
        throw (.systemError Posix.EPROTOTYPE (str "expected Unix stream socket"))
      else return ()

/-- The `while` of `connect`: an interrupted call is made again. -/
def connectLoop (posix : P) (fd : Option Nat) (path : ByteString) : Posixly P Unit := do
  let k ← get
  loop (fun _ : Unit => do
    match ← Posix.connect posix fd path with
    | .ok () => return .inr ()
    | .error errno =>
      if errno ≠ Posix.EINTR then
        throw (.systemError errno (str "connect Unix socket '" ++ path ++ str "'"))
      else return .inl ()) (k.answers.length + 1) ()

def connect (path : ByteString) (posix : P) : Posixly P (UnixSocket P) := do
  makeSocketAddress path
  let socketFd ← createSocket posix
  socketFd.holding (connectLoop posix socketFd.fileDescriptor path)
  let (taken, left) := socketFd.moveConstruct
  left.destroy
  return ⟨taken⟩

/-- The parameter `ownedFd` is destroyed with the call, whatever it still owns. -/
def adoptNativeHandle (ownedFd : OwnedFileDescriptor P) : Posixly P (UnixSocket P) := do
  ownedFd.holding (
    if h : ownedFd.isOpen then
      checkUnixStreamSocket ownedFd.fileDescriptor (ownedFd.posixFacade h)
    else throw (.systemError Posix.EBADF (str "adopt closed socket")))
  let (taken, left) := ownedFd.moveConstruct
  left.destroy
  return ⟨taken⟩

def moveConstruct (other : UnixSocket P) : UnixSocket P × UnixSocket P :=
  let (taken, left) := other.fileDescriptor.moveConstruct
  (⟨taken⟩, ⟨left⟩)

def close (this : UnixSocket P) : Posixly P (UnixSocket P) := do
  this.fileDescriptor.close
  return ⟨this.fileDescriptor.emptied⟩

def destroy (this : UnixSocket P) : Posixly P Unit := do
  let this ← this.close
  this.fileDescriptor.destroy

def moveAssign (this other : UnixSocket P) : Posixly P (UnixSocket P × UnixSocket P) := do
  let (taken, left) ← this.fileDescriptor.moveAssign other.fileDescriptor
  return (⟨taken⟩, ⟨left⟩)

def releaseNativeHandle (this : UnixSocket P) : Posixly P (OwnedFileDescriptor P × UnixSocket P) := do
  let left : UnixSocket P := ⟨this.fileDescriptor.emptied⟩
  if h : this.fileDescriptor.isOpen then do
    let released ← OwnedFileDescriptor.adoptNativeHandle (this.fileDescriptor.fileDescriptor.get h)
      (this.fileDescriptor.posixFacade h)
    return (released, left)
  else return (.empty this.fileDescriptor.posixPointer, left)

end UnixSocket

/-! ### `unix_socket_listener.cc` -/

/-- The facade is there as long as the descriptor or the path is. -/
structure UnixSocketListener (P : Type) where
  fileDescriptor : OwnedFileDescriptor P
  boundPath : ByteString
  posixPointer : Option P
  hopen : fileDescriptor.isOpen → posixPointer.isSome
  hbound : boundPath ≠ [] → posixPointer.isSome

namespace UnixSocketListener

/-- `unlink_socket_path`; the path is empty afterwards. -/
def unlinkSocketPath (path : ByteString) (posix : P) : Posixly P Unit :=
  if path ≠ [] then Posix.record (.unlink posix path) else return ()

def unlinkPath (this : UnixSocketListener P) : Posixly P Unit :=
  if h : this.boundPath ≠ [] then unlinkSocketPath this.boundPath (this.posixPointer.get (this.hbound h))
  else return ()

/-- From `SocketPathCleanup` on: while `listen` may fail, `cleanup_path` holds the path. -/
def listenOrUnlink (socketFd : OwnedFileDescriptor P) (path : ByteString) (posix : P) (backlog : Int) :
    Posixly P Unit :=
  catching
    (do
      match ← Posix.listen posix socketFd.fileDescriptor backlog with
      | .error errno => throw (.systemError errno (str "listen on Unix socket"))
      | .ok () => return ())
    fun e => do
      unlinkSocketPath path posix
      throw e

def bind (path : ByteString) (posix : P) (backlog : Int) : Posixly P (UnixSocketListener P) := do
  makeSocketAddress path
  let socketFd ← createSocket posix
  socketFd.holding (do
    match ← Posix.bind posix socketFd.fileDescriptor path with
    | .error errno =>
      throw (.systemError errno (str "bind Unix socket listener '" ++ path ++ str "'"))
    | .ok () => listenOrUnlink socketFd path posix backlog)
  let (taken, left) := socketFd.moveConstruct
  left.destroy
  return ⟨taken, path, some posix, by simp, by simp⟩

/-- Without descriptor and path. -/
def empty (posix : Option P) : UnixSocketListener P :=
  ⟨.empty posix, [], posix, by simp [OwnedFileDescriptor.empty, OwnedFileDescriptor.isOpen], by simp⟩

def moveConstruct (other : UnixSocketListener P) : UnixSocketListener P × UnixSocketListener P :=
  (other, empty none)

/-- What `close` and `release_native_handle` leave. -/
def emptied (this : UnixSocketListener P) : UnixSocketListener P where
  fileDescriptor := this.fileDescriptor.emptied
  boundPath := []
  posixPointer := this.posixPointer
  hopen := by simp [OwnedFileDescriptor.emptied, OwnedFileDescriptor.empty, OwnedFileDescriptor.isOpen]
  hbound := by simp

def close (this : UnixSocketListener P) : Posixly P Unit := do
  this.fileDescriptor.close
  this.unlinkPath

/-- After `close` the members have nothing left to destroy. -/
def destroy (this : UnixSocketListener P) : Posixly P Unit := do
  this.close
  this.emptied.fileDescriptor.destroy

def moveAssign (this other : UnixSocketListener P) :
    Posixly P (UnixSocketListener P × UnixSocketListener P) := do
  this.close
  let _ ← this.emptied.fileDescriptor.moveAssign other.fileDescriptor
  return other.moveConstruct

def releaseNativeHandle (this : UnixSocketListener P) :
    Posixly P (OwnedFileDescriptor P × UnixSocketListener P) := do
  this.unlinkPath
  if h : this.fileDescriptor.isOpen then do
    let released ← OwnedFileDescriptor.adoptNativeHandle (this.fileDescriptor.fileDescriptor.get h)
      (this.posixPointer.get (this.hopen h))
    return (released, this.emptied)
  else return (.empty this.posixPointer, this.emptied)

def acceptLoop (posix : P) (fd : Option Nat) (flags : Int) : Posixly P Nat := do
  let k ← get
  loop (fun _ : Unit => do
    match ← Posix.accept4 posix fd flags with
    | .ok accepted => return .inr accepted
    | .error errno =>
      if errno = Posix.EINTR then return .inl ()
      else throw (.systemError errno (str "accept Unix socket connection"))) (k.answers.length + 1) ()

/-- A moved-from listener has no facade to call. -/
def accept (this : UnixSocketListener P) (flags : Int) : Posixly P (UnixSocket P) :=
  match this.posixPointer with
  | none => stop .undefined
  | some posix => do
    let acceptedFd ← acceptLoop posix this.fileDescriptor.fileDescriptor flags
    let owned ← OwnedFileDescriptor.adoptNativeHandle acceptedFd posix
    UnixSocket.adoptNativeHandle owned

end UnixSocketListener

/-! ### Programs with such objects -/

inductive Wrapper (P : Type)
  | descriptor (x : OwnedFileDescriptor P)
  | socket (x : UnixSocket P)
  | listener (x : UnixSocketListener P)

/-- An operation on the objects, which are numbered as they are made. -/
inductive SocketOp (P : Type)
  | makeEmpty (posix : Option P)
  | adopt (fd : Int) (posix : P)
  | connect (path : ByteString) (posix : P)
  | bind (path : ByteString) (posix : P) (backlog : Int)
  | accept (o : Nat) (flags : Int)
  | adoptSocket (o : Nat)
  | moveConstruct (o : Nat)
  | moveAssign (target source : Nat)
  | close (o : Nat)
  | release (o : Nat)
  | destroy (o : Nat)
deriving DecidableEq

/-- A destroyed object leaves `none`. -/
structure SocketWorld (P : Type) where
  objects : List (Option (Wrapper P)) := []
  posix : PosixState (PosixEvent P) PosixAnswer

abbrev OnObjects (P : Type) := Proc (SocketWorld P) PosixError

namespace Wrapper

def moveConstruct : Wrapper P → Wrapper P × Wrapper P
  | descriptor x => let (y, left) := x.moveConstruct; (.descriptor y, .descriptor left)
  | socket x => let (y, left) := x.moveConstruct; (.socket y, .socket left)
  | listener x => let (y, left) := x.moveConstruct; (.listener y, .listener left)

/-- Only objects of one class are assigned. -/
def moveAssign : Wrapper P → Wrapper P → Posixly P (Wrapper P × Wrapper P)
  | descriptor x, descriptor y => do
    let (x, y) ← x.moveAssign y
    return (.descriptor x, .descriptor y)
  | socket x, socket y => do
    let (x, y) ← x.moveAssign y
    return (.socket x, .socket y)
  | listener x, listener y => do
    let (x, y) ← x.moveAssign y
    return (.listener x, .listener y)
  | _, _ => stop .undefined

def close : Wrapper P → Posixly P (Wrapper P)
  | descriptor x => do
    x.close
    return .descriptor x.emptied
  | socket x => do
    return .socket (← x.close)
  | listener x => do
    x.close
    return .listener x.emptied

def destroy : Wrapper P → Posixly P Unit
  | descriptor x => x.destroy
  | socket x => x.destroy
  | listener x => x.destroy

/-- `release_native_handle`: the number goes to the caller or to a new `OwnedFileDescriptor`. -/
def release : Wrapper P → Posixly P (Wrapper P × Option (Wrapper P))
  | descriptor x => do
    let (released, left) := x.releaseNativeHandle
    released.forM fun fd => Posix.record (.handedOut fd)
    return (.descriptor left, none)
  | socket x => do
    let (released, left) ← x.releaseNativeHandle
    return (.socket left, some (.descriptor released))
  | listener x => do
    let (released, left) ← x.releaseNativeHandle
    return (.listener left, some (.descriptor released))

end Wrapper

namespace SocketWorld

def onPosix {α : Type} (m : Posixly P α) : OnObjects P α := zoom posix (fun w k => { w with posix := k }) m

section
variable {α : Type} {B : α → PosixState (PosixEvent P) PosixAnswer → Prop}
  {C : PosixState (PosixEvent P) PosixAnswer → Prop}

theorem wp_onPosix {f : Posixly P α} {w : SocketWorld P} (h : wp f (Proc.Returns B C) w.posix) :
    wp (onPosix f) (Proc.Returns (fun a w' => w'.objects = w.objects ∧ B a w'.posix)
      fun w' => w'.objects = w.objects ∧ C w'.posix) w := by
  unfold onPosix
  rw [wp_zoom]
  refine wp_mono h fun o k ho => ?_
  cases o with
  | ok a => exact ⟨rfl, ho⟩
  | throw e => exact ⟨rfl, ho⟩
  | stop r => trivial

end

def create (x : Wrapper P) : OnObjects P Unit := modify fun w => { w with objects := w.objects ++ [some x] }

/-- A member function of one object: what it leaves of the object, and what it returns. -/
def onObject {α : Type} (o : Nat) (f : Wrapper P → Posixly P (Option (Wrapper P) × α)) :
    OnObjects P α := do
  let w ← get
  match w.objects[o]? with
  | some (some x) => do
    let (left, a) ← onPosix (f x)
    modify fun w => { w with objects := w.objects.set o left }
    return a
  | _ => stop .undefined

/-- A function of two objects. -/
def onObjects (o₁ o₂ : Nat) (f : Wrapper P → Wrapper P → Posixly P (Wrapper P × Wrapper P)) :
    OnObjects P Unit := do
  let w ← get
  match w.objects[o₁]?, w.objects[o₂]? with
  | some (some x), some (some y) => do
    let (x, y) ← onPosix (f x y)
    modify fun w => { w with objects := (w.objects.set o₁ (some x)).set o₂ (some y) }
  | _, _ => stop .undefined

section
variable {α : Type} {w : SocketWorld P} {C : SocketWorld P → Prop}

theorem wp_onObject {f : Wrapper P → Posixly P (Option (Wrapper P) × α)} {o : Nat} {Q : α → SocketWorld P → Prop}
    (hf : ∀ x, w.objects[o]? = some (some x) → wp (f x) (Proc.Returns
      (fun r k => Q r.2 { w with posix := k, objects := w.objects.set o r.1 })
      fun k => C { w with posix := k }) w.posix) :
    wp (onObject o f) (Proc.Returns Q C) w := by
  unfold onObject
  rw [wp_bind, wp_get, Outcome.andThen_ok]
  rcases hx : w.objects[o]? with _ | _ | x
  · trivial
  · trivial
  refine Proc.Returns.bind (Proc.Returns.mono (wp_onPosix (hf x hx)) (fun _ _ h => h) ?_) ?_
  · rintro ⟨k, objects⟩ ⟨rfl, hC⟩
    exact hC
  · rintro ⟨left, a⟩ ⟨k, objects⟩ ⟨rfl, hQ⟩
    exact hQ

theorem wp_onObjects {f : Wrapper P → Wrapper P → Posixly P (Wrapper P × Wrapper P)} {o₁ o₂ : Nat}
    {Q : Unit → SocketWorld P → Prop}
    (hf : ∀ x y, w.objects[o₁]? = some (some x) → w.objects[o₂]? = some (some y) → wp (f x y) (Proc.Returns
      (fun r k => Q () { w with posix := k, objects := (w.objects.set o₁ (some r.1)).set o₂ (some r.2) })
      fun k => C { w with posix := k }) w.posix) :
    wp (onObjects o₁ o₂ f) (Proc.Returns Q C) w := by
  unfold onObjects
  rw [wp_bind, wp_get, Outcome.andThen_ok]
  rcases hx : w.objects[o₁]? with _ | _ | x
  · trivial
  · trivial
  rcases hy : w.objects[o₂]? with _ | _ | y
  · trivial
  · trivial
  refine Proc.Returns.bind (Proc.Returns.mono (wp_onPosix (hf x y hx hy)) (fun _ _ h => h) ?_) ?_
  · rintro ⟨k, objects⟩ ⟨rfl, hC⟩
    exact hC
  · rintro ⟨x', y'⟩ ⟨k, objects⟩ ⟨rfl, hQ⟩
    exact hQ

end

end SocketWorld

/-- A caller gives up its descriptor where `adopt_native_handle` returns. -/
def adoptFromCaller (fd : Int) (posix : P) : Posixly P (OwnedFileDescriptor P) := do
  let x ← OwnedFileDescriptor.adoptNativeHandle fd posix
  Posix.record (.acquired posix fd.toNat)
  return x

open SocketWorld in
def SocketOp.run : SocketOp P → OnObjects P Unit
  | .makeEmpty posix => create (.descriptor (.empty posix))
  | .adopt fd posix => do
    create (.descriptor (← onPosix (adoptFromCaller fd posix)))
  | .connect path posix => do
    create (.socket (← onPosix (UnixSocket.connect path posix)))
  | .bind path posix backlog => do
    create (.listener (← onPosix (UnixSocketListener.bind path posix backlog)))
  | .accept o flags => do
    let x ← onObject o fun
      | .listener x => return (some (.listener x), x)
      | _ => stop .undefined
    create (.socket (← onPosix (x.accept flags)))
  | .adoptSocket o => do
    let x ← onObject o fun
      | .descriptor x => return (some (.descriptor x.moveConstruct.2), x.moveConstruct.1)
      | _ => stop .undefined
    create (.socket (← onPosix (UnixSocket.adoptNativeHandle x)))
  | .moveConstruct o => do
    create (← onObject o fun x => return (some x.moveConstruct.2, x.moveConstruct.1))
  | .moveAssign target source =>
    -- `this != &other`
    if target ≠ source then onObjects target source Wrapper.moveAssign else return ()
  | .close o => onObject o fun x => do
    return (some (← x.close), ())
  | .release o => do
    let released ← onObject o fun x => do
      let (left, released) ← x.release
      return (some left, released)
    released.forM create
  | .destroy o => onObject o fun x => do
    x.destroy
    return (none, ())

/-- The operations one after another: an exception is the caller's, and a program that does what is
undefined, or waits for an answer that does not come, gets nowhere. -/
def SocketWorld.after : SocketWorld P → List (SocketOp P) → Option (SocketWorld P)
  | w, [] => some w
  | w, op :: ops =>
    match op.run w with
    | (.stop _, _) => none
    | (_, w') => w'.after ops

/-- Before the first operation: POSIX will answer with `answers`. -/
def SocketWorld.start (answers : List PosixAnswer) : SocketWorld P := { posix := { answers := answers } }

end UdfRunner
