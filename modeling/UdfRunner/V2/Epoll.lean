import Mathlib.Data.List.ReduceOption
import UdfRunner.V2.Posix

/-!
# `linux_epoll.cc`: registrations and the kernel's interest list

An epoll object owns its state, and registrations refer to it weakly. `epollRegistrations_mirror`: as long
as the epoll is open the kernel knows exactly the live registrations, and its number is not used afterwards.
-/

namespace UdfRunner
open Proc

structure EpollInterest where
  readable : Bool := false
  writable : Bool := false
deriving DecidableEq, Repr

/-- `epoll_event`. -/
structure NativeEvent where
  events : UInt32
  data : UInt64
deriving DecidableEq, Repr

structure EpollReadyEvent where
  token : UInt64
  readable : Bool
  writable : Bool
  error : Bool
  hangup : Bool
  peerClosed : Bool
deriving DecidableEq, Repr

inductive EpollCall
  | epollCreate1
  | epollCtlAdd (epollFd : Nat) (fd : Int) (event : NativeEvent)
  | epollCtlMod (epollFd : Nat) (fd : Int) (event : NativeEvent)
  | epollCtlDel (epollFd : Nat) (fd : Int)
  | epollWait (epollFd : Nat) (maxEvents : Nat) (timeout : Int)
  | epollWaited (result : Int) (errno : Nat) (events : List NativeEvent)
  | steadyClockNow (now : Int)
  | close (fd : Nat)
deriving DecidableEq, Repr

/-- What POSIX gives. `epoll_wait` gives its result, `errno` and the events it has written, and
`steady_clock` its nanoseconds. -/
inductive EpollAnswer
  | fails (errno : Nat)
  | done
  | descriptor (fd : Nat)
  | waited (result : Int) (errno : Nat) (written : List NativeEvent)
  | now (ns : Int)
deriving DecidableEq, Repr

/-- The kernel's open epoll and its interest list. -/
structure EpollKernel where
  epoll : Option Nat := none
  interests : List (Int × NativeEvent) := []
deriving DecidableEq, Repr

/-- `-1` is `none`. -/
structure NativeEpollState where
  fileDescriptor : Option Nat
deriving DecidableEq, Repr

/-- A registration, with what the last `add` or `modify` of it that returned asked for. -/
structure NativeEpollRegistration where
  fileDescriptor : Int
  interest : EpollInterest
  token : UInt64
deriving DecidableEq, Repr

/-- The state is there as long as the epoll object is, `events` is the vector that the caller of `wait`
passes. A destroyed registration leaves `none`. -/
structure EpollWorld where
  posix : PosixState EpollCall EpollAnswer
  kernel : EpollKernel := {}
  state : Option NativeEpollState := none
  nativeEvents : List NativeEvent := []
  events : List EpollReadyEvent := []
  registrations : List (Option NativeEpollRegistration) := []

abbrev Epolling := Proc EpollWorld PosixError

namespace Posix

def EEXIST : Nat := 17
def ENOENT : Nat := 2
def EPOLLIN : UInt32 := 0x001
def EPOLLOUT : UInt32 := 0x004
def EPOLLERR : UInt32 := 0x008
def EPOLLHUP : UInt32 := 0x010
def EPOLLRDHUP : UInt32 := 0x2000

def epollRecord (call : EpollCall) : Epolling Unit :=
  zoom EpollWorld.posix (fun w k => { w with posix := k }) (record call)

def epollAnswer : Epolling EpollAnswer := zoom EpollWorld.posix (fun w k => { w with posix := k }) answer

def setInterests (f : List (Int × NativeEvent) → List (Int × NativeEvent)) : Epolling Unit :=
  modify fun w => { w with kernel := { w.kernel with interests := f w.kernel.interests } }

/-- A call that may fail for reasons of its own, and else has an effect. -/
def mayFail (effect : Epolling Unit) : Epolling (Except Nat Unit) := do
  match ← epollAnswer with
  | .fails errno => return .error errno
  | .done => do
    effect
    return .ok ()
  | _ => stop .undefined

def epollCreate1 : Epolling (Except Nat Nat) := do
  epollRecord .epollCreate1
  match ← epollAnswer with
  | .fails errno => return .error errno
  | .descriptor fd => do
    modify fun w => { w with kernel := { epoll := some fd } }
    return .ok fd
  | _ => stop .undefined

/-- A descriptor that is registered is not added again. -/
def epollCtlAdd (epollFd : Nat) (fd : Int) (event : NativeEvent) : Epolling (Except Nat Unit) := do
  epollRecord (.epollCtlAdd epollFd fd event)
  let w ← get
  if w.kernel.epoll ≠ some epollFd then return .error EBADF
  else if fd ∈ w.kernel.interests.map Prod.fst then return .error EEXIST
  else mayFail (setInterests fun l => l ++ [(fd, event)])

def epollCtlMod (epollFd : Nat) (fd : Int) (event : NativeEvent) : Epolling (Except Nat Unit) := do
  epollRecord (.epollCtlMod epollFd fd event)
  let w ← get
  if w.kernel.epoll ≠ some epollFd then return .error EBADF
  else if fd ∉ w.kernel.interests.map Prod.fst then return .error ENOENT
  else mayFail (setInterests fun l => l.map fun x => if x.1 = fd then (fd, event) else x)

/-- The borrowed descriptor is still open. -/
def epollCtlDel (epollFd : Nat) (fd : Int) : Epolling (Except Nat Unit) := do
  epollRecord (.epollCtlDel epollFd fd)
  let w ← get
  if w.kernel.epoll ≠ some epollFd then return .error EBADF
  else if fd ∉ w.kernel.interests.map Prod.fst then return .error ENOENT
  else do
    setInterests fun l => l.filter (·.1 ≠ fd)
    return .ok ()

/-- What `epoll_wait` returns, with `errno`. -/
structure WaitResult where
  result : Int
  errno : Nat

/-- The events written are the first of the buffer, the others stay. -/
def epollWait (epollFd maxEvents : Nat) (timeout : Int) : Epolling WaitResult := do
  epollRecord (.epollWait epollFd maxEvents timeout)
  match ← epollAnswer with
  | .waited result errno written => do
    let w ← get
    let events := (written ++ w.nativeEvents.drop written.length).take w.nativeEvents.length
    modify fun w => { w with nativeEvents := events }
    epollRecord (.epollWaited result errno events)
    return ⟨result, errno⟩
  | _ => stop .undefined

def close (fd : Nat) : Epolling Unit := do
  epollRecord (.close fd)
  modify fun w => if w.kernel.epoll = some fd then { w with kernel := {} } else w

def steadyClockNow : Epolling Int := do
  match ← epollAnswer with
  | .now ns => do
    epollRecord (.steadyClockNow ns)
    return ns
  | _ => stop .undefined

end Posix

/-! ### `linux_epoll_state.cc` and `linux_epoll_registration.cc` -/

def EpollInterest.native (interest : EpollInterest) (token : UInt64) : NativeEvent where
  events := (if interest.readable then Posix.EPOLLIN else 0) |||
    (if interest.writable then Posix.EPOLLOUT else 0)
  data := token

def makeNativeEvent (interest : EpollInterest) (token : UInt64) : Epolling NativeEvent :=
  if !interest.readable && !interest.writable then
    throw (.invalidArgument (str "epoll registration must have an interest"))
  else return interest.native token

namespace NativeEpollState

def construct : Epolling NativeEpollState := do
  match ← Posix.epollCreate1 with
  | .error errno => throw (.systemError errno (str "create epoll"))
  | .ok fd => return ⟨some fd⟩

/-- It leaves `⟨none⟩`. -/
def close (this : NativeEpollState) : Epolling Unit := this.fileDescriptor.forM Posix.close

end NativeEpollState

namespace NativeEpollRegistration

def construct (state : NativeEpollState) (fd : Int) (interest : EpollInterest) (token : UInt64) :
    Epolling NativeEpollRegistration := do
  match state.fileDescriptor with
  | none => throw (.systemError Posix.EBADF (str "add to closed epoll"))
  | some epollFd => do
    let event ← makeNativeEvent interest token
    match ← Posix.epollCtlAdd epollFd fd event with
    | .error errno => throw (.systemError errno (str "add epoll registration"))
    | .ok () => return ⟨fd, interest, token⟩

/-- The open epoll a `weak_ptr` finds. -/
def lockOpen : Epolling (Option Nat) := do
  let w ← get
  return w.state.bind NativeEpollState.fileDescriptor

def destroy (this : NativeEpollRegistration) : Epolling Unit := do
  match ← lockOpen with
  | some epollFd => do
    let _ ← Posix.epollCtlDel epollFd this.fileDescriptor
    return ()
  | none => return ()

def modify (this : NativeEpollRegistration) (interest : EpollInterest) (token : UInt64) :
    Epolling NativeEpollRegistration := do
  match ← lockOpen with
  | none => throw (.systemError Posix.EBADF (str "modify closed epoll"))
  | some epollFd => do
    let event ← makeNativeEvent interest token
    match ← Posix.epollCtlMod epollFd this.fileDescriptor event with
    | .error errno => throw (.systemError errno (str "modify epoll registration"))
    | .ok () => return { this with interest := interest, token := token }

end NativeEpollRegistration

/-! ### `linux_epoll.cc` -/

namespace NativeLinuxEpoll

def intMax : Nat := 2 ^ 31 - 1

/-- The state of an epoll object that was not destroyed. -/
def state : Epolling NativeEpollState := do
  let w ← get
  match w.state with
  | none => stop .undefined
  | some s => return s

def construct : Epolling Unit := do
  let s ← NativeEpollState.construct
  Proc.modify fun w => { w with state := some s }

def add (fd : Int) (interest : EpollInterest) (token : UInt64) : Epolling NativeEpollRegistration := do
  let s ← state
  if s.fileDescriptor.isNone then throw (.systemError Posix.EBADF (str "add to closed epoll"))
  else NativeEpollRegistration.construct s fd interest token

def waitTimeout (timeout : Option Int) : Epolling Int :=
  match timeout with
  | none => return -1
  | some ms =>
    if ms < 0 ∨ intMax < ms then throw (.invalidArgument (str "invalid epoll timeout")) else return ms

def nanosecondsPerMillisecond : Int := 10 ^ 6

/-- The arithmetic of time points and durations is that of `int64_t`. -/
def nanoseconds (ns : Int) : Epolling Int :=
  if -2 ^ 63 ≤ ns ∧ ns < 2 ^ 63 then return ns else stop .undefined

/-- `std::chrono::ceil<std::chrono::milliseconds>`. -/
def ceilMilliseconds (ns : Int) : Int :=
  let ms := ns.tdiv nanosecondsPerMillisecond
  if ms * nanosecondsPerMillisecond < ns then ms + 1 else ms

def remainingWaitTimeout (deadline : Option Int) : Epolling Int :=
  match deadline with
  | none => return -1
  | some deadline => do
    let now ← Posix.steadyClockNow
    let remaining ← nanoseconds (deadline - now)
    if remaining ≤ 0 then return 0 else waitTimeout (some (ceilMilliseconds remaining))

def NativeEvent.toReady (e : NativeEvent) : EpollReadyEvent where
  token := e.data
  readable := e.events &&& Posix.EPOLLIN ≠ 0
  writable := e.events &&& Posix.EPOLLOUT ≠ 0
  error := e.events &&& Posix.EPOLLERR ≠ 0
  hangup := e.events &&& Posix.EPOLLHUP ≠ 0
  peerClosed := e.events &&& Posix.EPOLLRDHUP ≠ 0

/-- A round of the `do while`: an interrupted wait goes on until the deadline. -/
def waitRound (epollFd maxEvents : Nat) (deadline : Option Int) : Epolling (Unit ⊕ Posix.WaitResult) := do
  let ms ← remainingWaitTimeout deadline
  let r ← Posix.epollWait epollFd maxEvents ms
  if r.result = -1 ∧ r.errno = Posix.EINTR then
    match deadline with
    | none => return .inl ()
    | some deadline => do
      let now ← Posix.steadyClockNow
      if now < deadline then return .inl () else return .inr r
  else return .inr r

def waitDeadline (timeout : Option Int) : Epolling (Option Int) :=
  match timeout with
  | none => return none
  | some ms => do
    let now ← Posix.steadyClockNow
    let deadline ← nanoseconds (now + ms * nanosecondsPerMillisecond)
    return some deadline

def setEvents (events : List EpollReadyEvent) : Epolling Unit := Proc.modify fun w => { w with events := events }

/-- What is made of the last result. -/
def setReady (size : Nat) (deadline : Option Int) (r : Posix.WaitResult) : Epolling Unit :=
  if r.result = -1 ∧ r.errno = Posix.EINTR ∧ deadline.isSome then setEvents []
  else if r.result = -1 then throw (.systemError r.errno (str "wait for epoll events"))
  else if size < r.result then throw (.runtimeError (str "epoll returned more events than requested"))
  else do
    let w ← get
    setEvents ((w.nativeEvents.take r.result.toNat).map NativeEvent.toReady)

def wait (timeout : Option Int) : Epolling Unit := do
  let w ← get
  let size := w.events.length
  if size = 0 then throw (.invalidArgument (str "epoll event buffer must not be empty"))
  else if intMax < size then throw (.invalidArgument (str "epoll event buffer is too large"))
  else do
    let _ ← waitTimeout timeout
    let s ← state
    match s.fileDescriptor with
    | none => throw (.systemError Posix.EBADF (str "wait on closed epoll"))
    | some epollFd => do
      Proc.modify fun w => { w with nativeEvents := w.nativeEvents.takeD size ⟨0, 0⟩ }
      let deadline ← waitDeadline timeout
      let r ← loop (fun _ => waitRound epollFd size deadline) (w.posix.answers.length + 1) ()
      setReady size deadline r

def close : Epolling Unit := do
  let s ← state
  s.close
  Proc.modify fun w => { w with state := some ⟨none⟩ }

/-- `~NativeLinuxEpoll` and, with the last owner gone, `~NativeEpollState`. -/
def destroy : Epolling Unit := do
  close
  let s ← state
  s.close
  Proc.modify fun w => { w with state := none }

end NativeLinuxEpoll

/-! ### Programs with an epoll -/

/-- An operation; the registrations are numbered as they are made. -/
inductive EpollOp
  | add (fd : Int) (interest : EpollInterest) (token : UInt64)
  | modify (i : Nat) (interest : EpollInterest) (token : UInt64)
  | destroyRegistration (i : Nat)
  | wait (events : List EpollReadyEvent) (timeout : Option Int)
  | close
  | destroy
deriving DecidableEq

namespace EpollWorld

def registration (i : Nat) : Epolling NativeEpollRegistration := do
  let w ← get
  match w.registrations[i]? with
  | some (some r) => return r
  | _ => stop .undefined

def setRegistration (i : Nat) (r : Option NativeEpollRegistration) : Epolling Unit :=
  Proc.modify fun w => { w with registrations := w.registrations.set i r }

end EpollWorld

open EpollWorld in
def EpollOp.run : EpollOp → Epolling Unit
  | .add fd interest token => do
    let r ← NativeLinuxEpoll.add fd interest token
    Proc.modify fun w => { w with registrations := w.registrations ++ [some r] }
  | .modify i interest token => do
    let r ← registration i
    setRegistration i (← r.modify interest token)
  | .destroyRegistration i => do
    let r ← registration i
    r.destroy
    setRegistration i none
  | .wait events timeout => do
    NativeLinuxEpoll.setEvents events
    NativeLinuxEpoll.wait timeout
  | .close => NativeLinuxEpoll.close
  | .destroy => NativeLinuxEpoll.destroy

namespace EpollWorld

/-- The operations one after another; exceptions are the caller's. -/
def after : EpollWorld → List EpollOp → Option EpollWorld
  | w, [] => some w
  | w, op :: ops =>
    match op.run w with
    | (.stop _, _) => none
    | (_, w') => w'.after ops

/-- A program that makes an epoll object, where POSIX answers with `answers`. -/
def program (answers : List EpollAnswer) (ops : List EpollOp) : Option EpollWorld :=
  match NativeLinuxEpoll.construct { posix := { answers := answers } } with
  | (.ok (), w) => w.after ops
  | _ => none

def openFd (w : EpollWorld) : Option Nat := w.state.bind NativeEpollState.fileDescriptor

def history (w : EpollWorld) : List EpollCall := w.posix.history

/-- The registrations that were not destroyed. -/
def live (w : EpollWorld) : List NativeEpollRegistration := w.registrations.reduceOption

end EpollWorld

/-- What the kernel is to know of a registration. -/
def NativeEpollRegistration.entry (r : NativeEpollRegistration) : Int × NativeEvent :=
  (r.fileDescriptor, r.interest.native r.token)

/-- The call is made on the number `fd`. -/
def EpollCall.isOn (fd : Nat) : EpollCall → Prop
  | epollCreate1 | epollWaited _ _ _ | steadyClockNow _ => False
  | epollCtlAdd epollFd _ _ | epollCtlMod epollFd _ _ | epollCtlDel epollFd _ | epollWait epollFd _ _
  | close epollFd => epollFd = fd

def EpollCall.isClose : EpollCall → Bool
  | close _ => true
  | _ => false

/-- The epoll is open, and the kernel knows the registrations `rs`, each once. -/
structure EpollWorld.Tracks (epollFd : Nat) (rs : List NativeEpollRegistration)
    (regs : List (Option NativeEpollRegistration)) (w : EpollWorld) : Prop where
  state : w.state = some ⟨some epollFd⟩
  kernel : w.kernel = ⟨some epollFd, rs.map NativeEpollRegistration.entry⟩
  nodup : (rs.map NativeEpollRegistration.fileDescriptor).Nodup
  history : ∀ call ∈ w.history, call.isClose = false
  registrations : w.registrations = regs

/-- The last call made was the only `close`. -/
def ClosedAtLast (history : List EpollCall) : Prop :=
  ∃ l fd, history = l ++ [.close fd] ∧ ∀ call ∈ l, call.isClose = false

structure EpollWorld.Closed (w : EpollWorld) : Prop where
  openFd : w.openFd = none
  history : ClosedAtLast w.history

section
variable {α β : Type} [DecidableEq β] {f : α → β} {l : List (Option α)} {i : Nat} {a : α}

omit [DecidableEq β] in
theorem ne_of_mem_tail {b : α} {l : List α} (h : f a ∉ l.map f) (hb : b ∈ l) : f b ≠ f a :=
  fun hba => h (hba ▸ List.mem_map_of_mem hb)

theorem reduceOption_set_none (h : l[i]? = some (some a)) (hl : (l.reduceOption.map f).Nodup) :
    (l.set i none).reduceOption = l.reduceOption.filter (f · ≠ f a) := by
  induction l generalizing i with
  | nil => cases h
  | cons x l ih =>
    cases i with
    | zero =>
      obtain rfl : x = some a := by simpa using h
      rw [List.reduceOption_cons_of_some, List.map_cons, List.nodup_cons] at hl
      rw [List.set_cons_zero, List.reduceOption_cons_of_none, List.reduceOption_cons_of_some,
        List.filter_cons_of_neg (by simp)]
      refine (List.filter_eq_self.mpr fun b hb => ?_).symm
      simpa using ne_of_mem_tail hl.1 hb
    | succ i =>
      have hi : l[i]? = some (some a) := by simpa using h
      cases x with
      | none => simpa [List.reduceOption_cons_of_none] using ih hi hl
      | some b =>
        rw [List.reduceOption_cons_of_some, List.map_cons, List.nodup_cons] at hl
        have hb : f b ≠ f a :=
          (ne_of_mem_tail hl.1 (List.reduceOption_mem_iff.mpr (List.mem_of_getElem? hi))).symm
        simpa [List.reduceOption_cons_of_some, hb] using ih hi hl.2

theorem reduceOption_set_some (h : l[i]? = some (some a)) (hl : (l.reduceOption.map f).Nodup) (b : α) :
    (l.set i (some b)).reduceOption = l.reduceOption.map fun x => if f x = f a then b else x := by
  induction l generalizing i with
  | nil => cases h
  | cons x l ih =>
    cases i with
    | zero =>
      obtain rfl : x = some a := by simpa using h
      rw [List.reduceOption_cons_of_some, List.map_cons, List.nodup_cons] at hl
      rw [List.set_cons_zero, List.reduceOption_cons_of_some, List.reduceOption_cons_of_some, List.map_cons,
        if_pos rfl]
      refine congrArg _ ((List.map_congr_left fun x hx => ?_).trans l.reduceOption.map_id).symm
      exact if_neg (ne_of_mem_tail hl.1 hx)
    | succ i =>
      have hi : l[i]? = some (some a) := by simpa using h
      cases x with
      | none => simpa [List.reduceOption_cons_of_none] using ih hi hl
      | some c =>
        rw [List.reduceOption_cons_of_some, List.map_cons, List.nodup_cons] at hl
        have hc : f c ≠ f a :=
          (ne_of_mem_tail hl.1 (List.reduceOption_mem_iff.mpr (List.mem_of_getElem? hi))).symm
        simpa [List.reduceOption_cons_of_some, hc] using ih hi hl.2

end

namespace EpollWorld
variable {n : Nat} {rs rs' : List NativeEpollRegistration} {regs : List (Option NativeEpollRegistration)}
  {C : EpollWorld → Prop} {A : EpollWorld → Prop} {fd : Int} {event : NativeEvent}
  {interest : EpollInterest} {token : UInt64}

theorem Tracks.openFd {w : EpollWorld} (h : Tracks n rs regs w) : w.openFd = some n := by
  rw [EpollWorld.openFd, h.state]
  rfl

theorem epollRecord_tracks {call : EpollCall} (hcall : call.isClose = false) :
    Triple (Tracks n rs regs) (Posix.epollRecord call) (fun _ => Tracks n rs regs) C := by
  intro w hw
  refine ⟨hw.state, hw.kernel, hw.nodup, fun c hc => ?_, hw.registrations⟩
  rcases List.mem_append.mp hc with hc | hc
  · exact hw.history c hc
  · rwa [List.mem_singleton.mp hc]

theorem epollAnswer_triple (hA : ∀ w answers, A w → A { w with posix := { w.posix with answers := answers } }) :
    Triple A Posix.epollAnswer (fun _ => A) C := by
  intro w hw
  unfold Posix.epollAnswer Posix.answer
  rw [wp_zoom, wp_bind, wp_get]
  simp only [Outcome.andThen_ok]
  cases w.posix.answers with
  | nil => trivial
  | cons a answers => exact hA w answers hw

theorem epollAnswer_tracks : Triple (Tracks n rs regs) Posix.epollAnswer (fun _ => Tracks n rs regs) C :=
  epollAnswer_triple fun _ _ h => ⟨h.state, h.kernel, h.nodup, h.history, h.registrations⟩

/-- The kernel knows `rs'` after a call that succeeds and `rs` after one that does not. -/
def Result (n : Nat) (rs rs' : List NativeEpollRegistration) (regs : List (Option NativeEpollRegistration)) :
    Except Nat Unit → EpollWorld → Prop
  | .ok () => Tracks n rs' regs
  | .error _ => Tracks n rs regs

theorem setInterests_tracks {f : List (Int × NativeEvent) → List (Int × NativeEvent)}
    (hf : f (rs.map NativeEpollRegistration.entry) = rs'.map NativeEpollRegistration.entry)
    (hnodup : (rs'.map NativeEpollRegistration.fileDescriptor).Nodup) :
    Triple (Tracks n rs regs) (Posix.setInterests f) (fun _ => Tracks n rs' regs) C := by
  refine .modify fun w hw => ⟨hw.state, ?_, hnodup, hw.history, hw.registrations⟩
  rw [hw.kernel, hf]

theorem mayFail_tracks {effect : Epolling Unit}
    (h : Triple (Tracks n rs regs) effect (fun _ => Tracks n rs' regs) C) :
    Triple (Tracks n rs regs) (Posix.mayFail effect) (Result n rs rs' regs) C := by
  unfold Posix.mayFail
  refine epollAnswer_tracks.bind fun a => ?_
  cases a with
  | fails errno => exact .pure fun _ h => h
  | done => exact h.bind fun _ => .pure fun _ h => h
  | descriptor fd => exact .stop _
  | waited result errno written => exact .stop _
  | now ns => exact .stop _

theorem onInterests_tracks {p : List Int → Prop} [DecidablePred p] {errno : Nat}
    {m : Epolling (Except Nat Unit)} {B : Except Nat Unit → EpollWorld → Prop}
    (hp : p (rs.map NativeEpollRegistration.fileDescriptor) → ∀ w, Tracks n rs regs w → B (.error errno) w)
    (hm : ¬ p (rs.map NativeEpollRegistration.fileDescriptor) → Triple (Tracks n rs regs) m B C) :
    Triple (Tracks n rs regs)
      (do
        let w ← Proc.get
        if w.kernel.epoll ≠ some n then return .error Posix.EBADF
        else if p (w.kernel.interests.map Prod.fst) then return .error errno
        else m)
      B C := by
  intro w hw
  rw [wp_bind, wp_get, Outcome.andThen_ok]
  have hfds : w.kernel.interests.map Prod.fst = rs.map NativeEpollRegistration.fileDescriptor := by
    rw [hw.kernel, List.map_map]
    rfl
  rw [if_neg (by simp [hw.kernel]), hfds]
  split_ifs with h
  · exact hp h w hw
  · exact hm h w hw

theorem epollCtlAdd_tracks (hrs : (rs.map NativeEpollRegistration.fileDescriptor).Nodup) :
    Triple (Tracks n rs regs) (Posix.epollCtlAdd n fd (interest.native token))
      (Result n rs (rs ++ [⟨fd, interest, token⟩]) regs) C := by
  unfold Posix.epollCtlAdd
  refine (epollRecord_tracks rfl).bind fun _ => onInterests_tracks (p := (fd ∈ ·))
    (fun _ _ h => h) fun hfd => ?_
  refine mayFail_tracks (setInterests_tracks (by simp [NativeEpollRegistration.entry]) ?_)
  rw [List.map_append, List.map_singleton]
  exact hrs.append (List.nodup_singleton _) (List.disjoint_singleton.mpr hfd)

/-- `rs'` is `rs` with another interest and token for one descriptor. -/
theorem epollCtlMod_tracks {r : NativeEpollRegistration}
    (hrs : (rs.map NativeEpollRegistration.fileDescriptor).Nodup) :
    Triple (Tracks n rs regs) (Posix.epollCtlMod n r.fileDescriptor (interest.native token))
      (Result n rs (rs.map fun x => if x.fileDescriptor = r.fileDescriptor then
        { r with interest := interest, token := token } else x) regs) C := by
  unfold Posix.epollCtlMod
  refine (epollRecord_tracks rfl).bind fun _ =>
    onInterests_tracks (p := (r.fileDescriptor ∉ ·)) (fun _ _ h => h) fun _ => ?_
  refine mayFail_tracks (setInterests_tracks ?_ ?_)
  · rw [List.map_map, List.map_map]
    refine List.map_congr_left fun x hx => ?_
    by_cases hxr : x.fileDescriptor = r.fileDescriptor <;> simp [NativeEpollRegistration.entry, hxr]
  · rw [List.map_map]
    refine (List.map_congr_left fun x hx => ?_).symm ▸ hrs
    by_cases hxr : x.fileDescriptor = r.fileDescriptor <;> simp [hxr]

theorem epollCtlDel_tracks (hrs : (rs.map NativeEpollRegistration.fileDescriptor).Nodup)
    (hfd : fd ∈ rs.map NativeEpollRegistration.fileDescriptor) :
    Triple (Tracks n rs regs) (Posix.epollCtlDel n fd)
      (fun _ => Tracks n (rs.filter (·.fileDescriptor ≠ fd)) regs) C := by
  unfold Posix.epollCtlDel
  refine (epollRecord_tracks rfl).bind fun _ =>
    onInterests_tracks (p := (fd ∉ ·)) (fun h => absurd hfd h) fun _ => ?_
  refine (setInterests_tracks ?_ ?_).bind fun _ => .pure fun _ h => h
  · rw [List.filter_map]
    rfl
  · exact hrs.sublist (List.filter_sublist.map _)

theorem lockOpen_tracks : Triple (Tracks n rs regs) NativeEpollRegistration.lockOpen
    (fun o w => o = some n ∧ Tracks n rs regs w) C := fun _ hw => ⟨hw.openFd, hw⟩

theorem makeNativeEvent_keeps : Triple A (makeNativeEvent interest token)
    (fun e w => e = interest.native token ∧ A w) A := by
  unfold makeNativeEvent
  exact .ite (fun _ => .throw fun _ h => h) fun _ => .pure fun _ h => ⟨rfl, h⟩

theorem construct_tracks (hrs : (rs.map NativeEpollRegistration.fileDescriptor).Nodup) :
    Triple (Tracks n rs regs) (NativeEpollRegistration.construct ⟨some n⟩ fd interest token)
      (fun r => Tracks n (rs ++ [r]) regs) (Tracks n rs regs) := by
  unfold NativeEpollRegistration.construct
  refine makeNativeEvent_keeps.bind fun event => .of_and ?_
  rintro rfl
  refine (epollCtlAdd_tracks hrs).bind fun r => ?_
  cases r with
  | error errno => exact .throw fun _ h => h
  | ok u => exact .pure fun _ h => h

theorem modify_tracks (r : NativeEpollRegistration)
    (hrs : (rs.map NativeEpollRegistration.fileDescriptor).Nodup) :
    Triple (Tracks n rs regs) (r.modify interest token)
      (fun r' => Tracks n (rs.map fun x => if x.fileDescriptor = r.fileDescriptor then r' else x) regs)
      (Tracks n rs regs) := by
  unfold NativeEpollRegistration.modify
  refine lockOpen_tracks.bind fun o => .of_and ?_
  rintro rfl
  refine makeNativeEvent_keeps.bind fun event => .of_and ?_
  rintro rfl
  refine (epollCtlMod_tracks hrs).bind fun r => ?_
  cases r with
  | error errno => exact .throw fun _ h => h
  | ok u => exact .pure fun _ h => h

theorem destroyRegistration_tracks (r : NativeEpollRegistration)
    (hrs : (rs.map NativeEpollRegistration.fileDescriptor).Nodup) (hr : r ∈ rs) :
    Triple (Tracks n rs regs) r.destroy
      (fun _ => Tracks n (rs.filter (·.fileDescriptor ≠ r.fileDescriptor)) regs) C := by
  unfold NativeEpollRegistration.destroy
  refine lockOpen_tracks.bind fun o => .of_and ?_
  rintro rfl
  exact (epollCtlDel_tracks hrs (List.mem_map_of_mem hr)).bind fun _ => .pure fun _ h => h

theorem state_tracks : Triple (Tracks n rs regs) NativeLinuxEpoll.state
    (fun s w => s = ⟨some n⟩ ∧ Tracks n rs regs w) C := by
  intro w hw
  unfold NativeLinuxEpoll.state
  rw [wp_bind, wp_get, Outcome.andThen_ok, hw.state]
  exact ⟨rfl, hw⟩

theorem add_tracks (hrs : (rs.map NativeEpollRegistration.fileDescriptor).Nodup) :
    Triple (Tracks n rs regs) (NativeLinuxEpoll.add fd interest token)
      (fun r => Tracks n (rs ++ [r]) regs) (Tracks n rs regs) := by
  unfold NativeLinuxEpoll.add
  refine state_tracks.bind fun s => .of_and ?_
  rintro rfl
  exact construct_tracks hrs

theorem waitTimeout_keeps (timeout : Option Int) :
    Triple A (NativeLinuxEpoll.waitTimeout timeout) (fun _ => A) A := by
  unfold NativeLinuxEpoll.waitTimeout
  cases timeout with
  | none => exact .pure fun _ h => h
  | some ms => exact .ite (fun _ => .throw fun _ h => h) fun _ => .pure fun _ h => h

theorem steadyClockNow_tracks : Triple (Tracks n rs regs) Posix.steadyClockNow (fun _ => Tracks n rs regs) C := by
  unfold Posix.steadyClockNow
  refine epollAnswer_tracks.bind fun a => ?_
  cases a with
  | now ns => exact (epollRecord_tracks rfl).bind fun _ => .pure fun _ h => h
  | fails errno => exact .stop _
  | done => exact .stop _
  | descriptor fd => exact .stop _
  | waited result errno written => exact .stop _

theorem epollWait_tracks (maxEvents : Nat) (ms : Int) :
    Triple (Tracks n rs regs) (Posix.epollWait n maxEvents ms) (fun _ => Tracks n rs regs) C := by
  unfold Posix.epollWait
  refine (epollRecord_tracks rfl).bind fun _ => epollAnswer_tracks.bind fun a => ?_
  cases a with
  | waited result errno written =>
    refine (Triple.get (B := fun _ => Tracks n rs regs) fun _ h => h).bind fun w => ?_
    refine Triple.bind (B := fun _ => Tracks n rs regs) ?_ fun _ =>
      (epollRecord_tracks rfl).bind fun _ => .pure fun _ h => h
    exact .modify fun w h => ⟨h.state, h.kernel, h.nodup, h.history, h.registrations⟩
  | fails errno => exact .stop _
  | done => exact .stop _
  | descriptor fd => exact .stop _
  | now ns => exact .stop _

theorem nanoseconds_keeps (ns : Int) : Triple A (NativeLinuxEpoll.nanoseconds ns) (fun _ => A) C :=
  .ite (fun _ => .pure fun _ h => h) fun _ => .stop _

theorem waitRound_tracks (maxEvents : Nat) (deadline : Option Int) :
    Triple (Tracks n rs regs) (NativeLinuxEpoll.waitRound n maxEvents deadline) (fun _ => Tracks n rs regs)
      (Tracks n rs regs) := by
  unfold NativeLinuxEpoll.waitRound
  refine Triple.bind (B := fun _ => Tracks n rs regs) ?_ fun ms => ?_
  · unfold NativeLinuxEpoll.remainingWaitTimeout
    cases deadline with
    | none => exact .pure fun _ h => h
    | some _ =>
      exact steadyClockNow_tracks.bind fun now => (nanoseconds_keeps _).bind fun remaining =>
        .ite (fun _ => .pure fun _ h => h) fun _ => waitTimeout_keeps _
  refine (epollWait_tracks maxEvents ms).bind fun r => .ite (fun _ => ?_) fun _ => .pure fun _ h => h
  cases deadline with
  | none => exact .pure fun _ h => h
  | some _ =>
    exact steadyClockNow_tracks.bind fun _ => .ite (fun _ => .pure fun _ h => h) fun _ => .pure fun _ h => h

theorem waitDeadline_tracks (timeout : Option Int) :
    Triple (Tracks n rs regs) (NativeLinuxEpoll.waitDeadline timeout) (fun _ => Tracks n rs regs)
      (Tracks n rs regs) := by
  unfold NativeLinuxEpoll.waitDeadline
  cases timeout with
  | none => exact .pure fun _ h => h
  | some ms =>
    exact steadyClockNow_tracks.bind fun now => (nanoseconds_keeps _).bind fun _ => .pure fun _ h => h

theorem setEvents_tracks (events : List EpollReadyEvent) :
    Triple (Tracks n rs regs) (NativeLinuxEpoll.setEvents events) (fun _ => Tracks n rs regs) C :=
  .modify fun _ h => ⟨h.state, h.kernel, h.nodup, h.history, h.registrations⟩

theorem setReady_tracks (size : Nat) (deadline : Option Int) (r : Posix.WaitResult) :
    Triple (Tracks n rs regs) (NativeLinuxEpoll.setReady size deadline r) (fun _ => Tracks n rs regs)
      (Tracks n rs regs) := by
  refine .ite (fun _ => setEvents_tracks []) fun _ => .ite (fun _ => .throw fun _ h => h) fun _ =>
    .ite (fun _ => .throw fun _ h => h) fun _ => ?_
  exact (Triple.get (B := fun _ => Tracks n rs regs) fun _ h => h).bind fun w => setEvents_tracks _

theorem wait_tracks (timeout : Option Int) :
    Triple (Tracks n rs regs) (NativeLinuxEpoll.wait timeout) (fun _ => Tracks n rs regs)
      (Tracks n rs regs) := by
  unfold NativeLinuxEpoll.wait
  refine (Triple.get (B := fun _ => Tracks n rs regs) fun _ h => h).bind fun w => ?_
  refine .ite (fun _ => .throw fun _ h => h) fun _ => .ite (fun _ => .throw fun _ h => h) fun _ => ?_
  refine (waitTimeout_keeps timeout).bind fun _ => state_tracks.bind fun s => .of_and ?_
  rintro rfl
  refine Triple.bind (B := fun _ => Tracks n rs regs)
    (.modify fun w h => ⟨h.state, h.kernel, h.nodup, h.history, h.registrations⟩) fun _ => ?_
  refine (waitDeadline_tracks timeout).bind fun deadline => ?_
  refine Triple.bind (B := fun _ => Tracks n rs regs) ?_ fun r => setReady_tracks _ deadline r
  refine Triple.loop (I := fun _ => Tracks n rs regs) (fun _ => ?_) _ ()
  refine (waitRound_tracks _ deadline).mono (fun _ h => h) (fun r w h => ?_) fun _ h => h
  cases r <;> exact h

/-! ### After the end of the epoll -/

theorem lockOpen_closed : Triple Closed NativeEpollRegistration.lockOpen
    (fun o w => o = none ∧ Closed w) C := fun _ hw => ⟨hw.openFd, hw⟩

theorem state_closed : Triple Closed NativeLinuxEpoll.state (fun s w => s = ⟨none⟩ ∧ Closed w) C := by
  intro w hw
  unfold NativeLinuxEpoll.state
  rw [wp_bind, wp_get, Outcome.andThen_ok]
  rcases hstate : w.state with _ | ⟨_ | fd⟩
  · trivial
  · exact ⟨rfl, hw⟩
  · have hopen := hw.openFd
    simp [EpollWorld.openFd, hstate] at hopen

theorem Closed.setRegistrations {w : EpollWorld} (hw : w.Closed)
    (regs : List (Option NativeEpollRegistration)) : Closed { w with registrations := regs } :=
  ⟨hw.openFd, hw.history⟩

theorem registration_closed (i : Nat) : Triple Closed (registration i) (fun _ => Closed) C := by
  intro w hw
  unfold registration
  rw [wp_bind, wp_get, Outcome.andThen_ok]
  rcases w.registrations[i]? with _ | _ | r
  · trivial
  · trivial
  · exact hw

theorem setRegistration_closed (i : Nat) (r : Option NativeEpollRegistration) :
    Triple Closed (setRegistration i r) (fun _ => Closed) C :=
  .modify fun _ hw => hw.setRegistrations _

theorem setState_closed {s : Option NativeEpollState} (hs : s.bind NativeEpollState.fileDescriptor = none) :
    Triple Closed (Proc.modify fun w => { w with state := s } : Epolling Unit) (fun _ => Closed) C :=
  .modify fun _ hw => ⟨hs, hw.history⟩

theorem close_closed : Triple Closed NativeLinuxEpoll.close (fun _ => Closed) C := by
  unfold NativeLinuxEpoll.close
  refine state_closed.bind fun s => .of_and ?_
  rintro rfl
  exact Triple.bind (.pure fun _ h => h) fun _ => setState_closed rfl

theorem destroy_closed : Triple Closed NativeLinuxEpoll.destroy (fun _ => Closed) C := by
  unfold NativeLinuxEpoll.destroy
  refine close_closed.bind fun _ => state_closed.bind fun s => .of_and ?_
  rintro rfl
  exact Triple.bind (.pure fun _ h => h) fun _ => setState_closed rfl

/-- There is no descriptor to make a call on. -/
theorem run_closed (op : EpollOp) : Triple Closed op.run (fun _ => Closed) Closed := by
  cases op with
  | add fd interest token =>
    refine Triple.bind (B := fun _ => Closed) ?_ fun r => .modify fun _ hw => hw.setRegistrations _
    refine state_closed.bind fun s => .of_and ?_
    rintro rfl
    exact .throw fun _ h => h
  | modify i interest token =>
    refine (registration_closed i).bind fun r => ?_
    refine Triple.bind (B := fun _ => Closed) ?_ fun r => setRegistration_closed i _
    refine lockOpen_closed.bind fun o => .of_and ?_
    rintro rfl
    exact .throw fun _ h => h
  | destroyRegistration i =>
    refine (registration_closed i).bind fun r => ?_
    refine Triple.bind (B := fun _ => Closed) ?_ fun r => setRegistration_closed i _
    refine lockOpen_closed.bind fun o => .of_and ?_
    rintro rfl
    exact .pure fun _ h => h
  | wait events timeout =>
    refine Triple.bind (B := fun _ => Closed) (.modify fun _ hw => ⟨hw.openFd, hw.history⟩) fun _ => ?_
    refine (Triple.get (B := fun _ => Closed) fun _ h => h).bind fun w => ?_
    refine .ite (fun _ => .throw fun _ h => h) fun _ => .ite (fun _ => .throw fun _ h => h) fun _ => ?_
    refine (waitTimeout_keeps timeout).bind fun _ => state_closed.bind fun s => .of_and ?_
    rintro rfl
    exact .throw fun _ h => h
  | close => exact close_closed
  | destroy => exact destroy_closed

theorem close_tracks : Triple (Tracks n rs regs) NativeLinuxEpoll.close (fun _ => Closed) C := by
  unfold NativeLinuxEpoll.close
  refine state_tracks.bind fun s => .of_and ?_
  rintro rfl
  refine Triple.bind (B := fun _ w => ClosedAtLast w.history) ?_ fun _ => .modify fun _ hw => ⟨rfl, hw⟩
  refine Triple.bind (B := fun _ w => ClosedAtLast w.history)
    (fun w hw => ⟨w.history, n, rfl, hw.history⟩) fun _ => .modify fun w hw => ?_
  split_ifs <;> exact hw

theorem destroy_tracks : Triple (Tracks n rs regs) NativeLinuxEpoll.destroy (fun _ => Closed) C := by
  unfold NativeLinuxEpoll.destroy
  refine close_tracks.bind fun _ => state_closed.bind fun s => .of_and ?_
  rintro rfl
  exact Triple.bind (.pure fun _ h => h) fun _ => setState_closed rfl

/-- The epoll is open and the kernel knows its live registrations, or it was closed. -/
def Inv (w : EpollWorld) : Prop := (∃ n regs, Tracks n regs.reduceOption regs w) ∨ Closed w

theorem setRegistration_inv {i : Nat} {r : Option NativeEpollRegistration} :
    Triple (Tracks n (regs.set i r).reduceOption regs) (setRegistration i r) (fun _ => Inv) C := by
  refine .modify fun w hw => .inl ⟨n, regs.set i r, hw.state, hw.kernel, hw.nodup, hw.history, ?_⟩
  rw [hw.registrations]

theorem registration_tracks (i : Nat) : Triple (Tracks n rs regs) (registration i)
    (fun r w => regs[i]? = some (some r) ∧ Tracks n rs regs w) C := by
  intro w hw
  unfold registration
  rw [wp_bind, wp_get, Outcome.andThen_ok, hw.registrations]
  rcases hr : regs[i]? with _ | _ | r
  · trivial
  · trivial
  · exact ⟨rfl, hw⟩

theorem run_tracks (op : EpollOp)
    (hregs : (regs.reduceOption.map NativeEpollRegistration.fileDescriptor).Nodup) :
    Triple (Tracks n regs.reduceOption regs) op.run (fun _ => Inv) Inv := by
  have hinv : ∀ w, Tracks n regs.reduceOption regs w → Inv w := fun w hw => .inl ⟨n, regs, hw⟩
  have hclosed : ∀ w, Closed w → Inv w := fun w hw => .inr hw
  cases op with
  | add fd interest token =>
    refine ((add_tracks hregs).mono (fun _ h => h) (fun _ _ h => h) hinv).bind fun r => ?_
    refine .modify fun w hw => .inl ⟨n, regs ++ [some r], hw.state, ?_, ?_, hw.history, ?_⟩
    · rw [List.reduceOption_append]
      exact hw.kernel
    · rw [List.reduceOption_append]
      exact hw.nodup
    · rw [hw.registrations]
  | modify i interest token =>
    refine (registration_tracks i).bind fun r => .of_and fun hr => ?_
    refine ((modify_tracks r hregs).mono (fun _ h => h) (fun _ _ h => h) hinv).bind fun r' => ?_
    rw [← reduceOption_set_some hr hregs]
    exact setRegistration_inv
  | destroyRegistration i =>
    refine (registration_tracks i).bind fun r => .of_and fun hr => ?_
    have hmem : r ∈ regs.reduceOption := List.reduceOption_mem_iff.mpr (List.mem_of_getElem? hr)
    refine (destroyRegistration_tracks r hregs hmem).bind fun _ => ?_
    rw [← reduceOption_set_none hr hregs]
    exact setRegistration_inv
  | wait events timeout =>
    refine (setEvents_tracks events).bind fun _ => ?_
    exact (wait_tracks timeout).mono (fun _ h => h) (fun _ => hinv) hinv
  | close => exact close_tracks.mono (fun _ h => h) (fun _ => hclosed) hclosed
  | destroy => exact destroy_tracks.mono (fun _ h => h) (fun _ => hclosed) hclosed

theorem run_inv (op : EpollOp) : Triple Inv op.run (fun _ => Inv) Inv := by
  rintro w (⟨n, regs, hw⟩ | hw)
  · exact run_tracks op hw.nodup w hw
  · exact Proc.Returns.mono (run_closed op w hw) (fun _ _ h => .inr h) fun _ h => .inr h

theorem after_inv {w w' : EpollWorld} {ops : List EpollOp} (hw : w.Inv) (h : w.after ops = some w') : w'.Inv := by
  induction ops generalizing w with
  | nil =>
    obtain rfl : w = w' := by simpa [after] using h
    exact hw
  | cons op ops ih =>
    have hrun := run_inv op w hw
    unfold after at h
    unfold wp at hrun
    rcases hop : op.run w with ⟨u | e | r, w₁⟩ <;> rw [hop] at h hrun
    · exact ih hrun h
    · exact ih hrun h
    · cases h

theorem construct_inv (answers : List EpollAnswer) :
    wp NativeLinuxEpoll.construct (Proc.Returns (fun _ => Inv) fun _ => True)
      ({ posix := { answers := answers } } : EpollWorld) := by
  cases answers with
  | nil => trivial
  | cons a answers =>
    cases a with
    | descriptor fd =>
      refine .inl ⟨fd, [], rfl, rfl, List.nodup_nil, fun call hcall => ?_, rfl⟩
      obtain rfl : call = .epollCreate1 := List.mem_singleton.mp hcall
      rfl
    | fails errno => trivial
    | done => trivial
    | waited result errno written => trivial
    | now ns => trivial

end EpollWorld

end UdfRunner
