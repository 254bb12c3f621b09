import UdfRunner.Lib.Resumption
import UdfRunner.V2.QueueExceptions

/-!
# `linux_event_fd.cc`: the eventfd of a queue

`read_notification` and `write_notification`, and the `WaitableQueue` on top of them, call by call of the
kernel and of the queue. `QueueAnswers`: what a linearizable queue and the kernel's counter may answer.
-/

namespace UdfRunner
open Resumption

namespace Posix

def EIO : Nat := 5

end Posix

/-- What a thread asks of the queue and of the kernel. `awaitReadable` is its `epoll_wait`. -/
inductive QueueRequest (α : Type)
  | storageEnqueue (value : α)
  | tryDequeue
  | awaitReadable
  | read
  | write
deriving DecidableEq, Repr

/-- What `read` and `write` return, and what `read` leaves in its buffer. -/
structure IoResult where
  result : Int
  errno : Nat := 0
  value : UInt64 := 0
deriving DecidableEq, Repr

abbrev QueueRequest.Answer {α : Type} : QueueRequest α → Type
  | storageEnqueue _ => Bool
  | tryDequeue => Option α
  | awaitReadable => Unit
  | read | write => IoResult

abbrev QueueProgram (α β : Type) := Resumption (QueueRequest α) QueueRequest.Answer PosixError β

namespace QueueRequest
variable {α : Type}

/-- `read` of the eventfd. -/
def reading : QueueProgram α IoResult := ask QueueRequest.read

/-- `write` to the eventfd. -/
def writing : QueueProgram α IoResult := ask QueueRequest.write

def dequeuing : QueueProgram α (Option α) := ask QueueRequest.tryDequeue

def awaiting : QueueProgram α Unit := ask QueueRequest.awaitReadable

def enqueuing (value : α) : QueueProgram α Bool := ask (QueueRequest.storageEnqueue value)

end QueueRequest

namespace LinuxEventFd
variable {α : Type}

def sizeofValue : Int := 8

/-- The `do … while` around `read`, cut off after `n` rounds. -/
def readLoop (n : Nat) : QueueProgram α IoResult :=
  loop (fun _ => do
    let r ← QueueRequest.reading
    return if r.result = -1 ∧ r.errno = Posix.EINTR then .inl () else .inr r) n ()

def writeLoop (n : Nat) : QueueProgram α IoResult :=
  loop (fun _ => do
    let r ← QueueRequest.writing
    return if r.result = -1 ∧ r.errno = Posix.EINTR then .inl () else .inr r) n ()

def readResult (r : IoResult) : QueueProgram α UInt64 :=
  if r.result = sizeofValue then return r.value
  else if r.result = -1 then throw (.systemError r.errno (str "read eventfd"))
  else throw (.systemError Posix.EIO (str "short read from eventfd"))

def writeResult (r : IoResult) : QueueProgram α Unit :=
  if r.result = sizeofValue then return ()
  else if r.result = -1 then throw (.systemError r.errno (str "write eventfd"))
  else throw (.systemError Posix.EIO (str "short write to eventfd"))

def readNotification (n : Nat) : QueueProgram α UInt64 := do
  let r ← readLoop n
  readResult r

def writeNotification (n : Nat) : QueueProgram α Unit := do
  let r ← writeLoop n
  writeResult r

end LinuxEventFd

/-! ### The `WaitableQueue` of a `LinuxEventFd` -/

namespace LinuxQueue
variable {α : Type} (n : Nat)

/-- The `catch` of `notify` and `drain_notifications`. Other exceptions go on. -/
def onSystemError {β γ : Type} (again : β) (wouldBlock : γ) : PosixError → QueueProgram α (β ⊕ γ)
  | .systemError errno what =>
    if errno = Posix.EINTR then return .inl again
    else if errno = Posix.EAGAIN then return .inr wouldBlock
    else throw (.systemError errno what)
  | e => throw e

/-- The rest of a round of `notify`, from its `write` on. -/
def notifyRound (m : Nat) : QueueProgram α (Unit ⊕ Unit) :=
  catching (do
    LinuxEventFd.writeNotification m
    return .inr ()) (onSystemError () ())

def notify : QueueProgram α Unit := loop (fun _ => notifyRound n) n ()

def enqueue (value : α) : QueueProgram α Bool := do
  if !(← QueueRequest.enqueuing value) then return false
  else do
    notify n
    return true

def enqueueLoop : List α → Nat → QueueProgram α Nat
  | [], enqueued => return enqueued
  | value :: rest, enqueued => do
    if !(← QueueRequest.enqueuing value) then return enqueued
    else enqueueLoop rest (enqueued + 1)

def enqueueBatchEnd (enqueued : Nat) : QueueProgram α Nat :=
  if enqueued ≠ 0 then do
    notify n
    return enqueued
  else return enqueued

def enqueueBatch (l : List α) : QueueProgram α Nat := do
  let enqueued ← enqueueLoop l 0
  enqueueBatchEnd n enqueued

def tryDequeue : QueueProgram α (Option α) := QueueRequest.dequeuing

/-- The rest of a round of `drain_notifications`, from its `read` on. -/
def drainRound (total : UInt64) (m : Nat) : QueueProgram α (UInt64 ⊕ UInt64) :=
  catching (do
    let value ← LinuxEventFd.readNotification m
    return .inl (total + value)) (onSystemError total total)

def drainNotifications : QueueProgram α UInt64 := loop (fun total => drainRound total n) n 0

/-! ### Producers and consumers -/

/-- A producer makes its calls and returns what they reported as enqueued. -/
def produce : List (QueueCall α) → List α → QueueProgram α (List α)
  | [], reported => return reported
  | .enqueue value :: calls, reported => do
    let enqueued ← enqueue n value
    produce calls (if enqueued then reported ++ [value] else reported)
  | .enqueueBatch l :: calls, reported => do
    let enqueued ← enqueueBatch n l
    produce calls (reported ++ l.take enqueued)

/-- `try_dequeue` until the queue is empty. -/
def dequeueLoop (m : Nat) : QueueProgram α Unit :=
  loop (fun _ => do
    match ← tryDequeue with
    | some _ => return .inl ()
    | none => return .inr ()) m ()

/-- A consumer waits, drains the notifications and dequeues, as the comment of `drain_notifications` has it. -/
def consume : Nat → QueueProgram α (List α)
  | 0 => return []
  | cycles + 1 => do
    QueueRequest.awaiting
    let _ ← drainNotifications n
    dequeueLoop n
    consume cycles

end LinuxQueue

/-! ### The queue and the kernel -/

section
variable {T α : Type}

/-- What a linearizable queue and an eventfd that does not block answer a thread. -/
inductive QueueAnswers (t : T) : (c : QueueRequest α) → QueueState T α → c.Answer → QueueState T α → Prop
  | enqueues {v s} : QueueAnswers t (.storageEnqueue v) s true (s.push t v)
  | refuses {v s} : QueueAnswers t (.storageEnqueue v) s false s
  | dequeues {x l s} (h : s.queueStorage = x :: l) :
    QueueAnswers t .tryDequeue s (some x.2) { s with queueStorage := l, dequeued := s.dequeued ++ [x] }
  | empty {s} (h : s.queueStorage = []) : QueueAnswers t .tryDequeue s none s
  | readable {s} (h : 0 < s.counter) : QueueAnswers t .awaitReadable s () s
  | reads {s} (h : 0 < s.counter) :
    QueueAnswers t .read s { result := 8, value := .ofNat s.counter } { s with counter := 0 }
  | readWouldBlock {s} (h : s.counter = 0) :
    QueueAnswers t .read s { result := -1, errno := Posix.EAGAIN } s
  | readInterrupted {s} : QueueAnswers t .read s { result := -1, errno := Posix.EINTR } s
  | writes {s} (h : s.counter < eventFdMax) :
    QueueAnswers t .write s { result := 8 } { s with counter := s.counter + 1 }
  | writeWouldBlock {s} (h : s.counter = eventFdMax) :
    QueueAnswers t .write s { result := -1, errno := Posix.EAGAIN } s
  | writeInterrupted {s} : QueueAnswers t .write s { result := -1, errno := Posix.EINTR } s

def linuxQueueThreads : Threads T (QueueProgram α (List α)) (QueueState T α) := Resumption.threads QueueAnswers

/-- What a thread does with the queue. -/
inductive QueueClient (α : Type)
  | producer (calls : List (QueueCall α))
  | consumer (cycles : Nat)
deriving DecidableEq, Repr

namespace QueueClient

def program (n : Nat) : QueueClient α → QueueProgram α (List α)
  | producer calls => LinuxQueue.produce n calls []
  | consumer cycles => LinuxQueue.consume n cycles

end QueueClient

end

end UdfRunner
