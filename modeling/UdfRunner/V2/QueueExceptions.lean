import UdfRunner.V2.Posix
import UdfRunner.V2.WaitableQueue

/-!
# `waitable_queue.hpp`: calls that are left by an exception

`enqueue_batch` notifies once, behind its loop. `exceptions_strand_iff`: an exception strands nothing exactly
if it comes before anything was placed, and then every run of producers and consumers still wakes who waits.
-/

namespace UdfRunner
open Proc

/-- An exception of the queue or the eventfd. -/
inductive QueueException
  | systemError (errno : Nat)
  | other (what : ByteString)
deriving DecidableEq, Repr

/-- What `enqueue` of the queue does with an element. -/
inductive EnqueueAnswer
  | accepts
  | refuses
  | throws (e : QueueException)
deriving DecidableEq, Repr

inductive QueueEvent (α : Type)
  | placed (value : α)
  | notified
deriving DecidableEq, Repr

/-- A queue in a call: its elements, what was done, and how the next writes of the eventfd will end. -/
structure WaitableQueue (α : Type) where
  queueStorage : List α := []
  log : List (QueueEvent α) := []
  writes : List (Except QueueException Unit)

def Posix.EAGAIN : Nat := 11

abbrev Queueing (α : Type) := Proc (WaitableQueue α) QueueException

namespace WaitableQueue
variable {α : Type} (queue : List α → α → EnqueueAnswer)

/-- `queue_storage.enqueue`: what the queue does depends on what is in it. -/
def storageEnqueue (value : α) : Queueing α Bool := do
  let q ← get
  match queue q.queueStorage value with
  | .accepts => do
    modify fun q => { q with queueStorage := q.queueStorage ++ [value], log := q.log ++ [.placed value] }
    return true
  | .refuses => return false
  | .throws e => throw e

def writeNotification : Queueing α Unit := do
  let q ← get
  match q.writes with
  | [] => stop .cutOff
  | .ok () :: writes => modify fun q => { q with log := q.log ++ [.notified], writes := writes }
  | .error e :: writes => do
    modify fun q => { q with writes := writes }
    throw e

/-- A round of the loop of `notify`. A saturated eventfd is readable already. -/
def notifyRound : Queueing α (Unit ⊕ Unit) :=
  catching (do
    writeNotification
    return .inr ())
    fun
    | .systemError errno =>
      if errno = Posix.EINTR then return .inl ()
      else if errno = Posix.EAGAIN then return .inr ()
      else throw (.systemError errno)
    | .other what => throw (.other what)

def notify : Queueing α Unit := do
  let q ← get
  loop (fun _ => notifyRound) (q.writes.length + 1) ()

def enqueue (value : α) : Queueing α Bool := do
  if !(← storageEnqueue queue value) then return false
  else do
    notify
    return true

def enqueueLoop : List α → Nat → Queueing α Nat
  | [], enqueued => return enqueued
  | value :: rest, enqueued => do
    if !(← storageEnqueue queue value) then return enqueued
    else enqueueLoop rest (enqueued + 1)

def enqueueBatch (l : List α) : Queueing α Nat := do
  let enqueued ← enqueueLoop queue l 0
  if enqueued ≠ 0 then do
    notify
    return enqueued
  else return enqueued

end WaitableQueue

inductive QueueCall (α : Type)
  | enqueue (value : α)
  | enqueueBatch (l : List α)
deriving DecidableEq, Repr

namespace QueueCall
variable {α : Type} (queue : List α → α → EnqueueAnswer)

def run : QueueCall α → Queueing α Unit
  | enqueue value => do
    let _ ← WaitableQueue.enqueue queue value
    return ()
  | enqueueBatch l => do
    let _ ← WaitableQueue.enqueueBatch queue l
    return ()

def elements : QueueCall α → List α
  | enqueue value => [value]
  | enqueueBatch l => l

end QueueCall

namespace WaitableQueue
variable {α : Type} (queue : List α → α → EnqueueAnswer)

/-- An element that was placed between `q` and `q'` has no notification behind it. -/
def Strands (q q' : WaitableQueue α) : Prop :=
  ∃ before value after, q'.log = q.log ++ before ++ .placed value :: after ∧ .notified ∉ after

/-- The elements the queue accepts one after another, before it refuses one or throws. -/
def accepted (elements : List α) : List α → List α
  | [] => []
  | value :: rest =>
    if queue elements value = .accepts then value :: accepted (elements ++ [value]) rest else []

/-- The queue throws before it refuses one. -/
def Throws (elements : List α) : List α → Prop
  | [] => False
  | value :: rest =>
    match queue elements value with
    | .accepts => Throws (elements ++ [value]) rest
    | .refuses => False
    | .throws _ => True

/-- The first write that is not interrupted fails, and not because the eventfd is saturated. -/
def WriteFails : List (Except QueueException Unit) → Prop
  | [] | .ok () :: _ => False
  | .error (.systemError errno) :: writes =>
    if errno = Posix.EINTR then WriteFails writes else errno ≠ Posix.EAGAIN
  | .error (.other _) :: _ => True

end WaitableQueue

/-- Nothing of the call is placed, or no exception comes. -/
def QueueCall.StrandsNothing {α : Type} (queue : List α → α → EnqueueAnswer) (call : QueueCall α)
    (q : WaitableQueue α) : Prop :=
  WaitableQueue.accepted queue q.queueStorage call.elements = [] ∨
    (¬WaitableQueue.Throws queue q.queueStorage call.elements ∧ ¬WaitableQueue.WriteFails q.writes)

namespace WaitableQueue
variable {α : Type} {queue : List α → α → EnqueueAnswer} {q : WaitableQueue α}

/-! ### What a call does -/

/-- The elements `l` are placed. -/
def place (q : WaitableQueue α) (l : List α) : WaitableQueue α :=
  { q with queueStorage := q.queueStorage ++ l, log := q.log ++ l.map .placed }

theorem place_place (q : WaitableQueue α) (l l' : List α) : (q.place l).place l' = q.place (l ++ l') := by
  simp [place, List.append_assoc]

theorem storageEnqueue_accepts {value : α} (h : queue q.queueStorage value = .accepts) :
    storageEnqueue queue value q = (.ok true, q.place [value]) := by
  simp only [storageEnqueue, Bind.bind, Proc.bind, Proc.get, h]
  rfl

theorem storageEnqueue_refuses {value : α} (h : queue q.queueStorage value = .refuses) :
    storageEnqueue queue value q = (.ok false, q) := by
  simp only [storageEnqueue, Bind.bind, Proc.bind, Proc.get, h]
  rfl

theorem storageEnqueue_throws {value : α} {e : QueueException} (h : queue q.queueStorage value = .throws e) :
    storageEnqueue queue value q = (.throw e, q) := by
  simp only [storageEnqueue, Bind.bind, Proc.bind, Proc.get, h]
  rfl

theorem enqueueLoop_eq (queue : List α → α → EnqueueAnswer) (l : List α) (q : WaitableQueue α) (n : Nat) :
    (Throws queue q.queueStorage l ∧
      ∃ e, enqueueLoop queue l n q = (.throw e, q.place (accepted queue q.queueStorage l))) ∨
    (¬Throws queue q.queueStorage l ∧ enqueueLoop queue l n q =
      (.ok (n + (accepted queue q.queueStorage l).length), q.place (accepted queue q.queueStorage l))) := by
  induction l generalizing q n with
  | nil => exact .inr ⟨id, by simp [enqueueLoop, accepted, place]⟩
  | cons value rest ih =>
    cases hanswer : queue q.queueStorage value with
    | accepts =>
      have hrun := storageEnqueue_accepts hanswer
      rw [enqueueLoop, run_bind _ _ hrun, Throws, hanswer, accepted, if_pos hanswer]
      have hlength : ∀ l : List α, n + (value :: l).length = n + 1 + l.length := by
        intro l
        rw [List.length_cons]
        omega
      have hrest := ih (q.place [value]) (n + 1)
      rw [place_place] at hrest
      rw [hlength]
      exact hrest
    | refuses =>
      have hrun := storageEnqueue_refuses hanswer
      have hnone : accepted queue q.queueStorage (value :: rest) = [] := by simp [accepted, hanswer]
      rw [enqueueLoop, run_bind _ _ hrun, Throws, hanswer, hnone]
      exact .inr ⟨id, by simp [place]⟩
    | throws e =>
      have hrun := storageEnqueue_throws hanswer
      have hnone : accepted queue q.queueStorage (value :: rest) = [] := by simp [accepted, hanswer]
      rw [Throws, hanswer, hnone]
      refine .inl ⟨trivial, e, ?_⟩
      show Proc.bind (storageEnqueue queue value) _ q = _
      rw [Proc.bind, hrun]
      simp [place]

section
variable {writes : List (Except QueueException Unit)}

theorem notifyRound_nil (h : q.writes = []) : notifyRound q = (.stop .cutOff, q) := by
  simp only [notifyRound, catching, writeNotification, Bind.bind, Proc.bind, Proc.get, h]
  rfl

theorem notifyRound_ok (h : q.writes = .ok () :: writes) :
    notifyRound q = (.ok (.inr ()), { q with log := q.log ++ [.notified], writes := writes }) := by
  simp only [notifyRound, catching, writeNotification, Bind.bind, Proc.bind, Proc.get, h]
  rfl

theorem notifyRound_systemError {errno : Nat} (h : q.writes = .error (.systemError errno) :: writes) :
    notifyRound q = (if errno = Posix.EINTR then .ok (.inl ()) else if errno = Posix.EAGAIN then .ok (.inr ())
      else .throw (.systemError errno), { q with writes := writes }) := by
  simp only [notifyRound, catching, writeNotification, Bind.bind, Proc.bind, Proc.get, h]
  show (if _ then _ else if _ then _ else _ : Queueing α (Unit ⊕ Unit)) _ = _
  split_ifs <;> rfl

theorem notifyRound_other {what : ByteString} (h : q.writes = .error (.other what) :: writes) :
    notifyRound q = (.throw (.other what), { q with writes := writes }) := by
  simp only [notifyRound, catching, writeNotification, Bind.bind, Proc.bind, Proc.get, h]
  rfl

end

/-- What `notify` leaves: an exception comes from the first write that is not interrupted, and then nothing
was written. -/
def Notifies (q : WaitableQueue α) (o : Outcome QueueException Unit) (q' : WaitableQueue α) : Prop :=
  q'.queueStorage = q.queueStorage ∧
    ((WriteFails q.writes ∧ (∃ e, o = .throw e) ∧ q'.log = q.log) ∨ (¬WriteFails q.writes ∧ ∀ e, o ≠ .throw e))

theorem notifyLoop_spec (n : Nat) (hn : q.writes.length < n) :
    wp (loop (fun _ => notifyRound) n ()) (Notifies q) q := by
  induction n generalizing q with
  | zero => cases hn
  | succ n ih =>
    rw [loop_succ, wp_bind]
    rcases hwrites : q.writes with _ | ⟨e | ⟨⟨⟩⟩, writes⟩
    · rw [wp_eq (notifyRound_nil hwrites)]
      exact ⟨rfl, .inr ⟨by simp [hwrites, WriteFails], by simp⟩⟩
    · cases e with
      | other what =>
        rw [wp_eq (notifyRound_other hwrites)]
        exact ⟨rfl, .inl ⟨by rw [hwrites]; trivial, ⟨_, rfl⟩, rfl⟩⟩
      | systemError errno =>
        rw [wp_eq (notifyRound_systemError hwrites)]
        by_cases hintr : errno = Posix.EINTR
        · have hfails : WriteFails q.writes ↔ WriteFails writes := by rw [hwrites, WriteFails, if_pos hintr]
          rw [if_pos hintr, Outcome.andThen_ok]
          refine wp_mono (@ih { q with writes := writes } (by simpa [hwrites] using hn)) fun o q' ho => ?_
          rw [Notifies, hfails]
          exact ho
        have hfails : WriteFails q.writes ↔ errno ≠ Posix.EAGAIN := by rw [hwrites, WriteFails, if_neg hintr]
        rw [if_neg hintr]
        split_ifs with hagain
        · exact ⟨rfl, .inr ⟨fun h => hfails.mp h hagain, fun _ h => by cases h⟩⟩
        · exact ⟨rfl, .inl ⟨hfails.mpr hagain, ⟨_, rfl⟩, rfl⟩⟩
    · rw [wp_eq (notifyRound_ok hwrites)]
      exact ⟨rfl, .inr ⟨by simp [hwrites, WriteFails], fun _ h => by cases h⟩⟩

theorem wp_notify : wp notify (Notifies q) q := notifyLoop_spec _ (Nat.lt_succ_self _)

/-- How a call for the elements `l` ends: it is left by an exception if the queue throws, or if something was
placed and the write fails. Nothing is written then. -/
structure Leaves {β : Type} (queue : List α → α → EnqueueAnswer) (l : List α) (q : WaitableQueue α)
    (o : Outcome QueueException β) (q' : WaitableQueue α) : Prop where
  storage : q'.queueStorage = q.queueStorage ++ accepted queue q.queueStorage l
  throws_iff : (∃ e, o = .throw e) ↔ Throws queue q.queueStorage l ∨
    (accepted queue q.queueStorage l ≠ [] ∧ WriteFails q.writes)
  log : (∃ e, o = .throw e) → q'.log = q.log ++ (accepted queue q.queueStorage l).map .placed

section
variable {β γ : Type} {l : List α}

theorem Leaves.throw {e : QueueException} (h : Throws queue q.queueStorage l) :
    Leaves queue l q (.throw e : Outcome QueueException β) (q.place (accepted queue q.queueStorage l)) :=
  ⟨rfl, ⟨fun _ => .inl h, fun _ => ⟨e, rfl⟩⟩, fun _ => rfl⟩

theorem Leaves.ok {b : β} (h : ¬Throws queue q.queueStorage l) (hnone : accepted queue q.queueStorage l = []) :
    Leaves queue l q (.ok b) q :=
  ⟨by simp [hnone], ⟨by simp, fun hc => hc.elim (absurd · h) fun hc => absurd hnone hc.1⟩, by simp⟩

/-- What follows with the result does not matter. -/
theorem Leaves.andThen {m : Queueing α β} {s : WaitableQueue α} (f : β → γ) (h : wp m (Leaves queue l q) s) :
    wp (m >>= fun b => Pure.pure (f b) : Queueing α γ) (Leaves queue l q) s := by
  rw [wp_bind]
  refine wp_mono h fun o q' ho => ?_
  cases o with
  | ok b => exact ⟨ho.storage, by simpa using ho.throws_iff, by simp⟩
  | throw e => exact ⟨ho.storage, by simpa using ho.throws_iff, by simpa using ho.log⟩
  | stop r => exact ⟨ho.storage, by simpa using ho.throws_iff, by simp⟩

theorem notify_leaves (hne : accepted queue q.queueStorage l ≠ []) (hthrows : ¬Throws queue q.queueStorage l) :
    wp notify (Leaves queue l q) (q.place (accepted queue q.queueStorage l)) := by
  refine wp_mono wp_notify fun o q' ho => ?_
  rcases ho with ⟨hstorage, ⟨hfails, ⟨e, rfl⟩, hlog⟩ | ⟨hfails, hnone⟩⟩
  · exact ⟨hstorage, ⟨fun _ => .inr ⟨hne, hfails⟩, fun _ => ⟨e, rfl⟩⟩, fun _ => hlog⟩
  · refine ⟨hstorage, ⟨?_, fun hc => hc.elim (absurd · hthrows) fun hc => absurd hc.2 hfails⟩, ?_⟩
    · rintro ⟨e, he⟩
      exact absurd he (hnone e)
    · rintro ⟨e, he⟩
      exact absurd he (hnone e)

theorem enqueue_leaves (value : α) : wp (enqueue queue value) (Leaves queue [value] q) q := by
  unfold enqueue
  rw [wp_bind]
  cases hanswer : queue q.queueStorage value with
  | accepts =>
    have hone : accepted queue q.queueStorage [value] = [value] := by simp [accepted, hanswer]
    rw [wp_eq (storageEnqueue_accepts hanswer), Outcome.andThen_ok]
    have hnotify : wp notify (Leaves queue [value] q) _ :=
      notify_leaves (by simp [hone]) (by simp [Throws, hanswer])
    rw [hone] at hnotify
    exact Leaves.andThen (fun _ => true) hnotify
  | refuses =>
    rw [wp_eq (storageEnqueue_refuses hanswer)]
    exact .ok (by simp [Throws, hanswer]) (by simp [accepted, hanswer])
  | throws e =>
    have hthrow : Leaves queue [value] q (.throw e : Outcome QueueException Bool) (q.place _) :=
      .throw (by simp [Throws, hanswer])
    rw [wp_eq (storageEnqueue_throws hanswer)]
    simpa [accepted, hanswer, place] using hthrow

theorem enqueueBatch_leaves (l : List α) : wp (enqueueBatch queue l) (Leaves queue l q) q := by
  unfold enqueueBatch
  rw [wp_bind]
  rcases enqueueLoop_eq queue l q 0 with ⟨hthrows, e, hrun⟩ | ⟨hthrows, hrun⟩
  · rw [wp_eq hrun]
    exact .throw hthrows
  · rw [wp_eq hrun, Outcome.andThen_ok]
    by_cases hnone : accepted queue q.queueStorage l = []
    · have hsame : q.place [] = q := by simp [place]
      rw [hnone, hsame]
      exact .ok hthrows hnone
    · rw [wp_ite, if_pos (by simpa using hnone)]
      exact Leaves.andThen (fun _ => _) (notify_leaves hnone hthrows)

end

end WaitableQueue

theorem QueueCall.run_leaves {α : Type} (queue : List α → α → EnqueueAnswer) (call : QueueCall α)
    (q : WaitableQueue α) : wp (call.run queue) (WaitableQueue.Leaves queue call.elements q) q := by
  cases call with
  | enqueue value => exact .andThen (fun _ => ()) (WaitableQueue.enqueue_leaves value)
  | enqueueBatch l => exact .andThen (fun _ => ()) (WaitableQueue.enqueueBatch_leaves l)

namespace WaitableQueue
variable {α : Type} {q q' : WaitableQueue α} {l : List α}

/-- Elements placed one after another have no notification behind them. -/
theorem strands_iff (h : q'.log = q.log ++ l.map .placed) : Strands q q' ↔ l ≠ [] := by
  constructor
  · rintro ⟨before, value, after, hlog, -⟩ rfl
    rw [h, List.append_assoc] at hlog
    simpa using List.append_cancel_left hlog
  · intro hne
    obtain ⟨l, value, rfl⟩ := List.eq_nil_or_concat l |>.resolve_left hne
    exact ⟨l.map .placed, value, [], by simp [h], by simp⟩

end WaitableQueue

/-- A call that is left by an exception has notified of what it placed, exactly if it placed nothing or there
is no exception. -/
theorem QueueCall.strands_iff {α : Type} (queue : List α → α → EnqueueAnswer) (call : QueueCall α)
    (q : WaitableQueue α) :
    (∀ e, (call.run queue q).1 = .throw e → ¬WaitableQueue.Strands q (call.run queue q).2) ↔
      call.StrandsNothing queue q := by
  obtain ⟨-, hthrow, hlog⟩ := call.run_leaves queue q
  unfold StrandsNothing
  constructor
  · intro h
    by_cases hnone : WaitableQueue.accepted queue q.queueStorage call.elements = []
    · exact .inl hnone
    -- an exception would leave what was placed
    have hreturns : ¬∃ e, (call.run queue q).1 = .throw e := by
      rintro ⟨e, he⟩
      exact h e he ((WaitableQueue.strands_iff (hlog ⟨e, he⟩)).mpr hnone)
    rw [hthrow, not_or] at hreturns
    exact .inr ⟨hreturns.1, fun hfails => hreturns.2 ⟨hnone, hfails⟩⟩
  · intro h e he
    have hplaced := hlog ⟨e, he⟩
    rw [WaitableQueue.strands_iff hplaced]
    rcases h with hnone | ⟨hthrows, hfails⟩
    · exact not_not.mpr hnone
    · rcases hthrow.mp ⟨e, he⟩ with h | h
      · exact absurd h hthrows
      · exact absurd h.2 hfails

/-! ### Runs of producers and consumers -/

section
variable {T α : Type}

/-- A producer's call is left by an exception, of the queue or of a write. -/
inductive QueueThrows (t : T) : QueuePlace α → QueueState T α → QueuePlace α → QueueState T α → Prop
  | enqueue {rep v s} : QueueThrows t (.enqueue rep v) s (.outside rep) s
  | enqueueBatch {rep done v l s} : QueueThrows t (.enqueueBatch rep done (v :: l)) s (.outside rep) s
  | notify {rep done s} : QueueThrows t (.notify rep done) s (.outside rep) s

/-- The steps of a thread whose calls are left by an exception only if they have placed nothing. -/
def SettledStep (t : T) (p : QueuePlace α) (s : QueueState T α) (p' : QueuePlace α) (s' : QueueState T α) :
    Prop :=
  QueueStep t p s p' s' ∨ (QueueThrows t p s p' s' ∧ p.current = [])

def settledThreads : Threads T (QueuePlace α) (QueueState T α) := ⟨SettledStep⟩

/-- Who notifies has placed something. -/
def QueuePlace.NotifiesOfSome : QueuePlace α → Prop
  | notify _ done => done ≠ []
  | _ => True

variable {t : T} {p p' : QueuePlace α} {s s' : QueueState T α}

theorem afterBatch_notifiesOfSome (rep done : List α) : (afterBatch rep done).NotifiesOfSome := by
  cases done with
  | nil => trivial
  | cons v l => exact List.cons_ne_nil v l

theorem SettledStep.notifiesOfSome (h : SettledStep t p s p' s') (hp : p.NotifiesOfSome) :
    p'.NotifiesOfSome := by
  rcases h with h | ⟨h, -⟩
  · cases h with
    | batchRefused | batchEnds => exact afterBatch_notifiesOfSome _ _
    | pushes => exact List.cons_ne_nil _ _
    | writeInterrupted => exact hp
    | _ => trivial
  · cases h <;> trivial

theorem SettledStep.attends (h : SettledStep t p s p' s') (hp : p.NotifiesOfSome)
    (hne : s'.queueStorage ≠ []) :
    0 < s'.counter ∨ p'.Attends ∨ (s.queueStorage ≠ [] ∧ s'.counter = s.counter ∧ ¬p.Attends) := by
  rcases h with h | ⟨h, hcurrent⟩
  · exact h.attends hne
  · cases h with
    | enqueue => exact .inr (.inr ⟨hne, rfl, id⟩)
    | enqueueBatch => exact .inr (.inr ⟨hne, rfl, fun hdone => hdone hcurrent⟩)
    | notify => exact absurd hcurrent hp

variable [DecidableEq T] {place : T → QueuePlace α} {l : List T}
  {c : Threads.Config T (QueuePlace α) (QueueState T α)}

/-- A run of producers and consumers on an empty queue, with exceptions. -/
def SettledRun (place : T → QueuePlace α) (l : List T)
    (c : Threads.Config T (QueuePlace α) (QueueState T α)) : Prop :=
  settledThreads.interleave.Path ⟨{}, place⟩ l c

theorem SettledRun.step (h : SettledRun place l c) (t : T) {p q : QueuePlace α} {s : QueueState T α}
    (hp : c.place t = p) (hs : SettledStep t p c.shared q s) :
    SettledRun place (l ++ [t]) ⟨s, Function.update c.place t q⟩ := by
  subst hp
  exact Lts.Path.step h (.step hs)

theorem SettledRun.attended (h : SettledRun place l c) (hstart : Starts place) :
    (∀ t, (c.place t).NotifiesOfSome) ∧ Attended c := by
  refine Threads.invariant h (I := fun c => (∀ t, (c.place t).NotifiesOfSome) ∧ Attended c)
    ⟨fun t => ?_, fun hne => absurd rfl hne⟩ ?_
  · show (place t).NotifiesOfSome
    rcases hstart t with ht | ht <;> rw [ht] <;> trivial
  · rintro c t p s ⟨hnotifies, hc⟩ hstep
    refine ⟨fun u => ?_, hc.step (hstep.attends (hnotifies t))⟩
    show (Function.update c.place t p u).NotifiesOfSome
    by_cases hu : u = t
    · subst hu
      rw [Function.update_self]
      exact hstep.notifiesOfSome (hnotifies u)
    · rw [Function.update_of_ne hu]
      exact hnotifies u

end

/-! ### A call of the code is a path of these steps -/

/-- The next writes end in a way that an eventfd with this counter allows. -/
def WaitableQueue.WritesFit (counter : Nat) : List (Except QueueException Unit) → Prop
  | [] => False
  | .ok () :: _ => counter < eventFdMax
  | .error (.systemError errno) :: writes =>
    if errno = Posix.EINTR then WritesFit counter writes else errno = Posix.EAGAIN → counter = eventFdMax
  | .error (.other _) :: _ => True

section
open WaitableQueue
variable {T α : Type}

/-- The steps of one thread, while the others do nothing. -/
def SettledSteps (t : T) (p : QueuePlace α) (s : QueueState T α) (p' : QueuePlace α) (s' : QueueState T α) :
    Prop :=
  Relation.ReflTransGen (fun a b : QueuePlace α × QueueState T α => SettledStep t a.1 a.2 b.1 b.2)
    (p, s) (p', s')

def QueueState.values (s : QueueState T α) : List α := s.queueStorage.map Prod.snd

variable {queue : List α → α → EnqueueAnswer} {t : T} {p p' p'' : QueuePlace α} {s s' s'' : QueueState T α}

theorem QueueState.values_push (s : QueueState T α) (v : α) : (s.push t v).values = s.values ++ [v] := by
  simp [values, push]

namespace SettledSteps

theorem single (h : QueueStep t p s p' s') : SettledSteps t p s p' s' :=
  Relation.ReflTransGen.single (.inl h)

theorem throws (h : QueueThrows t p s p' s') (hcurrent : p.current = []) : SettledSteps t p s p' s' :=
  Relation.ReflTransGen.single (.inr ⟨h, hcurrent⟩)

theorem trans (h : SettledSteps t p s p' s') (h' : SettledSteps t p' s' p'' s'') : SettledSteps t p s p'' s'' :=
  Relation.ReflTransGen.trans h h'

theorem head (h : QueueStep t p s p' s') (h' : SettledSteps t p' s' p'' s'') : SettledSteps t p s p'' s'' :=
  (single h).trans h'

end SettledSteps

theorem notify_settles (rep done : List α) {writes : List (Except QueueException Unit)}
    (hfit : WritesFit s.counter writes) (hfails : ¬WriteFails writes) :
    ∃ s', SettledSteps t (.notify rep done) s (.outside (rep ++ done)) s' ∧ s'.values = s.values := by
  induction writes with
  | nil => exact hfit.elim
  | cons w writes ih =>
    rcases w with (errno | what) | ⟨⟨⟩⟩
    · by_cases hintr : errno = Posix.EINTR
      · rw [WritesFit, if_pos hintr] at hfit
        rw [WriteFails, if_pos hintr] at hfails
        obtain ⟨s', hsteps, hvalues⟩ := ih hfit hfails
        exact ⟨s', .head .writeInterrupted hsteps, hvalues⟩
      · rw [WritesFit, if_neg hintr] at hfit
        rw [WriteFails, if_neg hintr, not_not] at hfails
        exact ⟨s, .single (.writeWouldBlock (hfit hfails)), rfl⟩
    · exact absurd trivial hfails
    · exact ⟨_, .single (.writes hfit), rfl⟩

/-- The loop of `enqueue_batch` stops in front of an element that the queue throws for. -/
theorem enqueueLoop_settles (queue : List α → α → EnqueueAnswer) (rep done l : List α) (s : QueueState T α) :
    ∃ rest s', SettledSteps t (.enqueueBatch rep done l) s
        (.enqueueBatch rep (done ++ accepted queue s.values l) rest) s' ∧
      s'.values = s.values ++ accepted queue s.values l ∧ s'.counter = s.counter ∧
      (WaitableQueue.Throws queue s.values l → rest ≠ []) := by
  induction l generalizing done s with
  | nil =>
    rw [accepted, List.append_nil, List.append_nil]
    exact ⟨[], s, .refl, rfl, rfl, fun h => h.elim⟩
  | cons v l ih =>
    by_cases hanswer : queue s.values v = .accepts
    · obtain ⟨rest, s', hsteps, hvalues, hcounter, hthrows⟩ := ih (done ++ [v]) (s.push t v)
      rw [QueueState.values_push] at hsteps hvalues hthrows
      rw [accepted, if_pos hanswer, WaitableQueue.Throws, hanswer]
      refine ⟨rest, s', .head .batchPushes ?_, ?_, hcounter, hthrows⟩
      · simpa [List.append_assoc] using hsteps
      · simpa [List.append_assoc] using hvalues
    · rw [accepted, if_neg hanswer, List.append_nil, List.append_nil]
      exact ⟨v :: l, s, .refl, rfl, rfl, fun _ => List.cons_ne_nil v l⟩

/-- A call that strands nothing is a path of the steps of `SettledRun`. -/
theorem QueueCall.settles {call : QueueCall α} {q : WaitableQueue α} (h : call.StrandsNothing queue q)
    (rep : List α) (hs : s.values = q.queueStorage) (hfit : WritesFit s.counter q.writes) :
    ∃ s', SettledSteps t (.outside rep) s (.outside (rep ++ accepted queue q.queueStorage call.elements)) s' ∧
      s'.values = (call.run queue q).2.queueStorage := by
  rw [(call.run_leaves queue q).storage]
  unfold StrandsNothing at h
  rw [← hs] at h ⊢
  cases call with
  | enqueue v =>
    cases hanswer : queue s.values v with
    | accepts =>
      have hone : accepted queue s.values [v] = [v] := by simp [accepted, hanswer]
      rw [elements, hone] at h ⊢
      have hfails := (h.resolve_left (List.cons_ne_nil v [])).2
      have hpushed : WritesFit (s.push t v).counter q.writes := hfit
      obtain ⟨s', hsteps, hvalues⟩ := notify_settles (t := t) rep [v] hpushed hfails
      refine ⟨s', .head .callEnqueue (.head .pushes hsteps), ?_⟩
      rw [hvalues, QueueState.values_push]
    | refuses =>
      have hnone : accepted queue s.values [v] = [] := by simp [accepted, hanswer]
      rw [elements, hnone, List.append_nil, List.append_nil]
      exact ⟨s, .head (.callEnqueue (v := v)) (.single .refused), by simp⟩
    | throws e =>
      have hnone : accepted queue s.values [v] = [] := by simp [accepted, hanswer]
      rw [elements, hnone, List.append_nil, List.append_nil]
      exact ⟨s, .head (.callEnqueue (v := v)) (.throws .enqueue rfl), by simp⟩
  | enqueueBatch l =>
    rw [elements] at h ⊢
    obtain ⟨rest, s', hloop, hvalues, hcounter, hthrows⟩ := enqueueLoop_settles (t := t) queue rep [] l s
    rw [List.nil_append] at hloop
    generalize accepted queue s.values l = done at h hloop hvalues ⊢
    have hcall := SettledSteps.head .callEnqueueBatch hloop
    -- what follows the loop
    have hafter : SettledSteps t (.enqueueBatch rep done rest) s' (afterBatch rep done) s' := by
      cases rest with
      | nil => exact .single .batchEnds
      | cons v l => exact .single .batchRefused
    cases done with
    | nil =>
      rw [List.append_nil] at hvalues ⊢
      by_cases hthrow : WaitableQueue.Throws queue s.values l
      · obtain ⟨v, rest, rfl⟩ := List.exists_cons_of_ne_nil (hthrows hthrow)
        exact ⟨s', hcall.trans (.throws .enqueueBatch rfl), by simpa using hvalues⟩
      · exact ⟨s', hcall.trans hafter, by simpa using hvalues⟩
    | cons v done =>
      have hfails := (h.resolve_left (List.cons_ne_nil v done)).2
      rw [← hcounter] at hfit
      obtain ⟨s'', hnotify, hvalues'⟩ := notify_settles (t := t) rep (v :: done) hfit hfails
      exact ⟨s'', (hcall.trans hafter).trans hnotify, hvalues'.trans hvalues⟩

end

open WaitableQueue

/-- An exception that leaves a call has every element that the call placed notified of, exactly if it placed
nothing or no exception comes. Such calls are paths of settled steps, and in every run of them, with any
number of threads, elements in the queue are notified of or attended to: if all producers are outside and all
consumers wait, a queue that is not empty is notified of. -/
theorem exceptions_strand_iff {α : Type} (queue : List α → α → EnqueueAnswer) :
    (∀ (call : QueueCall α) (q : WaitableQueue α),
      (∀ e, (call.run queue q).1 = .throw e → ¬Strands q (call.run queue q).2) ↔ call.StrandsNothing queue q) ∧
    (∀ (call : QueueCall α) (q : WaitableQueue α), call.StrandsNothing queue q →
      ∀ (T : Type) (t : T) (rep : List α) (s : QueueState T α), s.values = q.queueStorage →
        WritesFit s.counter q.writes → ∃ rep' s', SettledSteps t (.outside rep) s (.outside rep') s' ∧
          s'.values = (call.run queue q).2.queueStorage) ∧
    ∀ (T : Type) [DecidableEq T] (place : T → QueuePlace α) (l : List T)
      (c : Threads.Config T (QueuePlace α) (QueueState T α)), Starts place → SettledRun place l c →
      Attended c ∧ ((∀ t, (c.place t).Rests) → c.shared.queueStorage ≠ [] → 0 < c.shared.counter) := by
  refine ⟨QueueCall.strands_iff queue, fun call q h T t rep s hs hfit => ?_, fun T _ place l c hstart h => ?_⟩
  · obtain ⟨s', hsteps, hvalues⟩ := QueueCall.settles h (t := t) rep hs hfit
    exact ⟨_, s', hsteps, hvalues⟩
  · have hc := (h.attended hstart).2
    exact ⟨hc, hc.wakes⟩

/-- A queue that cannot copy 8. -/
def cannotCopyEight (_ : List Nat) (value : Nat) : EnqueueAnswer :=
  if value = 8 then .throws (.other (str "cannot copy")) else .accepts

/-- A batch with 8 in front is left without a trace, and a run after it wakes the consumer for 7. -/
theorem exceptions_strand_iff_eightFirst :
    (∀ e, ((QueueCall.enqueueBatch [8, 7]).run cannotCopyEight { writes := [] }).1 = .throw e →
      ¬Strands { writes := [] } ((QueueCall.enqueueBatch [8, 7]).run cannotCopyEight { writes := [] }).2) ∧
    ∃ (l : List Bool) (c : Threads.Config Bool (QueuePlace Nat) (QueueState Bool Nat)),
      SettledRun (fun t => bif t then .waiting else .outside []) l c ∧ c.shared.queueStorage = [(false, 7)] ∧
        0 < c.shared.counter := by
  obtain ⟨hcall, -, hrun⟩ := exceptions_strand_iff cannotCopyEight
  refine ⟨(hcall _ _).mpr (.inl rfl), ?_⟩
  have hstart : Starts (T := Bool) (α := Nat) fun t => bif t then .waiting else .outside [] := by
    intro t
    cases t <;> simp
  have h : SettledRun (T := Bool) (α := Nat) (fun t => bif t then .waiting else .outside []) [] _ := .nil
  have h := h.step false rfl (.inl (.callEnqueueBatch (l := [8, 7])))
  have h := h.step false rfl (.inr ⟨.enqueueBatch, rfl⟩)
  have h := h.step false rfl (.inl (.callEnqueue (v := 7)))
  have h := h.step false rfl (.inl .pushes)
  have h := h.step false rfl (.inl (.writes (by decide)))
  refine ⟨_, _, h, rfl, (hrun Bool _ _ _ hstart h).2 ?_ (by simp [QueueState.push])⟩
  intro t
  cases t <;> trivial

/-- The batch 7, 8 leaves 7 in the queue, and no one was told. -/
theorem exceptions_strand_seven : ¬∀ (queue : List Nat → Nat → EnqueueAnswer) (call : QueueCall Nat)
    (q : WaitableQueue Nat) (e : QueueException), (call.run queue q).1 = .throw e →
      ¬Strands q (call.run queue q).2 := by
  intro h
  exact h cannotCopyEight (.enqueueBatch [7, 8]) { writes := [.ok ()] } _ rfl ⟨[], 7, [], rfl, by simp⟩

end UdfRunner
