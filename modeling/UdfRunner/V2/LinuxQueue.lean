import UdfRunner.V2.LinuxEventFd

/-!
# The queue of `linux_event_fd.cc` is the queue of `waitable_queue.hpp`

`Tracks`: what is left of a thread's program, and the place of the thread in `queueThreads`.
`linuxQueue_delivers`: every interleaving of calls of the kernel and of the queue is a run of producers and
consumers, and no exception leaves it.
-/

namespace UdfRunner
open Resumption

namespace LinuxQueue
variable {α : Type} (n : Nat)

/-- What is left of `notify`: the round it is in, and `rounds` more. -/
def notifyFrom (m rounds : Nat) : QueueProgram α Unit :=
  notifyRound m >>= fun
    | .inl _ => loop (fun _ => notifyRound n) rounds ()
    | .inr _ => ok ()

/-- What is left of `drain_notifications`. -/
def drainFrom (total : UInt64) (m rounds : Nat) : QueueProgram α UInt64 :=
  drainRound total m >>= fun
    | .inl total => loop (fun total => drainRound total n) rounds total
    | .inr total => ok total

/-- What a producer does after the loop of `enqueue_batch`. -/
def afterLoop (calls : List (QueueCall α)) (reported l : List α) (enqueued : Nat) : QueueProgram α (List α) := do
  let enqueued ← enqueueBatchEnd n enqueued
  produce n calls (reported ++ l.take enqueued)

/-- Where a thread with this program is. A program that is cut off may be anywhere. -/
inductive Tracks : QueueProgram α (List α) → QueuePlace α → Prop
  | producing {calls reported} : Tracks (produce n calls reported) (.outside reported)
  | batching {calls reported done rest} (h : done ≠ []) :
    Tracks (enqueueLoop rest done.length >>= afterLoop n calls reported (done ++ rest))
      (.enqueueBatch reported done rest)
  | notifying {m rounds calls reported done} :
    Tracks (notifyFrom n m rounds >>= fun _ => produce n calls (reported ++ done)) (.notify reported done)
  | consuming {cycles} : Tracks (consume n cycles) .waiting
  | draining {total m rounds cycles} :
    Tracks (drainFrom n total m rounds >>= fun _ => do
      dequeueLoop n
      consume n cycles) (.draining total)
  | dequeuing {m cycles} : Tracks (dequeueLoop m >>= fun _ => consume n cycles) .dequeuing
  | cutOff {p} : Tracks cutOff p

variable {n}

/-- Whether the `do … while` around the call goes on. -/
def interrupted (r : IoResult) : Prop := r.result = -1 ∧ r.errno = Posix.EINTR

instance : DecidablePred interrupted := fun r => inferInstanceAs (Decidable (r.result = -1 ∧ _))

theorem readLoop_succ (m : Nat) : LinuxEventFd.readLoop (α := α) (m + 1) = call QueueRequest.read fun r =>
    if interrupted r then LinuxEventFd.readLoop m else ok r := by
  refine congrArg (call QueueRequest.read) (funext fun r => ?_)
  show (ok (if interrupted r then _ else _) : QueueProgram α (Unit ⊕ IoResult)) >>= _ = _
  split_ifs <;> rfl

theorem writeLoop_succ (m : Nat) : LinuxEventFd.writeLoop (α := α) (m + 1) = call QueueRequest.write fun r =>
    if interrupted r then LinuxEventFd.writeLoop m else ok r := by
  refine congrArg (call QueueRequest.write) (funext fun r => ?_)
  show (ok (if interrupted r then _ else _) : QueueProgram α (Unit ⊕ IoResult)) >>= _ = _
  split_ifs <;> rfl

theorem drainRound_succ (total : UInt64) (m : Nat) : drainRound (α := α) total (m + 1) =
    call QueueRequest.read fun r => if interrupted r then drainRound total m else
      catching (do
        let value ← LinuxEventFd.readResult r
        return .inl (total + value)) (onSystemError total total) := by
  rw [drainRound, LinuxEventFd.readNotification, readLoop_succ]
  refine congrArg (call QueueRequest.read) (funext fun r => ?_)
  show catching ((if interrupted r then _ else _) >>= _ >>= _) _ = _
  split_ifs <;> rfl

theorem notifyRound_succ (m : Nat) : notifyRound (α := α) (m + 1) =
    call QueueRequest.write fun r => if interrupted r then notifyRound m else
      catching (do
        LinuxEventFd.writeResult r
        return .inr ()) (onSystemError () ()) := by
  rw [notifyRound, LinuxEventFd.writeNotification, writeLoop_succ]
  refine congrArg (call QueueRequest.write) (funext fun r => ?_)
  show catching ((if interrupted r then _ else _) >>= _ >>= _) _ = _
  split_ifs <;> rfl

theorem notifyFrom_eq (rounds : Nat) :
    notifyFrom (α := α) n n rounds = loop (fun _ => notifyRound n) (rounds + 1) () := by
  rw [loop_succ, notifyFrom]
  refine congrArg _ (funext fun r => ?_)
  cases r <;> rfl

theorem drainFrom_eq (total : UInt64) (rounds : Nat) :
    drainFrom (α := α) n total n rounds = loop (fun total => drainRound total n) (rounds + 1) total := by
  rw [loop_succ, drainFrom]
  refine congrArg _ (funext fun r => ?_)
  cases r <;> rfl

/-! ### One call -/

section
variable {T : Type} {t : T} {s s' : QueueState T α} {p' : QueueProgram α (List α)}

/-- A call of the program is a run of the thread in `queueThreads` from `q`, to where the program is then. -/
def Matched (n : Nat) (t : T) (q : QueuePlace α) (s : QueueState T α) (p' : QueueProgram α (List α))
    (s' : QueueState T α) : Prop :=
  ∃ q', queueThreads.Runs t (q, s) (q', s') ∧ Tracks n p' q'

theorem Matched.one {q q' : QueuePlace α} (h : QueueStep t q s q' s') (hp : Tracks n p' q') :
    Matched n t q s p' s' := ⟨q', Threads.Runs.one h, hp⟩

theorem Matched.two {q q₁ q' : QueuePlace α} {s₁ : QueueState T α} (h : QueueStep t q s q₁ s₁)
    (h' : QueueStep t q₁ s₁ q' s') (hp : Tracks n p' q') : Matched n t q s p' s' :=
  ⟨q', (Threads.Runs.one h).trans (Threads.Runs.one h'), hp⟩

theorem Matched.after {q q₁ : QueuePlace α} {s₁ : QueueState T α} (h : queueThreads.Runs t (q, s) (q₁, s₁))
    (h' : Matched n t q₁ s₁ p' s') : Matched n t q s p' s' := by
  obtain ⟨q', hruns, hp⟩ := h'
  exact ⟨q', h.trans hruns, hp⟩

theorem Tracks.notifyLoop (calls : List (QueueCall α)) {reported done : List α} :
    Tracks n (notify n >>= fun _ => produce n calls (reported ++ done)) (.notify reported done) := by
  unfold notify
  cases n with
  | zero => exact .cutOff
  | succ n =>
    rw [← notifyFrom_eq]
    exact .notifying

theorem Tracks.drainLoop {total : UInt64} {rounds cycles : Nat} :
    Tracks (α := α) n (loop (fun total => drainRound total n) rounds total >>= fun _ => do
      dequeueLoop n
      consume n cycles) (.draining total) := by
  cases rounds with
  | zero => exact .cutOff
  | succ rounds =>
    rw [← drainFrom_eq]
    exact .draining

/-- The loop of `enqueue_batch` is over. -/
theorem Tracks.afterLoop {calls : List (QueueCall α)} {reported done rest : List α} :
    Tracks n (afterLoop n calls reported (done ++ rest) done.length) (afterBatch reported done) := by
  unfold LinuxQueue.afterLoop enqueueBatchEnd afterBatch
  by_cases hdone : done.length ≠ 0
  · have h : Tracks n _ (.notify reported done) := .notifyLoop calls
    rw [if_pos hdone, if_pos hdone, bind_bind]
    simpa only [bind_ok, pure_eq, List.take_left] using h
  · have hnil : done = [] := List.eq_nil_of_length_eq_zero (not_not.mp hdone)
    rw [if_neg hdone, if_neg hdone, hnil]
    have h : Tracks n (produce n calls reported) (.outside reported) := .producing
    simpa using h

theorem notifyFrom_matched {m rounds : Nat} {calls : List (QueueCall α)} {reported done : List α}
    (h : linuxQueueThreads.Step t (notifyFrom n m rounds >>= fun _ => produce n calls (reported ++ done)) s
      p' s') : Matched n t (.notify reported done) s p' s' := by
  cases m with
  | zero => exact absurd h not_threads_cutOff
  | succ m =>
    rw [notifyFrom, notifyRound_succ] at h
    obtain ⟨a, ha, rfl⟩ := threads_call.mp h
    cases ha with
    | writes hlt => exact .one (.writes hlt) .producing
    | writeWouldBlock hmax => exact .one (.writeWouldBlock hmax) .producing
    | writeInterrupted => exact .one .writeInterrupted .notifying

theorem drainFrom_matched {total : UInt64} {m rounds cycles : Nat}
    (h : linuxQueueThreads.Step t (drainFrom n total m rounds >>= fun _ => do
      dequeueLoop n
      consume n cycles) s p' s') : Matched n t (.draining total) s p' s' := by
  cases m with
  | zero => exact absurd h not_threads_cutOff
  | succ m =>
    rw [drainFrom, drainRound_succ] at h
    obtain ⟨a, ha, rfl⟩ := threads_call.mp h
    cases ha with
    | reads hpos => exact .one (.reads hpos) .drainLoop
    | readWouldBlock hzero => exact .one (.readWouldBlock hzero) .dequeuing
    | readInterrupted => exact .one .readInterrupted .draining

theorem dequeueLoop_matched {m cycles : Nat}
    (h : linuxQueueThreads.Step t (dequeueLoop m >>= fun _ => consume n cycles) s p' s') :
    Matched n t .dequeuing s p' s' := by
  cases m with
  | zero => exact absurd h not_threads_cutOff
  | succ m =>
    obtain ⟨a, ha, rfl⟩ := threads_call.mp h
    cases ha with
    | dequeues hs => exact .one (.dequeues hs) .dequeuing
    | empty hs => exact .one (.finds_empty hs) .consuming

theorem consume_matched {cycles : Nat} (h : linuxQueueThreads.Step t (consume n cycles) s p' s') :
    Matched n t .waiting s p' s' := by
  cases cycles with
  | zero => exact absurd h not_threads_ok
  | succ cycles =>
    obtain ⟨a, ha, rfl⟩ := threads_call.mp h
    cases ha with
    | readable hpos => exact .one (.wakes hpos) .drainLoop

theorem enqueueLoop_cons_matched {calls : List (QueueCall α)} {reported done rest : List α} {v : α}
    (h : linuxQueueThreads.Step t (enqueueLoop (v :: rest) done.length >>=
      LinuxQueue.afterLoop n calls reported (done ++ v :: rest)) s p' s') :
    Matched n t (.enqueueBatch reported done (v :: rest)) s p' s' := by
  obtain ⟨a, ha, rfl⟩ := threads_call.mp h
  cases ha with
  | enqueues =>
    refine .one .batchPushes ?_
    have hnext : Tracks n (enqueueLoop rest (done ++ [v]).length >>=
        LinuxQueue.afterLoop n calls reported (done ++ [v] ++ rest)) (.enqueueBatch reported (done ++ [v]) rest) :=
      .batching (by simp)
    rw [List.length_append, List.append_assoc] at hnext
    exact hnext
  | refuses => exact .one .batchRefused .afterLoop

theorem produce_matched {calls : List (QueueCall α)} {reported : List α}
    (h : linuxQueueThreads.Step t (produce n calls reported) s p' s') :
    Matched n t (.outside reported) s p' s' := by
  induction calls generalizing reported with
  | nil => exact absurd h not_threads_ok
  | cons call calls ih =>
    rcases call with v | (_ | ⟨v, rest⟩)
    · obtain ⟨a, ha, rfl⟩ := threads_call.mp h
      cases ha with
      | enqueues =>
        refine .two .callEnqueue .pushes ?_
        have hnext : Tracks n _ (.notify reported [v]) := .notifyLoop calls
        show Tracks n ((notify n >>= fun _ => ok true) >>= fun enqueued =>
          produce n calls (if enqueued then reported ++ [v] else reported)) _
        rwa [bind_bind]
      | refuses => exact .two (.callEnqueue (v := v)) .refused .producing
    · have hrest : linuxQueueThreads.Step t (produce n calls (reported ++ [])) s p' s' := h
      rw [List.append_nil] at hrest
      exact .after ((Threads.Runs.one (M := queueThreads) .callEnqueueBatch).trans
        (Threads.Runs.one (M := queueThreads) .batchEnds)) (ih hrest)
    · have hloop : linuxQueueThreads.Step t (enqueueLoop (v :: rest) ([] : List α).length >>=
          LinuxQueue.afterLoop n calls reported ([] ++ v :: rest)) s p' s' := by
        rw [produce, enqueueBatch, bind_bind] at h
        exact h
      exact .after (Threads.Runs.one (M := queueThreads) .callEnqueueBatch) (enqueueLoop_cons_matched hloop)

theorem afterLoop_matched {calls : List (QueueCall α)} {reported done : List α}
    (h : linuxQueueThreads.Step t (LinuxQueue.afterLoop n calls reported done done.length) s p' s') :
    Matched n t (afterBatch reported done) s p' s' := by
  unfold LinuxQueue.afterLoop enqueueBatchEnd at h
  unfold afterBatch
  by_cases hdone : done.length ≠ 0
  · rw [if_pos hdone, bind_bind] at h
    rw [if_pos hdone]
    simp only [pure_eq, bind_ok, List.take_length] at h
    unfold notify at h
    cases n with
    | zero => exact absurd h not_threads_cutOff
    | succ n =>
      rw [← notifyFrom_eq] at h
      exact notifyFrom_matched h
  · have hnil : done = [] := List.eq_nil_of_length_eq_zero (not_not.mp hdone)
    rw [if_neg hdone] at h
    rw [if_neg hdone]
    simp only [hnil, pure_eq, bind_ok, List.take_nil, List.append_nil] at h
    exact produce_matched h

theorem enqueueLoop_matched {calls : List (QueueCall α)} {reported done rest : List α}
    (h : linuxQueueThreads.Step t (enqueueLoop rest done.length >>=
      LinuxQueue.afterLoop n calls reported (done ++ rest)) s p' s') :
    Matched n t (.enqueueBatch reported done rest) s p' s' := by
  cases rest with
  | cons v rest => exact enqueueLoop_cons_matched h
  | nil =>
    rw [List.append_nil] at h
    exact .after (Threads.Runs.one (M := queueThreads) .batchEnds) (afterLoop_matched h)

theorem Tracks.step {p : QueueProgram α (List α)} {q : QueuePlace α} (hp : Tracks n p q)
    (h : linuxQueueThreads.Step t p s p' s') : Matched n t q s p' s' := by
  cases hp with
  | producing => exact produce_matched h
  | batching => exact enqueueLoop_matched h
  | notifying => exact notifyFrom_matched h
  | consuming => exact consume_matched h
  | draining => exact drainFrom_matched h
  | dequeuing => exact dequeueLoop_matched h
  | cutOff => exact absurd h not_threads_cutOff

end

/-! ### Nothing is cut off early -/

theorem readLoop_asks : (LinuxEventFd.readLoop (α := α) n).Asks := by
  cases n <;> trivial

theorem writeLoop_asks : (LinuxEventFd.writeLoop (α := α) n).Asks := by
  cases n <;> trivial

theorem onSystemError_lasts {β γ : Type} (again : β) (wouldBlock : γ) (e : PosixError) :
    Lasts n (onSystemError (α := α) again wouldBlock e) := by
  cases e with
  | systemError errno what =>
    show Lasts n (if _ then _ else if _ then _ else _)
    split_ifs
    · exact .of_ok _
    · exact .of_ok _
    · exact .of_throw _
  | _ => exact .of_throw _

theorem drainNotifications_lasts : Lasts n (drainNotifications (α := α) n) := by
  refine Lasts.loop (fun total => ?_) (fun total => readLoop_asks.bind.bind.catching) le_rfl 0
  refine .catching (.bind (.bind ?_ fun r => ?_) fun value => .of_ok _) (onSystemError_lasts total total)
  · exact Lasts.loop (fun _ => .bind (.ask _) fun r => .of_ok _) (fun _ => trivial) le_rfl ()
  · unfold LinuxEventFd.readResult
    split_ifs
    · exact .of_ok _
    · exact .of_throw _
    · exact .of_throw _

theorem notify_lasts : Lasts n (notify (α := α) n) := by
  refine Lasts.loop (fun _ => ?_) (fun _ => writeLoop_asks.bind.bind.catching) le_rfl ()
  refine .catching (.bind (.bind ?_ fun r => ?_) fun _ => .of_ok _) (onSystemError_lasts () ())
  · exact Lasts.loop (fun _ => .bind (.ask _) fun r => .of_ok _) (fun _ => trivial) le_rfl ()
  · unfold LinuxEventFd.writeResult
    split_ifs
    · exact .of_ok _
    · exact .of_throw _
    · exact .of_throw _

theorem enqueueLoop_lasts (l : List α) (enqueued : Nat) : Lasts n (enqueueLoop l enqueued) := by
  induction l generalizing enqueued with
  | nil => exact .of_ok _
  | cons value rest ih =>
    refine .bind (.ask _) fun accepted => ?_
    cases accepted with
    | false => exact .of_ok _
    | true => exact ih _

theorem produce_lasts (calls : List (QueueCall α)) (reported : List α) : Lasts n (produce n calls reported) := by
  induction calls generalizing reported with
  | nil => exact .of_ok _
  | cons call calls ih =>
    rcases call with v | l
    · refine .bind (.bind (.ask _) fun accepted => ?_) fun _ => ih _
      cases accepted with
      | false => exact .of_ok _
      | true => exact .bind notify_lasts fun _ => .of_ok _
    · refine .bind (.bind (enqueueLoop_lasts l 0) fun enqueued => ?_) fun _ => ih _
      unfold enqueueBatchEnd
      split_ifs
      · exact .bind notify_lasts fun _ => .of_ok _
      · exact .of_ok _

theorem consume_lasts (cycles : Nat) : Lasts n (consume (α := α) n cycles) := by
  induction cycles with
  | zero => exact .of_ok _
  | succ cycles ih =>
    refine .bind (.ask _) fun _ => .bind drainNotifications_lasts fun _ => .bind ?_ fun _ => ih
    refine Lasts.loop (fun _ => .bind (.ask _) fun r => ?_) (fun _ => trivial) le_rfl ()
    cases r <;> exact .of_ok _

end LinuxQueue

section
variable {T α : Type} [DecidableEq T]
open LinuxQueue

/-- Where the thread of a client starts. -/
def QueueClient.place : QueueClient α → QueuePlace α
  | producer _ => .outside []
  | consumer _ => .waiting

theorem QueueClient.tracks (n : Nat) (client : QueueClient α) : Tracks n (client.program n) client.place := by
  cases client with
  | producer calls => exact .producing
  | consumer cycles => exact .consuming

theorem QueueClient.lasts (n : Nat) (client : QueueClient α) : Lasts n (client.program n) := by
  cases client with
  | producer calls => exact produce_lasts calls []
  | consumer cycles => exact consume_lasts cycles

/-- A thread has made all its calls, or is in `epoll_wait`. -/
def AtRest : QueueProgram α (List α) → Prop
  | .ok _ => True
  | .call c _ => c = .awaitReadable
  | _ => False

/-- A thread is about to make another call. -/
def Busy : QueueProgram α (List α) → Prop
  | .call c _ => c ≠ .awaitReadable
  | .cutOff => True
  | _ => False

namespace Busy
variable {n : Nat} {calls : List (QueueCall α)} {reported done rest : List α}

theorem call {c : QueueRequest α} {next : c.Answer → QueueProgram α (List α)} (hc : c ≠ .awaitReadable) :
    Busy (.call c next) := hc

theorem notifyFrom {m rounds : Nat} {f : Unit → QueueProgram α (List α)} :
    Busy (notifyFrom n m rounds >>= f) := by
  cases m with
  | zero => trivial
  | succ m =>
    rw [LinuxQueue.notifyFrom, notifyRound_succ]
    exact .call (by simp)

theorem drainFrom {m rounds : Nat} {total : UInt64} {f : UInt64 → QueueProgram α (List α)} :
    Busy (drainFrom n total m rounds >>= f) := by
  cases m with
  | zero => trivial
  | succ m =>
    rw [LinuxQueue.drainFrom, drainRound_succ]
    exact .call (by simp)

theorem dequeueLoop {m : Nat} {f : Unit → QueueProgram α (List α)} : Busy (dequeueLoop m >>= f) := by
  cases m with
  | zero => trivial
  | succ m => exact .call (c := QueueRequest.tryDequeue) (by simp)

/-- The loop of `enqueue_batch` has pushed something, and a notification follows. -/
theorem batching (hdone : done ≠ []) :
    Busy (enqueueLoop rest done.length >>= afterLoop n calls reported (done ++ rest)) := by
  cases rest with
  | cons v rest => exact .call (by simp)
  | nil =>
    show Busy (afterLoop n calls reported (done ++ []) done.length)
    unfold afterLoop enqueueBatchEnd notify
    rw [if_pos (by simpa using hdone), bind_bind]
    cases n with
    | zero => trivial
    | succ n =>
      rw [← notifyFrom_eq]
      exact .notifyFrom

theorem produce : produce n calls reported = .ok reported ∨ Busy (produce n calls reported) := by
  induction calls generalizing reported with
  | nil => exact .inl rfl
  | cons call calls ih =>
    rcases call with v | (_ | ⟨v, rest⟩)
    · exact .inr (.call (by simp))
    · have hrest : LinuxQueue.produce n (.enqueueBatch [] :: calls) reported =
          LinuxQueue.produce n calls (reported ++ []) := rfl
      rw [hrest, List.append_nil]
      exact ih
    · exact .inr (.call (by simp))

end Busy

/-- A thread at rest is at a place of rest, and has returned what the place reports. -/
theorem LinuxQueue.Tracks.rests_or_busy {n : Nat} {p : QueueProgram α (List α)} {q : QueuePlace α}
    (h : Tracks n p q) : Busy p ∨
      (AtRest p ∧ q.Rests ∧ ∀ reported, p = .ok reported → q.reported ++ q.current = reported) := by
  cases h with
  | producing =>
    rcases Busy.produce with hp | hp
    · rw [hp]
      refine .inr ⟨trivial, trivial, fun r hr => ?_⟩
      rw [← Resumption.ok.inj hr]
      exact List.append_nil _
    · exact .inl hp
  | @consuming cycles =>
    refine .inr ⟨?_, trivial, fun r hr => ?_⟩
    · cases cycles with
      | zero => trivial
      | succ cycles => exact rfl
    · cases cycles with
      | zero => exact Resumption.ok.inj hr
      | succ cycles => cases hr
  | batching hdone => exact .inl (.batching hdone)
  | notifying => exact .inl .notifyFrom
  | draining => exact .inl .drainFrom
  | dequeuing => exact .inl .dequeueLoop
  | cutOff => exact .inl trivial

/-- A run of the clients, on an empty queue and a new eventfd. -/
def LinuxQueueRun (n : Nat) (client : T → QueueClient α) (l : List T)
    (c : Threads.Config T (QueueProgram α (List α)) (QueueState T α)) : Prop :=
  linuxQueueThreads.interleave.Path ⟨{}, fun t => (client t).program n⟩ l c

variable {n : Nat} {client : T → QueueClient α} {l : List T}
  {c : Threads.Config T (QueueProgram α (List α)) (QueueState T α)}

omit [DecidableEq T] in
theorem starts_place (client : T → QueueClient α) : Starts fun t => (client t).place := by
  intro t
  show (client t).place = _ ∨ (client t).place = _
  cases client t with
  | producer calls => exact .inl rfl
  | consumer cycles => exact .inr rfl

/-- The clients' calls are a run of producers and consumers. -/
theorem LinuxQueueRun.refines (h : LinuxQueueRun n client l c) :
    ∃ l' d, QueueRun (fun t => (client t).place) l' d ∧ c.shared = d.shared ∧
      ∀ t, Tracks n (c.place t) (d.place t) :=
  Threads.simulation queueThreads id h rfl (fun t => (client t).tracks n)
    fun _ _ _ _ _ _ hp hs => hp.step hs

/-- However the kernel and the queue answer the threads, call by call: their run is one of the producers and
consumers of the queue, no exception leaves it, a thread that has returned reported what it pushed, and where
all are done or in `epoll_wait`, an eventfd that is not readable means an empty queue. A run of fewer than
`n` calls is cut off nowhere. -/
theorem linuxQueue_delivers (n : Nat) (client : T → QueueClient α) (l : List T)
    (c : Threads.Config T (QueueProgram α (List α)) (QueueState T α)) (h : LinuxQueueRun n client l c) :
    (∃ l' d, QueueRun (fun t => (client t).place) l' d ∧ c.shared = d.shared) ∧
    c.shared.dequeued ++ c.shared.queueStorage = c.shared.pushed ∧
    (∀ t e, c.place t ≠ .throw e) ∧
    (∀ t reported, c.place t = .ok reported → pushesOf t c.shared.pushed = reported) ∧
    ((∀ t, AtRest (c.place t)) → c.shared.counter = 0 → c.shared.queueStorage = []) ∧
    (l.length < n → ∀ t, c.place t ≠ .cutOff) := by
  obtain ⟨l', d, hd, hshared, htracks⟩ := h.refines
  obtain ⟨hfifo, hreported⟩ := hd.reported (starts_place client)
  have hplace := fun t => (htracks t).rests_or_busy
  refine ⟨⟨l', d, hd, hshared⟩, ?_, fun t e ht => ?_, fun t reported ht => ?_, fun hrest hzero => ?_,
    Lasts.path h fun t => (client t).lasts n⟩
  · rw [hshared]
    exact hfifo
  · rcases hplace t with hbusy | ⟨hrest, -⟩
    · rw [ht] at hbusy
      exact hbusy
    · rw [ht] at hrest
      exact hrest
  · rcases hplace t with hbusy | ⟨-, -, hreturned⟩
    · rw [ht] at hbusy
      exact hbusy.elim
    · rw [hshared, hreported t]
      exact hreturned reported ht
  · by_contra hne
    rw [hshared] at hne hzero
    have hrests : ∀ t, (d.place t).Rests := by
      intro t
      rcases hplace t with hbusy | ⟨-, hq, -⟩
      · have hidle := hrest t
        cases hp : c.place t <;> rw [hp] at hbusy hidle <;>
          first | exact hbusy.elim | exact hidle.elim | exact absurd hidle hbusy
      · exact hq
    exact (hd.attended.wakes hrests hne).ne' hzero

theorem LinuxQueueRun.step (h : LinuxQueueRun n client l c) (t : T) {r : QueueRequest α}
    {next : r.Answer → QueueProgram α (List α)} {a : r.Answer} {s : QueueState T α} (hp : c.place t = .call r next)
    (ha : QueueAnswers t r c.shared a s) :
    LinuxQueueRun n client (l ++ [t]) ⟨s, Function.update c.place t (next a)⟩ := by
  refine Lts.Path.step h (.step ?_)
  rw [hp]
  exact threads_call.mpr ⟨a, ha, rfl⟩

end

/-- The write of producer `false` is interrupted once. -/
theorem linuxQueue_delivers_one :
    ∃ (l : List Bool) (c : Threads.Config Bool (QueueProgram Nat (List Nat)) (QueueState Bool Nat)),
      LinuxQueueRun 4 (fun t => bif t then .consumer 1 else .producer [.enqueue 7]) l c ∧
        pushesOf false c.shared.pushed = [7] ∧ c.shared.counter = 1 := by
  have h : LinuxQueueRun 4 (fun t => bif t then .consumer 1 else .producer [.enqueue 7]) ([] : List Bool) _ := .nil
  have h := h.step false rfl (.enqueues (v := 7))
  have h := h.step false rfl .writeInterrupted
  have h := h.step false rfl (.writes (by decide))
  exact ⟨_, _, h, (linuxQueue_delivers 4 _ _ _ h).2.2.2.1 false [7] rfl, rfl⟩

end UdfRunner
