import UdfRunner.Lib.Threads

/-!
# `waitable_queue.hpp`: a queue with an eventfd

Producers push and then notify, consumers wait for a notification and then take all there is. Elements
carry the producer that pushed them, and `pushed` and `dequeued` are the history of the queue.
`waitableQueue_delivers`: nothing is lost, and no one waits for what is there.
-/

namespace UdfRunner

/-- The largest counter of an eventfd: a write that would exceed it would block. -/
def eventFdMax : Nat := 2 ^ 64 - 2

/-- The `WaitableQueue`, with its history. -/
structure QueueState (T α : Type) where
  queueStorage : List (T × α) := []
  counter : Nat := 0
  pushed : List (T × α) := []
  dequeued : List (T × α) := []

/-- Where a thread is. A producer keeps what its calls reported as enqueued, and in a call what the call
has pushed. A consumer is in `epoll_wait`, in `drain_notifications` or in its loop of `try_dequeue`. -/
inductive QueuePlace (α : Type)
  | outside (reported : List α)
  | enqueue (reported : List α) (value : α)
  | enqueueBatch (reported enqueued rest : List α)
  | notify (reported enqueued : List α)
  | waiting
  | draining (total : UInt64)
  | dequeuing
deriving DecidableEq

section
variable {T α : Type}

namespace QueueState

def push (s : QueueState T α) (t : T) (v : α) : QueueState T α :=
  { s with queueStorage := s.queueStorage ++ [(t, v)], pushed := s.pushed ++ [(t, v)] }

end QueueState

/-- What follows the loop of `enqueue_batch`. -/
def afterBatch (reported enqueued : List α) : QueuePlace α :=
  if enqueued.length ≠ 0 then .notify reported enqueued else .outside reported

/-- The steps of a thread. The queue may refuse an element, `read` and `write` may be interrupted, `read`
would block at 0 and `write` at the maximum. -/
inductive QueueStep (t : T) : QueuePlace α → QueueState T α → QueuePlace α → QueueState T α → Prop
  | callEnqueue {rep v s} : QueueStep t (.outside rep) s (.enqueue rep v) s
  | refused {rep v s} : QueueStep t (.enqueue rep v) s (.outside rep) s
  | pushes {rep v s} : QueueStep t (.enqueue rep v) s (.notify rep [v]) (s.push t v)
  | callEnqueueBatch {rep l s} : QueueStep t (.outside rep) s (.enqueueBatch rep [] l) s
  | batchPushes {rep done v l s} :
    QueueStep t (.enqueueBatch rep done (v :: l)) s (.enqueueBatch rep (done ++ [v]) l) (s.push t v)
  | batchRefused {rep done v l s} :
    QueueStep t (.enqueueBatch rep done (v :: l)) s (afterBatch rep done) s
  | batchEnds {rep done s} : QueueStep t (.enqueueBatch rep done []) s (afterBatch rep done) s
  | writes {rep done s} (h : s.counter < eventFdMax) :
    QueueStep t (.notify rep done) s (.outside (rep ++ done)) { s with counter := s.counter + 1 }
  | writeWouldBlock {rep done s} (h : s.counter = eventFdMax) :
    QueueStep t (.notify rep done) s (.outside (rep ++ done)) s
  | writeInterrupted {rep done s} : QueueStep t (.notify rep done) s (.notify rep done) s
  | wakes {s} (h : 0 < s.counter) : QueueStep t .waiting s (.draining 0) s
  | reads {total s} (h : 0 < s.counter) : QueueStep t (.draining total) s
    (.draining (total + UInt64.ofNat s.counter)) { s with counter := 0 }
  | readInterrupted {total s} : QueueStep t (.draining total) s (.draining total) s
  | readWouldBlock {total s} (h : s.counter = 0) : QueueStep t (.draining total) s .dequeuing s
  | dequeues {s x l} (h : s.queueStorage = x :: l) : QueueStep t .dequeuing s .dequeuing
    { s with queueStorage := l, dequeued := s.dequeued ++ [x] }
  | finds_empty {s} (h : s.queueStorage = []) : QueueStep t .dequeuing s .waiting s

def queueThreads : Threads T (QueuePlace α) (QueueState T α) := ⟨QueueStep⟩

namespace QueuePlace

/-- What the calls of a producer reported as enqueued. -/
def reported : QueuePlace α → List α
  | outside rep | enqueue rep _ | enqueueBatch rep _ _ | notify rep _ => rep
  | _ => []

/-- What the call a producer is in has pushed. -/
def current : QueuePlace α → List α
  | enqueueBatch _ done _ | notify _ done => done
  | _ => []

/-- A producer that will notify, or a consumer that will look for elements. -/
def Attends : QueuePlace α → Prop
  | enqueueBatch _ done _ => done ≠ []
  | notify _ _ | draining _ | dequeuing => True
  | _ => False

/-- A producer outside of a call, or a consumer that waits. -/
def Rests : QueuePlace α → Prop
  | outside _ | waiting => True
  | _ => False

end QueuePlace

/-- A producer's pushes, in order. -/
def pushesOf [DecidableEq T] (t : T) (l : List (T × α)) : List α := (l.filter (·.1 = t)).map Prod.snd

section
variable [DecidableEq T] {t u : T} {v : α} {l : List (T × α)}

theorem pushesOf_snoc_self : pushesOf t (l ++ [(t, v)]) = pushesOf t l ++ [v] := by
  simp [pushesOf]

theorem pushesOf_snoc_ne (h : u ≠ t) : pushesOf u (l ++ [(t, v)]) = pushesOf u l := by
  simp [pushesOf, h.symm]

end

/-- First in, first out. -/
def QueueState.Fifo (s : QueueState T α) : Prop := s.dequeued ++ s.queueStorage = s.pushed

section
variable {t u : T} {p p' : QueuePlace α} {s s' : QueueState T α}

theorem QueueStep.fifo (h : QueueStep t p s p' s') (hs : s.Fifo) : s'.Fifo := by
  unfold QueueState.Fifo at hs ⊢
  cases h with
  | pushes | batchPushes =>
    show s.dequeued ++ (s.queueStorage ++ [_]) = s.pushed ++ [_]
    rw [← List.append_assoc, hs]
  | dequeues h =>
    rw [h] at hs
    show (s.dequeued ++ [_]) ++ _ = s.pushed
    rw [List.append_assoc]
    exact hs
  | _ => exact hs

/-- A step that leaves elements in the queue leaves a notification or a thread that attends to them, or it
was not its thread that did. -/
theorem QueueStep.attends (h : QueueStep t p s p' s') (hne : s'.queueStorage ≠ []) :
    0 < s'.counter ∨ p'.Attends ∨
      (s.queueStorage ≠ [] ∧ s'.counter = s.counter ∧ ¬ p.Attends) := by
  have hleave : ∀ rep done rest : List α, s.queueStorage ≠ [] → 0 < s.counter ∨
      (afterBatch rep done).Attends ∨
      (s.queueStorage ≠ [] ∧ s.counter = s.counter ∧ ¬ (QueuePlace.enqueueBatch rep done rest).Attends) := by
    intro rep done rest hne
    cases done with
    | nil => exact .inr (.inr ⟨hne, rfl, by simp [QueuePlace.Attends]⟩)
    | cons v l => exact .inr (.inl trivial)
  cases h with
  | callEnqueue | refused | callEnqueueBatch => exact .inr (.inr ⟨hne, rfl, by simp [QueuePlace.Attends]⟩)
  | pushes => exact .inr (.inl trivial)
  | batchPushes => exact .inr (.inl (by simp [QueuePlace.Attends]))
  | batchRefused | batchEnds => exact hleave _ _ _ hne
  | writes => exact .inl (Nat.succ_pos _)
  | writeWouldBlock h => exact .inl (by rw [h]; decide)
  | writeInterrupted | wakes | reads | readInterrupted | readWouldBlock | dequeues => exact .inr (.inl trivial)
  | finds_empty h => exact absurd h hne

end

/-- Elements in the queue are notified of, or attended to. -/
def Attended (c : Threads.Config T (QueuePlace α) (QueueState T α)) : Prop :=
  c.shared.queueStorage ≠ [] → 0 < c.shared.counter ∨ ∃ t, (c.place t).Attends

/-- No one attends where all producers are outside and all consumers wait. -/
theorem Attended.wakes {c : Threads.Config T (QueuePlace α) (QueueState T α)} (hc : Attended c)
    (hrest : ∀ t, (c.place t).Rests) (hne : c.shared.queueStorage ≠ []) : 0 < c.shared.counter := by
  rcases hc hne with hpos | ⟨t, ht⟩
  · exact hpos
  · have := hrest t
    cases hp : c.place t <;> rw [hp] at this ht <;> first | exact this.elim | exact ht.elim

variable [DecidableEq T]

/-- Producers outside of their first call and consumers that wait. -/
def Starts (place : T → QueuePlace α) : Prop := ∀ t, place t = .outside [] ∨ place t = .waiting

/-- A run of producers and consumers on an empty queue. -/
def QueueRun (place : T → QueuePlace α) (l : List T)
    (c : Threads.Config T (QueuePlace α) (QueueState T α)) : Prop :=
  queueThreads.interleave.Path ⟨{}, place⟩ l c

variable {place : T → QueuePlace α} {l : List T} {c : Threads.Config T (QueuePlace α) (QueueState T α)}

/-- What a producer pushed is what its calls reported and what its current call has pushed. -/
theorem QueueRun.reported (hstart : Starts place) (h : QueueRun place l c) :
    c.shared.Fifo ∧ ∀ t, pushesOf t c.shared.pushed = (c.place t).reported ++ (c.place t).current := by
  refine Threads.owicki_gries h
    (A := fun t p s => pushesOf t s.pushed = p.reported ++ p.current) (I := QueueState.Fifo) rfl ?_ ?_ ?_
  · intro t
    have : place t = .outside [] ∨ place t = .waiting := hstart t
    rcases this with ht | ht <;> simp only [ht] <;> rfl
  · intro t p s p' s' hs ht hstep
    refine ⟨hstep.fifo hs, ?_⟩
    have hafter : ∀ rep done : List α, pushesOf t s.pushed = rep ++ done →
        pushesOf t s.pushed = (afterBatch rep done).reported ++ (afterBatch rep done).current := by
      intro rep done h
      cases done <;> exact h
    have hpush : ∀ v, pushesOf t (s.push t v).pushed = pushesOf t s.pushed ++ [v] := fun v =>
      pushesOf_snoc_self
    cases hstep with
    | pushes =>
      rw [hpush, ht]
      simp [QueuePlace.reported, QueuePlace.current]
    | batchPushes =>
      rw [hpush, ht]
      simp [QueuePlace.reported, QueuePlace.current]
    | batchRefused | batchEnds => exact hafter _ _ ht
    | writes | writeWouldBlock =>
      show pushesOf t s.pushed = _
      rw [ht]
      simp [QueuePlace.reported, QueuePlace.current]
    | _ => exact ht
  · intro t p s p' s' u q hs ht hstep hne hu
    have hpush : ∀ v, pushesOf u (s.push t v).pushed = pushesOf u s.pushed := fun v => pushesOf_snoc_ne hne
    cases hstep with
    | pushes | batchPushes => rw [hpush]; exact hu
    | _ => exact hu

theorem Attended.step {t : T} {p : QueuePlace α} {s : QueueState T α} (hc : Attended c)
    (hstep : s.queueStorage ≠ [] → 0 < s.counter ∨ p.Attends ∨
      (c.shared.queueStorage ≠ [] ∧ s.counter = c.shared.counter ∧ ¬(c.place t).Attends)) :
    Attended ⟨s, Function.update c.place t p⟩ := by
  intro hne
  rcases hstep hne with hpos | hp | ⟨hne', hcounter, hp⟩
  · exact .inl hpos
  · refine .inr ⟨t, ?_⟩
    show (Function.update c.place t p t).Attends
    rwa [Function.update_self]
  · rcases hc hne' with hpos | ⟨u, hu⟩
    · exact .inl (hcounter ▸ hpos)
    · refine .inr ⟨u, ?_⟩
      have hut : u ≠ t := by
        rintro rfl
        exact hp hu
      show (Function.update c.place t p u).Attends
      rwa [Function.update_of_ne hut]

theorem QueueRun.attended (h : QueueRun place l c) : Attended c :=
  Threads.invariant h (fun hne => absurd rfl hne) fun _ _ _ _ hc hstep => hc.step hstep.attends

/-- In every run: the elements dequeued and those in the queue are, in order, the ones pushed, which are for
each producer the ones its calls reported, but for a call that is not over; and if all producers are outside
and all consumers wait, a queue that is not empty is notified of. -/
theorem waitableQueue_delivers (place : T → QueuePlace α) (hstart : Starts place) (l : List T)
    (c : Threads.Config T (QueuePlace α) (QueueState T α)) (h : QueueRun place l c) :
    c.shared.dequeued ++ c.shared.queueStorage = c.shared.pushed ∧
    (∀ t, pushesOf t c.shared.pushed = (c.place t).reported ++ (c.place t).current) ∧
    ((∀ t, (c.place t).Rests) →
      (∀ t, pushesOf t c.shared.pushed = (c.place t).reported) ∧
      (c.shared.queueStorage ≠ [] → 0 < c.shared.counter)) := by
  obtain ⟨hfifo, hreported⟩ := h.reported hstart
  refine ⟨hfifo, hreported, fun hrest => ⟨fun t => ?_, h.attended.wakes hrest⟩⟩
  have hcurrent : (c.place t).current = [] := by
    have := hrest t
    cases hp : c.place t <;> rw [hp] at this <;> first | rfl | exact this.elim
  rw [hreported t, hcurrent, List.append_nil]

theorem QueueRun.step (h : QueueRun place l c) (t : T) {p q : QueuePlace α} {s : QueueState T α}
    (hp : c.place t = p) (hs : QueueStep t p c.shared q s) :
    QueueRun place (l ++ [t]) ⟨s, Function.update c.place t q⟩ := by
  subst hp
  exact Lts.Path.step h (.step hs)

end

/-- Producer `false` has enqueued 7, and consumer `true` has not noticed yet. -/
theorem waitableQueue_delivers_one :
    ∃ (l : List Bool) (c : Threads.Config Bool (QueuePlace Nat) (QueueState Bool Nat)),
      QueueRun (fun t => bif t then .waiting else .outside []) l c ∧ c.shared.queueStorage = [(false, 7)] ∧
        0 < c.shared.counter := by
  have hstart : Starts (T := Bool) (α := Nat) fun t => bif t then .waiting else .outside [] := by
    intro t
    cases t <;> simp
  have h : QueueRun (T := Bool) (α := Nat) (fun t => bif t then .waiting else .outside []) [] _ := .nil
  have h := h.step false rfl (.callEnqueue (v := 7))
  have h := h.step false rfl .pushes
  have h := h.step false rfl (.writes (by decide))
  refine ⟨_, _, h, rfl, ((waitableQueue_delivers _ hstart _ _ h).2.2 ?_).2 (by simp [QueueState.push])⟩
  intro t
  cases t <;> trivial

end UdfRunner
