import UdfRunner.V2.WaitableQueue

/-!
# `waitable_queue.hpp`: the queue settles

A run in which no new call begins and nothing is interrupted comes to an end. `QueuePlace.work` counts what
is left to do: a write that is due pays for every consumer it may wake. `waitableQueue_settles`: where no
thread can go on, the consumers have taken all there was.
-/

namespace UdfRunner

section
variable {T α : Type}

/-- The threads while no call begins and no `read` or `write` is interrupted. -/
def settlingThreads : Threads T (QueuePlace α) (QueueState T α) :=
  ⟨fun t p s p' s' => QueueStep t p s p' s' ∧ (∀ rep, p ≠ .outside rep) ∧ ¬(p' = p ∧ s' = s)⟩

/-- The eventfd is readable. -/
def QueueState.signal (s : QueueState T α) : Nat := if 0 < s.counter then 1 else 0

/-- The steps a thread has left, among `n` threads. One that waits is woken once by a readable eventfd, and
once by a write that is still due. -/
def QueuePlace.work (n signal : Nat) : QueuePlace α → Nat
  | outside _ | waiting => 4 * signal
  | enqueue _ _ => 4 * signal + (4 * n + 6) + 2
  | enqueueBatch _ _ rest => 4 * signal + (4 * n + 6) + 2 * rest.length + 1
  | notify _ _ => 4 * signal + (4 * n + 6)
  | draining _ => 3
  | dequeuing => 4 * signal + 2

namespace QueuePlace
variable {n signal signal' : Nat} {p : QueuePlace α}

theorem work_mono (h : signal' ≤ signal) : p.work n signal' ≤ p.work n signal := by
  cases p <;> simp only [work] <;> omega

theorem work_le_add (h : signal' ≤ 1) : p.work n signal' ≤ p.work n signal + 4 := by
  cases p <;> simp only [work] <;> omega

end QueuePlace

theorem QueueState.signal_le (s : QueueState T α) : s.signal ≤ 1 := by
  unfold signal
  split_ifs <;> omega

theorem work_afterBatch (n signal : Nat) (rep done rest : List α) :
    (afterBatch rep done).work n signal < (QueuePlace.enqueueBatch rep done rest).work n signal := by
  unfold afterBatch
  split_ifs <;> simp only [QueuePlace.work] <;> omega

/-- A thread's own step makes less work, and pays for what it wakes. -/
theorem QueueStep.work_lt {t : T} {p p' : QueuePlace α} {s s' : QueueState T α}
    (h : QueueStep t p s p' s') (hcall : ∀ rep, p ≠ .outside rep) (hmoves : ¬(p' = p ∧ s' = s)) (n : Nat) :
    (s'.signal ≤ s.signal ∧ s'.queueStorage.length + s'.signal + p'.work n s'.signal <
      s.queueStorage.length + s.signal + p.work n s.signal) ∨
    s'.queueStorage.length + s'.signal + p'.work n s'.signal + 4 * n <
      s.queueStorage.length + s.signal + p.work n s.signal := by
  have hs := s.signal_le
  have hpush : ∀ v, (s.push t v).queueStorage.length = s.queueStorage.length + 1 := by simp [QueueState.push]
  have hsame : ∀ v, (s.push t v).signal = s.signal := fun _ => rfl
  cases h with
  | callEnqueue | callEnqueueBatch => exact absurd rfl (hcall _)
  | writeInterrupted | readInterrupted => exact absurd ⟨rfl, rfl⟩ hmoves
  | refused =>
    refine .inl ⟨le_rfl, ?_⟩
    simp only [QueuePlace.work]
    omega
  | pushes =>
    refine .inl ⟨le_rfl, ?_⟩
    rw [hpush, hsame]
    simp only [QueuePlace.work]
    omega
  | batchPushes =>
    refine .inl ⟨le_rfl, ?_⟩
    rw [hpush, hsame]
    simp only [QueuePlace.work, List.length_cons]
    omega
  | batchRefused => exact .inl ⟨le_rfl, Nat.add_lt_add_left (work_afterBatch ..) _⟩
  | batchEnds => exact .inl ⟨le_rfl, Nat.add_lt_add_left (work_afterBatch ..) _⟩
  | writes =>
    refine .inr ?_
    have hs' := QueueState.signal_le { s with counter := s.counter + 1 }
    simp only [QueuePlace.work]
    omega
  | writeWouldBlock =>
    refine .inl ⟨le_rfl, ?_⟩
    simp only [QueuePlace.work]
    omega
  | wakes h =>
    refine .inl ⟨le_rfl, ?_⟩
    have hone : s.signal = 1 := if_pos h
    simp only [QueuePlace.work]
    omega
  | reads h =>
    have hone : s.signal = 1 := if_pos h
    have hzero : QueueState.signal { s with counter := 0 } = 0 := if_neg (Nat.lt_irrefl 0)
    refine .inl ⟨by omega, ?_⟩
    simp only [QueuePlace.work]
    omega
  | readWouldBlock h =>
    have hzero : s.signal = 0 := if_neg (by omega)
    refine .inl ⟨le_rfl, ?_⟩
    simp only [QueuePlace.work]
    omega
  | @dequeues s x l h =>
    refine .inl ⟨le_rfl, ?_⟩
    have hlength : s.queueStorage.length = l.length + 1 := by rw [h, List.length_cons]
    show l.length + s.signal + QueuePlace.work n s.signal .dequeuing < _
    omega
  | finds_empty =>
    refine .inl ⟨le_rfl, ?_⟩
    simp only [QueuePlace.work]
    omega

def QueuePlace.IsConsumer : QueuePlace α → Prop
  | waiting | draining _ | dequeuing => True
  | _ => False

theorem QueueStep.isConsumer {t : T} {p p' : QueuePlace α} {s s' : QueueState T α}
    (h : QueueStep t p s p' s') (hp : p.IsConsumer) : p'.IsConsumer := by
  cases h with
  | wakes | reads | readInterrupted | readWouldBlock | dequeues | finds_empty => trivial
  | _ => exact hp.elim

theorem QueueStep.counter_le {t : T} {p p' : QueuePlace α} {s s' : QueueState T α}
    (h : QueueStep t p s p' s') (hs : s.counter ≤ eventFdMax) : s'.counter ≤ eventFdMax := by
  cases h with
  | writes h => exact h
  | reads => exact Nat.zero_le _
  | _ => exact hs

/-- A thread that cannot go on is at rest, and a consumer waits for an eventfd that is not readable. -/
theorem rests_of_stuck {t : T} {p : QueuePlace α} {s : QueueState T α} (hs : s.counter ≤ eventFdMax)
    (hstuck : ∀ p' s', ¬(settlingThreads (T := T)).Step t p s p' s') :
    p.Rests ∧ (p.IsConsumer → s.counter = 0) := by
  have hgo : ∀ p' s', QueueStep t p s p' s' → (∀ rep, p ≠ .outside rep) → ¬(p' = p ∧ s' = s) → False :=
    fun p' s' h hcall hmoves => hstuck p' s' ⟨h, hcall, hmoves⟩
  cases p with
  | outside rep => exact ⟨trivial, fun h => h.elim⟩
  | enqueue rep v => exact (hgo _ _ .refused (by simp) (by simp)).elim
  | enqueueBatch rep done rest =>
    refine (hgo (afterBatch rep done) s ?_ (by simp) ?_).elim
    · cases rest with
      | nil => exact .batchEnds
      | cons v rest => exact .batchRefused
    · unfold afterBatch
      split_ifs <;> simp
  | notify rep done =>
    rcases Nat.lt_or_eq_of_le hs with hlt | heq
    · exact (hgo _ _ (.writes hlt) (by simp) (by simp)).elim
    · exact (hgo _ _ (.writeWouldBlock heq) (by simp) (by simp)).elim
  | waiting =>
    refine ⟨trivial, fun _ => ?_⟩
    by_contra hne
    exact hgo _ _ (.wakes (Nat.pos_of_ne_zero hne)) (by simp) (by simp)
  | draining total =>
    rcases Nat.eq_zero_or_pos s.counter with hzero | hpos
    · exact (hgo _ _ (.readWouldBlock hzero) (by simp) (by simp)).elim
    · refine (hgo _ _ (.reads hpos) (by simp) fun h => ?_).elim
      have := congrArg QueueState.counter h.2
      exact hpos.ne this
  | dequeuing =>
    rcases hstorage : s.queueStorage with _ | ⟨x, l⟩
    · exact (hgo _ _ (.finds_empty hstorage) (by simp) (by simp)).elim
    · refine (hgo _ _ (.dequeues hstorage) (by simp) fun h => ?_).elim
      have := congrArg (fun s => s.queueStorage.length) h.2
      simp [hstorage] at this

variable [DecidableEq T] [Fintype T]

/-- The steps that are left while the queue settles. -/
def queueWork (c : Threads.Config T (QueuePlace α) (QueueState T α)) : Nat :=
  c.shared.queueStorage.length + c.shared.signal + ∑ t, (c.place t).work (Fintype.card T) c.shared.signal

theorem queueWork_update (c : Threads.Config T (QueuePlace α) (QueueState T α)) (t : T) (p : QueuePlace α)
    (s : QueueState T α) : queueWork ⟨s, Function.update c.place t p⟩ =
      s.queueStorage.length + s.signal + p.work (Fintype.card T) s.signal +
        ∑ u ∈ Finset.univ.erase t, (c.place u).work (Fintype.card T) s.signal := by
  have hrest : ∀ u ∈ Finset.univ.erase t, (Function.update c.place t p u).work (Fintype.card T) s.signal =
      (c.place u).work (Fintype.card T) s.signal := by
    intro u hu
    rw [Function.update_of_ne (Finset.ne_of_mem_erase hu)]
  rw [queueWork, ← Finset.add_sum_erase _ _ (Finset.mem_univ t), Finset.sum_congr rfl hrest]
  simp only [Function.update_self]
  omega

theorem queueWork_lt {c : Threads.Config T (QueuePlace α) (QueueState T α)} {t : T} {p : QueuePlace α}
    {s : QueueState T α} (h : settlingThreads.Step t (c.place t) c.shared p s) :
    queueWork ⟨s, Function.update c.place t p⟩ < queueWork c := by
  have hself : queueWork c = queueWork ⟨c.shared, Function.update c.place t (c.place t)⟩ := by
    rw [Function.update_eq_self]
  rw [hself, queueWork_update, queueWork_update]
  rcases h.1.work_lt h.2.1 h.2.2 (Fintype.card T) with ⟨hsignal, hlt⟩ | hlt
  · have hrest := Finset.sum_le_sum fun u (_ : u ∈ Finset.univ.erase t) =>
      (c.place u).work_mono (n := Fintype.card T) hsignal
    omega
  · have hone : ∀ u, (c.place u).work (Fintype.card T) s.signal ≤
        (c.place u).work (Fintype.card T) c.shared.signal + 4 := fun u => (c.place u).work_le_add s.signal_le
    have hrest := Finset.sum_le_sum fun u (_ : u ∈ Finset.univ.erase t) => hone u
    have hcard : (Finset.univ.erase t).card ≤ Fintype.card T := Finset.card_le_univ _
    rw [Finset.sum_add_distrib, Finset.sum_const, smul_eq_mul] at hrest
    omega

end

section
variable {T α : Type} [DecidableEq T] {place : T → QueuePlace α} {l l' : List T}
  {c c' : Threads.Config T (QueuePlace α) (QueueState T α)}

theorem QueueRun.settles (h : QueueRun place l c) (h' : settlingThreads.interleave.Path c l' c') :
    QueueRun place (l ++ l') c' := by
  refine Lts.Path.append h (h'.mono ?_ ?_)
  · rintro c t _ ⟨hs⟩
    exact .step hs.1
  · rintro _ _ ⟨⟩

theorem QueueRun.counter_le (h : QueueRun place l c) : c.shared.counter ≤ eventFdMax :=
  Threads.invariant h (I := fun c => c.shared.counter ≤ eventFdMax) (Nat.zero_le _) fun _ _ _ _ hc hs =>
    hs.counter_le hc

theorem QueueRun.isConsumer (h : QueueRun place l c) {t : T} (ht : place t = .waiting) :
    (c.place t).IsConsumer := by
  refine Threads.invariant h (I := fun c => (c.place t).IsConsumer) ?_ fun c u p s hc hs => ?_
  · show (place t).IsConsumer
    rw [ht]
    trivial
  · show (Function.update c.place u p t).IsConsumer
    by_cases hu : t = u
    · subst hu
      rw [Function.update_self]
      exact hs.isConsumer hc
    · rwa [Function.update_of_ne hu]

/-- From every state that producers and consumers reach, at most `queueWork` steps are left in which no call
begins and nothing is interrupted. Where they end, all threads are at rest, and what the producers' calls
reported as enqueued has been dequeued, each element once and in order. -/
theorem waitableQueue_settles [Fintype T] (place : T → QueuePlace α) (hstart : Starts place)
    (hconsumer : ∃ t, place t = .waiting) (l l' : List T)
    (c c' : Threads.Config T (QueuePlace α) (QueueState T α)) (h : QueueRun place l c)
    (h' : settlingThreads.interleave.Path c l' c') :
    l'.length + queueWork c' ≤ queueWork c ∧
    ((∀ t p s, ¬settlingThreads.Step t (c'.place t) c'.shared p s) →
      (∀ t, (c'.place t).Rests) ∧ c'.shared.counter = 0 ∧ c'.shared.queueStorage = [] ∧
        c'.shared.dequeued = c'.shared.pushed ∧
        ∀ t, pushesOf t c'.shared.dequeued = (c'.place t).reported) := by
  have hrun := h.settles h'
  refine ⟨(h'.length_add_le (I := fun _ => True) trivial ?_ ?_).2, fun hstuck => ?_⟩
  · rintro c t _ - ⟨hs⟩
    exact ⟨trivial, queueWork_lt hs⟩
  · rintro _ _ - ⟨⟩
  have hrests := fun t => rests_of_stuck hrun.counter_le (hstuck t)
  have hall : ∀ t, (c'.place t).Rests := fun t => (hrests t).1
  obtain ⟨t, ht⟩ := hconsumer
  have hcounter : c'.shared.counter = 0 := (hrests t).2 (hrun.isConsumer ht)
  have hempty : c'.shared.queueStorage = [] := by
    by_contra hne
    exact (hrun.attended.wakes hall hne).ne' hcounter
  obtain ⟨hfifo, hreported⟩ := hrun.reported hstart
  have hdequeued : c'.shared.dequeued = c'.shared.pushed := by
    rw [← hfifo, hempty, List.append_nil]
  refine ⟨hall, hcounter, hempty, hdequeued, fun u => ?_⟩
  have hcurrent : (c'.place u).current = [] := by
    have := hall u
    cases hp : c'.place u <;> rw [hp] at this <;> first | rfl | exact this.elim
  rw [hdequeued, hreported u, hcurrent, List.append_nil]

theorem QueueRun.settles_nil (_ : QueueRun place l c) : settlingThreads.interleave.Path c [] c := .nil

/-- A thread that settles takes a step. -/
theorem settles_step (h : settlingThreads.interleave.Path c l c') (t : T) {p q : QueuePlace α}
    {s : QueueState T α} (hp : c'.place t = p) (hs : QueueStep t p c'.shared q s)
    (hcall : ∀ rep, p ≠ .outside rep) (hmoves : ¬(q = p ∧ s = c'.shared)) :
    settlingThreads.interleave.Path c (l ++ [t]) ⟨s, Function.update c'.place t q⟩ := by
  subst hp
  exact Lts.Path.step h (.step ⟨hs, hcall, hmoves⟩)

end

/-- Producer `false` has enqueued 7; five steps of consumer `true` later it waits again. -/
theorem waitableQueue_settles_one :
    ∃ (l l' : List Bool) (c c' : Threads.Config Bool (QueuePlace Nat) (QueueState Bool Nat)),
      QueueRun (fun t => bif t then .waiting else .outside []) l c ∧
      settlingThreads.interleave.Path c l' c' ∧ 5 + queueWork c' ≤ queueWork c ∧
      c'.shared.dequeued = [(false, 7)] ∧ c'.shared.dequeued = c'.shared.pushed := by
  have hstart : Starts (T := Bool) (α := Nat) fun t => bif t then .waiting else .outside [] := by
    intro t
    cases t <;> simp
  have h : QueueRun (T := Bool) (α := Nat) (fun t => bif t then .waiting else .outside []) [] _ := .nil
  have h := h.step false rfl (.callEnqueue (v := 7))
  have h := h.step false rfl .pushes
  have h := h.step false rfl (.writes (by decide))
  have h' := h.settles_nil
  have h' := settles_step h' true rfl (.wakes (by decide)) (by simp) (by simp)
  have h' := settles_step h' true rfl (.reads (by decide)) (by simp) (by simp)
  have h' := settles_step h' true rfl (.readWouldBlock rfl) (by simp) (by simp)
  have h' := settles_step h' true rfl (.dequeues rfl) (by simp) (by simp [QueueState.push])
  have h' := settles_step h' true rfl (.finds_empty rfl) (by simp) (by simp)
  obtain ⟨hwork, hsettled⟩ := waitableQueue_settles _ hstart ⟨true, rfl⟩ _ _ _ _ h h'
  refine ⟨_, _, _, _, h, h', hwork, rfl, (hsettled ?_).2.2.2.1⟩
  rintro t p s ⟨hs, hcall, -⟩
  cases t with
  | false => exact hcall _ rfl
  | true =>
    have hwaiting : QueueStep true .waiting _ p s := hs
    cases hwaiting with
    | wakes hpos => exact absurd hpos (by decide)

end UdfRunner
