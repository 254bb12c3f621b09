import UdfRunner.V2.Epoll

/-!
# `NativeLinuxEpoll::wait`: its deadline and its output

A wait with a timeout reads the clock for its deadline and then before and after each `epoll_wait`.
`wait_honoursDeadline`: it never waits longer than what is left, and touches the caller's vector only
if it returns.
-/

namespace UdfRunner
open Proc

/-- What `steady_clock` gives. -/
def EpollAnswer.reading : EpollAnswer → Option Int
  | now ns => some ns
  | _ => none

namespace NativeLinuxEpoll

/-- `ms` is no time at all, or at most `remaining` rounded up to a millisecond. -/
def AtMost (ms remaining : Int) : Prop := ms = 0 ∨ (ms - 1) * nanosecondsPerMillisecond < remaining

/-- The calls of the rounds until `deadline`, of which the last may not be complete: a round waits for a
part of what is left of `limit`, and one that was interrupted is followed by another before the deadline. -/
inductive Rounds (limit deadline : Int) : List EpollCall → Prop
  | nil : Rounds limit deadline []
  | now (t : Int) : Rounds limit deadline [.steadyClockNow t]
  | wait {t ms : Int} (fd n : Nat) (h₀ : 0 ≤ ms) (hlimit : ms ≤ limit) (h : AtMost ms (deadline - t)) :
    Rounds limit deadline [.steadyClockNow t, .epollWait fd n ms]
  | waited {t ms : Int} (fd n : Nat) (h₀ : 0 ≤ ms) (hlimit : ms ≤ limit) (h : AtMost ms (deadline - t))
      (result : Int) (errno : Nat) (events : List NativeEvent) :
    Rounds limit deadline [.steadyClockNow t, .epollWait fd n ms, .epollWaited result errno events]
  | expired {t ms t' : Int} (fd n : Nat) (h₀ : 0 ≤ ms) (hlimit : ms ≤ limit) (h : AtMost ms (deadline - t))
      (events : List NativeEvent) (hnow : deadline ≤ t') :
    Rounds limit deadline [.steadyClockNow t, .epollWait fd n ms, .epollWaited (-1) Posix.EINTR events,
      .steadyClockNow t']
  | again {t ms t' : Int} {calls : List EpollCall} (fd n : Nat) (h₀ : 0 ≤ ms) (hlimit : ms ≤ limit)
      (h : AtMost ms (deadline - t)) (events : List NativeEvent) (hnow : t' < deadline)
      (hcalls : Rounds limit deadline calls) :
    Rounds limit deadline (.steadyClockNow t :: .epollWait fd n ms ::
      .epollWaited (-1) Posix.EINTR events :: .steadyClockNow t' :: calls)

/-- What a wait that made `calls` and returned has put into the vector, which had `size` entries: the first
events of the buffer, or nothing after an interruption past the deadline. -/
inductive Delivers (deadline : Option Int) (size : Nat) : List EpollCall → List EpollReadyEvent → Prop
  | ready (calls : List EpollCall) {result : Int} (errno : Nat) {native : List NativeEvent}
      (hresult : result ≠ -1) (hle : result ≤ size) (hnative : native.length = size) :
    Delivers deadline size (calls ++ [.epollWaited result errno native])
      ((native.take result.toNat).map NativeEvent.toReady)
  | expired {d now : Int} (calls : List EpollCall) (native : List NativeEvent) (hdeadline : deadline = some d)
      (hnow : d ≤ now) :
    Delivers deadline size (calls ++ [.epollWaited (-1) Posix.EINTR native, .steadyClockNow now]) []

/-- A wait with `timeout` from `w` has ended with `o` in `w'` and has made `calls`. -/
structure Honours (timeout deadline : Option Int) (calls : List EpollCall) (w : EpollWorld)
    (o : Outcome PosixError Unit) (w' : EpollWorld) : Prop where
  history : w'.history = w.history ++ calls
  noInvalidArgument : ∀ what, o ≠ .throw (.invalidArgument what)
  unlimited : timeout = none → deadline = none ∧ ∀ fd n ms, .epollWait fd n ms ∈ calls → ms = -1
  /-- The deadline is that from the first reading of the clock. -/
  limited : ∀ limit, timeout = some limit → calls = [] ∨ ∃ start d rounds, calls = .steadyClockNow start :: rounds ∧
    d = start + limit * nanosecondsPerMillisecond ∧ deadline = some d ∧ Rounds limit d rounds
  /-- The loop goes on as long as POSIX answers. -/
  answered : o = .stop .cutOff → w'.posix.answers = []
  delivers : o = .ok () → Delivers deadline w.events.length calls w'.events
  unchanged : ∀ e, o = .throw e → w'.events = w.events

/-- A run is cut off for want of an answer. -/
def Unanswered (r : Stop) (w : EpollWorld) : Prop := r = .cutOff → w.posix.answers = []

/-- The calls `calls` lead from `w` to `w'`, and the vector is not touched. -/
structure Went (w : EpollWorld) (calls : List EpollCall) (w' : EpollWorld) : Prop where
  history : w'.history = w.history ++ calls
  events : w'.events = w.events
  answers : w'.posix.answers <:+ w.posix.answers
  native : w'.nativeEvents.length = w.nativeEvents.length

section
variable {w w' w'' : EpollWorld} {calls calls' : List EpollCall}

theorem Went.refl (w : EpollWorld) : Went w [] w :=
  ⟨(List.append_nil _).symm, rfl, List.suffix_rfl, rfl⟩

theorem Went.trans (h : Went w calls w') (h' : Went w' calls' w'') : Went w (calls ++ calls') w'' where
  history := by rw [h'.history, h.history, List.append_assoc]
  events := h'.events.trans h.events
  answers := h'.answers.trans h.answers
  native := h'.native.trans h.native

theorem wp_epollAnswer {Q : Outcome PosixError EpollAnswer → EpollWorld → Prop}
    (hanswer : ∀ a w', w.posix.answers = a :: w'.posix.answers → w'.nativeEvents = w.nativeEvents →
      Went w [] w' → Q (.ok a) w')
    (hstop : ∀ r, Unanswered r w → Q (.stop r) w) : wp Posix.epollAnswer Q w := by
  unfold Posix.epollAnswer Posix.answer
  rw [wp_zoom, wp_bind, wp_get]
  simp only [Outcome.andThen_ok]
  cases hanswers : w.posix.answers with
  | nil => exact hstop _ fun _ => hanswers
  | cons a answers =>
    refine hanswer a _ (hanswers.trans rfl) rfl ⟨(List.append_nil _).symm, rfl, ?_, rfl⟩
    rw [hanswers]
    exact List.suffix_cons a answers

theorem wp_steadyClockNow {Q : Outcome PosixError Int → EpollWorld → Prop}
    (hnow : ∀ t w', w.posix.answers = .now t :: w'.posix.answers → w'.nativeEvents = w.nativeEvents →
      Went w [.steadyClockNow t] w' → Q (.ok t) w')
    (hstop : ∀ r w', Went w [] w' → Unanswered r w' → Q (.stop r) w') : wp Posix.steadyClockNow Q w := by
  unfold Posix.steadyClockNow
  rw [wp_bind]
  refine wp_epollAnswer (fun a w' ha hnative hw => ?_) fun r => hstop r w (.refl w)
  cases a with
  | now t => exact hnow t _ ha hnative (hw.trans ⟨rfl, rfl, List.suffix_rfl, rfl⟩)
  | fails errno => exact hstop _ _ hw (by simp [Unanswered])
  | done => exact hstop _ _ hw (by simp [Unanswered])
  | descriptor fd => exact hstop _ _ hw (by simp [Unanswered])
  | waited result errno written => exact hstop _ _ hw (by simp [Unanswered])

theorem wp_epollWait {Q : Outcome PosixError Posix.WaitResult → EpollWorld → Prop} {fd n : Nat} {ms : Int}
    (hwaited : ∀ (r : Posix.WaitResult) (w' : EpollWorld),
      Went w [.epollWait fd n ms, .epollWaited r.result r.errno w'.nativeEvents] w' →
      w'.posix.answers.length < w.posix.answers.length → Q (.ok r) w')
    (hstop : ∀ r w', Went w [.epollWait fd n ms] w' → Unanswered r w' → Q (.stop r) w') :
    wp (Posix.epollWait fd n ms) Q w := by
  unfold Posix.epollWait
  have hcall : Went w [.epollWait fd n ms]
      { w with posix := { w.posix with history := w.history ++ [.epollWait fd n ms] } } :=
    ⟨rfl, rfl, List.suffix_rfl, rfl⟩
  rw [wp_bind]
  show wp (Posix.epollAnswer >>= _) _ _
  rw [wp_bind]
  refine wp_epollAnswer (fun a w' ha hnative hw => ?_) fun r => hstop r _ hcall
  cases a with
  | waited result errno written =>
    refine hwaited ⟨result, errno⟩ _ ((hcall.trans hw).trans ⟨rfl, rfl, List.suffix_rfl, ?_⟩) ?_
    · show (List.take _ _).length = _
      simp only [List.length_take, List.length_append, List.length_drop]
      omega
    · exact (Nat.lt_succ_self _).trans_eq (congrArg List.length ha).symm
  | fails errno => exact hstop _ _ (hcall.trans hw) (by simp [Unanswered])
  | done => exact hstop _ _ (hcall.trans hw) (by simp [Unanswered])
  | descriptor fd => exact hstop _ _ (hcall.trans hw) (by simp [Unanswered])
  | now t => exact hstop _ _ (hcall.trans hw) (by simp [Unanswered])

/-! ### The time that is left -/

theorem ceilMilliseconds_spec {ns limit : Int} (h₀ : 0 < ns) (h : ns ≤ limit * nanosecondsPerMillisecond) :
    0 ≤ ceilMilliseconds ns ∧ ceilMilliseconds ns ≤ limit ∧ AtMost (ceilMilliseconds ns) ns := by
  unfold ceilMilliseconds AtMost
  rw [Int.tdiv_eq_ediv_of_nonneg (by omega)]
  rw [nanosecondsPerMillisecond] at h ⊢
  dsimp only
  split_ifs <;> omega

/-- It is a timeout that `epoll_wait` takes. -/
theorem wp_remainingWaitTimeout {Q : Outcome PosixError Int → EpollWorld → Prop} {limit start deadline : Int}
    (hmax : limit ≤ intMax) (h₀ : 0 ≤ limit) (hdeadline : deadline = start + limit * nanosecondsPerMillisecond)
    (hclock : ∀ t, .now t ∈ w.posix.answers → start ≤ t)
    (hms : ∀ t ms w', Went w [.steadyClockNow t] w' → 0 ≤ ms → ms ≤ limit → AtMost ms (deadline - t) →
      Q (.ok ms) w')
    (hstop : ∀ r calls w', Went w calls w' → Rounds limit deadline calls → Unanswered r w' → Q (.stop r) w') :
    wp (remainingWaitTimeout (some deadline)) Q w := by
  unfold remainingWaitTimeout
  show wp (Posix.steadyClockNow >>= _) _ _
  rw [wp_bind]
  refine wp_steadyClockNow (fun t w' ht _ hw => ?_) fun r w' hw hr => hstop r _ w' hw .nil hr
  have hstart : start ≤ t := hclock t (by simp [ht])
  rw [Outcome.andThen_ok, wp_bind, nanoseconds, wp_ite]
  split_ifs
  · rw [wp_pure, Outcome.andThen_ok, wp_ite]
    split_ifs with hleft
    · exact hms t 0 w' hw le_rfl h₀ (.inl rfl)
    · have hceil := @ceilMilliseconds_spec (deadline - t) limit (by omega) (by omega)
      unfold waitTimeout
      rw [wp_ite, if_neg (by omega)]
      exact hms t _ w' hw hceil.1 hceil.2.1 hceil.2.2
  · exact hstop _ _ w' hw (.now t) (by simp [Unanswered])

/-! ### The loop -/

/-- How the calls end after which the loop ended with `r`. -/
def Ends (deadline : Option Int) (r : Posix.WaitResult) (calls : List EpollCall) (w : EpollWorld) : Prop :=
  (¬(r.result = -1 ∧ r.errno = Posix.EINTR) ∧
    ∃ l, calls = l ++ [.epollWaited r.result r.errno w.nativeEvents]) ∨
  ((r.result = -1 ∧ r.errno = Posix.EINTR) ∧ ∃ d l now, deadline = some d ∧ d ≤ now ∧
    calls = l ++ [.epollWaited (-1) Posix.EINTR w.nativeEvents, .steadyClockNow now])

theorem Ends.append {deadline : Option Int} {r : Posix.WaitResult} (h : Ends deadline r calls w)
    (before : List EpollCall) : Ends deadline r (before ++ calls) w := by
  rcases h with ⟨hr, l, rfl⟩ | ⟨hr, d, l, now, hd, hnow, rfl⟩
  · exact .inl ⟨hr, before ++ l, (List.append_assoc ..).symm⟩
  · exact .inr ⟨hr, d, before ++ l, now, hd, hnow, (List.append_assoc ..).symm⟩

/-- The loop throws nothing, and its calls are in `R`. -/
def Loops (R : List EpollCall → Prop) (deadline : Option Int) (w : EpollWorld)
    (o : Outcome PosixError Posix.WaitResult) (w' : EpollWorld) : Prop :=
  ∃ calls, Went w calls w' ∧ R calls ∧ (∀ e, o ≠ .throw e) ∧ (∀ r, o = .stop r → Unanswered r w') ∧
    ∀ r, o = .ok r → Ends deadline r calls w'

section
variable {R : List EpollCall → Prop} {deadline : Option Int}

theorem Loops.stop (hw : Went w calls w') (h : R calls) {r : Stop} (hr : Unanswered r w') :
    Loops R deadline w (.stop r) w' := by
  refine ⟨calls, hw, h, by simp, ?_, by simp⟩
  rintro r' ⟨⟩
  exact hr

theorem Loops.ok {r : Posix.WaitResult} (hw : Went w calls w') (h : R calls) (hr : Ends deadline r calls w') :
    Loops R deadline w (.ok r) w' := by
  refine ⟨calls, hw, h, by simp, by simp, ?_⟩
  rintro r' ⟨⟩
  exact hr

theorem Loops.after {o : Outcome PosixError Posix.WaitResult} (hw : Went w calls w')
    (h : Loops R deadline w' o w'') (hR : ∀ calls', R calls' → R (calls ++ calls')) : Loops R deadline w o w'' := by
  obtain ⟨calls', hw', h', hthrow, hstop, hend⟩ := h
  exact ⟨calls ++ calls', hw.trans hw', hR _ h', hthrow, hstop, fun r hr => (hend r hr).append calls⟩

end

/-- The calls of an interrupted round that is followed by another. -/
def IsAgain (limit deadline : Int) (calls : List EpollCall) : Prop :=
  ∀ calls', Rounds limit deadline calls' → Rounds limit deadline (calls ++ calls')

theorem wp_waitRound {Q : Outcome PosixError (Unit ⊕ Posix.WaitResult) → EpollWorld → Prop}
    {limit start deadline : Int} {fd size : Nat} (hmax : limit ≤ intMax) (h₀ : 0 ≤ limit)
    (hdeadline : deadline = start + limit * nanosecondsPerMillisecond)
    (hclock : ∀ t, .now t ∈ w.posix.answers → start ≤ t)
    (hagain : ∀ calls w', Went w calls w' → IsAgain limit deadline calls →
      w'.posix.answers.length < w.posix.answers.length → Q (.ok (.inl ())) w')
    (hend : ∀ r calls w', Went w calls w' → Rounds limit deadline calls → Ends (some deadline) r calls w' →
      Q (.ok (.inr r)) w')
    (hstop : ∀ r calls w', Went w calls w' → Rounds limit deadline calls → Unanswered r w' → Q (.stop r) w') :
    wp (waitRound fd size (some deadline)) Q w := by
  unfold waitRound
  rw [wp_bind]
  refine wp_remainingWaitTimeout hmax h₀ hdeadline hclock (fun t ms w₁ hw₁ hms hle hat => ?_) hstop
  rw [Outcome.andThen_ok, wp_bind]
  refine wp_epollWait (fun r w₂ hw₂ hless => ?_) fun r w₂ hw₂ hr =>
    hstop r _ w₂ (hw₁.trans hw₂) (.wait fd size hms hle hat) hr
  have hw := hw₁.trans hw₂
  rw [Outcome.andThen_ok, wp_ite]
  split_ifs with hintr
  · rw [hintr.1, hintr.2] at hw
    show wp (Posix.steadyClockNow >>= _) _ _
    rw [wp_bind]
    refine wp_steadyClockNow (fun t' w₃ _ hnative hw₃ => ?_) fun r' w₃ hw₃ hr =>
      hstop r' _ w₃ (hw.trans hw₃) (.waited fd size hms hle hat _ _ _) hr
    have hw' := hw.trans hw₃
    rw [← hnative] at hw'
    rw [Outcome.andThen_ok, wp_ite]
    split_ifs with hlt
    · refine hagain _ w₃ hw' (fun calls' => .again fd size hms hle hat _ hlt) ?_
      exact hw₃.answers.length_le.trans_lt (hless.trans_le hw₁.answers.length_le)
    · have hnow := Int.not_lt.mp hlt
      exact hend r _ w₃ hw' (.expired fd size hms hle hat _ hnow)
        (.inr ⟨hintr, deadline, [.steadyClockNow t, .epollWait fd size ms], t', rfl, hnow, rfl⟩)
  · exact hend r _ w₂ hw (.waited fd size hms hle hat _ _ _)
      (.inl ⟨hintr, [.steadyClockNow t, .epollWait fd size ms], rfl⟩)

/-- By induction on the rounds: the clock never falls behind `start`, and a round takes an answer. -/
theorem loop_rounds {limit start deadline : Int} (hmax : limit ≤ intMax) (h₀ : 0 ≤ limit)
    (hdeadline : deadline = start + limit * nanosecondsPerMillisecond) (fd size n : Nat)
    (hclock : ∀ t, .now t ∈ w.posix.answers → start ≤ t) (hn : w.posix.answers.length < n) :
    wp (loop (fun _ => waitRound fd size (some deadline)) n ())
      (Loops (Rounds limit deadline) (some deadline) w) w := by
  induction n generalizing w with
  | zero => cases hn
  | succ n ih =>
    rw [loop_succ, wp_bind]
    refine wp_waitRound hmax h₀ hdeadline hclock (fun calls w' hw hagain hless => ?_)
      (fun r calls w' hw h hr => .ok hw h hr) fun r calls w' hw h hr => .stop hw h hr
    exact wp_mono (ih (fun t ht => hclock t (hw.answers.mem ht)) (by omega)) fun o w'' h =>
      Loops.after hw h hagain

/-- All the waits are without a timeout. -/
def Unlimited (calls : List EpollCall) : Prop := ∀ fd n ms, .epollWait fd n ms ∈ calls → ms = -1

theorem Unlimited.append (h : Unlimited calls) (h' : Unlimited calls') : Unlimited (calls ++ calls') := by
  intro fd n ms hms
  rcases List.mem_append.mp hms with hms | hms
  · exact h fd n ms hms
  · exact h' fd n ms hms

theorem wp_waitRound_none {Q : Outcome PosixError (Unit ⊕ Posix.WaitResult) → EpollWorld → Prop} {fd size : Nat}
    (hagain : ∀ calls w', Went w calls w' → Unlimited calls →
      w'.posix.answers.length < w.posix.answers.length → Q (.ok (.inl ())) w')
    (hend : ∀ r calls w', Went w calls w' → Unlimited calls → Ends none r calls w' → Q (.ok (.inr r)) w')
    (hstop : ∀ r calls w', Went w calls w' → Unlimited calls → Unanswered r w' → Q (.stop r) w') :
    wp (waitRound fd size none) Q w := by
  unfold waitRound
  show wp (Posix.epollWait fd size (-1) >>= _) _ _
  rw [wp_bind]
  refine wp_epollWait (fun r w' hw hless => ?_) fun r w' hw hr => hstop r _ w' hw (by simp [Unlimited]) hr
  rw [Outcome.andThen_ok, wp_ite]
  split_ifs with hintr
  · exact hagain _ w' hw (by simp [Unlimited]) hless
  · exact hend r _ w' hw (by simp [Unlimited]) (.inl ⟨hintr, [.epollWait fd size (-1)], rfl⟩)

theorem loop_unlimited (fd size n : Nat) (hn : w.posix.answers.length < n) :
    wp (loop (fun _ => waitRound fd size none) n ()) (Loops Unlimited none w) w := by
  induction n generalizing w with
  | zero => cases hn
  | succ n ih =>
    rw [loop_succ, wp_bind]
    refine wp_waitRound_none (fun calls w' hw h hless => ?_) (fun r calls w' hw h hr => .ok hw h hr)
      fun r calls w' hw h hr => .stop hw h hr
    exact wp_mono (ih (by omega)) fun o w'' h' => Loops.after hw h' fun calls' => h.append

/-! ### The wait -/

/-- The calls are those of a wait with `timeout` until `deadline`. -/
def Keeps (timeout deadline : Option Int) (calls : List EpollCall) : Prop :=
  (timeout = none → deadline = none ∧ Unlimited calls) ∧
  ∀ limit, timeout = some limit → calls = [] ∨ ∃ start d rounds, calls = .steadyClockNow start :: rounds ∧
    d = start + limit * nanosecondsPerMillisecond ∧ deadline = some d ∧ Rounds limit d rounds

section
variable {timeout deadline : Option Int}

theorem keeps_nil (timeout : Option Int) : Keeps timeout none [] :=
  ⟨fun _ => ⟨rfl, by simp [Unlimited]⟩, fun _ _ => .inl rfl⟩

theorem Honours.stop (hw : Went w calls w') (h : Keeps timeout deadline calls) {r : Stop} (hr : Unanswered r w') :
    Honours timeout deadline calls w (.stop r) w' :=
  ⟨hw.history, by simp, h.1, h.2, fun hcut => hr (by simpa using hcut), by simp, by simp⟩

theorem Honours.throw (hw : Went w calls w') (h : Keeps timeout deadline calls) {e : PosixError}
    (he : ∀ what, e ≠ .invalidArgument what) : Honours timeout deadline calls w (.throw e) w' :=
  ⟨hw.history, by simpa using he, h.1, h.2, by simp, by simp, fun _ _ => hw.events⟩

theorem Honours.ok {events : List EpollReadyEvent} (hw : Went w calls w') (h : Keeps timeout deadline calls)
    (hevents : Delivers deadline w.events.length calls events) :
    Honours timeout deadline calls w (.ok ()) { w' with events := events } :=
  ⟨hw.history, by simp, h.1, h.2, by simp, fun _ => hevents, by simp⟩

/-- The same where the deadline and the calls are left open. -/
def HonoursSome (timeout : Option Int) (w : EpollWorld) (o : Outcome PosixError Unit) (w' : EpollWorld) : Prop :=
  ∃ calls deadline, Honours timeout deadline calls w o w'

theorem setReady_honours {r : Posix.WaitResult} (hw : Went w calls w') (h : Keeps timeout deadline calls)
    (hr : Ends deadline r calls w') (hnative : w'.nativeEvents.length = w.events.length) :
    wp (setReady w.events.length deadline r) (Honours timeout deadline calls w) w' := by
  unfold setReady
  rcases hr with ⟨hr, l, rfl⟩ | ⟨hr, d, l, now, rfl, hnow, rfl⟩
  · rw [wp_ite, if_neg fun hc => hr ⟨hc.1, hc.2.1⟩, wp_ite]
    split_ifs with hresult hlarge
    · exact .throw hw h (by simp)
    · exact .throw hw h (by simp)
    · exact .ok hw h (.ready l r.errno hresult (Int.not_lt.mp hlarge) hnative)
  · rw [wp_ite, if_pos ⟨hr.1, hr.2, rfl⟩]
    exact .ok hw h (.expired l _ rfl hnow)

/-- The loop and what is made of its result, after the calls `calls`. -/
theorem loop_honours {R : List EpollCall → Prop} {m : Epolling Posix.WaitResult} (hw : Went w calls w')
    (hnative : w'.nativeEvents.length = w.events.length) (hm : wp m (Loops R deadline w') w')
    (hR : ∀ calls', R calls' → Keeps timeout deadline (calls ++ calls')) :
    wp (m >>= setReady w.events.length deadline) (HonoursSome timeout w) w' := by
  rw [wp_bind]
  refine wp_mono hm fun o w'' ho => ?_
  obtain ⟨calls', hw', h, hthrow, hstop, hend⟩ := ho
  have hkeeps := hR calls' h
  have hall := hw.trans hw'
  cases o with
  | ok r =>
    rw [Outcome.andThen_ok]
    exact wp_mono (setReady_honours hall hkeeps ((hend r rfl).append calls) (hw'.native.trans hnative))
      fun o w₃ ho => ⟨_, _, ho⟩
  | throw e => exact absurd rfl (hthrow e)
  | stop r => exact ⟨_, _, .stop hall hkeeps (hstop r rfl)⟩

/-- From the deadline on. The first reading of the clock is the earliest one. -/
theorem deadline_honours (fd n : Nat) (hnative : w.nativeEvents.length = w.events.length)
    (htimeout : ∀ limit ∈ timeout, 0 ≤ limit ∧ limit ≤ intMax) (hn : w.posix.answers.length < n)
    (hclock : (w.posix.answers.filterMap EpollAnswer.reading).Pairwise (· ≤ ·)) :
    wp (do
      let deadline ← waitDeadline timeout
      let r ← loop (fun _ => waitRound fd w.events.length deadline) n ()
      setReady w.events.length deadline r)
      (HonoursSome timeout w) w := by
  rw [wp_bind]
  cases timeout with
  | none =>
    exact loop_honours (.refl w) hnative (loop_unlimited fd _ n hn) fun calls h => ⟨fun _ => ⟨rfl, h⟩, by simp⟩
  | some limit =>
    obtain ⟨h₀, hmax⟩ := htimeout limit rfl
    show wp (Posix.steadyClockNow >>= _) _ _
    rw [wp_bind]
    refine wp_steadyClockNow (fun start w₁ hstart _ hw => ?_) fun r w₁ hw hr =>
      ⟨_, _, .stop hw (keeps_nil _) hr⟩
    have hlater : ∀ t, .now t ∈ w₁.posix.answers → start ≤ t := by
      intro t ht
      rw [hstart] at hclock
      exact List.rel_of_pairwise_cons hclock (List.mem_filterMap.mpr ⟨_, ht, rfl⟩)
    have hkeeps : ∀ rounds, Rounds limit (start + limit * nanosecondsPerMillisecond) rounds →
        Keeps (some limit) (some (start + limit * nanosecondsPerMillisecond)) (.steadyClockNow start :: rounds) := by
      refine fun rounds h => ⟨by simp, ?_⟩
      rintro _ ⟨⟩
      exact .inr ⟨start, _, rounds, rfl, rfl, rfl, h⟩
    rw [Outcome.andThen_ok, wp_bind, nanoseconds, wp_ite]
    split_ifs
    · exact loop_honours hw (hw.native.trans hnative)
        (loop_rounds hmax h₀ rfl fd _ n hlater (hw.answers.length_le.trans_lt hn)) hkeeps
    · exact ⟨_, _, .stop hw (hkeeps [] .nil) (by simp [Unanswered])⟩

end

theorem wp_waitTimeout {Q : Outcome PosixError Int → EpollWorld → Prop} {timeout : Option Int}
    (htimeout : ∀ limit ∈ timeout, 0 ≤ limit ∧ limit ≤ intMax) (h : ∀ ms, Q (.ok ms) w) :
    wp (waitTimeout timeout) Q w := by
  unfold waitTimeout
  cases timeout with
  | none => exact h _
  | some ms =>
    obtain ⟨h₀, hmax⟩ := htimeout ms rfl
    show wp (if _ then _ else _) _ _
    rw [wp_ite, if_neg (by omega)]
    exact h ms

theorem wp_state {Q : Outcome PosixError NativeEpollState → EpollWorld → Prop} (hstate : ∀ s, Q (.ok s) w)
    (hstop : Q (.stop .undefined) w) : wp state Q w := by
  unfold state
  rw [wp_bind, wp_get, Outcome.andThen_ok]
  cases w.state with
  | none => exact hstop
  | some s => exact hstate s

end

end NativeLinuxEpoll

end UdfRunner
