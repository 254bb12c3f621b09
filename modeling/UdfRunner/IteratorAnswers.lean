import UdfRunner.IteratorCalls

/-!
# Answers that end or break the stream

`closedStream_noticed_iff`: which ends of the rows are noticed. `rejected_showsNothing_iff`: what a rejected
answer still shows.
-/

namespace UdfRunner
open Proc

/-! ### Closed streams -/

/-- A batch with rows has arrived. -/
def RowsArrived (S : Session) (exchanges : List (VmRequest × Reply)) : Prop :=
  ∃ again reply, (dataRequest again, reply) ∈ exchanges ∧ S.verdict again reply = .batch ∧
    0 < reply.response.next.rowCount

/-- The database closed the connection and did not say why. -/
def Cut (S : Session) (reply : Reply) : Prop :=
  ∃ r, reply = .message r ∧ r.connectionId = S.connectionId ∧ r.type = .mtClose ∧ r.close = none

/-- After an answer: a closed connection is an exception, and so is any end that is not `MT_DONE` or a batch
without rows. -/
structure EndNoticed (S : Session) (again : Bool) (reply : Reply)
    (s : TableIterator S.inputTypes × Channel) : Prop where
  close : ∀ r, reply = .message r → r.type = .mtClose → s.2.exch.exthrowed = true
  eot : s.1.eot = true → s.2.exch.exthrowed = true ∨
    (∃ r, reply = .message r ∧ r.type = .mtDone) ∨
    S.verdict again reply = .batch ∧ reply.response.next.rowCount = 0

theorem Session.verdict_ended {S : Session} {again : Bool} {reply : Reply}
    (h : S.verdict again reply = .ended) :
    Cut S reply ∨ ∃ r, reply = .message r ∧ r.type = .mtDone := by
  cases reply with
  | unparsable _ => cases h
  | message r =>
    simp only [verdict] at h
    split_ifs at h with hid hdone hclose
    · exact .inr ⟨r, rfl, hdone⟩
    · cases hmsg : r.close with
      | none => exact .inl ⟨r, rfl, by simpa using hid, hclose, hmsg⟩
      | some msg =>
        rw [hmsg] at h
        cases h

theorem Cut.verdict {S : Session} {reply : Reply} (h : Cut S reply) (again : Bool) :
    S.verdict again reply = .ended := by
  obtain ⟨r, rfl, hid, htype, hclose⟩ := h
  simp only [Session.verdict]
  rw [if_neg (by simpa using hid), if_neg (by simp [htype]), if_pos htype, hclose]
  rfl

theorem Session.not_close_of_batch {S : Session} {again : Bool} {r : Response}
    (h : S.verdict again (.message r) = .batch) : r.type ≠ .mtClose := by
  intro htype
  simp only [verdict] at h
  split_ifs at h
  cases hmsg : r.close <;> rw [hmsg] at h <;> cases h

namespace TableIterator
variable {S : Session} {again : Bool} {it : TableIterator S.inputTypes} {c : Channel}

theorem receiveNextData_noticed_iff : wp (receiveNextData S again) (Proc.Returns (fun _ s =>
      EndNoticed S again (c.answer S (dataRequest again)) s ↔
        ¬(Cut S (c.answer S (dataRequest again)) ∧ c.exch.exthrowed = false)) fun _ => False) (it, c) := by
  rw [wp_receiveNextData]
  generalize c.answer S (dataRequest again) = reply
  cases hverdict : S.verdict again reply with
  | rejected msg =>
    refine ⟨fun _ hcut => ?_, fun _ => ⟨fun _ _ _ => rfl, fun _ => .inl rfl⟩⟩
    rw [hcut.1.verdict] at hverdict
    cases hverdict
  | ended =>
    obtain hcut | ⟨r, rfl, hdone⟩ := Session.verdict_ended hverdict
    · constructor
      · rintro hnoticed ⟨⟨r, hr, -, htype, -⟩, hexch⟩
        have hthrown : c.exch.exthrowed = true := hnoticed.close r hr htype
        rw [hexch] at hthrown
        cases hthrown
      · intro hpending
        have hthrown : c.exch.exthrowed = true := by simpa [hcut] using hpending
        exact ⟨fun _ _ _ => hthrown, fun _ => .inl hthrown⟩
    · refine ⟨?_, fun _ => ⟨fun r' hr htype => ?_, fun _ => .inr (.inl ⟨r, rfl, hdone⟩)⟩⟩
      · rintro - ⟨⟨r', hr, -, htype, -⟩, -⟩
        obtain rfl := Reply.message.inj hr
        rw [hdone] at htype
        cases htype
      · obtain rfl := Reply.message.inj hr
        rw [hdone] at htype
        cases htype
  | batch =>
    refine wp_incrementColOffsets_any (fun _ s hs => ?_) fun _ => trivial
    have hrows : s.1.rowsReceived = reply.response.next.rowCount := hs.received
    refine ⟨?_, fun _ => ⟨fun r hr htype => ?_, fun heot => .inr (.inr ⟨hverdict, ?_⟩)⟩⟩
    · rintro - ⟨hcut, -⟩
      rw [hcut.verdict] at hverdict
      cases hverdict
    · subst hr
      exact absurd htype (Session.not_close_of_batch hverdict)
    · rw [← hrows]
      simpa [eot] using heot

end TableIterator

theorem GoesIf.returns {σ α : Type} {p : Prop} {m : Proc σ Exception α} {s : σ} (h : wp m (GoesIf p) s) :
    wp m (Proc.Returns (fun _ _ => True) fun _ => False) s := by
  refine wp_mono h fun o s' ho => ?_
  by_cases hp : p
  · obtain ⟨a, rfl⟩ := ho.1 hp
    trivial
  · rw [ho.2 hp]
    trivial

theorem IteratorCall.run_returns (S : Session) (c : Channel) (calls : List IteratorCall) :
    wp (do TableIterator.construct S; runAll S calls) (Proc.Returns (fun _ _ => True) fun _ => False) ({}, c) :=
  GoesIf.returns (GoesIf.bind TableIterator.receiveNextData_goesIf fun _ => runAll_goesIf calls _)

/-- For a new iterator and any calls that brought rows: whatever call asks for data next, its end is noticed
unless the stream is cut while no exception is pending. -/
theorem closedStream_noticed_iff (S : Session) (exch : ExceptionHandler) (force : Bool) (past : List Request)
    (calls : List IteratorCall) :
    wp (do TableIterator.construct S; IteratorCall.runAll S calls)
      (Proc.Returns (fun _ s => RowsArrived S s.2.exchanges → ∀ (call : IteratorCall) again,
        call.request S s = some again →
        wp (call.run S) (Proc.Returns (fun _ s' => EndNoticed S again (s.2.answer S (dataRequest again)) s' ↔
          ¬(Cut S (s.2.answer S (dataRequest again)) ∧ s.2.exch.exthrowed = false)) fun _ => False) s)
        fun _ => False)
      ({}, { exch, inpForceFinish := force, past }) := by
  refine Proc.Returns.mono (IteratorCall.run_returns S _ calls)
    (fun _ s _ _ call again hrequest => ?_) fun _ => id
  rw [IteratorCall.wp_run_request hrequest, ← call.prepare_answer, ← call.prepare_exch]
  exact TableIterator.receiveNextData_noticed_iff

/-- A database that sends one row and then closes without a word. -/
def cutSession : Session where
  server := fun requests => match requests with
    | [_] => .message { type := .mtNext, next := { rows := some 1, dataNulls := [true], rowNumber := [1] } }
    | _ => .message { type := .mtClose }
  serializes := fun _ => true
  inpTypes := [{ type := .string }]

theorem closedStream_fail : ¬ ∀ (S : Session) (exch : ExceptionHandler) (force : Bool) (past : List Request)
    (calls : List IteratorCall),
    wp (do TableIterator.construct S; IteratorCall.runAll S calls)
      (Proc.Returns (fun _ s => RowsArrived S s.2.exchanges → ∀ (call : IteratorCall) again,
        call.request S s = some again →
        wp (call.run S) (Proc.Returns (fun _ s' => EndNoticed S again (s.2.answer S (dataRequest again)) s')
          fun _ => False) s) fun _ => False)
      ({}, { exch, inpForceFinish := force, past }) := by
  intro h
  have hrun := h cutSession {} false [] [] ⟨false, _, List.mem_singleton.mpr rfl, rfl,
    by decide⟩ .next false rfl
  exact absurd (hrun.close _ rfl rfl) (by decide)

/-! ### Rejected answers -/

/-- The answer is neither an end nor what was asked for. -/
def Rejects (S : Session) (again : Bool) (reply : Reply) : Prop :=
  ∃ r, reply = .message r ∧ (r.connectionId ≠ S.connectionId ∨
    r.type ≠ .mtDone ∧ r.type ≠ .mtClose ∧ r.type ≠ if again then .mtReset else .mtNext)

/-- No data, whatever is asked for. -/
def ShowsNothing {types : List Datatype} (s : TableIterator types × Channel) : Prop :=
  s.1.eot = true ∧ ∀ (type : Datatype) (col : Nat), type.Supported →
    wp (TableIterator.getOfType col type) (fun o s' => s'.1.wasNull = true ∧
      o = .ok (if types[col]? = some type then type.nullCell else type.errorCell)) s

/-- The first row of a table has no value within the reach of the offsets. -/
def Blank (types : List Datatype) (offsets : Vector Nat types.length) (t : TableData) : Prop :=
  ∀ (type : Datatype) (col : Nat), type.Supported → types[col]? = some type → t.dataNulls[col]? = some false →
    (t.columnOf type.storage).length ≤ offsets[col]?.getD 0

def IteratorCall.NoBatch (S : Session) :
    List IteratorCall → TableIterator S.inputTypes × Channel → Prop
  | [], _ => True
  | call :: calls, s => (∀ again, call.request S s = some again →
      S.verdict again (s.2.answer S (dataRequest again)) ≠ .batch) ∧ NoBatch S calls (call.run S s).2

/-- Since its offsets were `offsets` the iterator has had answers without rows only, the last of them in its
buffer. -/
structure Idle {types : List Datatype} (offsets : Vector Nat types.length)
    (s : TableIterator types × Channel) : Prop where
  received : s.1.rowsReceived = 0
  completed : s.1.rowsCompleted = 0
  colOffsets : s.1.colOffsets = offsets
  buffer : s.2.exchanges.getLast?.map (fun e => e.2.response) = some s.1.nextResponse

namespace Idle
variable {S : Session} {offsets : Vector Nat S.inputTypes.length} {s : TableIterator S.inputTypes × Channel}

theorem nullFlag_eq (h : Idle offsets s) (col : Nat) :
    s.1.nullFlag col = s.1.nextResponse.next.dataNulls[col]? := by
  rw [TableIterator.nullFlag, h.completed, Nat.mul_zero, Nat.zero_add]
  rfl

theorem showsNothing_iff (h : Idle offsets s) :
    ShowsNothing s ↔ Blank S.inputTypes offsets s.1.nextResponse.next := by
  constructor
  · rintro ⟨-, hget⟩ type col hsupported htype hflag
    rw [← h.nullFlag_eq, ← h.colOffsets] at *
    by_contra hlt
    -- The value would be read.
    have hfound : wp (TableIterator.getOfType col type) (fun _ s' => s'.1.wasNull = false) s := by
      refine TableIterator.wp_getOfType_any hsupported (fun hne => absurd htype hne)
        (fun _ hnull => ?_) (fun _ hshort => ?_) fun _ _ _ _ => rfl
      · rw [hflag] at hnull
        cases hnull
      · obtain hnone | ⟨-, hnone⟩ := hshort
        · rw [hflag] at hnone
          cases hnone
        · exact absurd (List.getElem?_eq_none_iff.mp hnone) hlt
    have hnull : (TableIterator.getOfType col type s).2.1.wasNull = true := (hget type col hsupported).1
    rw [show (TableIterator.getOfType col type s).2.1.wasNull = false from hfound] at hnull
    cases hnull
  · intro hblank
    refine ⟨by simp [TableIterator.eot, h.received], fun type col hsupported => ?_⟩
    refine TableIterator.wp_getOfType_any hsupported (fun hne _ => ⟨rfl, by rw [if_neg hne]⟩)
      (fun htype _ => ⟨rfl, by rw [if_pos htype]⟩) (fun htype _ _ => ⟨rfl, by rw [if_pos htype]⟩) ?_
    intro htype hflag x hx
    rw [h.nullFlag_eq] at hflag
    have hle := hblank type col hsupported htype hflag
    rw [← h.colOffsets] at hle
    have hnone : s.1.cellAt type col = none := List.getElem?_eq_none hle
    rw [hnone] at hx
    cases hx

theorem receive {again : Bool} {it : TableIterator S.inputTypes} {c : Channel}
    (hoffsets : it.colOffsets = offsets)
    (hbatch : S.verdict again (c.answer S (dataRequest again)) ≠ .batch) :
    wp (TableIterator.receiveNextData S again) (fun o s => o = .ok () ∧ Idle offsets s) (it, c) := by
  have hbuffer : (c.after S (dataRequest again)).exchanges.getLast?.map (fun e => e.2.response) =
      some (c.answer S (dataRequest again)).response := by
    simp [Channel.after]
  rw [TableIterator.wp_receiveNextData]
  cases hverdict : S.verdict again (c.answer S (dataRequest again)) with
  | rejected msg => exact ⟨rfl, rfl, rfl, hoffsets, hbuffer⟩
  | ended => exact ⟨rfl, rfl, rfl, hoffsets, hbuffer⟩
  | batch => exact absurd hverdict hbatch

theorem run (h : Idle offsets s) (call : IteratorCall) (hcall : ∀ again, call.request S s = some again →
      S.verdict again (s.2.answer S (dataRequest again)) ≠ .batch) :
    wp (call.run S) (fun o s => o = .ok () ∧ Idle offsets s) s := by
  rcases hrequest : call.request S s with _ | again
  · have hadvances : ¬call.Advances s := by
      intro hadv
      cases call with
      | next => exact hadv.1 h.received
      | reset | reinitialize | get | checkException | forceFinish => exact hadv
    refine wp_mono (IteratorCall.wp_run_quiet hrequest hadvances) fun o s' ho => ⟨ho.1, ?_⟩
    obtain ⟨hsame, hoffsets⟩ := ho.2 h.received
    exact ⟨hsame.received.trans h.received, hsame.completed.trans h.completed, hoffsets.trans h.colOffsets, by
      rw [hsame.exchanges, hsame.response, h.buffer]⟩
  · rw [IteratorCall.wp_run_request hrequest]
    show wp _ _ ((call.prepare s).1, (call.prepare s).2)
    refine receive ?_ ?_
    · rw [call.prepare_colOffsets, h.colOffsets]
    · rw [call.prepare_answer]
      exact hcall again hrequest

theorem runAll (h : Idle offsets s) {calls : List IteratorCall} (hcalls : IteratorCall.NoBatch S calls s) :
    wp (IteratorCall.runAll S calls) (fun o s => o = .ok () ∧ Idle offsets s) s := by
  induction calls generalizing s with
  | nil => exact ⟨rfl, h⟩
  | cons call calls ih =>
    rw [IteratorCall.runAll, wp_bind]
    have hrun := h.run call hcalls.1
    unfold wp at hrun ⊢
    rw [hrun.1]
    exact ih hrun.2 hcalls.2

end Idle

theorem Rejects.not_batch {S : Session} {again : Bool} {reply : Reply} (h : Rejects S again reply) :
    S.verdict again reply ≠ .batch := by
  obtain ⟨r, rfl, hr⟩ := h
  simp only [Session.verdict]
  obtain hid | ⟨hdone, hclose, htype⟩ := hr
  · rw [if_pos hid]
    exact Verdict.noConfusion
  · by_cases hid : r.connectionId ≠ S.connectionId
    · rw [if_pos hid]
      exact Verdict.noConfusion
    · rw [if_neg hid, if_neg hdone, if_neg hclose, if_pos (by cases again <;> simpa using htype)]
      exact Verdict.noConfusion

/-- From a rejected answer on, as long as no batch comes: the iterator is at its end, and it shows nothing
exactly if the first row of the answer in its buffer has no value within the reach of the offsets it had. -/
theorem rejected_showsNothing_iff (S : Session) (it : TableIterator S.inputTypes) (c : Channel) (again : Bool)
    (hrejects : Rejects S again (c.answer S (dataRequest again))) (calls : List IteratorCall)
    (hcalls : IteratorCall.NoBatch S calls (TableIterator.receiveNextData S again (it, c)).2) :
    wp (do TableIterator.receiveNextData S again; IteratorCall.runAll S calls) (fun o s => o = .ok () ∧
      s.1.eot = true ∧ s.2.exchanges.getLast?.map (fun e => e.2.response) = some s.1.nextResponse ∧
      (ShowsNothing s ↔ Blank S.inputTypes it.colOffsets s.1.nextResponse.next)) (it, c) := by
  have hfirst : wp (TableIterator.receiveNextData S again) (fun o s =>
      o = .ok () ∧ Idle it.colOffsets s) (it, c) :=
    Idle.receive rfl hrejects.not_batch
  have hrest := Idle.runAll hfirst.2 hcalls
  have hrun : TableIterator.receiveNextData S again (it, c) =
      (.ok (), (TableIterator.receiveNextData S again (it, c)).2) := Prod.ext hfirst.1 rfl
  rw [wp_eq (run_bind _ _ hrun)]
  refine ⟨hrest.1, ?_, hrest.2.buffer, hrest.2.showsNothing_iff⟩
  simp [TableIterator.eot, hrest.2.received]

/-- A VARCHAR column, and a row for somebody else. -/
def strangerSession : Session where
  server := fun _ => .message {
    type := .mtNext
    connectionId := 7
    next := { rows := some 1, dataString := [str "x"], dataNulls := [false], rowNumber := [1] } }
  serializes := fun _ => true
  inpTypes := [{ type := .string }]

theorem rejected_showsNothing_iff_stranger :
    wp (do TableIterator.receiveNextData strangerSession false; IteratorCall.runAll strangerSession [.next])
      (fun o s => o = .ok () ∧ s.1.eot = true ∧
        s.2.exchanges.getLast?.map (fun e => e.2.response) = some s.1.nextResponse ∧
        (ShowsNothing s ↔ Blank strangerSession.inputTypes (.replicate _ 0) s.1.nextResponse.next)) ({}, {}) :=
  rejected_showsNothing_iff strangerSession {} {} false ⟨_, rfl, .inl (by decide)⟩ [.next]
    ⟨fun _ h => (by cases h), trivial⟩

/-- The row is shown. -/
theorem rejected_showsNothing_fail : ¬ ∀ (S : Session) (c : Channel) (calls : List IteratorCall),
    Rejects S false (c.answer S .next) → IteratorCall.NoBatch S calls (TableIterator.construct S ({}, c)).2 →
    wp (do TableIterator.construct S; IteratorCall.runAll S calls) (fun _ s => ShowsNothing s) ({}, c) := by
  intro h
  have hnothing := h strangerSession {} [] ⟨_, rfl, .inl (by decide)⟩ trivial
  exact absurd (hnothing.2 .string 0 rfl).1 (by decide)

end UdfRunner
