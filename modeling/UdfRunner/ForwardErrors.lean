import UdfRunner.ForwardGroups
import UdfRunner.SingleCalls

/-!
# What becomes of the errors a `TestVM` records

Iterator and result handler leave the errors in a response to whoever polls the exception handler, and no
one does: `recordedErrors_surface_iff`.
-/

namespace UdfRunner
open Proc

/-! ### Responses that are recorded -/

/-- What the response to `MT_NEXT` makes the iterator record. -/
def recordedByNext (S : Session) : Reply → Option ByteString
  | .unparsable _ => some (str "F-UDF-CL-LIB-1060: Communication error: failed to parse data")
  | .message r =>
    if r.connectionId ≠ S.connectionId then
      some (str "F-UDF-CL-LIB-1061: Communication error: wrong connection id, expected "
        ++ str (toString S.connectionId.toNat) ++ str " got " ++ str (toString r.connectionId.toNat))
    else if r.type = .mtDone then none
    else if r.type = .mtClose then r.close.map cstr
    else if r.type ≠ .mtNext then
      some (str "F-UDF-CL-LIB-1063: Communication error: wrong message type, got "
        ++ convertMessageTypeToString r.type)
    else none

/-- What the response to `MT_EMIT` makes the result handler record. -/
def recordedByEmit (S : Session) : Reply → Option ByteString
  | .unparsable _ => some (str "F-UDF-CL-LIB-1083: Communication error: failed to parse data")
  | .message r =>
    if r.connectionId ≠ S.connectionId then
      some (str "F-UDF-CL-LIB-1084: Received wrong connection id "
        ++ str (toString r.connectionId.toNat) ++ str ", should be "
        ++ str (toString S.connectionId.toNat))
    else if r.type = .mtClose then
      some (match r.close with
        | none => str "F-UDF-CL-LIB-1085: Unknown error occured"
        | some msg => cstr msg)
    else if r.type ≠ .mtEmit then
      some (str "F-UDF-CL-LIB-1086: Wrong response type, got " ++ convertMessageTypeToString r.type)
    else none

def recorded (S : Session) : VmRequest → Reply → Option ByteString
  | .next, r => recordedByNext S r
  | .emit _, r => recordedByEmit S r
  | .reset, _ | .importScript _ _, _ => none

theorem verdict_of_recorded {S : Session} {reply : Reply} {msg : ByteString}
    (h : recordedByNext S reply = some msg) : S.verdict false reply = .rejected msg := by
  cases reply with
  | unparsable leftover =>
    obtain rfl := Option.some.inj h
    rfl
  | message r =>
    have hother : ((false = true ∧ r.type ≠ .mtReset) ∨ (¬false = true ∧ r.type ≠ .mtNext)) ↔
        r.type ≠ .mtNext := by simp
    simp only [recordedByNext] at h
    simp only [Session.verdict, hother]
    split_ifs at h ⊢ with hid hdone hclose hne
    · rw [← Option.some.inj h]
    · obtain ⟨text, hclosed, rfl⟩ := Option.map_eq_some_iff.mp h
      rw [hclosed]
      rfl
    · rw [← Option.some.inj h]

theorem TableIterator.receiveNextData_records {S : Session} {it : TableIterator S.inputTypes} {c : Channel}
    {msg : ByteString} (h : recordedByNext S (c.answer S .next) = some msg) :
    wp (receiveNextData S false) (fun o s => o = .ok () ∧ s.1.rowsReceived = 0 ∧ s.2.exch = ⟨msg, true⟩)
      (it, c) := by
  have hverdict : S.verdict false (c.answer S (dataRequest false)) = .rejected msg := verdict_of_recorded h
  rw [wp_receiveNextData, hverdict]
  exact ⟨rfl, rfl, rfl⟩

theorem ResultHandler.flush_records {S : Session} {h : ResultHandler} {c : Channel} {msg : ByteString}
    (hrows : 0 < h.table.rowCount) (hser : S.serializes h.table = true)
    (hrec : recordedByEmit S (c.answer S (.emit h.table)) = some msg) :
    wp (flush S) (fun o s => o = .ok () ∧ s.2.exch = ⟨msg, true⟩) (h, c) := by
  simp only [flush, wp_bind, wp_get, Outcome.andThen_ok, if_pos hrows, if_pos hser, wp_update, onChannel,
    wp_zoom, Channel.wp_exchange]
  cases hr : c.answer S (.emit h.table) with
  | unparsable leftover =>
    rw [hr] at hrec
    obtain rfl := Option.some.inj hrec
    exact ⟨rfl, rfl⟩
  | message r =>
    rw [hr] at hrec
    simp only [recordedByEmit] at hrec
    simp only [checkReply, wp_ite]
    split_ifs at hrec ⊢ with hid hclose hne
    · obtain rfl := Option.some.inj hrec
      exact ⟨rfl, rfl⟩
    · obtain rfl := Option.some.inj hrec
      cases r.close <;> exact ⟨rfl, rfl⟩
    · obtain rfl := Option.some.inj hrec
      exact ⟨rfl, rfl⟩

/-! ### What is thrown -/

section
variable {P : Exception → Prop} {types : List Datatype} {S : Session}

namespace TableIterator

theorem throws_setException (msg : ByteString) :
    Throws P (setException msg : Iterating types Unit) := .zoom (.modify _)

theorem throws_element {α : Type} (data : List α) (index : Nat) :
    Throws P (element data index : Iterating types α) := by
  unfold element
  cases data[index]? with
  | none => exact .stop _
  | some v => exact .pure v

theorem throws_advanceColumns (rest : List Datatype) (col nullIndex : Nat) :
    Throws P (advanceColumns col nullIndex rest : Iterating types Unit) := by
  induction rest generalizing col nullIndex with
  | nil => exact .pure _
  | cons type rest ih =>
    unfold advanceColumns
    refine .bind .get fun s => .bind (throws_element _ _) fun isNull => .ite (ih _ _) ?_
    cases type <;> first | exact throws_setException _ | exact .bind (.modify _) fun _ => ih _ _

theorem throws_incrementColOffsets (reset : Bool) :
    Throws P (incrementColOffsets reset : Iterating types Unit) :=
  .bind .get fun _ => .bind (throws_element _ _) fun _ => .bind (.modify _) fun _ =>
    .ite (throws_setException _) (throws_advanceColumns _ _ _)

theorem throws_receiveNextData (reset : Bool) :
    Throws P (receiveNextData S reset : Iterating types Unit) := by
  have hexchange : ∀ q, Throws P (onChannel (Channel.exchange S q) : Iterating types Reply) :=
    fun q => .zoom (.bind .get fun _ => .bind (.modify _) fun _ => .pure _)
  refine .bind (.modify _) fun _ => .bind (hexchange _) fun reply => ?_
  cases reply with
  | unparsable leftover => exact .bind (.modify _) fun _ => throws_setException _
  | message r =>
    refine .bind (.modify _) fun _ => .ite (throws_setException _) (.ite (.pure _) (.ite ?_
      (.ite (throws_setException _) (.bind (.modify _) fun _ => throws_incrementColOffsets _))))
    cases r.close with
    | none => exact .bind .get fun _ => .ite (.pure _) (throws_setException _)
    | some msg => exact throws_setException _

theorem throws_next : Throws P (next S : Iterating types Bool) :=
  .bind .get fun _ => .ite (.bind (throws_setException _) fun _ => .pure _)
    (.bind (.modify _) fun _ => .ite (.pure _)
      (.ite (.bind (throws_receiveNextData _) fun _ => .bind .get fun _ => .pure _)
        (.bind (throws_incrementColOffsets _) fun _ => .pure _)))

theorem throws_checkIndex (index available : Nat) (tp otype ts : String) :
    Throws P (checkIndex index available tp otype ts : Iterating types (Option Nat)) :=
  .ite (.pure _) (.bind .get fun _ => .bind (throws_setException _) fun _ => .bind (.modify _) fun _ => .pure _)

theorem throws_getCell {α : Type} (expected : Datatype) (typeName noColumn wrongType otype : String)
    (onError onNull : α) (data : TableData → List α) (col : Nat) :
    Throws P (getCell expected typeName noColumn wrongType otype onError onNull data col :
      Iterating types α) := by
  have hcheck : ∀ available, Throws P (checkValue col available otype : Iterating types (Option Nat)) := by
    refine fun available => .bind (.modify _) fun _ => .bind .get fun _ =>
      .bind (throws_checkIndex _ _ _ _ _) fun index => ?_
    cases index with
    | none => exact .pure _
    | some index =>
      exact .bind (throws_element _ _) fun _ => .bind (.modify _) fun _ =>
        .ite (.pure _) (throws_checkIndex _ _ _ _ _)
  unfold getCell
  cases types[col]? with
  | none => exact .bind (throws_setException _) fun _ => .bind (.modify _) fun _ => .pure _
  | some type =>
    refine .ite (.bind (throws_setException _) fun _ => .bind (.modify _) fun _ => .pure _)
      (.bind .get fun _ => .bind (hcheck _) fun index => ?_)
    cases index with
    | none => exact .pure _
    | some index => exact throws_element _ _

end TableIterator

namespace ResultHandler

theorem throws_setException (msg : ByteString) : Throws P (setException msg) := .zoom (.modify _)

theorem throws_flush : Throws P (flush S) := by
  have hcheck : ∀ reply, Throws P (checkReply S reply) := by
    intro reply
    cases reply with
    | unparsable _ => exact throws_setException _
    | message r =>
      refine .ite (throws_setException _) (.ite ?_ (.ite (throws_setException _) (.pure _)))
      cases r.close <;> exact throws_setException _
  have hexchange : ∀ q, Throws P (onChannel (Channel.exchange S q)) :=
    fun q => .zoom (.bind .get fun _ => .bind (.modify _) fun _ => .pure _)
  exact .bind .get fun _ => .ite (.ite (.bind (.modify _) fun _ => .bind (hexchange _) fun _ => hcheck _)
    (throws_setException _)) (.pure _)

theorem throws_addColumns (rest : List Datatype) (col : Nat) : Throws P (addColumns col rest) := by
  have hcell : ∀ {α : Type} (missing : String) (found : Option α) (size : α → Nat)
      (add : α → TableData → TableData), Throws P (addCell missing found size add) := by
    intro α missing found size add
    cases found with
    | none => exact .bind (throws_setException _) fun _ => .pure _
    | some v => exact .bind (.modify _) fun _ => .pure _
  have hcolumn : ∀ col type, Throws P (addColumn col type) := by
    refine fun col type => .bind .get fun _ => .bind (.modify _) fun _ => .ite (.pure _) ?_
    cases type <;> first | exact hcell _ _ _ _ | exact .bind (throws_setException _) fun _ => .pure _
  induction rest generalizing col with
  | nil => exact .pure _
  | cons type rest ih => exact .bind (hcolumn _ _) fun _ => .ite (ih _) (.pure _)

theorem throws_next (currentRow : UInt64) : Throws P (next S currentRow) :=
  .bind (.modify _) fun _ => .bind (throws_addColumns _ _) fun _ =>
    .ite (.bind (.modify _) fun _ => .bind .get fun _ =>
      .ite (.ite (.bind (.zoom (.modify _)) fun _ => .pure _) (.bind throws_flush fun _ => .pure _)) (.pure _))
      (.pure _)

theorem throws_setString (col : Nat) (v : ByteString) (l : Nat) : Throws P (setString S col v l) := by
  unfold setString setText setCell
  cases S.outputTypes[col]? with
  | none => exact throws_setException _
  | some type => exact .ite (throws_setException _) (.modify _)

end ResultHandler

end

/-- The exceptions of the VM's own kind. -/
def Exception.IsSwigvm (e : Exception) : Prop := ∃ reason, e = .swigvm reason

namespace TestVM
variable {types : List Datatype} {S : Session}

theorem throws_requireStringColumn (column : Nat) (input : Bool) (strategy : ByteString) :
    Throws Exception.IsSwigvm (requireStringColumn S column input strategy : Testing types Unit) :=
  .ite (.throw ⟨_, rfl⟩) (.pure _)

theorem throws_emitMetadata : Throws Exception.IsSwigvm (emitMetadata S : Testing types Unit) :=
  .ite (.throw ⟨_, rfl⟩) (.bind (throws_requireStringColumn _ _ _) fun _ =>
    .bind (throws_requireStringColumn _ _ _) fun _ =>
      .bind (.zoom (ResultHandler.throws_setString _ _ _)) fun _ =>
        .bind (.zoom (ResultHandler.throws_setString _ _ _)) fun _ => .bind .get fun _ =>
          .bind (.zoom (ResultHandler.throws_next _)) fun _ => .zoom ResultHandler.throws_flush)

theorem throws_forwardRow : Throws Exception.IsSwigvm (forwardRow S : Testing types Unit) := by
  have hcell : Throws Exception.IsSwigvm (forwardCell S : Testing types Unit) :=
    .bind (.zoom (TableIterator.throws_getCell _ _ _ _ _ _ _ _ _)) fun _ => .bind .get fun _ =>
      .ite (.zoom (.modify _)) (.zoom (ResultHandler.throws_setString _ _ _))
  exact .bind hcell fun _ => .bind .get fun _ => .bind (.zoom (ResultHandler.throws_next _)) fun _ =>
    .bind (.zoom TableIterator.throws_next) fun _ => .pure _

theorem throws_forwardInput (fuel : Nat) :
    Throws Exception.IsSwigvm (forwardInput S fuel : Testing types Unit) :=
  .ite (.throw ⟨_, rfl⟩) (.bind (throws_requireStringColumn _ _ _) fun _ =>
    .bind (throws_requireStringColumn _ _ _) fun _ =>
      .bind (.loop (fun _ => .bind .get fun _ => .ite (.pure _) (.bind throws_forwardRow fun _ => .pure _))
        fuel ()) fun _ => .zoom ResultHandler.throws_flush)

theorem throws_run (fuel : Nat) : Throws Exception.IsSwigvm (run S fuel : Testing types Bool) :=
  .ite (.bind throws_emitMetadata fun _ => .pure _)
    (.ite (.bind (throws_forwardInput fuel) fun _ => .pure _) (.throw ⟨_, rfl⟩))

end TestVM

/-! ### Runs of the log -/

/-- The ends that are no failure: `true`, and an exception of the VM's own kind. -/
def RunOutcome.Passes (o : RunOutcome) : Prop :=
  (∃ msg, o = .returned true msg) ∨ ∃ reason, o = .raised (.swigvm reason)

theorem testContainer_logsRuns (fuel : Nat) :
    Client.Keeps.LogsRuns (testContainer fuel) (Client.RunsIn RunOutcome.Passes) := by
  intro S s
  constructor
  · intro done hdone msg
    have hrun : (TestVM.run S fuel (s.1.state.2, s.2)).1 = .ok done := hdone
    obtain rfl : done = true := by
      unfold TestVM.run at hrun
      simp only at hrun
      split_ifs at hrun
      · exact eq_of_run_bind_pure hrun
      · exact eq_of_run_bind_pure hrun
      · exact eq_of_run_bind_pure hrun
    rintro _ ⟨⟩
    exact .inl ⟨msg, rfl⟩
  · rintro e he _ ⟨⟩
    obtain ⟨reason, rfl⟩ := TestVM.throws_run fuel (s.1.state.2, s.2) e he
    exact .inr ⟨reason, rfl⟩

/-- A run with all that goes on between the `MT_DONE` before it and the next one. -/
structure IsRun (log seg after : List Event) : Prop where
  split : ∃ before, log = before ++ seg ++ after ∧ (before = [] ∨ ∃ l, before = l ++ [.sent .done])
  undone : .sent .done ∉ seg
  ends : after = [] ∨ ∃ post, after = .sent .done :: post
  begins : ∃ pre a post, seg = pre ++ .sent .run :: .received a :: post ∧ a.HasType .mtRun

/-- The response to a request of the run is recorded as `msg`. -/
def RecordedIn (S : Session) (seg : List Event) (msg : ByteString) : Prop :=
  ∃ q r, .vm q r ∈ seg ∧ recorded S q r = some msg

/-- If a response is recorded, no `MT_DONE` ends the run, and the session closes with a recorded message. -/
def Surfaces (S : Session) (seg after : List Event) : Prop :=
  (∃ msg, RecordedIn S seg msg) → after = [] ∧
    ∃ m msg, RecordedIn S seg msg ∧ .sent (.close (some m)) ∈ seg ∧ msg <:+: m

namespace Transcript
variable {pre post : List Event} {p : Phase} {a : Reply}

theorem running_of_answered (h : Transcript false (pre ++ .sent .run :: .received a :: post) p)
    (ha : a.HasType .mtRun) : (protocol false).Path .running post p := by
  obtain ⟨q, q', -, hs, hpost⟩ := Lts.Path.split h
  obtain rfl : q' = .awaitRun := by cases hs <;> rfl
  obtain ⟨q', hs, hpost⟩ := step_of_path hpost id
  cases hs with
  | runAnswered => exact hpost
  | callAnswered hsingle => cases hsingle
  | runCleanup hr => cases ha.unique hr
  | runRefused _ hr => exact absurd ha hr

/-- While a run that passes is not done, the session is not closed. -/
theorem no_close_of_running (h : (protocol false).Path .running post p)
    (hdone : .sent .done ∉ post) (hruns : ∀ e ∈ post, Client.RunsIn RunOutcome.Passes e) :
    ∀ m, .sent (.close m) ∉ post := by
  refine (h.invariant (I := fun l q => .sent .done ∉ l → (∀ e ∈ l, Client.RunsIn RunOutcome.Passes e) →
    (q = .running ∨ q = .ran) ∧ ∀ m, .sent (.close m) ∉ l) (by simp) ?_ ?_ hdone hruns).2
  · intro l q e r hl hs hdone hruns
    obtain ⟨hq, hclose⟩ := hl (fun h => hdone (by simp [h])) fun e he => hruns e (by simp [he])
    have hrun : ∀ o, e = .ran o → o.Passes := fun o he => hruns e (by simp) o he
    rcases hq with rfl | rfl
    · cases hs with
      | vm => exact ⟨.inl rfl, by simpa using hclose⟩
      | runAgain => rcases hrun _ rfl with ⟨_, h⟩ | ⟨_, h⟩ <;> cases h
      | runFailed => rcases hrun _ rfl with ⟨_, h⟩ | ⟨_, h⟩ <;> cases h
      | runDone | runRaised => exact ⟨.inr rfl, by simpa using hclose⟩
      | runCrashed _ hne =>
        rcases hrun _ rfl with ⟨_, h⟩ | ⟨reason, h⟩
        · cases h
        · exact absurd (RunOutcome.raised.inj h) (hne reason)
    · cases hs with
      | vm hturn => exact hturn.elim
      | done => simp at hdone
  · rintro l q r hl ⟨msg, hmay⟩ hdone hruns
    rcases (hl hdone hruns).1 with rfl | rfl <;> exact hmay.elim

end Transcript

theorem mem_of_sessionLog {log log' : List Event} {single : Bool} {e : Event}
    (h : sessionLog log = some (single, log')) (he : e ∈ log') : e ∈ log := by
  induction log with
  | nil => simp [sessionLog] at h
  | cons e' log ih =>
    cases e' with
    | connected =>
      obtain ⟨-, rfl⟩ := Prod.mk.inj (Option.some.inj h)
      exact List.mem_cons_of_mem _ he
    | sent | received | vm | ran | called => exact List.mem_cons_of_mem _ (ih h)

/-- Whatever the script and the database: what a run of the TEST container records surfaces if and only if
nothing is recorded. -/
theorem recordedErrors_surface_iff (env : Environment) (rowFuel : Nat) (socketName : ByteString)
    (fuel : Nat) (w : World (Sigma TestVM)) (log : List Event)
    (hw : (Client.exaudfclientMain env (testContainer rowFuel) socketName fuel {}).2 = w)
    (hlog : sessionLog w.log = some (false, log)) (seg after : List Event) (hrun : IsRun log seg after) :
    Surfaces (w.session env) seg after ↔ ∀ msg, ¬ RecordedIn (w.session env) seg msg := by
  constructor
  · intro hsurfaces msg hmsg
    obtain ⟨rfl, m, -, -, hclose, -⟩ := hsurfaces ⟨msg, hmsg⟩
    subst hw
    obtain ⟨p, ht, -⟩ := Client.exaudfclientMain_transcript env (testContainer rowFuel) socketName fuel
      false log hlog
    obtain ⟨before, hsplit, -⟩ := hrun.split
    obtain ⟨pre, a, post, rfl, ha⟩ := hrun.begins
    have hsplit' : log = (before ++ pre) ++ .sent .run :: .received a :: post := by simp [hsplit]
    have hpasses : ∀ e ∈ post, Client.RunsIn RunOutcome.Passes e := by
      rintro e he o rfl
      have hmem : Event.ran o ∈ log := by simp [hsplit', he]
      exact Client.AppendsRuns.of_mem (testContainer_logsRuns rowFuel) (mem_of_sessionLog hlog hmem)
    have hpre : .sent (.close (some m)) ∉ pre := by
      intro hmem
      obtain ⟨l, l', rfl⟩ := List.append_of_mem hmem
      have hsplit'' : log = (before ++ l) ++ .sent (.close (some m)) ::
          (l' ++ .sent .run :: .received a :: post) := by simp [hsplit']
      have hnone := (hsplit'' ▸ ht).request_eq_none_of_close (.sent .run) (by simp)
      cases hnone
    have hpost : .sent (.close (some m)) ∉ post :=
      Transcript.no_close_of_running ((hsplit' ▸ ht).running_of_answered ha)
        (fun h => hrun.undone (by simp [h])) hpasses _
    simp [hpre, hpost] at hclose
  · rintro hnone ⟨msg, hmsg⟩
    exact absurd hmsg (hnone msg)

/-- A database that answers `MT_EMIT` by `MT_CLOSE`. -/
def fullDatabase : Server := fun past =>
  match past.getLast? with
  | some ⟨id, .inl (.emit _)⟩ =>
    .message { type := .mtClose, connectionId := id, close := some (str "disk full") }
  | _ => groupsDatabase (fun _ => [oneRow]) 1 past

def fullSession : Outcome Exception Nat × World (Sigma TestVM) :=
  Client.exaudfclientMain { server := fullDatabase } (testContainer 2) (str "ipc:///tmp/try") 3 {}

def fullLog : List Event := ((sessionLog fullSession.2.log).map Prod.snd).getD []

def fullRun : List Event × List Event := fullLog.span (· ≠ .sent .done)

theorem fullRun_isRun : IsRun fullLog fullRun.1 fullRun.2 where
  split := ⟨[], by decide +kernel, .inl rfl⟩
  undone := by decide +kernel
  ends := .inr ⟨fullRun.2.tail, by decide +kernel⟩
  begins := ⟨fullRun.1.take 1, .message { type := .mtRun }, fullRun.1.drop 3, by decide +kernel, rfl⟩

theorem fullRun_records : RecordedIn (fullSession.2.session { server := fullDatabase }) fullRun.1
    (str "disk full") :=
  ⟨.emit { oneRow with rowsInGroup := 0 },
    .message { type := .mtClose, close := some (str "disk full") }, by decide +kernel, by decide +kernel⟩

/-- The message of the `MT_CLOSE` is lost. -/
theorem recordedErrors_surface_iff_full :
    ¬ Surfaces (fullSession.2.session { server := fullDatabase }) fullRun.1 fullRun.2 := by
  have h := recordedErrors_surface_iff { server := fullDatabase } 2 (str "ipc:///tmp/try") 3 _ fullLog
    rfl (by decide +kernel) fullRun.1 fullRun.2 fullRun_isRun
  exact fun hsurfaces => h.mp hsurfaces _ fullRun_records

/-- Recorded errors of `forward_input` do not surface. -/
theorem recordedErrors_lost :
    ¬ ∀ (env : Environment) (rowFuel : Nat) (socketName : ByteString) (fuel : Nat)
      (w : World (Sigma TestVM)) (log : List Event),
      (Client.exaudfclientMain env (testContainer rowFuel) socketName fuel {}).2 = w →
      sessionLog w.log = some (false, log) → cstr w.params.scriptCode = TestVM.forwardInputStrategy →
      ∀ seg after, IsRun log seg after → Surfaces (w.session env) seg after := by
  intro h
  have hsurfaces := h { server := fullDatabase } 2 (str "ipc:///tmp/try") 3 fullSession.2 fullLog
    rfl (by decide +kernel) (by decide +kernel) fullRun.1 fullRun.2 fullRun_isRun
  have hafter : fullRun.2 ≠ [] := by decide +kernel
  exact hafter (hsurfaces ⟨_, fullRun_records⟩).1

end UdfRunner
