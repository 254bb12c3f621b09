import UdfRunner.ExaudflibMain
import UdfRunner.ReadCall

/-!
# What the loops of a session leave alone

`Keeps env R A`: the relation `R` allows what the loops do, with events in `A` logged, `handle_error` and
the shutdown apart. `AppendsRuns.of_mem` follows the runs in a log back to the container.
-/

namespace UdfRunner
open Proc

namespace Client
variable {σ α : Type} {env : Environment} {container : Container σ} {w : World σ}

theorem wp_callVm_some {m : Session → VmProc σ α} {Q : Outcome Exception α → World σ → Prop}
    {vm : VmObject σ} (hvm : w.vm = some vm) :
    wp (callVm env m) Q w ↔ wp (m (w.session env))
      (fun o s => Q o { w.afterVm env s.2 with vm := some s.1 }) (vm, w.channel) := by
  unfold wp callVm
  rw [hvm]

structure Keeps (env : Environment) (R : World σ → World σ → Prop) (A : Event → Prop) : Prop where
  of_eq : ∀ {w w'}, w'.log = w.log → w'.calls = w.calls → w'.vm.isSome = w.vm.isSome →
    w'.shutdownVmInCaseOfError = w.shutdownVmInCaseOfError → R w w'
  logEvent : ∀ {e}, A e → Moves R (logEvent e)
  callVm : ∀ {α : Type} (m : Session → VmProc σ α), Moves R (callVm env m)
  sent : ∀ {q}, q ≠ .finished → A (.sent q)
  received : ∀ r, A (.received r)
  called : ∀ o, A (.called o)

namespace Keeps
variable {R : World σ → World σ → Prop} {A : Event → Prop}

theorem readCall (h : Keeps env R A) (sc : SingleCallRep) : Moves R (readCall sc : Client σ Unit) := by
  intro w
  have hsame : SameButCall w (Client.readCall sc w).2 := (readCall_same sc w).2
  rw [hsame]
  exact h.of_eq rfl rfl rfl rfl

theorem setException (h : Keeps env R A) (msg : ByteString) :
    Moves R (setException msg : Client σ Unit) := fun _ => h.of_eq rfl rfl rfl rfl

theorem exceptionMsg (h : Keeps env R A) : Moves R (exceptionMsg : Client σ ByteString) := by
  intro w
  unfold Client.exceptionMsg
  cases w.vm <;> exact h.of_eq rfl rfl rfl rfl

theorem calledUndefinedSingleCall (h : Keeps env R A) :
    Moves R (calledUndefinedSingleCall : Client σ ByteString) := by
  intro w
  unfold Client.calledUndefinedSingleCall
  cases w.vm <;> exact h.of_eq rfl rfl rfl rfl

variable [IsPreorder (World σ) R]

theorem send (h : Keeps env R A) (id : UInt64) {q : ClientRequest} (hq : q ≠ .finished) :
    Moves R (send id q : Client σ Unit) :=
  .bind (h.logEvent (h.sent hq)) fun _ => fun _ => h.of_eq rfl rfl rfl rfl

theorem recv (h : Keeps env R A) : Moves R (recv env : Client σ Reply) :=
  .bind .get fun _ => .bind (h.logEvent (h.received _)) fun _ => .pure _

theorem exchange (h : Keeps env R A) {q : ClientRequest} (hq : q ≠ .finished) :
    Moves R (exchange env q : Client σ Reply) :=
  .bind .get fun _ => .bind (h.send _ hq) fun _ => h.recv

theorem assert (c : Bool) : Moves R (assert env c : Client σ Unit) := .ite (.pure ()) (.stop _)

theorem throwClose (empty : String) (r : Response) : Moves R (throwClose empty r : Client σ α) := .throw _

theorem checkReply (parse close wrong : String) (expected : MessageType) (r : Reply) :
    Moves R (checkReply parse close wrong expected r : Client σ Bool) := by
  cases r with
  | unparsable _ => exact .throw _
  | message r => exact .ite (throwClose _ _) (.ite (.pure _) (.ite (.throw _) (.pure _)))

theorem sendRun (h : Keeps env R A) : Moves R (sendRun env : Client σ Bool) := by
  refine .bind (h.exchange (by simp)) fun r => ?_
  cases r with
  | unparsable _ => exact .throw _
  | message r =>
    exact .bind .get fun _ => .ite (throwClose _ _) (.ite (.pure _)
      (.ite (.bind (h.readCall _) fun _ => .pure _) (.ite (.throw _) (.pure _))))

theorem sendDone (h : Keeps env R A) : Moves R (sendDone env : Client σ Bool) :=
  .bind (h.exchange (by simp)) fun _ => checkReply _ _ _ _ _

theorem doneRound (h : Keeps env R A) : Moves R (doneRound env : Client σ (Unit ⊕ Option Nat)) :=
  .bind h.sendDone fun _ => .ite (.pure _) (.pure _)

theorem sendReturn (h : Keeps env R A) (result : Option ByteString) :
    Moves R (sendReturn env result : Client σ Bool) := by
  refine .bind (assert _) fun _ => ?_
  cases result with
  | none => exact .stop _
  | some result => exact .bind (h.exchange (by simp)) fun _ => checkReply _ _ _ _ _

theorem sendUndefinedCall (h : Keeps env R A) (fn : ByteString) :
    Moves R (sendUndefinedCall env fn : Client σ Unit) := by
  refine .bind (h.exchange (by simp)) fun r => ?_
  cases r with
  | unparsable _ => exact .throw _
  | message r => exact .ite (.throw _) (.pure _)

theorem sendClose (h : Keeps env R A) (msg : ByteString) : Moves R (sendClose env msg : Client σ Unit) := by
  refine .bind (h.exchange (by simp)) fun r => ?_
  cases r with
  | unparsable _ => exact .throw _
  | message r => exact .ite (.throw _) (.pure _)

/-- The run of a container ends in a way that `A` lets into the log. -/
def LogsRuns (container : Container σ) (A : Event → Prop) : Prop :=
  ∀ S s, (∀ done, (container.run S s).1 = .ok done → ∀ msg, A (.ran (.returned done msg))) ∧
    ∀ e, (container.run S s).1 = .throw e → A (.ran (.raised e))

theorem run_ (h : Keeps env R A) (hran : LogsRuns container A) : Moves R (run_ env container) := by
  have hset : ∀ msg, Moves R (setExceptionMsg msg : Client σ Unit) :=
    fun _ _ => h.of_eq rfl rfl Option.isSome_map rfl
  intro w
  show wp (Client.run_ env container) (fun _ w' => R w w') w
  rw [Client.run_, wp_catching, wp_bind]
  have hcall := h.callVm container.run w
  unfold Client.callVm at hcall
  cases hvm : w.vm with
  | none =>
    unfold wp Client.callVm
    rw [hvm]
    exact refl_of R w
  | some vm =>
    obtain ⟨hok, hthrow⟩ := hran (w.session env) (vm, w.channel)
    rw [hvm] at hcall
    rw [wp_callVm_some hvm, wp]
    rcases hrun : container.run (w.session env) (vm, w.channel) with ⟨done | e | r, vm', c⟩ <;>
      simp only [hrun] at hcall hok hthrow ⊢
    · exact trans_of R hcall (h.logEvent (hok done rfl vm'.exceptionMsg) _)
    · refine trans_of R hcall ?_
      have hraised := h.logEvent (hthrow e rfl)
      cases e with
      | swigvm reason => exact (Moves.bind hraised fun _ => .bind (hset _) fun _ => .pure _) _
      | std _ | other => exact (Moves.bind hraised fun _ => .throw _) _
    · exact hcall

theorem dispatchCall (h : Keeps env R A) (hnoted : ∀ {n fn arg} {m : Client σ (Option ByteString)},
    Moves R m → Moves R (noted (.ofSingleCall n fn arg) m)) : Moves R (dispatchCall env container) := by
  refine .bind .get fun w => ?_
  cases w.singleCallFunction with
  | scFnNil => exact .pure _
  | scFnDefaultOutputColumns | scFnVirtualSchemaAdapterCall => exact hnoted (h.callVm _)
  | scFnGenerateSqlForImportSpec | scFnGenerateSqlForExportSpec =>
    exact .bind (assert _) fun _ => .bind (hnoted (h.callVm _)) fun _ =>
      .bind (fun _ => h.of_eq rfl rfl rfl rfl) fun _ => .pure _

theorem checkInitReply (h : Keeps env R A) {close wrong : String} {expected : MessageType} {r : Response} :
    Moves R (checkInitReply close wrong expected r : Client σ Bool) :=
  .ite (.bind (h.setException _) fun _ => .pure _)
    (.ite (.bind (h.setException _) fun _ => .pure _) (.pure _))

theorem addColumns (h : Keeps env R A) {push : ByteString → SwigColumntype → Params → Params}
    {unsupported : String} (l : List ColumnDefinition) :
    Moves R (addColumns push unsupported l : Client σ Bool) := by
  induction l with
  | nil => exact .pure _
  | cons c l ih =>
    unfold Client.addColumns
    cases columnType c with
    | none =>
      exact .bind (fun _ => h.of_eq rfl rfl rfl rfl) fun _ => .bind (h.setException _) fun _ => .pure _
    | some t => exact .bind (fun _ => h.of_eq rfl rfl rfl rfl) fun _ => ih

theorem setLimits {limit : Nat} : Moves R (setLimits env limit : Client σ Unit) :=
  .bind .get fun _ => .ite (.throw _) (.ite (.throw _) (.ite (.throw _) (.ite (.throw _) (.pure _))))

theorem sendInit (h : Keeps env R A) (name : ByteString) :
    Moves R (sendInit env name : Client σ Bool) := by
  have hread : ∀ rep, Moves R (readMetadata rep : Client σ Bool) := fun rep =>
    .bind (fun _ => h.of_eq rfl rfl rfl rfl) fun _ => .bind (h.addColumns _) fun _ =>
      .ite (h.addColumns _) (.pure _)
  refine .bind (h.send _ (by simp)) fun _ => .bind .get fun _ => .ite (.pure _) (.bind h.recv fun r => ?_)
  cases r with
  | unparsable _ => exact .bind (h.setException _) fun _ => .pure _
  | message r =>
    refine .bind (fun _ => h.of_eq rfl rfl rfl rfl) fun _ => .bind h.checkInitReply fun _ =>
      .ite ?_ (.pure _)
    refine .bind (fun _ => h.of_eq rfl rfl rfl rfl) fun _ => .bind (fun _ => h.of_eq rfl rfl rfl rfl) fun _ =>
      .bind setLimits fun _ => .bind (h.exchange (by simp)) fun r => ?_
    cases r with
    | unparsable _ => exact .bind (h.setException _) fun _ => .pure _
    | message r => exact .bind h.checkInitReply fun _ => .ite (hread _) (.pure _)

end Keeps

/-! ### How the log grows -/

/-- The log grows by events that `A` allows. -/
def Grows (A : Event → Prop) (m : Client σ α) : Prop :=
  ∀ w, ∃ post, (m w).2.log = w.log ++ post ∧ ∀ e ∈ post, A e

/-- The log grows by events that `A` allows, and the calls by calls that `C` allows. -/
structure Appends (A : Event → Prop) (C : VmCall → Prop) (w w' : World σ) : Prop where
  log : ∃ post, w'.log = w.log ++ post ∧ ∀ e ∈ post, A e
  calls : ∃ post, w'.calls = w.calls ++ post ∧ ∀ c ∈ post, C c

instance (A : Event → Prop) (C : VmCall → Prop) : IsPreorder (World σ) (Appends A C) where
  refl w := ⟨⟨[], (List.append_nil _).symm, by simp⟩, ⟨[], (List.append_nil _).symm, by simp⟩⟩
  trans _ _ _ h h' := ⟨exists_append_trans h.log h'.log, exists_append_trans h.calls h'.calls⟩

namespace Appends
variable {A : Event → Prop} {C : VmCall → Prop} {β : Type}

theorem grows {m : Client σ α} (hm : Moves (Appends A C) m) : Grows A m := fun w => (hm w).log

theorem of_eq {w w' : World σ} (hlog : w'.log = w.log) (hcalls : w'.calls = w.calls) : Appends A C w w' :=
  ⟨⟨[], by rw [hlog, List.append_nil], by simp⟩, ⟨[], by rw [hcalls, List.append_nil], by simp⟩⟩

theorem modify {f : World σ → World σ} (hlog : ∀ w, (f w).log = w.log)
    (hcalls : ∀ w, (f w).calls = w.calls) : Moves (Appends A C) (modify f : Client σ Unit) :=
  fun w => of_eq (hlog w) (hcalls w)

theorem logEvent {e : Event} (he : A e) : Moves (Appends A C) (logEvent e : Client σ Unit) :=
  fun _ => ⟨⟨[e], rfl, by simpa using he⟩, ⟨[], (List.append_nil _).symm, by simp⟩⟩

theorem send (id : UInt64) {q : ClientRequest} (hq : A (.sent q)) :
    Moves (Appends A C) (send id q : Client σ Unit) :=
  .bind (logEvent hq) fun _ => modify (fun _ => rfl) fun _ => rfl

theorem recv (hr : ∀ r, A (.received r)) : Moves (Appends A C) (recv env : Client σ Reply) :=
  .bind .get fun _ => .bind (logEvent (hr _)) fun _ => .pure _

theorem exchange {q : ClientRequest} (hq : A (.sent q)) (hr : ∀ r, A (.received r)) :
    Moves (Appends A C) (exchange env q : Client σ Reply) :=
  .bind .get fun _ => .bind (send _ hq) fun _ => recv hr

theorem callVm {m : Session → VmProc σ α} (hv : ∀ q r, A (.vm q r)) :
    Moves (Appends A C) (callVm env m) := by
  intro w
  unfold Client.callVm
  cases w.vm with
  | none => exact of_eq rfl rfl
  | some vm =>
    refine ⟨⟨_, rfl, fun e he => ?_⟩, ⟨[], (List.append_nil _).symm, by simp⟩⟩
    obtain ⟨x, -, rfl⟩ := List.mem_map.mp he
    exact hv _ _

theorem noted {note : Option (VmObject σ) → Outcome Exception α → VmCall} {m : Client σ α} (hm : Moves (Appends A C) m)
    (hnote : ∀ vm o, C (note vm o)) : Moves (Appends A C) (noted note m) := by
  intro w
  have h := hm w
  refine ⟨h.log, exists_append_trans h.calls ⟨[_], rfl, ?_⟩⟩
  simpa using hnote _ _

theorem exceptionMsg : Moves (Appends A C) (exceptionMsg : Client σ ByteString) := by
  intro w
  unfold Client.exceptionMsg
  cases w.vm <;> exact of_eq rfl rfl

theorem deleteVm (hv : ∀ q r, A (.vm q r)) : Moves (Appends A C) (deleteVm env container) :=
  .bind .get fun _ => .ite (.bind (callVm hv) fun _ => modify (fun _ => rfl) fun _ => rfl) (.pure _)

theorem handleError {msg : ByteString} {shutdown : Bool} (hv : ∀ q r, A (.vm q r))
    (hclose : ∀ m, A (.sent (.close m))) (hr : ∀ r, A (.received r)) (hshut : ∀ b o, C (.shutdown b o)) :
    Moves (Appends A C) (handleError env container msg shutdown) := by
  have hshutdown : Moves (Appends A C) (shutdownForError env container msg) :=
    .bind (modify (fun _ => rfl) fun _ => rfl) fun _ => .bind (noted (callVm hv) fun _ => hshut _) fun _ =>
      .bind exceptionMsg fun _ => .ite (.pure _) (.pure _)
  have hend : Moves (Appends A C) (endVm env container msg shutdown) := by
    refine .bind .get fun w => ?_
    simp only
    split_ifs
    · exact .bind hshutdown fun _ => .bind (deleteVm hv) fun _ => .pure _
    · exact .bind (.pure _) fun _ => .bind (deleteVm hv) fun _ => .pure _
  have hsend : ∀ m, Moves (Appends A C) (sendClose env m : Client σ Unit) := by
    refine fun m => .bind (exchange (hclose _) hr) fun r => ?_
    cases r with
    | unparsable _ => exact .throw _
    | message r => exact .ite (.throw _) (.pure _)
  exact .bind (.catching hend fun _ => .pure _) fun m =>
    .bind (.catching (hsend m) fun _ => .pure _) fun _ => .pure _

theorem finishSession (hv : ∀ q r, A (.vm q r)) (hfinished : A (.sent .finished))
    (hclose : ∀ m, A (.sent (.close m))) (hr : ∀ r, A (.received r)) (hshut : ∀ b o, C (.shutdown b o)) :
    Moves (Appends A C) (finishSession env container) := by
  have hsend : Moves (Appends A C) (sendFinished env : Client σ Unit) := by
    refine .bind (exchange hfinished hr) fun r => ?_
    cases r with
    | unparsable _ => exact .throw _
    | message r =>
      refine .ite ?_ (.ite (.throw _) (.pure _))
      unfold throwClose
      exact .throw _
  exact .bind (noted (callVm hv) fun _ => hshut _) fun _ => .bind exceptionMsg fun _ =>
    .ite (.bind (handleError hv hclose hr hshut) fun _ => .pure _) (.bind hsend fun _ => .pure _)

theorem keeps (hsent : ∀ q, q ≠ .finished → A (.sent q)) (hr : ∀ r, A (.received r))
    (hv : ∀ q r, A (.vm q r)) (hcalled : ∀ o, A (.called o)) : Keeps env (@Appends σ A C) A where
  of_eq hlog hcalls _ _ := of_eq hlog hcalls
  logEvent := logEvent
  callVm _ := callVm hv
  sent := hsent _
  received := hr
  called := hcalled

end Appends

/-! ### How runs end -/

/-- If the event ends a run, it does so in `G`. -/
def RunsIn (G : RunOutcome → Prop) (e : Event) : Prop := ∀ o, e = .ran o → G o

/-- The log grows by runs that end in `G`, and whatever else. -/
abbrev AppendsRuns (G : RunOutcome → Prop) : World σ → World σ → Prop := Appends (RunsIn G) fun _ => True

namespace AppendsRuns
variable {G : RunOutcome → Prop}

theorem keeps (env : Environment) (G : RunOutcome → Prop) :
    Keeps env (@AppendsRuns σ G) (RunsIn G) :=
  Appends.keeps (fun _ _ => by simp [RunsIn]) (fun _ => by simp [RunsIn]) (fun _ _ => by simp [RunsIn])
    fun _ => by simp [RunsIn]

theorem handleError (msg : ByteString) (shutdown : Bool) :
    Moves (AppendsRuns G) (handleError env container msg shutdown) :=
  Appends.handleError (fun _ _ => by simp [RunsIn]) (fun _ => by simp [RunsIn]) (fun _ => by simp [RunsIn])
    fun _ _ => trivial

theorem runRound (hrun : Keeps.LogsRuns container (RunsIn G)) (fuel : Nat) :
    Moves (AppendsRuns G) (runRound env container fuel) := by
  have huntil : Moves (AppendsRuns G) (runUntilDone env container fuel) :=
    .loop (fun _ => .bind ((keeps env G).run_ hrun) fun _ => .ite (.pure _)
      (.bind (keeps env G).exceptionMsg fun _ => .ite (.bind (handleError _ _) fun _ => .pure _) (.pure _)))
      fuel ()
  refine .bind (keeps env G).sendRun fun _ => .ite ?_ (.pure _)
  refine .bind (fun _ => Appends.of_eq rfl rfl) fun _ => .bind huntil fun code => ?_
  cases code with
  | some code => exact .pure _
  | none => exact (keeps env G).doneRound

theorem singleCallRound : Moves (AppendsRuns G) (singleCallRound env container) := by
  have hlog : ∀ o, Moves (AppendsRuns G) (logEvent (.called o) : Client σ Unit) :=
    fun o => (keeps env G).logEvent ((keeps (σ := σ) env G).called o)
  have hanswer : ∀ result, Moves (AppendsRuns G) (answerCall env container result) := fun result =>
    .bind (keeps env G).exceptionMsg fun _ => .ite (.bind (handleError _ _) fun _ => .pure _)
      (.bind (keeps env G).calledUndefinedSingleCall fun fn => .ite
        (.bind ((keeps env G).sendUndefinedCall fn) fun _ => (keeps env G).doneRound)
        (.bind ((keeps env G).sendReturn result) fun _ => (keeps env G).doneRound))
  have hdispatch : Moves (AppendsRuns G) (dispatchCall env container) :=
    (keeps env G).dispatchCall fun hm => Appends.noted hm fun _ _ => trivial
  have hbody : Moves (AppendsRuns G) (singleCallBody env container) :=
    .bind (.catching hdispatch fun e => .bind (hlog _) fun _ => .throw e) fun result =>
      .bind (hlog _) fun _ => hanswer result
  exact .bind (keeps env G).sendRun fun _ => .ite (.bind .get fun _ => .bind (Keeps.assert _) fun _ =>
    .catching hbody fun _ => .pure _) (.pure _)

theorem session (hrun : Keeps.LogsRuns container (RunsIn G)) (fuel : Nat) :
    Moves (AppendsRuns G) (session env container fuel) := by
  have hmaker : Moves (AppendsRuns G) (callVmMaker env container) := by
    have hafter : ∀ (w : World σ) (c : Channel) (vm : Option (VmObject σ)),
        AppendsRuns G w { w.afterVm env c with vm := vm } := by
      refine fun w c vm => ⟨⟨_, rfl, fun e he => ?_⟩, ⟨[], (List.append_nil _).symm, by simp⟩⟩
      obtain ⟨x, -, rfl⟩ := List.mem_map.mp he
      simp [RunsIn]
    intro w
    unfold callVmMaker
    rcases container.make (w.session env) w.channel with ⟨vm | e | r, c⟩
    · exact hafter w c vm
    · exact hafter w c w.vm
    · exact hafter w c w.vm
  have hloop : Moves (AppendsRuns G) (sessionLoop env container fuel) :=
    .bind .get fun _ => .ite (.loop (fun _ => singleCallRound) fuel ()) (.loop (fun _ => runRound hrun fuel) fuel ())
  have hfinish : Moves (AppendsRuns G) (finishSession env container) :=
    Appends.finishSession (fun _ _ => by simp [RunsIn]) (by simp [RunsIn]) (fun _ => by simp [RunsIn])
      (fun _ => by simp [RunsIn]) fun _ _ => trivial
  have hbody : Moves (AppendsRuns G) (sessionBody env container fuel) := by
    refine .bind hmaker fun _ => .bind .get fun w => ?_
    cases w.vm with
    | none => exact .bind (handleError _ _) fun _ => .pure _
    | some vm =>
      refine .ite (.bind (handleError _ _) fun _ => .pure _)
        (.bind (fun _ => Appends.of_eq rfl rfl) fun _ => .bind hloop fun code => ?_)
      cases code with
      | some code => exact .pure _
      | none => exact hfinish
  refine .bind (.catching hbody fun e => .bind .get fun _ => .bind (handleError _ _) fun _ => .pure _)
    fun code => ?_
  cases code with
  | some code => exact .pure _
  | none => exact .bind (Appends.deleteVm fun _ _ => by simp [RunsIn]) fun _ => .pure _

theorem exaudfclientMain (hrun : Keeps.LogsRuns container (RunsIn G)) (socketName : ByteString) (fuel : Nat) :
    Moves (AppendsRuns G) (exaudfclientMain env container socketName fuel) := by
  refine .ite (.stop _) (.loop (fun _ => ?_) fuel ())
  refine .bind (fun _ => Appends.of_eq rfl rfl) fun _ => .bind ((keeps env G).sendInit socketName) fun _ =>
    .ite ?_ ?_
  · exact .bind .get fun _ => .bind (Appends.logEvent (by simp [RunsIn])) fun _ =>
      .bind (session hrun fuel) fun _ => .pure _
  · exact .bind .get fun _ => .ite (.bind (handleError _ _) fun _ => .pure _) (.pure _)

/-- A container whose runs end in `G` leaves only such runs in the log. -/
theorem of_mem (hrun : Keeps.LogsRuns container (RunsIn G)) {socketName : ByteString} {fuel : Nat}
    {o : RunOutcome} (h : .ran o ∈ (Client.exaudfclientMain env container socketName fuel {}).2.log) :
    G o := by
  obtain ⟨post, hlog, hpost⟩ := (exaudfclientMain hrun socketName fuel {}).log
  rw [hlog] at h
  exact hpost _ h o rfl

end AppendsRuns

end Client

end UdfRunner
