import UdfRunner.ForwardGroups

/-!
# Sessions whose runs are all alike

`Uniform container S I G P`: every run of the VM keeps `I`, ends in `G` and emits tables in `P`, whatever the
database answers. `uniformSession` is what follows for the log of a session.
-/

namespace UdfRunner
open Proc

section
variable {σ : Type} {S : Session} {I : VmObject σ → Prop} {G : RunOutcome → Prop}
  {P : List TableData → Prop}

/-- The end of a run that is alike: `true`, or an exception of the VM's own kind. -/
def RunsAlike (I : VmObject σ → Prop) (G : RunOutcome → Prop) (P : List TableData → Prop) :
    Outcome Exception Bool → VmObject σ × Channel → Prop
  | .ok done, s => done = true ∧ I s.1 ∧ G (.returned true s.1.exceptionMsg) ∧
    P (emitted (s.2.exchanges.map Prod.fst))
  | .throw e, s => ∃ reason, e = .swigvm reason ∧ I { s.1 with exceptionMsg := cstr reason } ∧
    G (.raised e) ∧ P (emitted (s.2.exchanges.map Prod.fst))
  | .stop _, _ => True

structure Uniform (container : Container σ) (S : Session) (I : VmObject σ → Prop) (G : RunOutcome → Prop)
    (P : List TableData → Prop) : Prop where
  make : ∀ c, wp (container.make S) (fun o _ => ∀ vm, o = .ok (some vm) → I vm) c
  run : ∀ vm c, I vm → c.exchanges = [] → wp (container.run S) (RunsAlike I G P) (vm, c)

end

/-! ### The log -/

/-- What the log says of the runs that ended. -/
structure Alike (G : RunOutcome → Prop) (P : List TableData → Prop) (log : List Event) : Prop where
  emits : ∀ ts ∈ (runs log).emits, P ts
  ran : ∀ o, .ran o ∈ log → G o

/-- Every run that began is done. -/
structure AllDone (log : List Event) : Prop where
  idle : (runs log).state = .idle
  began : (runs log).began = (runs log).emits.length

section
variable {G : RunOutcome → Prop} {P : List TableData → Prop} {log : List Event} {r : Reply}

theorem AllDone.nil : AllDone [] := ⟨rfl, rfl⟩

theorem Alike.nil : Alike G P [] := ⟨by simp [runs], by simp⟩

/-- Nothing after a `MT_DONE` but what ends a session, and nothing of a VM before its first run. -/
theorem AllDone.runs_ends (h : AllDone log) {post : List Event} (hpost : ∀ e ∈ post, e.Ends) :
    runs (log ++ post) = runs log := by
  rw [runs_append, Runs.foldl_ends h.idle hpost]

theorem AllDone.ends (h : AllDone log) {post : List Event} (hpost : ∀ e ∈ post, e.Ends) :
    AllDone (log ++ post) := by
  have hruns := h.runs_ends hpost
  exact ⟨hruns ▸ h.idle, hruns ▸ h.began⟩

theorem Alike.append (h : Alike G P log) {post : List Event} (hruns : (runs (log ++ post)).emits = (runs log).emits)
    (hpost : ∀ o, .ran o ∈ post → G o) : Alike G P (log ++ post) := by
  refine ⟨fun ts hts => h.emits ts (hruns ▸ hts), fun o ho => ?_⟩
  rcases List.mem_append.mp ho with ho | ho
  · exact h.ran o ho
  · exact hpost o ho

theorem AllDone.runs_begin (h : AllDone log) (hr : r.HasType .mtRun) (l : List (VmRequest × Reply)) :
    runs (log ++ ([.sent .run, .received r] ++ l.map fun x => .vm x.1 x.2)) =
      ⟨.running (emitted (l.map Prod.fst)), (runs log).began + 1, (runs log).emits⟩ := by
  rw [runs_append, List.foldl_append]
  have hidle := h.idle
  rcases hs : runs log with ⟨state, began, emits⟩
  rw [hs] at hidle
  obtain rfl : state = _ := hidle
  have hopen : [Event.sent .run, .received r].foldl Runs.step ⟨.idle, began, emits⟩ =
      ⟨.running [], began + 1, emits⟩ := by
    simp [Runs.step, hr]
  rw [hopen, Runs.foldl_vm rfl]
  rfl

theorem AllDone.runs_round (h : AllDone log) (hr : r.HasType .mtRun) (l : List (VmRequest × Reply))
    (o : RunOutcome) (r' : Reply) : runs (log ++ roundLog r l o r') =
      ⟨.idle, (runs log).began + 1, (runs log).emits ++ [emitted (l.map Prod.fst)]⟩ := by
  rw [roundLog, ← List.append_assoc, runs_append, h.runs_begin hr l]
  rfl

theorem AllDone.refused (h : AllDone log) (hr : ¬ r.HasType .mtRun) :
    runs (log ++ [.sent .run, .received r]) = runs log := by
  rw [runs_append]
  have hidle := h.idle
  rcases hs : runs log with ⟨state, began, emits⟩
  rw [hs] at hidle
  obtain rfl : state = _ := hidle
  simp [Runs.step, hr]

theorem Alike.round (h : Alike G P log) (hdone : AllDone log) (hr : r.HasType .mtRun)
    {l : List (VmRequest × Reply)} {o : RunOutcome} (ho : G o) (hl : P (emitted (l.map Prod.fst))) (r' : Reply) :
    Alike G P (log ++ roundLog r l o r') ∧ AllDone (log ++ roundLog r l o r') := by
  have hruns := hdone.runs_round hr l o r'
  refine ⟨⟨fun ts hts => ?_, fun o' ho' => ?_⟩, ⟨by rw [hruns], ?_⟩⟩
  · rw [hruns] at hts
    rcases List.mem_append.mp hts with hts | hts
    · exact h.emits ts hts
    · obtain rfl := List.mem_singleton.mp hts
      exact hl
  · rcases List.mem_append.mp ho' with ho' | ho'
    · exact h.ran o' ho'
    · obtain rfl : o' = o := by simpa [roundLog] using ho'
      exact ho
  · rw [hruns, hdone.began, List.length_append]
    rfl

end

/-! ### The session -/

namespace Client
variable {σ α : Type} {env : Environment} {container : Container σ} {S : Session} {I : VmObject σ → Prop}
  {G : RunOutcome → Prop} {P : List TableData → Prop} {base : List Event} {w : World σ}

/-- The parameters stay as they are. -/
def SameParams (w w' : World σ) : Prop := w'.params = w.params

instance : IsPreorder (World σ) SameParams where
  refl _ := rfl
  trans _ _ _ h h' := Eq.trans h' h

namespace SameParams

theorem callVm (m : Session → VmProc σ α) : Moves SameParams (callVm env m) := by
  intro w
  unfold Client.callVm
  cases w.vm <;> exact rfl

theorem exceptionMsg : Moves SameParams (exceptionMsg : Client σ ByteString) := by
  intro w
  unfold Client.exceptionMsg
  cases w.vm <;> exact rfl

theorem exchange (q : ClientRequest) : Moves SameParams (exchange env q : Client σ Reply) := fun _ => rfl

theorem noted {note : Option (VmObject σ) → Outcome Exception α → VmCall} {m : Client σ α} (hm : Moves SameParams m) :
    Moves SameParams (noted note m) := fun w => hm w

theorem deleteVm : Moves SameParams (deleteVm env container) :=
  .bind .get fun _ => .ite (.bind (callVm _) fun _ => fun _ => rfl) (.pure _)

theorem handleError (msg : ByteString) (shutdown : Bool) :
    Moves SameParams (handleError env container msg shutdown) := by
  have hshutdown : Moves SameParams (shutdownForError env container msg) :=
    .bind (fun _ => rfl) fun _ => .bind (noted (callVm _)) fun _ =>
      .bind exceptionMsg fun _ => .ite (.pure _) (.pure _)
  have hend : Moves SameParams (endVm env container msg shutdown) := by
    refine .bind .get fun w => ?_
    simp only
    split_ifs
    · exact .bind hshutdown fun _ => .bind deleteVm fun _ => .pure _
    · exact .bind (.pure _) fun _ => .bind deleteVm fun _ => .pure _
  have hsend : ∀ m, Moves SameParams (sendClose env m : Client σ Unit) := by
    refine fun m => .bind (exchange _) fun r => ?_
    cases r with
    | unparsable _ => exact .throw _
    | message r => exact .ite (.throw _) (.pure _)
  exact .bind (.catching hend fun _ => .pure _) fun m =>
    .bind (.catching (hsend m) fun _ => .pure _) fun _ => .pure _

theorem finishSession : Moves SameParams (finishSession env container) := by
  have hsend : Moves SameParams (sendFinished env : Client σ Unit) := by
    refine .bind (exchange _) fun r => ?_
    cases r with
    | unparsable _ => exact .throw _
    | message r => exact .ite (.throw _) (.ite (.throw _) (.pure _))
  exact .bind (noted (callVm _)) fun _ => .bind exceptionMsg fun _ =>
    .ite (.bind (handleError _ _) fun _ => .pure _) (.bind hsend fun _ => .pure _)

end SameParams

/-- The output columns have a name and a type each, if they had. -/
def KeepsColumns (w w' : World σ) : Prop :=
  w.params.outNames.length = w.params.outTypes.length → w'.params.outNames.length = w'.params.outTypes.length

instance : IsPreorder (World σ) KeepsColumns where
  refl _ h := h
  trans _ _ _ h h' := h' ∘ h

namespace KeepsColumns

theorem of_eq {w w' : World σ} (hnames : w'.params.outNames = w.params.outNames)
    (htypes : w'.params.outTypes = w.params.outTypes) : KeepsColumns w w' := fun h => by
  rwa [hnames, htypes]

/-- A name and a type are pushed together, also those of a column that is turned down. -/
theorem addColumns {push : ByteString → SwigColumntype → Params → Params}
    (hpush : ∀ n t (w : World σ), KeepsColumns w { w with params := push n t w.params })
    (unsupported : String) (cols : List ColumnDefinition) :
    Moves KeepsColumns (addColumns push unsupported cols : Client σ Bool) := by
  induction cols with
  | nil => exact .pure true
  | cons c cols ih =>
    rw [Client.addColumns]
    cases columnType c with
    | none => exact .bind (hpush _ _) fun _ => .bind (fun _ => of_eq rfl rfl) fun _ => .pure _
    | some t => exact .bind (hpush _ _) fun _ => ih

theorem readMetadata (rep : Metadata) : Moves KeepsColumns (readMetadata rep : Client σ Bool) := by
  have hinput : ∀ n t (w : World σ), KeepsColumns w { w with params := pushInput n t w.params } :=
    fun _ _ _ => of_eq rfl rfl
  have houtput : ∀ n t (w : World σ), KeepsColumns w { w with params := pushOutput n t w.params } := by
    intro n t w h
    show (w.params.outNames ++ [n]).length = (w.params.outTypes ++ [t]).length
    rw [List.length_append, List.length_append, h]
    rfl
  exact .bind (fun _ => of_eq rfl rfl) fun _ =>
    .bind (addColumns hinput _ _) fun _ => .ite (addColumns houtput _ _) (.pure _)

theorem checkInitReply {close wrong : String} {expected : MessageType} {r : Response} :
    Moves KeepsColumns (checkInitReply close wrong expected r : Client σ Bool) :=
  .ite (.bind (fun _ => of_eq rfl rfl) fun _ => .pure _)
    (.ite (.bind (fun _ => of_eq rfl rfl) fun _ => .pure _) (.pure _))

theorem sendInit (name : ByteString) : Moves KeepsColumns (sendInit env name : Client σ Bool) := by
  have hsend : ∀ id q, Moves KeepsColumns (send id q : Client σ Unit) :=
    fun _ _ => .bind (fun _ => of_eq rfl rfl) fun _ => fun _ => of_eq rfl rfl
  have hrecv : Moves KeepsColumns (recv env : Client σ Reply) :=
    .bind .get fun _ => .bind (fun _ => of_eq rfl rfl) fun _ => .pure _
  refine .bind (hsend _ _) fun _ => .bind .get fun _ => .ite (.pure _) (.bind hrecv fun r => ?_)
  cases r with
  | unparsable _ => exact .bind (fun _ => of_eq rfl rfl) fun _ => .pure _
  | message r =>
    refine .bind (fun _ => of_eq rfl rfl) fun _ => .bind checkInitReply fun _ => .ite ?_ (.pure _)
    refine .bind (fun _ => of_eq rfl rfl) fun _ => .bind (fun _ => of_eq rfl rfl) fun _ =>
      .bind Keeps.setLimits fun _ => .bind (fun _ => of_eq rfl rfl) fun r => ?_
    cases r with
    | unparsable _ => exact .bind (fun _ => of_eq rfl rfl) fun _ => .pure _
    | message r => exact .bind checkInitReply fun _ => .ite (readMetadata _) (.pure _)

end KeepsColumns

/-- Since `base` the runs are alike, and if the program did not stop they are all done. -/
def RanAlike (env : Environment) (S : Session) (G : RunOutcome → Prop) (P : List TableData → Prop)
    (base : List Event) (o : Outcome Exception α) (w : World σ) : Prop :=
  w.session env = S ∧ ∃ log, w.log = base ++ log ∧ Alike G P log ∧ (¬ o.Stopped → AllDone log)

/-- A round can begin. -/
structure CanRun (env : Environment) (S : Session) (I : VmObject σ → Prop) (G : RunOutcome → Prop)
    (P : List TableData → Prop) (base : List Event) (w : World σ) : Prop where
  session : w.session env = S
  mode : w.singleCallMode = false
  vm : ∃ vm, w.vm = some vm ∧ I vm
  log : ∃ log, w.log = base ++ log ∧ Alike G P log ∧ AllDone log

theorem CanRun.ranAlike (h : CanRun env S I G P base w) (o : Outcome Exception α) :
    RanAlike env S G P base o w := by
  obtain ⟨log, hlog, halike, hdone⟩ := h.log
  exact ⟨h.session, log, hlog, halike, fun _ => hdone⟩

/-- What ends a session. -/
structure EndsSession (m : Client σ α) : Prop where
  ends : Moves (Appends Event.Ends fun _ => True) m
  ran : Moves (AppendsRuns fun _ => False) m
  params : Moves SameParams m

theorem endsSession_handleError (msg : ByteString) (shutdown : Bool) :
    EndsSession (handleError env container msg shutdown) :=
  ⟨moves_handleError _ _, AppendsRuns.handleError _ _, .handleError _ _⟩

theorem endsSession_finishSession : EndsSession (finishSession env container) where
  ends := moves_finishSession
  ran := Appends.finishSession (fun _ _ => by simp [RunsIn]) (by simp [RunsIn]) (fun _ => by simp [RunsIn])
    (fun _ => by simp [RunsIn]) fun _ _ => trivial
  params := .finishSession

theorem endsSession_deleteVm : EndsSession (deleteVm env container) where
  ends := .deleteVm fun _ _ => ⟨by simp, by simp⟩
  ran := .deleteVm fun _ _ => by simp [RunsIn]
  params := .deleteVm

theorem RanAlike.endsSession {β : Type} {o : Outcome Exception α} (h : RanAlike env S G P base o w)
    (ho : ¬ o.Stopped) {m : Client σ β} (hm : EndsSession m) : wp m (RanAlike env S G P base) w := by
  obtain ⟨hsession, log, hw, halike, hdone⟩ := h
  obtain ⟨post, hpost, hends⟩ := (hm.ends w).log
  obtain ⟨post', hpost', hnone⟩ := (hm.ran w).log
  obtain rfl : post = post' := List.append_cancel_left (hpost.symm.trans hpost')
  have hdone := hdone ho
  refine ⟨?_, log ++ post, by rw [hpost, hw, List.append_assoc], ?_, fun _ => hdone.ends hends⟩
  · have hparams : (m w).2.params = w.params := hm.params w
    rw [← hsession, World.session, World.session, hparams]
  · exact halike.append (by rw [hdone.runs_ends hends]) fun o ho => (hnone _ ho o rfl).elim

theorem wp_run_uniform (h : Uniform container S I G P) (hsession : w.session env = S) {vm : VmObject σ}
    (hvm : w.vm = some vm) (hI : I vm) :
    wp (run_ env container) (fun o w' => w'.session env = S ∧ w'.singleCallMode = w.singleCallMode ∧
      ∃ l : List (VmRequest × Reply), match o with
        | .ok done => done = true ∧ P (emitted (l.map Prod.fst)) ∧ (∃ vm, w'.vm = some vm ∧ I vm) ∧
          ∃ out, G out ∧ w'.log = w.log ++ l.map (fun x => .vm x.1 x.2) ++ [.ran out]
        | .throw _ => False
        | .stop _ => w'.log = w.log ++ l.map fun x => .vm x.1 x.2) w := by
  have hrun := h.run vm w.channel hI rfl
  subst hsession
  simp only [run_, wp_catching, wp_bind]
  rw [wp_callVm_some hvm]
  refine wp_mono hrun fun o s ho => ?_
  rcases o with done | e | r
  · obtain ⟨rfl, hI', hG, hP⟩ := ho
    simp only [Outcome.andThen_ok]
    rw [wp_exceptionMsg rfl]
    simp only [Outcome.andThen_ok, logEvent, wp_modify, wp_pure]
    exact ⟨rfl, rfl, s.2.exchanges, trivial, hP, ⟨s.1, rfl, hI'⟩, _, hG, rfl⟩
  · obtain ⟨reason, rfl, hI', hG, hP⟩ := ho
    simp only [Outcome.andThen_throw, logEvent, setExceptionMsg, wp_bind, wp_modify, Outcome.andThen_ok, wp_pure]
    exact ⟨rfl, rfl, s.2.exchanges, trivial, hP, ⟨_, rfl, hI'⟩, _, hG, rfl⟩
  · exact ⟨rfl, rfl, s.2.exchanges, rfl⟩

/-- A round leaves the runs alike, and goes on only where the next one can begin. -/
theorem wp_runRound_uniform (h : Uniform container S I G P) (hw : CanRun env S I G P base w) (fuel : Nat) :
    wp (runRound env container (fuel + 1)) (fun o w' => RanAlike env S G P base o w' ∧
      (o = .ok (.inl ()) → CanRun env S I G P base w')) w := by
  obtain ⟨hsession, hmode, ⟨vm, hvm, hI⟩, log, hlog, halike, hdone⟩ := hw
  rw [runRound, wp_bind]
  refine wp_mono (wp_sendRun_multi hmode) ?_
  rintro o w₁ ⟨rfl, ho⟩
  have hlog₁ : (w.afterExchange env .run).log = base ++ (log ++ [.sent .run, .received (w.reply env .run)]) := by
    simp [World.afterExchange, hlog]
  have hrefused : o ≠ .ok true → ∀ {β : Type} (o' : Outcome Exception β),
      RanAlike env S G P base o' (w.afterExchange env .run) := by
    intro hne β o'
    have hruns := hdone.refused fun ht => hne (ho.mpr ht)
    refine ⟨hsession, _, hlog₁, halike.append (by rw [hruns]) (by simp), fun _ => ?_⟩
    exact ⟨hruns ▸ hdone.idle, hruns ▸ hdone.began⟩
  rcases o with b | e | r
  case throw => exact ⟨hrefused (by simp) _, by simp⟩
  case stop => exact ⟨hrefused (by simp) _, by simp⟩
  cases b with
  | false => exact ⟨hrefused (by simp) _, fun h => by simp at h⟩
  | true =>
    have ht : (w.reply env .run).HasType .mtRun := ho.mp rfl
    simp only [Outcome.andThen_ok, if_true, wp_bind, wp_modify]
    let w₂ : World σ := { w.afterExchange env .run with inpForceFinish := false }
    show wp (runUntilDone env container (fuel + 1)) _ w₂
    rw [runUntilDone, loop_succ, wp_bind, wp_bind]
    refine wp_mono (wp_run_uniform h (w := w₂) hsession hvm hI) ?_
    rintro o w₃ ⟨hsession₃, hmode₃, l, ho₃⟩
    rcases o with b | e | r
    · obtain ⟨rfl, hP, ⟨vm', hvm₃, hI'⟩, out, hG, hlog₃⟩ := ho₃
      simp only [Outcome.andThen_ok, if_true, wp_pure, wp_pure', doneRound, wp_bind]
      refine wp_mono wp_sendDone_after ?_
      rintro o w₄ rfl
      obtain ⟨halike₄, hdone₄⟩ := halike.round hdone ht hG hP (w₃.reply env .done)
      have hlog₄ : (w₃.afterExchange env .done).log = base ++
          (log ++ roundLog (w.reply env .run) l out (w₃.reply env .done)) := by
        rw [World.afterExchange, hlog₃]
        show (w.afterExchange env .run).log ++ _ ++ _ ++ _ ++ _ = _
        rw [hlog₁]
        simp [roundLog]
      have hcan : CanRun env S I G P base (w₃.afterExchange env .done) :=
        ⟨hsession₃, hmode₃.trans hmode, ⟨vm', hvm₃, hI'⟩, _, hlog₄, halike₄, hdone₄⟩
      rcases o with (_ | _) | e | r
      · exact ⟨hcan.ranAlike _, fun h => by simp at h⟩
      · exact ⟨hcan.ranAlike _, fun _ => hcan⟩
      · exact ⟨hcan.ranAlike _, by simp⟩
      · exact ⟨hcan.ranAlike _, by simp⟩
    · exact ho₃.elim
    · have hlog' : w₃.log = base ++ (log ++ ([.sent .run, .received (w.reply env .run)] ++
          l.map fun x => .vm x.1 x.2)) := by
        rw [ho₃]
        show (w.afterExchange env .run).log ++ _ = _
        rw [hlog₁]
        simp
      refine ⟨⟨hsession₃, _, hlog', halike.append (by rw [hdone.runs_begin ht]) (by simp), by simp⟩, by simp⟩

theorem wp_rounds_uniform (h : Uniform container S I G P) (hw : CanRun env S I G P base w) (fuel : Nat) :
    wp (sessionLoop env container (fuel + 1)) (RanAlike env S G P base) w := by
  rw [sessionLoop, wp_bind, wp_get, Outcome.andThen_ok, hw.mode, wp_ite, if_neg (by simp)]
  refine wp_loop (fun _ => CanRun env S I G P base) (fun _ w hw => hw.ranAlike _) (fun _ w hw => ?_)
    (fuel + 1) hw
  refine wp_mono (wp_runRound_uniform h hw fuel) ?_
  rintro o w' ⟨halike, hcan⟩
  rcases o with (⟨⟩ | code) | e | r
  · exact hcan rfl
  · exact halike
  · exact halike
  · exact halike

/-- A program that goes on with what ends the session, and then returns. -/
theorem RanAlike.endsSession_pure {β γ : Type} {o : Outcome Exception α} (h : RanAlike env S G P base o w)
    (ho : ¬ o.Stopped) {m : Client σ β} (hm : EndsSession m) (f : β → γ) :
    wp (m >>= fun b => Pure.pure (f b)) (RanAlike env S G P base) w := by
  rw [wp_bind]
  refine wp_mono (h.endsSession ho hm) fun o' w' h' => ?_
  rcases o' with b | e | r <;> exact h'

theorem wp_callVmMaker_uniform (h : Uniform container S I G P) (hsession : w.session env = S) :
    wp (callVmMaker env container) (fun o w' => w'.singleCallMode = w.singleCallMode ∧
      RanAlike env S G P w.log (.ok () : Outcome Exception Unit) w' ∧
      (o = .ok () → ∀ vm, w'.vm = some vm → I vm)) w := by
  have hmake := h.make w.channel
  subst hsession
  have hlog : ∀ (c : Channel) (vm : Option (VmObject σ)), RanAlike env (w.session env) G P w.log
      (.ok () : Outcome Exception Unit) { w.afterVm env c with vm := vm } := by
    intro c vm
    have hends : ∀ e ∈ c.exchanges.map (fun x => Event.vm x.1 x.2), e.Ends := by
      intro e he
      obtain ⟨x, -, rfl⟩ := List.mem_map.mp he
      exact ⟨by simp, by simp⟩
    refine ⟨rfl, _, rfl, ?_, fun _ => AllDone.nil.ends hends⟩
    exact Alike.nil.append (by rw [AllDone.nil.runs_ends hends]) (by simp)
  unfold wp callVmMaker
  unfold wp at hmake
  rcases hm : container.make (w.session env) w.channel with ⟨vm | e | r, c⟩ <;> rw [hm] at hmake
  · refine ⟨rfl, hlog c vm, fun _ vm' hvm => hmake vm' ?_⟩
    rw [← hvm]
  · exact ⟨rfl, hlog c w.vm, by simp⟩
  · exact ⟨rfl, hlog c w.vm, by simp⟩

theorem wp_session_uniform (h : Uniform container S I G P) (hsession : w.session env = S)
    (hmode : w.singleCallMode = false) (fuel : Nat) :
    wp (session env container (fuel + 1)) (RanAlike env S G P w.log) w := by
  have hbody : wp (sessionBody env container (fuel + 1)) (RanAlike env S G P w.log) w := by
    rw [sessionBody, wp_bind]
    refine wp_mono (wp_callVmMaker_uniform h hsession) ?_
    rintro o w' ⟨hmode', halike, hI⟩
    rcases o with ⟨⟨⟩⟩ | e | r
    · rw [Outcome.andThen_ok, wp_bind, wp_get, Outcome.andThen_ok]
      cases hvm : w'.vm with
      | none => exact halike.endsSession_pure id (endsSession_handleError _ _) some
      | some vm =>
        simp only [wp_ite]
        split_ifs
        · exact halike.endsSession_pure id (endsSession_handleError _ _) some
        · rw [wp_bind, wp_modify, Outcome.andThen_ok, wp_bind]
          obtain ⟨hsession', log, hlog, halike', hdone⟩ := halike
          have hcan : CanRun env S I G P w.log { w' with shutdownVmInCaseOfError := true } :=
            ⟨hsession', hmode'.trans hmode, ⟨vm, hvm, hI rfl vm hvm⟩, log, hlog, halike', hdone id⟩
          refine wp_mono (wp_rounds_uniform h hcan fuel) fun o w'' h'' => ?_
          rcases o with (_ | code) | e | r
          · exact h''.endsSession id endsSession_finishSession
          · exact h''
          · exact h''
          · exact h''
    · obtain ⟨hsession', log, hlog, halike', hdone⟩ := halike
      exact ⟨hsession', log, hlog, halike', fun _ => hdone id⟩
    · obtain ⟨hsession', log, hlog, halike', hdone⟩ := halike
      exact ⟨hsession', log, hlog, halike', fun _ => hdone id⟩
  have hcaught : wp (catching (sessionBody env container (fuel + 1)) fun e => do
      let w ← get
      return some (← handleError env container (errorMessage e) w.shutdownVmInCaseOfError))
      (RanAlike env S G P w.log) w := by
    rw [wp_catching]
    refine wp_mono hbody fun o w' halike => ?_
    cases o with
    | ok code => exact halike
    | throw e =>
      show wp (do
        let w ← get
        return some (← handleError env container (errorMessage e) w.shutdownVmInCaseOfError)) _ w'
      rw [wp_bind, wp_get, Outcome.andThen_ok]
      exact halike.endsSession_pure id (endsSession_handleError _ _) some
    | stop r => exact halike
  rw [session, wp_bind]
  refine wp_mono hcaught fun o w' halike => ?_
  rcases o with (_ | code) | e | r
  · exact halike.endsSession_pure id endsSession_deleteVm fun _ => 0
  · exact halike
  · exact halike
  · exact halike

end Client

/-- Whatever the database answers: in a session of several rows the runs that are done are alike, and unless
the client stopped they are all done. -/
theorem uniformSession {σ : Type} {env : Environment} {container : Container σ}
    {I : Session → VmObject σ → Prop} {G : Session → RunOutcome → Prop} {P : Session → List TableData → Prop}
    (h : ∀ S, S.server = env.server → S.serializes = env.serializes → S.outNames.length = S.outTypes.length →
      Uniform container S (I S) (G S) (P S))
    (socketName : ByteString) (fuel : Nat) :
    wp (Client.exaudfclientMain env container socketName fuel) (fun o w => ∀ log,
      sessionLog w.log = some (false, log) →
        Alike (G (w.session env)) (P (w.session env)) log ∧ (¬ o.Stopped → AllDone log)) {} := by
  have hnone : ∀ (o : Outcome Exception Nat) (w : World σ), sessionLog w.log = none → ∀ log,
      sessionLog w.log = some (false, log) →
        Alike (G (w.session env)) (P (w.session env)) log ∧ (¬ o.Stopped → AllDone log) := by
    intro o w hw log hlog
    rw [hw] at hlog
    cases hlog
  cases fuel with
  | zero =>
    rw [Client.exaudfclientMain, wp_ite]
    split_ifs
    · exact hnone (.stop .aborted) _ rfl
    · exact hnone (.stop .cutOff) _ rfl
  | succ fuel =>
    let paired : World σ → Prop := fun w => w.params.outNames.length = w.params.outTypes.length
    have hinit : ∀ w : World σ, paired w → w.vm = none → wp (Client.sendInit env socketName)
        (fun o w' => (o = .ok false → paired w') ∧ (o = .ok true → paired w')) w := fun w hw _ =>
      have hw' := Client.KeepsColumns.sendInit socketName w hw
      ⟨fun _ => hw', fun _ => hw'⟩
    refine Client.wp_exaudfclientMain socketName (fuel + 1) hnone hinit (fun w hpaired hw => ?_) (fun _ h => h)
      rfl rfl
    let w' : World σ := { w with log := w.log ++ [.connected w.singleCallMode] }
    have hconnected : ∀ log', sessionLog (w'.log ++ log') = some (w.singleCallMode, log') := fun log' =>
      (congrArg sessionLog (List.append_assoc _ _ _)).trans (sessionLog_connected hw _ log')
    cases hmode : w.singleCallMode with
    | true =>
      have hgrows : Client.Grows _ (Client.session env container (fuel + 1)) := Client.Appends.grows
        (Client.AppendsRuns.session (G := fun _ => True) (fun _ _ => ⟨fun _ _ _ _ _ => trivial, fun _ _ _ _ => trivial⟩)
          (fuel + 1))
      intro log hlog
      obtain ⟨post, hpost, -⟩ := hgrows w'
      rw [← hmode, hpost, hconnected, hmode] at hlog
      cases hlog
    | false =>
      have hsession := Client.wp_session_uniform (h (w'.session env) rfl rfl hpaired) rfl hmode fuel
      rw [← hmode]
      refine wp_mono hsession ?_
      rintro o w'' ⟨hsession, log', hlog', halike, hdone⟩ log hlog
      rw [hlog', hconnected] at hlog
      obtain ⟨-, rfl⟩ := Prod.mk.inj (Option.some.inj hlog)
      rw [hsession]
      exact ⟨halike, hdone⟩

end UdfRunner
