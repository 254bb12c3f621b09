import UdfRunner.LoopFrame
import UdfRunner.Transcript

/-!
# The session loops follow the protocol

`Follows single base p w`: since `base`, the log of `w` is a transcript that is in phase `p`. Each
function of the session moves it along; `exaudfclientMain_transcript` is the result for whole runs.
-/

namespace UdfRunner
open Proc

/-- Since `base`, the log is a transcript in phase `p`. -/
def Follows {σ : Type} (single : Bool) (base : List Event) (p : Phase) (w : World σ) : Prop :=
  ∃ log, w.log = base ++ log ∧ Transcript single log p

namespace Follows
variable {σ : Type} {single : Bool} {base : List Event} {p q : Phase} {w w' : World σ} {e : Event}

theorem of_log (h : Follows single base p w) (hlog : w'.log = w.log) : Follows single base p w' := by
  obtain ⟨log, hl, ht⟩ := h
  exact ⟨log, hlog.trans hl, ht⟩

theorem step (h : Follows single base p w) (hs : SessionStep single p e q)
    (hlog : w'.log = w.log ++ [e]) : Follows single base q w' := by
  obtain ⟨log, hl, ht⟩ := h
  exact ⟨log ++ [e], by rw [hlog, hl, List.append_assoc], ht.step hs⟩

theorem fail (h : Follows single base p w) (hp : p.MayFail) (msg : ByteString) :
    Follows single base (.failed msg) w := by
  obtain ⟨log, hl, ht⟩ := h
  exact ⟨log, hl, ht.fail hp msg⟩

/-- The VM's exchanges stay in a phase in which it has the floor. -/
theorem vms (h : Follows single base p w) (hp : p.VmTurn) {l : List (VmRequest × Reply)}
    (hlog : w'.log = w.log ++ l.map fun x => .vm x.1 x.2) : Follows single base p w' := by
  induction l generalizing w w' with
  | nil => exact h.of_log (by simpa using hlog)
  | cons x l ih =>
    have h₁ : Follows single base p { w with log := w.log ++ [.vm x.1 x.2] } := h.step (.vm hp) rfl
    exact ih h₁ (by simpa using hlog)

end Follows

/-- The log is in phase `p` while the session's loops run. -/
structure Running {σ : Type} (single : Bool) (base : List Event) (p : Phase) (w : World σ) : Prop where
  follows : Follows single base p w
  vm : w.vm.isSome
  mode : w.singleCallMode = single

/-- What a part of the session comes to: `ok` after a value; after an exception the log admits an error
path; a session that stops does so where it may. -/
def Comes {σ α : Type} (single : Bool) (base : List Event) (ok : α → World σ → Prop) :
    Outcome Exception α → World σ → Prop
  | .ok a, w => ok a w
  | .throw _, w => ∀ msg, Follows single base (.failed msg) w
  | .stop _, w => ∃ p, p.MayStop ∧ Follows single base p w

section
variable {σ α β : Type} {single : Bool} {base : List Event}

theorem Comes.bind {ok₁ : α → World σ → Prop} {ok₂ : β → World σ → Prop} {m : Client σ α}
    {f : α → Client σ β} {w : World σ} (hm : wp m (Comes single base ok₁) w)
    (hf : ∀ a w', ok₁ a w' → wp (f a) (Comes single base ok₂) w') :
    wp (m >>= f) (Comes single base ok₂) w := by
  rw [wp_bind]
  refine wp_mono hm fun o w' ho => ?_
  cases o with
  | ok a => exact hf a w' ho
  | throw e => exact ho
  | stop r => exact ho

end

/-- The reply to a request, and the world after it. -/
def World.reply {σ : Type} (w : World σ) (env : Environment) (q : ClientRequest) : Reply :=
  env.server (w.past ++ [⟨w.params.connectionId, .inr q⟩])

def World.afterExchange {σ : Type} (w : World σ) (env : Environment) (q : ClientRequest) : World σ :=
  { w with
    past := w.past ++ [⟨w.params.connectionId, .inr q⟩]
    log := w.log ++ [.sent q] ++ [.received (w.reply env q)] }

namespace Client
variable {σ α : Type} {env : Environment} {container : Container σ} {single : Bool}
  {base : List Event} {p : Phase} {w : World σ}

theorem wp_exchange {Q : Outcome Exception Reply → World σ → Prop} {q : ClientRequest} :
    wp (exchange env q) Q w ↔ Q (.ok (w.reply env q)) (w.afterExchange env q) := Iff.rfl

theorem wp_setLimits {Q : Outcome Exception Unit → World σ → Prop} {limit : Nat} (hok : Q (.ok ()) w)
    (hfailed : ∀ l msg, env.setrlimit w.past l = false → Q (.throw (.swigvm msg)) w) :
    wp (setLimits env limit) Q w := by
  simp only [setLimits, wp_bind, wp_get, Outcome.andThen_ok, throwSwigvm, wp_ite, wp_throw, wp_pure]
  split_ifs with hrss hcore hnofile hnproc
  · exact hfailed _ _ hrss
  · exact hfailed _ _ hcore
  · exact hfailed _ _ hnofile
  · exact hfailed _ _ hnproc.1
  · exact hok

theorem follows_exchange {q : ClientRequest} {p₁ p₂ : Phase} (h : Follows single base p w)
    (hs : SessionStep single p (.sent q) p₁)
    (hr : SessionStep single p₁ (.received (w.reply env q)) p₂) :
    Follows single base p₂ (w.afterExchange env q) := by
  have h₁ : Follows single base p₁ { w with log := w.log ++ [.sent q] } := h.step hs rfl
  exact h₁.step hr rfl

theorem running_exchange {q : ClientRequest} {p₁ p₂ : Phase} (h : Running single base p w)
    (hs : SessionStep single p (.sent q) p₁)
    (hr : SessionStep single p₁ (.received (w.reply env q)) p₂) :
    Running single base p₂ (w.afterExchange env q) :=
  ⟨follows_exchange h.follows hs hr, h.vm, h.mode⟩

/-! ### The VM -/

/-- A call of the VM: its outcome is the VM's, and the log stays in the phase. -/
theorem wp_callVm {m : Session → VmProc σ α} {Q : Outcome Exception α → World σ → Prop}
    (hvm : w.vm.isSome) (h : Follows single base p w) (hp : p.VmTurn)
    (hQ : ∀ S s w', w'.vm.isSome → w'.singleCallMode = w.singleCallMode →
      Follows single base p w' → Q (m S s).1 w') :
    wp (callVm env m) Q w := by
  obtain ⟨vm, hvm⟩ := Option.isSome_iff_exists.mp hvm
  rw [wp_callVm_some hvm]
  exact hQ (w.session env) (vm, w.channel) _ rfl rfl (h.vms hp rfl)

@[simp] theorem wp_noted {note : Option (VmObject σ) → Outcome Exception α → VmCall} {m : Client σ α}
    {Q : Outcome Exception α → World σ → Prop} : wp (noted note m) Q w ↔
      wp m (fun o w' => Q o { w' with calls := w'.calls ++ [note w'.vm o] }) w := Iff.rfl

theorem wp_noted_callVm {note : Option (VmObject σ) → Outcome Exception α → VmCall} {m : Session → VmProc σ α}
    {Q : Outcome Exception α → World σ → Prop} (hvm : w.vm.isSome) (h : Follows single base p w)
    (hp : p.VmTurn) (hQ : ∀ S s w', w'.vm.isSome → w'.singleCallMode = w.singleCallMode →
      Follows single base p w' → Q (m S s).1 w') :
    wp (noted note (callVm env m)) Q w :=
  wp_noted.mpr (wp_callVm hvm h hp fun S s _ hvm hmode h' => hQ S s _ hvm hmode (h'.of_log rfl))

theorem wp_exceptionMsg {Q : Outcome Exception ByteString → World σ → Prop} {vm : VmObject σ}
    (hvm : w.vm = some vm) : wp exceptionMsg Q w ↔ Q (.ok vm.exceptionMsg) w := by
  unfold wp exceptionMsg
  rw [hvm]

theorem wp_calledUndefinedSingleCall {Q : Outcome Exception ByteString → World σ → Prop}
    {vm : VmObject σ} (hvm : w.vm = some vm) :
    wp calledUndefinedSingleCall Q w ↔ Q (.ok vm.calledUndefinedSingleCall) w := by
  unfold wp calledUndefinedSingleCall
  rw [hvm]

theorem wp_deleteVm {Q : Outcome Exception Unit → World σ → Prop} (h : Follows single base p w)
    (hp : p.VmTurn) (hQ : ∀ w', Follows single base p w' → Q (.ok ()) w') :
    wp (deleteVm env container) Q w := by
  simp only [deleteVm, wp_bind, wp_get, Outcome.andThen_ok, wp_ite]
  split_ifs with hvm
  · refine wp_callVm hvm h hp fun S s w' _ _ h' => ?_
    rw [container.destroy_returns]
    exact hQ _ (h'.of_log rfl)
  · exact hQ w h

/-! ### The error path -/

theorem wp_endVm {msg₀ msg : ByteString} {shutdown : Bool}
    (h : Follows single base (.failed msg₀) w) :
    wp (endVm env container msg shutdown) (fun o w' => ¬ o.Stopped ∧
      Follows single base (.failed msg₀) w' ∧ ∀ m, o = .ok m → msg <:+: m) w := by
  have hdelete : ∀ m w', Follows single base (.failed msg₀) w' → msg <:+: m →
      wp (do deleteVm env container; return m) (fun o w' => ¬ o.Stopped ∧
        Follows single base (.failed msg₀) w' ∧ ∀ m, o = .ok m → msg <:+: m) w' := by
    intro m w' h' hm
    rw [wp_bind]
    refine wp_deleteVm h' trivial fun w'' h'' => ⟨id, h'', ?_⟩
    rintro _ ⟨⟩
    exact hm
  simp only [endVm, wp_bind (m := Proc.get), wp_get, Outcome.andThen_ok]
  split_ifs with hshut
  · simp only [shutdownForError, setExceptionMsg, wp_bind, wp_modify, Outcome.andThen_ok]
    refine wp_noted_callVm (by simpa using hshut.1) (h.of_log rfl) trivial fun S s w' hvm _ h' => ?_
    rcases ho : (container.shutdown S s).1 with _ | e | r
    · obtain ⟨vm, hvm⟩ := Option.isSome_iff_exists.mp hvm
      simp only [Outcome.andThen_ok, wp_exceptionMsg hvm, wp_ite, wp_pure]
      split_ifs
      · refine (wp_bind ..).mp (hdelete _ w' h' ?_)
        exact ⟨str "F-UDF-CL-LIB-1111: Caught exception\n\n",
          str "\n\n and caught another exception during cleanup\n\n" ++ vm.exceptionMsg, by simp⟩
      · exact (wp_bind ..).mp (hdelete _ w' h' List.infix_rfl)
    · exact ⟨id, h', by simp⟩
    · exact absurd (ho ▸ trivial) (container.shutdown_ends S s)
  · rw [wp_bind, wp_pure]
    exact hdelete msg w h List.infix_rfl

/-- `handle_error` closes the session with its message, whatever the VM does on the way. -/
theorem wp_handleError {Q : Outcome Exception Nat → World σ → Prop} {msg₀ msg : ByteString}
    {shutdown : Bool} (h : Follows single base (.failed msg₀) w) (hmsg : msg₀ <:+: msg)
    (hne : msg ≠ []) (hQ : ∀ w', Follows single base .closed w' → Q (.ok 1) w') :
    wp (handleError env container msg shutdown) Q w := by
  have hclose : ∀ m w', Follows single base (.failed msg₀) w' → msg <:+: m →
      wp (do catching (sendClose env m) fun _ => return (); return 1) Q w' := by
    intro m w' h' hm
    have hmne : m ≠ [] := by
      rintro rfl
      exact hne (List.infix_nil.mp hm)
    have hclosed : Follows single base .closed (w'.afterExchange env (.close (some m))) :=
      follows_exchange h' (.close (hmsg.trans hm) hmne) .closeAnswered
    simp only [sendClose, if_pos hmne, wp_bind, wp_catching, wp_exchange, Outcome.andThen_ok]
    cases w'.reply env (.close (some m)) with
    | unparsable _ => exact hQ _ hclosed
    | message r =>
      simp only [wp_ite]
      split_ifs <;> exact hQ _ hclosed
  simp only [handleError, wp_bind (m := catching (endVm env container msg shutdown) _), wp_catching]
  refine wp_mono (wp_endVm h) ?_
  rintro o w' ⟨hstop, h', hm⟩
  cases o with
  | ok m => exact hclose m w' h' (hm m rfl)
  | throw e => exact hclose msg w' h' List.infix_rfl
  | stop r => exact absurd trivial hstop

/-! ### The requests of the loops -/

theorem wp_checkReply {Q : Outcome Exception Bool → World σ → Prop} {parse close wrong : String}
    {expected : MessageType} {r : Reply} (hexp : expected ≠ .mtClose)
    (hok : r.HasType expected → Q (.ok true) w) (hcleanup : r.HasType .mtCleanup → Q (.ok false) w)
    (hthrow : ∀ e, ¬ r.HasType expected → ¬ r.HasType .mtCleanup → Q (.throw e) w) :
    wp (checkReply parse close wrong expected r) Q w := by
  cases r with
  | unparsable _ => exact hthrow _ id id
  | message r =>
    simp only [checkReply, wp_ite]
    split_ifs with hclose hcl hne
    · refine hthrow _ (fun h => ?_) fun h => ?_
      · exact hexp ((show r.type = expected from h).symm.trans hclose)
      · exact absurd ((show r.type = .mtCleanup from h).symm.trans hclose) (by decide)
    · exact hcleanup hcl
    · exact hthrow _ hne hcl
    · exact hok (not_not.mp hne)

/-- The phase that an answered `MT_RUN` opens. -/
def opened : Bool → Phase
  | false => .running
  | true => .calling

theorem wp_sendRun (h : Running single base p w)
    (hs : SessionStep single p (.sent .run) .awaitRun) :
    wp (sendRun env) (Comes single base fun b w' =>
      Running single base (bif b then opened single else .cleanup) w') w := by
  simp only [sendRun, wp_bind, wp_exchange, Outcome.andThen_ok]
  have hgo : ∀ p₂, SessionStep single .awaitRun (.received (w.reply env .run)) p₂ →
      Running single base p₂ (w.afterExchange env .run) := fun p₂ hr => running_exchange h hs hr
  have hfail : ¬ (w.reply env .run).HasType .mtRun →
      ∀ msg, Follows single base (.failed msg) (w.afterExchange env .run) :=
    fun hne msg => (hgo _ (.runRefused msg hne)).follows
  cases hreply : w.reply env .run with
  | unparsable _ => exact hfail (hreply ▸ id)
  | message r =>
    have hother : ∀ t, r.type = t → t ≠ .mtRun → ¬ (w.reply env .run).HasType .mtRun := by
      rw [hreply]
      rintro t rfl hne
      exact hne
    rw [hreply] at hgo
    have hmode : (w.afterExchange env .run).singleCallMode = single := h.mode
    have hanswered : r.type = .mtRun → Running single base (opened single)
        (w.afterExchange env .run) := by
      intro ht
      cases single with
      | false => exact hgo _ (.runAnswered rfl ht)
      | true => exact hgo _ (.callAnswered rfl (.inl ht))
    simp only [wp_bind, wp_get, Outcome.andThen_ok, wp_ite, hmode]
    split_ifs with hclose hcl hcall hne
    · exact hfail (hother _ hclose (by decide))
    · exact hgo _ (.runCleanup hcl)
    · obtain ⟨rfl, hcall⟩ := hcall
      have hrun := hgo _ (.callAnswered rfl (.inr hcall))
      refine wp_readCall (fun w' hsame _ _ => ?_) fun e w' hsame => ?_
      · rw [hsame]
        exact ⟨hrun.follows.of_log rfl, hrun.vm, hrun.mode⟩
      · rw [hsame]
        exact fun msg => (hfail (hother _ hcall (by decide)) msg).of_log rfl
    · exact hfail (hother _ rfl hne)
    · exact hanswered (not_not.mp hne)

/-- `MT_DONE`: in single-call mode an exception leaves the log where the next round begins. -/
theorem wp_sendDone {Q : Outcome Exception Bool → World σ → Prop} (h : Running single base .ran w)
    (hok : ∀ w', Running single base .idle w' → Q (.ok true) w')
    (hcleanup : ∀ w', Running single base .cleanup w' → Q (.ok false) w')
    (hthrow : ∀ e w', (single = false → ∀ msg, Follows single base (.failed msg) w') →
      (single = true → Running single base .idle w') → Q (.throw e) w') :
    wp (sendDone env) Q w := by
  simp only [sendDone, wp_bind, wp_exchange, Outcome.andThen_ok]
  refine wp_checkReply (by decide) (fun ht => hok _ ?_) (fun ht => hcleanup _ ?_)
    (fun e hne hcl => hthrow e _ (fun hs msg => ?_) fun hs => ?_)
  · exact running_exchange h .done (.doneAnswered ht)
  · exact running_exchange h .done (.doneCleanup ht)
  · exact follows_exchange h.follows .done (.doneRefused msg hs)
  · exact running_exchange h .done (.doneIgnored hs hne hcl)

/-! ### The multi-row loop -/

theorem wp_run_ (h : Running single base .running w) :
    wp (run_ env container) (Comes single base fun done w' =>
      if done then Running single base .ran w'
      else ∃ vm, w'.vm = some vm ∧ (vm.exceptionMsg = [] → Running single base .running w') ∧
        (vm.exceptionMsg ≠ [] → Follows single base (.failed vm.exceptionMsg) w')) w := by
  simp only [run_, wp_catching, wp_bind]
  refine wp_callVm h.vm h.follows trivial fun S s w' hvm hmode h' => ?_
  rcases (container.run S s).1 with done | e | r
  · obtain ⟨vm, hvm⟩ := Option.isSome_iff_exists.mp hvm
    simp only [Outcome.andThen_ok, wp_exceptionMsg hvm, logEvent, wp_modify, wp_pure]
    cases done with
    | true => exact ⟨h'.step .runDone rfl, by simp [hvm], hmode.trans h.mode⟩
    | false =>
      refine ⟨vm, hvm, fun hnil => ?_, fun hne => h'.step (.runFailed hne) rfl⟩
      refine ⟨h'.step ?_ rfl, by simp [hvm], hmode.trans h.mode⟩
      rw [hnil]
      exact .runAgain
  · simp only [Outcome.andThen_throw, logEvent, wp_modify, Outcome.andThen_ok]
    cases e with
    | swigvm reason =>
      refine ⟨h'.step .runRaised rfl, ?_, hmode.trans h.mode⟩
      show (w'.vm.map _).isSome = true
      rw [Option.isSome_map, hvm]
    | std _ => exact fun msg => h'.step (.runCrashed msg (by simp)) rfl
    | other => exact fun msg => h'.step (.runCrashed msg (by simp)) rfl
  · exact ⟨.running, trivial, h'⟩

/-- What a loop of the session leaves with: `none` is a `break`, `some` a `return`. -/
def Leaves {σ : Type} (single : Bool) (base : List Event) (p : Phase) : Option Nat → World σ → Prop
  | none, w => Running single base p w
  | some code, w => code = 1 ∧ Follows single base .closed w

theorem wp_runUntilDone (fuel : Nat) (h : Running single base .running w) :
    wp (runUntilDone env container fuel) (Comes single base (Leaves single base .ran)) w := by
  refine wp_loop (fun _ => Running single base .running) (fun _ w h => ⟨.running, trivial, h.follows⟩)
    (fun _ w h => ?_) fuel h
  rw [wp_bind]
  refine wp_mono (wp_run_ h) fun o w' ho => ?_
  rcases o with done | e | r
  · cases done with
    | true => exact ho
    | false =>
      obtain ⟨vm, hvm, hagain, hfailed⟩ := ho
      simp only [Outcome.andThen_ok, Bool.false_eq_true, if_false, wp_bind, wp_exceptionMsg hvm, wp_ite]
      split_ifs with hmsg
      · have hne : vm.exceptionMsg ≠ [] := List.length_pos_iff.mp hmsg
        have hinfix : vm.exceptionMsg <:+: str "F-UDF-CL-LIB-1127: " ++ vm.exceptionMsg :=
          (List.suffix_append _ _).isInfix
        exact wp_handleError (hfailed hne) hinfix (by simp [hne]) fun w'' h'' => ⟨rfl, h''⟩
      · exact hagain (by simpa using hmsg)
  · exact ho
  · exact ho

/-- How a round ends: with the next one due, or with the loop left. -/
def RoundEnds {σ : Type} (single : Bool) (base : List Event) : Unit ⊕ Option Nat → World σ → Prop
  | .inl (), w => Running single base .idle w
  | .inr code, w => Leaves single base .cleanup code w

theorem wp_runRound (fuel : Nat) (h : Running false base p w)
    (hs : SessionStep false p (.sent .run) .awaitRun) :
    wp (runRound env container fuel) (Comes false base (RoundEnds false base)) w := by
  refine Comes.bind (wp_sendRun h hs) fun b w' h' => ?_
  cases b with
  | false => exact h'
  | true =>
    have hrunning : Running false base .running { w' with inpForceFinish := false } :=
      ⟨h'.follows.of_log rfl, h'.vm, h'.mode⟩
    simp only [if_true, wp_bind (m := Proc.modify _), wp_modify, Outcome.andThen_ok]
    refine Comes.bind (wp_runUntilDone fuel hrunning) fun code w' h' => ?_
    cases code with
    | some code => exact h'
    | none =>
      show wp (doneRound env) _ _
      rw [doneRound, wp_bind]
      refine wp_sendDone h' (fun w'' h'' => h'') (fun w'' h'' => h'') fun e w'' hthrow _ => ?_
      exact hthrow rfl

/-! ### The single-call loop -/

theorem wp_assert {Q : Outcome Exception Unit → World σ → Prop} {c : Bool} (hok : Q (.ok ()) w)
    (hstop : Q (.stop .aborted) w) : wp (assert env c) Q w := by
  simp only [assert, wp_ite]
  split_ifs
  · exact hok
  · exact hstop

theorem wp_dispatchCall (h : Running single base .calling w) :
    wp (dispatchCall env container) (fun _ w' => Running single base .calling w') w := by
  have hcall : ∀ (n : Nat) (f : SingleCallFunctionId) (arg : ScriptDto) (w : World σ),
      Running single base .calling w →
      wp (noted (.ofSingleCall n f arg) (callVm env fun S => container.singleCall S f arg))
        (fun _ w' => Running single base .calling w') w := by
    intro n f arg w h
    exact wp_noted_callVm h.vm h.follows trivial fun S s w' hvm hmode h' => ⟨h', hvm, hmode.trans h.mode⟩
  have hreset : ∀ (n : Nat) (f : SingleCallFunctionId) (arg : ScriptDto) (g : World σ → World σ),
      (∀ w, Running single base .calling w → Running single base .calling (g w)) →
      wp (do let result ← noted (.ofSingleCall n f arg) (callVm env fun S => container.singleCall S f arg)
             modify g
             return result) (fun _ w' => Running single base .calling w') w := by
    intro n f arg g hg
    rw [wp_bind]
    refine wp_mono (hcall n f arg w h) fun o w' h' => ?_
    cases o with
    | ok result => exact hg w' h'
    | throw e => exact h'
    | stop r => exact h'
  simp only [dispatchCall, wp_bind (m := Proc.get), wp_get, Outcome.andThen_ok]
  cases w.singleCallFunction with
  | scFnNil => exact h
  | scFnDefaultOutputColumns | scFnVirtualSchemaAdapterCall => exact hcall _ _ _ w h
  | scFnGenerateSqlForImportSpec | scFnGenerateSqlForExportSpec =>
    simp only [wp_bind (m := assert _ _)]
    refine wp_assert ?_ h
    exact hreset _ _ _ _ fun w h => ⟨h.follows.of_log rfl, h.vm, h.mode⟩

theorem wp_sendReturn {Q : Outcome Exception Bool → World σ → Prop} {result : Option ByteString}
    (h : Running true base .called w) (hok : ∀ b w', Running true base .ran w' → Q (.ok b) w')
    (hthrow : ∀ e w', Running true base .idle w' → Q (.throw e) w') (hstop : ∀ r, Q (.stop r) w) :
    wp (sendReturn env result) Q w := by
  simp only [sendReturn, wp_bind]
  refine wp_assert ?_ (hstop _)
  cases result with
  | none => exact hstop _
  | some result =>
    simp only [Outcome.andThen_ok, wp_bind, wp_exchange]
    refine wp_checkReply (by decide) (fun ht => hok _ _ ?_) (fun ht => hok _ _ ?_)
      (fun e hne hcl => hthrow e _ ?_)
    · exact running_exchange h .result (.resultAnswered (.inl ht))
    · exact running_exchange h .result (.resultAnswered (.inr ⟨rfl, ht⟩))
    · exact running_exchange h .result (.resultIgnored hne fun _ => hcl)

theorem wp_sendUndefinedCall {Q : Outcome Exception Unit → World σ → Prop} {fn : ByteString}
    (h : Running true base .called w) (hok : ∀ w', Running true base .ran w' → Q (.ok ()) w')
    (hthrow : ∀ e w', Running true base .idle w' → Q (.throw e) w') :
    wp (sendUndefinedCall env fn) Q w := by
  simp only [sendUndefinedCall, wp_bind, wp_exchange, Outcome.andThen_ok]
  have hgo : ∀ p₂, SessionStep true (.awaitResult .mtUndefinedCall)
      (.received (w.reply env (.undefinedCall fn))) p₂ →
      Running true base p₂ (w.afterExchange env (.undefinedCall fn)) :=
    fun p₂ hr => running_exchange h .undefined hr
  cases hreply : w.reply env (.undefinedCall fn) with
  | unparsable _ =>
    rw [hreply] at hgo
    exact hthrow _ _ (hgo _ (.resultIgnored id (by simp)))
  | message r =>
    rw [hreply] at hgo
    simp only [wp_ite]
    split_ifs with hne
    · exact hthrow _ _ (hgo _ (.resultIgnored hne (by simp)))
    · exact hok _ (hgo _ (.resultAnswered (.inl (not_not.mp hne))))

/-- What the inner `try` of the single-call loop comes to: an exception leaves the log where the next
round begins. -/
def CallEnds {σ : Type} (base : List Event) : Outcome Exception (Unit ⊕ Option Nat) → World σ → Prop
  | .ok r, w => RoundEnds true base r w
  | .throw _, w => Running true base .idle w
  | .stop _, w => ∃ p, p.MayStop ∧ Follows true base p w

theorem wp_answerCall {result : Option ByteString} (h : Running true base .called w) :
    wp (answerCall env container result) (CallEnds base) w := by
  obtain ⟨vm, hvm⟩ := Option.isSome_iff_exists.mp h.vm
  have hdone : ∀ w' : World σ, Running true base .ran w' → wp (doneRound env) (CallEnds base) w' := by
    intro w' h'
    rw [doneRound, wp_bind]
    exact wp_sendDone h' (fun _ h' => h') (fun _ h' => h') fun _ _ _ hidle => hidle rfl
  rw [answerCall, wp_bind, wp_exceptionMsg hvm, Outcome.andThen_ok, wp_ite]
  split_ifs with hmsg
  · have hne : vm.exceptionMsg ≠ [] := List.length_pos_iff.mp hmsg
    rw [wp_bind]
    exact wp_handleError (h.follows.fail trivial _) List.infix_rfl (by simp [hne])
      fun w' h' => ⟨rfl, h'⟩
  · rw [wp_bind, wp_calledUndefinedSingleCall hvm, Outcome.andThen_ok]
    simp only [wp_ite, wp_bind]
    split_ifs with hfn
    · exact wp_sendUndefinedCall h hdone fun _ _ h' => h'
    · exact wp_sendReturn h (fun _ => hdone) (fun _ _ h' => h') fun _ => ⟨.called, trivial, h.follows⟩

theorem wp_singleCallBody (h : Running true base .calling w) :
    wp (singleCallBody env container) (CallEnds base) w := by
  rw [singleCallBody, wp_bind, wp_catching]
  refine wp_mono (wp_dispatchCall h) fun o w' h' => ?_
  cases o with
  | ok result =>
    show wp (do logEvent (.called none); answerCall env container result) (CallEnds base) w'
    rw [wp_bind, logEvent, wp_modify, Outcome.andThen_ok]
    exact wp_answerCall ⟨h'.follows.step .callReturned rfl, h'.vm, h'.mode⟩
  | throw e =>
    show Running true base .idle _
    exact ⟨h'.follows.step .callThrew rfl, h'.vm, h'.mode⟩
  | stop r => exact ⟨.calling, trivial, h'.follows⟩

theorem wp_singleCallRound (h : Running true base p w)
    (hs : SessionStep true p (.sent .run) .awaitRun) :
    wp (singleCallRound env container) (Comes true base (RoundEnds true base)) w := by
  refine Comes.bind (wp_sendRun h hs) fun b w' h' => ?_
  cases b with
  | false => exact h'
  | true =>
    have hstop : ∀ r, Comes true base (RoundEnds true base) (.stop r) w' :=
      fun r => ⟨.calling, trivial, h'.follows⟩
    simp only [if_true, wp_bind (m := Proc.get), wp_get, Outcome.andThen_ok, wp_bind (m := assert _ _)]
    refine wp_assert ?_ (hstop .aborted)
    rw [Outcome.andThen_ok, wp_catching]
    refine wp_mono (wp_singleCallBody h') fun o w'' ho => ?_
    rcases o with _ | _ | _ <;> exact ho

/-! ### The session -/

theorem wp_callVmMaker (h : Follows single base .starting w) (hmode : w.singleCallMode = single) :
    wp (callVmMaker env container) (Comes single base fun _ w' =>
      Follows single base .starting w' ∧ w'.singleCallMode = single) w := by
  unfold wp callVmMaker
  rcases container.make (w.session env) w.channel with ⟨vm | e | r, c⟩
  · exact ⟨h.vms trivial rfl, hmode⟩
  · exact fun msg => (h.vms trivial rfl : Follows single base .starting (w.afterVm env c)).fail trivial msg
  · exact ⟨.starting, trivial, h.vms trivial rfl⟩

theorem wp_rounds {body : Client σ (Unit ⊕ Option Nat)}
    (hbody : ∀ p w, Running single base p w → SessionStep single p (.sent .run) .awaitRun →
      wp body (Comes single base (RoundEnds single base)) w)
    (fuel : Nat) (h : Running single base .starting w) :
    wp (loop (fun _ : Unit => body) fuel ()) (Comes single base (Leaves single base .cleanup)) w := by
  -- before each round the log admits `MT_RUN`
  let Ready (_ : Unit) (w : World σ) : Prop :=
    ∃ p, p.MayStop ∧ SessionStep single p (.sent .run) .awaitRun ∧ Running single base p w
  have hready : Ready () w := ⟨.starting, trivial, .firstRun, h⟩
  refine wp_loop Ready (fun _ w ⟨p, hp, _, h⟩ => ⟨p, hp, h.follows⟩) ?_ fuel hready
  rintro _ w ⟨p, _, hs, h⟩
  refine wp_mono (hbody p w h hs) fun o w' ho => ?_
  rcases o with (⟨⟩ | code) | e | r
  · exact ⟨.idle, trivial, .nextRun, ho⟩
  · exact ho
  · exact ho
  · exact ho

theorem wp_sessionLoop (fuel : Nat) (h : Running single base .starting w) :
    wp (sessionLoop env container fuel) (Comes single base (Leaves single base .cleanup)) w := by
  rw [sessionLoop, wp_bind, wp_get, Outcome.andThen_ok, wp_ite, h.mode]
  cases single with
  | true => exact wp_rounds (fun p w h hs => wp_singleCallRound h hs) fuel h
  | false => exact wp_rounds (fun p w h hs => wp_runRound fuel h hs) fuel h

/-- What the outer `try` leaves with. -/
def BodyEnds {σ : Type} (single : Bool) (base : List Event) : Option Nat → World σ → Prop
  | none, w => Follows single base .finished w
  | some code, w => code = 1 ∧ Follows single base .closed w

theorem wp_finishSession (h : Running single base .cleanup w) :
    wp (finishSession env container) (Comes single base (BodyEnds single base)) w := by
  rw [finishSession, wp_bind]
  refine wp_noted_callVm h.vm h.follows trivial fun S s w' hvm _ h' => ?_
  rcases (container.shutdown S s).1 with _ | e | r
  · obtain ⟨vm, hvm⟩ := Option.isSome_iff_exists.mp hvm
    rw [Outcome.andThen_ok, wp_bind, wp_exceptionMsg hvm, Outcome.andThen_ok, wp_ite]
    split_ifs with hmsg
    · rw [wp_bind]
      exact wp_handleError (h'.fail trivial _) List.infix_rfl (by simp [str]) fun w'' h'' => ⟨rfl, h''⟩
    · have hgo : ∀ p₂, SessionStep single .awaitFinished (.received (w'.reply env .finished)) p₂ →
          Follows single base p₂ (w'.afterExchange env .finished) :=
        fun p₂ hr => follows_exchange h' .finish hr
      simp only [sendFinished, wp_bind, wp_exchange, Outcome.andThen_ok]
      cases hreply : w'.reply env .finished with
      | unparsable _ =>
        rw [hreply] at hgo
        exact fun msg => hgo _ (.finishRefused msg id)
      | message r =>
        rw [hreply] at hgo
        simp only [wp_ite]
        split_ifs with hclose hne
        · refine fun msg => hgo _ (.finishRefused msg fun ht => ?_)
          exact absurd ((show r.type = _ from ht).symm.trans hclose) (by decide)
        · exact fun msg => hgo _ (.finishRefused msg hne)
        · exact hgo _ (.finishAnswered (not_not.mp hne))
  · exact fun msg => h'.fail trivial msg
  · exact ⟨.cleanup, trivial, h'⟩

theorem wp_sessionBody (fuel : Nat) (h : Follows single base .starting w)
    (hmode : w.singleCallMode = single) :
    wp (sessionBody env container fuel) (Comes single base (BodyEnds single base)) w := by
  refine Comes.bind (wp_callVmMaker h hmode) fun _ w' ⟨h', hmode'⟩ => ?_
  have hclose : ∀ msg : ByteString, msg ≠ [] →
      wp (do return some (← handleError env container msg false))
        (Comes single base (BodyEnds single base)) w' := by
    intro msg hne
    rw [wp_bind]
    exact wp_handleError (h'.fail trivial msg) List.infix_rfl hne fun w'' h'' => ⟨rfl, h''⟩
  rw [wp_bind, wp_get, Outcome.andThen_ok]
  cases hvm : w'.vm with
  | none => exact hclose _ (by simp [str])
  | some vm =>
    simp only [wp_ite]
    split_ifs with hmsg
    · exact hclose _ (by simp [str])
    · have hrunning : Running single base .starting { w' with shutdownVmInCaseOfError := true } :=
        ⟨h'.of_log rfl, by simp [hvm], hmode'⟩
      rw [wp_bind, wp_modify, Outcome.andThen_ok]
      refine Comes.bind (wp_sessionLoop fuel hrunning) fun code w'' h'' => ?_
      cases code with
      | some code => exact h''
      | none => exact wp_finishSession h''

theorem errorMessage_ne_nil (e : Exception) : errorMessage e ≠ [] := by
  cases e <;> simp [errorMessage, str]

theorem wp_session (fuel : Nat) (h : Follows single base .starting w)
    (hmode : w.singleCallMode = single) :
    wp (session env container fuel) (fun o w' => ∃ p, Follows single base p w' ∧ Ends o p) w := by
  have hbody : wp (catching (sessionBody env container fuel) fun e => do
      let w ← get
      return some (← handleError env container (errorMessage e) w.shutdownVmInCaseOfError))
      (fun o w' => match o with
        | .ok code => BodyEnds single base code w'
        | .throw _ => False
        | .stop _ => ∃ p, p.MayStop ∧ Follows single base p w') w := by
    rw [wp_catching]
    refine wp_mono (wp_sessionBody fuel h hmode) fun o w' ho => ?_
    cases o with
    | ok code => exact ho
    | throw e =>
      show wp (do
        let w ← get
        return some (← handleError env container (errorMessage e) w.shutdownVmInCaseOfError)) _ w'
      rw [wp_bind, wp_get, Outcome.andThen_ok, wp_bind]
      exact wp_handleError (ho _) List.infix_rfl (errorMessage_ne_nil e) fun w'' h'' => ⟨rfl, h''⟩
    | stop r => exact ho
  rw [session, wp_bind]
  refine wp_mono hbody fun o w' ho => ?_
  rcases o with (_ | code) | e | r
  · rw [Outcome.andThen_ok, wp_bind]
    exact wp_deleteVm ho trivial fun w'' h'' => ⟨.finished, h'', .inl ⟨rfl, rfl⟩⟩
  · exact ⟨.closed, ho.2, .inr ⟨ho.1, rfl⟩⟩
  · exact ho.elim
  · obtain ⟨p, hp, h'⟩ := ho
    exact ⟨p, h', hp⟩

/-! ### How the log grows -/

theorem Grows.sessionLog_eq_none {m : Client σ α} (hm : Grows (fun e => sessionLog [e] = none) m)
    (h : sessionLog w.log = none) : sessionLog (m w).2.log = none := by
  obtain ⟨post, hlog, hpost⟩ := hm w
  rw [hlog]
  clear hlog
  induction post generalizing w with
  | nil => simpa using h
  | cons e post ih =>
    have hsnoc : sessionLog (w.log ++ [e]) = none := sessionLog_snoc h (hpost e (by simp))
    have := @ih { w with log := w.log ++ [e] } hsnoc fun e' he => hpost e' (by simp [he])
    simpa using this

/-! ### Whole runs -/

/-- `exaudfclient_main` is a handshake, tried until it works, and a session. `J` holds between the
tries, `Start` after the one that worked, and `Q` is all about the session. -/
theorem wp_exaudfclientMain {J Start : World σ → Prop} {Q : Outcome Exception Nat → World σ → Prop}
    (socketName : ByteString) (fuel : Nat) (hQ : ∀ o w, sessionLog w.log = none → Q o w)
    (hinit : ∀ w, J w → w.vm = none → wp (sendInit env socketName) (fun o w' =>
      (o = .ok false → J w') ∧ (o = .ok true → Start w')) w)
    (hsession : ∀ w, Start w → sessionLog w.log = none → wp (session env container fuel) Q
      { w with log := w.log ++ [.connected w.singleCallMode] })
    (hvm : ∀ w, J w → J { w with vm := none }) (hw : J w) (h : sessionLog w.log = none) :
    wp (exaudfclientMain env container socketName fuel) Q w := by
  rw [exaudfclientMain, wp_ite]
  split_ifs
  · exact hQ _ _ h
  refine wp_loop (fun _ w => J w ∧ sessionLog w.log = none) (fun _ w h => hQ _ _ h.2) ?_ fuel ⟨hw, h⟩
  rintro _ w ⟨hw, h⟩
  let w₀ : World σ := { w with vm := none }
  have hnone : ∀ m : Client σ Bool, Grows (fun e => sessionLog [e] = none) m →
      wp m (fun _ w' => sessionLog w'.log = none) w₀ := fun m hm => hm.sessionLog_eq_none h
  rw [reinitRound, wp_bind, wp_modify, Outcome.andThen_ok, wp_bind]
  have hgrows : Grows (fun e => sessionLog [e] = none) (sendInit env socketName : Client σ Bool) :=
    Appends.grows (C := fun _ => True) ((Appends.keeps (fun _ _ => rfl) (fun _ => rfl) (fun _ _ => rfl)
      fun _ => rfl).sendInit socketName)
  refine wp_mono (wp_and (hinit w₀ (hvm w hw) rfl) (hnone _ hgrows)) fun o w' ⟨⟨hfalse, htrue⟩, h'⟩ => ?_
  rcases o with b | e | r
  · cases b with
    | true =>
      simp only [Outcome.andThen_ok, if_true, wp_bind, wp_get, logEvent, wp_modify]
      refine wp_mono (hsession w' (htrue rfl) h') fun o w'' ho => ?_
      rcases o with code | e | r <;> exact ho
    | false =>
      simp only [Outcome.andThen_ok, Bool.false_eq_true, if_false, wp_bind, wp_get, wp_ite]
      split_ifs
      · have hgrows : Grows (fun e => sessionLog [e] = none) (handleError env container
            (str "F-UDF-CL-LIB-1123: " ++ w'.exchandler.exmsg) false) :=
          Appends.grows (C := fun _ => True)
            (Appends.handleError (fun _ _ => rfl) (fun _ => rfl) (fun _ => rfl) fun _ _ => trivial)
        have hclosed : wp (handleError env container (str "F-UDF-CL-LIB-1123: " ++ w'.exchandler.exmsg)
            false) (fun _ w'' => sessionLog w''.log = none) w' := hgrows.sessionLog_eq_none h'
        refine wp_mono hclosed fun o w'' h'' => ?_
        rcases o with code | e | r <;> exact hQ _ _ h''
      · exact ⟨hfalse rfl, h'⟩
  · exact hQ _ _ h'
  · exact hQ _ _ h'

/-- What a run of `exaudfclient_main` comes to: its session, if one got started, is a transcript. -/
def RunEnds (o : Outcome Exception Nat) (w : World σ) : Prop :=
  ∀ single log, sessionLog w.log = some (single, log) → ∃ p, Transcript single log p ∧ Ends o p

/-- Whatever the server and the VM do: the log of a session of `exaudfclient_main` is a transcript of
the protocol, and the outcome is that of its last phase. -/
theorem exaudfclientMain_transcript (env : Environment) (container : Container σ)
    (socketName : ByteString) (fuel : Nat) (single : Bool) (log : List Event)
    (hlog : sessionLog (exaudfclientMain env container socketName fuel {}).2.log = some (single, log)) :
    ∃ p, Transcript single log p ∧ Ends (exaudfclientMain env container socketName fuel {}).1 p := by
  have hrun : wp (exaudfclientMain env container socketName fuel) RunEnds {} := by
    have hnone : ∀ (o : Outcome Exception Nat) (w : World σ), sessionLog w.log = none → RunEnds o w := by
      intro o w h single log hlog
      rw [h] at hlog
      cases hlog
    have htrivial : ∀ w : World σ, True → w.vm = none → wp (sendInit env socketName) (fun o _ =>
        (o = .ok false → True) ∧ (o = .ok true → True)) w := fun _ _ _ => ⟨fun _ => trivial, fun _ => trivial⟩
    refine wp_exaudfclientMain socketName fuel hnone htrivial (fun w _ h => ?_) (fun _ _ => trivial) trivial rfl
    have hstart : Follows w.singleCallMode (w.log ++ [.connected w.singleCallMode]) .starting
        { w with log := w.log ++ [.connected w.singleCallMode] } := ⟨[], (List.append_nil _).symm, .nil⟩
    refine wp_mono (wp_session fuel hstart rfl) fun o w' ⟨p, ⟨log, hlog, ht⟩, hends⟩ => ?_
    intro single' log' hlog'
    rw [hlog, List.append_assoc, List.singleton_append, sessionLog_connected h] at hlog'
    obtain ⟨rfl, rfl⟩ : w.singleCallMode = single' ∧ log = log' := by simpa using hlog'
    exact ⟨p, ht, hends⟩
  exact hrun single log hlog

end Client

end UdfRunner
