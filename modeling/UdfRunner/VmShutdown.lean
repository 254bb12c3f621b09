import UdfRunner.SessionLaws

/-!
# How often a session shuts its VM down

The loop ends in a shutdown, and so does `handle_error` when it is told to. It is told to by the outer
`catch` clauses even if what they caught came after the shutdown at the end of the loop:
`shutdownOnce_iff`.
-/

namespace UdfRunner
open Proc

def VmCall.shutdown? : VmCall → Option (Bool × Outcome Exception Unit)
  | .shutdown forError o => some (forError, o)
  | .singleCall .. => none

/-- The calls of `vm->shutdown()`, in order. -/
def shutdowns (calls : List VmCall) : List (Bool × Outcome Exception Unit) :=
  calls.filterMap VmCall.shutdown?

@[simp] theorem shutdowns_snoc_shutdown (calls : List VmCall) (forError : Bool)
    (o : Outcome Exception Unit) :
    shutdowns (calls ++ [.shutdown forError o]) = shutdowns calls ++ [(forError, o)] := by
  simp [shutdowns, VmCall.shutdown?]

@[simp] theorem shutdowns_snoc_singleCall (calls : List VmCall) (n : Nat) (fn : SingleCallFunctionId)
    (arg : ScriptDto) (o : Outcome Exception (Option ByteString)) (msg mark : ByteString) :
    shutdowns (calls ++ [.singleCall n fn arg o msg mark]) = shutdowns calls := by
  simp [shutdowns, VmCall.shutdown?]

/-- The shutdown at the end of the loop threw. -/
def EndThrew (calls : List VmCall) : Prop := ∃ e, (false, .throw e) ∈ shutdowns calls

/-- `MT_FINISHED` was requested and not answered by `MT_FINISHED`. -/
def FinishedRefused (log : List Event) : Prop := .sent .finished ∈ log ∧ ¬ Transcript.FinishedAnswered log

namespace Client
variable {σ α : Type} {env : Environment} {container : Container σ}

/-- The log grows by other events than `MT_FINISHED`. -/
def LogGrows (w w' : World σ) : Prop := ∃ l, w'.log = w.log ++ l ∧ .sent .finished ∉ l

theorem LogGrows.refl (w : World σ) : LogGrows w w := ⟨[], (List.append_nil _).symm, by simp⟩

theorem LogGrows.trans {w w' w'' : World σ} (h : LogGrows w w') (h' : LogGrows w' w'') :
    LogGrows w w'' := by
  obtain ⟨l, hlog, hl⟩ := h
  obtain ⟨l', hlog', hl'⟩ := h'
  exact ⟨l ++ l', by rw [hlog', hlog, List.append_assoc], by simp [hl, hl']⟩

/-- What the loops do but for a call of `handle_error`: the VM is not shut down. -/
structure Works (w w' : World σ) : Prop where
  log : LogGrows w w'
  calls : shutdowns w'.calls = shutdowns w.calls
  vm : w.vm.isSome → w'.vm.isSome
  shutdownVm : w'.shutdownVmInCaseOfError = w.shutdownVmInCaseOfError

instance : IsPreorder (World σ) Works where
  refl w := ⟨.refl w, rfl, id, rfl⟩
  trans _ _ _ h h' := ⟨h.log.trans h'.log, h'.calls.trans h.calls, h'.vm ∘ h.vm,
    h'.shutdownVm.trans h.shutdownVm⟩

namespace Works

theorem of_eq {w w' : World σ} (hlog : w'.log = w.log) (hcalls : w'.calls = w.calls)
    (hvm : w'.vm.isSome = w.vm.isSome) (hflag : w'.shutdownVmInCaseOfError = w.shutdownVmInCaseOfError) :
    Works w w' :=
  ⟨⟨[], by rw [hlog, List.append_nil], by simp⟩, by rw [hcalls], fun h => by rw [hvm, h], hflag⟩

theorem logEvent {e : Event} (he : e ≠ .sent .finished) : Moves Works (logEvent e : Client σ Unit) :=
  fun _ => ⟨⟨[e], rfl, by simpa using he.symm⟩, rfl, id, rfl⟩

theorem callVm (m : Session → VmProc σ α) : Moves Works (callVm env m) := by
  intro w
  unfold Client.callVm
  cases hvm : w.vm with
  | none => exact refl_of Works w
  | some vm => exact ⟨⟨_, rfl, by simp⟩, rfl, fun _ => rfl, rfl⟩

theorem noted_singleCall {n : Nat} {fn : SingleCallFunctionId} {arg : ScriptDto}
    {m : Client σ (Option ByteString)} (hm : Moves Works m) :
    Moves Works (noted (.ofSingleCall n fn arg) m) := by
  intro w
  have h := hm w
  exact ⟨h.log, (shutdowns_snoc_singleCall ..).trans h.calls, h.vm, h.shutdownVm⟩

theorem keeps (env : Environment) : Keeps env (@Works σ) (· ≠ .sent .finished) where
  of_eq := of_eq
  logEvent := logEvent
  callVm := callVm
  sent hq := by simpa using hq
  received _ := by simp
  called _ := by simp

end Works

/-! ### `handle_error` -/

/-- What `handle_error` does to the log and the calls: it shuts the VM down as often as `l` says. -/
structure Closes (l : List (Outcome Exception Unit)) (w w' : World σ) : Prop where
  log : LogGrows w w'
  calls : shutdowns w'.calls = shutdowns w.calls ++ l.map (true, ·)
  shutdownVm : w'.shutdownVmInCaseOfError = w.shutdownVmInCaseOfError

theorem Closes.refl (w : World σ) : Closes [] w w := ⟨.refl w, (List.append_nil _).symm, rfl⟩

theorem Closes.of_works {l : List (Outcome Exception Unit)} {w w' w'' : World σ} (h : Closes l w w')
    (h' : Works w' w'') : Closes l w w'' :=
  ⟨h.log.trans h'.log, h'.calls.trans h.calls, h'.shutdownVm.trans h.shutdownVm⟩

theorem wp_shutdown {w : World σ} {forError : Bool} (hvm : w.vm.isSome) :
    wp (noted (fun _ => .shutdown forError) (callVm env container.shutdown)) (fun o w' => ¬ o.Stopped ∧
      w'.vm.isSome ∧ LogGrows w w' ∧ shutdowns w'.calls = shutdowns w.calls ++ [(forError, o)] ∧
      w'.shutdownVmInCaseOfError = w.shutdownVmInCaseOfError) w := by
  obtain ⟨vm, hvm⟩ := Option.isSome_iff_exists.mp hvm
  rw [wp_noted, wp_callVm_some hvm]
  refine ⟨container.shutdown_ends _ _, rfl, ⟨_, rfl, by simp⟩, shutdowns_snoc_shutdown .., rfl⟩

theorem wp_deleteVm_closes {l : List (Outcome Exception Unit)} {w w₀ : World σ} (h : Closes l w₀ w) :
    wp (deleteVm env container) (fun o w' => o = .ok () ∧ Closes l w₀ w') w := by
  simp only [deleteVm, wp_bind, wp_get, Outcome.andThen_ok, wp_ite]
  split_ifs with hvm
  · obtain ⟨vm, hvm⟩ := Option.isSome_iff_exists.mp hvm
    rw [wp_callVm_some hvm]
    have hret := container.destroy_returns (w.session env) (vm, w.channel)
    have hlog : LogGrows w { w.afterVm env (container.destroy (w.session env) (vm, w.channel)).2.2 with
        vm := none } := ⟨_, rfl, by simp⟩
    unfold wp
    rw [hret]
    exact ⟨rfl, h.log.trans hlog, h.calls, h.shutdownVm⟩
  · exact ⟨rfl, h⟩

/-- `handle_error` returns 1, and shuts the VM down once if it is told to. -/
def Handled (shutdown : Bool) (w w' : World σ) : Prop :=
  ∃ l : List (Outcome Exception Unit), l.length = shutdown.toNat ∧ Closes l w w'

theorem wp_endVm_handled {w : World σ} {msg : ByteString} {shutdown : Bool}
    (hvm : shutdown = true → w.vm.isSome) :
    wp (endVm env container msg shutdown) (fun o w' => ¬ o.Stopped ∧ Handled shutdown w w') w := by
  have hdelete : ∀ l (m : ByteString) w', l.length = shutdown.toNat → Closes l w w' →
      wp (do deleteVm env container; return m)
        (fun o w' => ¬ o.Stopped ∧ Handled shutdown w w') w' := by
    intro l m w' hl h
    rw [wp_bind]
    refine wp_mono (wp_deleteVm_closes h) ?_
    rintro _ w'' ⟨rfl, h''⟩
    exact ⟨id, l, hl, h''⟩
  simp only [endVm, wp_bind (m := Proc.get), wp_get, Outcome.andThen_ok]
  cases shutdown with
  | false =>
    rw [if_neg (by simp), wp_bind, wp_pure]
    exact hdelete [] msg w rfl (.refl w)
  | true =>
    have hsome : w.vm.isSome := hvm rfl
    rw [if_pos ⟨hsome, rfl⟩]
    simp only [shutdownForError, setExceptionMsg, wp_bind, wp_modify, Outcome.andThen_ok]
    refine wp_mono (wp_shutdown (by simpa using hsome)) fun o w' ⟨hstop, hvm', hlog, hcalls, hflag⟩ => ?_
    have hcloses : Closes [o] w w' := ⟨hlog, hcalls, hflag⟩
    cases o with
    | ok a =>
      obtain ⟨vm, hvm'⟩ := Option.isSome_iff_exists.mp hvm'
      simp only [Outcome.andThen_ok, wp_exceptionMsg hvm', wp_ite, wp_pure]
      split_ifs <;> exact (wp_bind ..).mp (hdelete _ _ w' rfl hcloses)
    | throw e => exact ⟨id, _, rfl, hcloses⟩
    | stop r => exact absurd trivial hstop

theorem wp_handleError_handled {w : World σ} {msg : ByteString} {shutdown : Bool}
    (hvm : shutdown = true → w.vm.isSome) :
    wp (handleError env container msg shutdown) (fun o w' => o = .ok 1 ∧ Handled shutdown w w') w := by
  have hclose : ∀ m w', Handled shutdown w w' →
      wp (do catching (sendClose env m) fun _ => return (); return 1)
        (fun o w' => o = .ok 1 ∧ Handled shutdown w w') w' := by
    rintro m w' ⟨l, hl, h⟩
    have hsent : ∀ w'', Works w' w'' → Handled shutdown w w'' := fun w'' h' => ⟨l, hl, h.of_works h'⟩
    rw [wp_bind, wp_catching]
    have hmoves : Works w' (sendClose env m w').2 := (Works.keeps env).sendClose m w'
    have hok : ¬ (sendClose env m w').1.Stopped := by
      show ¬ (wp (sendClose env m) (fun o _ => o.Stopped) w')
      simp only [sendClose, wp_bind, wp_exchange, Outcome.andThen_ok]
      cases w'.reply env _ with
      | unparsable _ => exact id
      | message r =>
        rw [wp_ite]
        split_ifs <;> exact id
    unfold wp
    rcases hrun : sendClose env m w' with ⟨a | e | r, w''⟩ <;> rw [hrun] at hmoves hok
    · exact ⟨rfl, hsent w'' hmoves⟩
    · exact ⟨rfl, hsent w'' hmoves⟩
    · exact absurd trivial hok
  simp only [handleError, wp_bind (m := catching (endVm env container msg shutdown) _), wp_catching]
  refine wp_mono (wp_endVm_handled hvm) fun o w' ⟨hstop, h'⟩ => ?_
  cases o with
  | ok m => exact hclose m w' h'
  | throw e => exact hclose msg w' h'
  | stop r => exact absurd trivial hstop

/-! ### The loops -/

theorem Handled.after {shutdown : Bool} {w w' w'' : World σ} (h' : Handled shutdown w' w'')
    (h : Works w w') : Handled shutdown w w'' := by
  obtain ⟨l, hl, hlog, hcalls, hflag⟩ := h'
  exact ⟨l, hl, h.log.trans hlog, by rw [hcalls, h.calls], hflag.trans h.shutdownVm⟩

/-- What a loop leaves: with a code, `handle_error` shut the VM down. -/
def LoopEnds (w₀ : World σ) : Option Nat → World σ → Prop
  | none, w => Works w₀ w
  | some code, w => code = 1 ∧ Handled true w₀ w

/-- The same of a round, which may also go on. -/
def RoundLeaves (w₀ : World σ) : Unit ⊕ Option Nat → World σ → Prop :=
  Sum.elim (fun _ => Works w₀) (LoopEnds w₀)

section
variable {w₀ w : World σ}

theorem wp_giveUp {β : Type} {Q : β → World σ → Prop} {f : Nat → β} {msg : ByteString}
    (hvm : w₀.vm.isSome) (h : Works w₀ w) (hQ : ∀ w', Handled true w₀ w' → Q (f 1) w') :
    wp (do return f (← handleError env container msg true)) (Proc.Returns Q (Works w₀)) w := by
  rw [wp_bind]
  refine wp_mono (wp_handleError_handled fun _ => h.vm hvm) ?_
  rintro _ w' ⟨rfl, h'⟩
  exact hQ w' (h'.after h)

theorem wp_runUntilDone_works (fuel : Nat) (hvm : w₀.vm.isSome) (h : Works w₀ w) :
    wp (runUntilDone env container fuel) (Proc.Returns (LoopEnds w₀) (Works w₀)) w := by
  refine Proc.Returns.loop (I := fun _ => Works w₀) (fun _ w h => ?_) fuel h
  refine Proc.Returns.bind (((Works.keeps env).run_ fun _ _ => ⟨by simp, by simp⟩).returns h) fun done w' h' => ?_
  rw [wp_ite]
  split_ifs
  · exact h'
  refine Proc.Returns.bind ((Works.keeps env).exceptionMsg.returns h') fun msg w' h' => ?_
  rw [wp_ite]
  split_ifs
  · exact wp_giveUp hvm h' fun w'' h'' => ⟨rfl, h''⟩
  · exact h'

theorem wp_doneRound_works (h : Works w₀ w) :
    wp (doneRound env) (Proc.Returns (RoundLeaves w₀) (Works w₀)) w := by
  refine Proc.Returns.bind ((Works.keeps env).sendDone.returns h) fun go w' h' => ?_
  rw [wp_ite]
  split_ifs <;> exact h'

theorem wp_runRound_works (fuel : Nat) (hvm : w₀.vm.isSome) (h : Works w₀ w) :
    wp (runRound env container fuel) (Proc.Returns (RoundLeaves w₀) (Works w₀)) w := by
  have hforce : Moves Works (modify fun w : World σ => { w with inpForceFinish := false } :
      Client σ Unit) := fun _ => .of_eq rfl rfl rfl rfl
  refine Proc.Returns.bind ((Works.keeps env).sendRun.returns h) fun go w' h' => ?_
  rw [wp_ite]
  split_ifs
  · refine Proc.Returns.bind (hforce.returns h') fun _ w' h' => ?_
    refine Proc.Returns.bind (wp_runUntilDone_works fuel hvm h') fun code w' h' => ?_
    cases code with
    | some code => exact h'
    | none => exact wp_doneRound_works h'
  · exact h'

theorem wp_answerCall_works {result : Option ByteString} (hvm : w₀.vm.isSome) (h : Works w₀ w) :
    wp (answerCall env container result) (Proc.Returns (RoundLeaves w₀) (Works w₀)) w := by
  refine Proc.Returns.bind ((Works.keeps env).exceptionMsg.returns h) fun msg w' h' => ?_
  rw [wp_ite]
  split_ifs
  · exact wp_giveUp hvm h' fun w'' h'' => ⟨rfl, h''⟩
  refine Proc.Returns.bind ((Works.keeps env).calledUndefinedSingleCall.returns h') fun fn w' h' => ?_
  simp only [wp_ite]
  split_ifs
  · exact Proc.Returns.bind (((Works.keeps env).sendUndefinedCall fn).returns h') fun _ _ => wp_doneRound_works
  · exact Proc.Returns.bind (((Works.keeps env).sendReturn result).returns h') fun _ _ => wp_doneRound_works

theorem wp_singleCallRound_works (hvm : w₀.vm.isSome) (h : Works w₀ w) :
    wp (singleCallRound env container) (Proc.Returns (RoundLeaves w₀) (Works w₀)) w := by
  have hdispatch : Moves Works (catching (dispatchCall env container) fun e => do
      logEvent (.called (some e))
      throw e) :=
    .catching ((Works.keeps env).dispatchCall Works.noted_singleCall) fun e =>
      .bind (Works.logEvent (by simp)) fun _ => .throw e
  have hbody : ∀ w', Works w₀ w' →
      wp (singleCallBody env container) (Proc.Returns (RoundLeaves w₀) (Works w₀)) w' := fun w' h' =>
    Proc.Returns.bind (hdispatch.returns h') fun _ w' h' =>
      Proc.Returns.bind ((Works.logEvent (by simp)).returns h') fun _ w' => wp_answerCall_works hvm
  refine Proc.Returns.bind ((Works.keeps env).sendRun.returns h) fun go w' h' => ?_
  rw [wp_ite]
  split_ifs
  · refine Proc.Returns.bind (Moves.get.returns h') fun _ w' h' => ?_
    refine Proc.Returns.bind ((Keeps.assert _).returns h') fun _ w' h' => ?_
    rw [wp_catching]
    refine wp_mono (hbody w' h') fun o w'' h'' => ?_
    cases o with
    | ok r => exact h''
    | throw e => exact h''
    | stop r => trivial
  · exact h'

theorem wp_sessionLoop_works (fuel : Nat) (hvm : w₀.vm.isSome) (h : Works w₀ w) :
    wp (sessionLoop env container fuel) (Proc.Returns (LoopEnds w₀) (Works w₀)) w := by
  refine Proc.Returns.bind (Moves.get.returns h) fun w' _ h' => ?_
  rw [wp_ite]
  split_ifs
  · exact Proc.Returns.loop (I := fun _ => Works w₀) (fun _ _ => wp_singleCallRound_works hvm) fuel h'
  · exact Proc.Returns.loop (I := fun _ => Works w₀) (fun _ _ => wp_runRound_works fuel hvm) fuel h'

/-! ### The end of the session -/

/-- What gets out of the outer `try`: from the loop, or from what follows it. In the second case the VM
was shut down before. -/
inductive GetsOut (w₀ w : World σ) : Prop
  | working (h : Works w₀ w)
  | finishing {o : Outcome Exception Unit} {l : List Event} (hlog : w.log = w₀.log ++ l)
    (hcalls : shutdowns w.calls = shutdowns w₀.calls ++ [(false, o)])
    (hslip : (∃ e, o = .throw e) ∨ .sent .finished ∈ l) (hvm : w.vm.isSome)
    (hflag : w.shutdownVmInCaseOfError = w₀.shutdownVmInCaseOfError)

/-- What a session comes to that returns `code`. -/
inductive Shut (w₀ : World σ) (code : Nat) (w : World σ) : Prop
  | once {b : Bool} {o : Outcome Exception Unit} {l : List Event} (hlog : w.log = w₀.log ++ l)
    (hcalls : shutdowns w.calls = shutdowns w₀.calls ++ [(b, o)])
    (hthrew : b = false → ¬ ∃ e, o = .throw e) (hfinished : .sent .finished ∈ l → code = 0)
  | twice {o o' : Outcome Exception Unit} {l : List Event} (hlog : w.log = w₀.log ++ l)
    (hcalls : shutdowns w.calls = shutdowns w₀.calls ++ [(false, o), (true, o')])
    (hslip : (∃ e, o = .throw e) ∨ (.sent .finished ∈ l ∧ code = 1))

theorem wp_sendFinished : wp (sendFinished env) (fun _ w' => w' = w.afterExchange env .finished) w := by
  simp only [sendFinished, wp_bind, wp_exchange, Outcome.andThen_ok]
  cases w.reply env .finished with
  | unparsable _ => rfl
  | message r =>
    simp only [wp_ite]
    split_ifs <;> rfl

theorem wp_finishSession_shut (hvm : w₀.vm.isSome) (h : Works w₀ w) :
    wp (finishSession env container) (Proc.Returns
      (fun code w => Shut w₀ (code.getD 0) w) (GetsOut w₀)) w := by
  rw [finishSession, wp_bind]
  refine wp_mono (wp_shutdown (h.vm hvm)) ?_
  rintro o w' ⟨hstop, hvm', hlog', hcalls, hflag⟩
  have hcalls' : shutdowns w'.calls = shutdowns w₀.calls ++ [(false, o)] := by rw [hcalls, h.calls]
  obtain ⟨l, hlog, hl⟩ := h.log.trans hlog'
  have hflag' := hflag.trans h.shutdownVm
  cases o with
  | ok a =>
    refine Proc.Returns.bind (Q := fun _ w'' => w'' = w') ?_ fun msg w'' hw => ?_
    · obtain ⟨vm, hvm'⟩ := Option.isSome_iff_exists.mp hvm'
      exact (wp_exceptionMsg hvm').mpr rfl
    subst hw
    rw [wp_ite]
    split_ifs
    · rw [wp_bind]
      refine wp_mono (wp_handleError_handled (by simp)) ?_
      rintro _ w₂ ⟨rfl, l', hl', ⟨l₂, hlog₂, hl₂⟩, hcalls₂, -⟩
      obtain rfl := List.length_eq_zero_iff.mp hl'
      have hlog' : w₂.log = w₀.log ++ (l ++ l₂) := by rw [hlog₂, hlog, List.append_assoc]
      have hcalls' : shutdowns w₂.calls = shutdowns w₀.calls ++ [(false, .ok a)] := by
        rw [hcalls₂, hcalls', List.map_nil, List.append_nil]
      exact .once hlog' hcalls' (by simp) (by simp [hl, hl₂])
    · rw [wp_bind]
      refine wp_mono wp_sendFinished fun o w₂ hw₂ => ?_
      have hlog' : w₂.log = w₀.log ++ (l ++ [.sent .finished, .received (w''.reply env .finished)]) := by
        rw [hw₂, World.afterExchange, hlog]
        simp
      subst hw₂
      cases o with
      | ok _ => exact .once hlog' hcalls' (by simp) fun _ => rfl
      | throw e => exact .finishing hlog' hcalls' (.inr (by simp)) hvm' hflag'
      | stop r => trivial
  | throw e => exact .finishing hlog hcalls' (.inl ⟨e, rfl⟩) hvm' hflag'
  | stop r => trivial

/-- The session after its VM was made: `handle_error` deals with what gets out of the `try`. -/
theorem wp_handleGetsOut {msg : ByteString} (hvm : w₀.vm.isSome)
    (h : GetsOut w₀ w) : wp (handleError env container msg true) (Proc.Returns (Shut w₀) fun _ => False) w := by
  cases h with
  | working h =>
    refine wp_mono (wp_handleError_handled fun _ => h.vm hvm) ?_
    rintro _ w' ⟨rfl, h'⟩
    obtain ⟨l, hl, ⟨l', hlog, hl'⟩, hcalls, -⟩ := h'.after h
    obtain ⟨o, rfl⟩ := List.length_eq_one_iff.mp hl
    exact .once hlog hcalls (by simp) (by simp [hl'])
  | @finishing o l hlog hcalls hslip hvm' _ =>
    refine wp_mono (wp_handleError_handled fun _ => hvm') ?_
    rintro _ w' ⟨rfl, l', hl', ⟨l₂, hlog₂, -⟩, hcalls₂, -⟩
    obtain ⟨o', rfl⟩ := List.length_eq_one_iff.mp hl'
    have hlog' : w'.log = w₀.log ++ (l ++ l₂) := by rw [hlog₂, hlog, List.append_assoc]
    have hcalls' : shutdowns w'.calls = shutdowns w₀.calls ++ [(false, o), (true, o')] := by
      rw [hcalls₂, hcalls, List.append_assoc]
      rfl
    refine .twice hlog' hcalls' (hslip.imp_right fun hmem => ⟨by simp [hmem], rfl⟩)

/-- The VM was made in `w₀`, without an exception message; before the session was in `w`. -/
structure Created (w w₀ : World σ) : Prop where
  log : LogGrows w w₀
  calls : shutdowns w₀.calls = shutdowns w.calls
  vm : w₀.vm.isSome
  shutdownVm : w₀.shutdownVmInCaseOfError = true

theorem Shut.created {w' : World σ} {code : Nat} (h : Shut w₀ code w') (hcreated : Created w w₀) :
    Shut w code w' := by
  obtain ⟨l₀, hlog₀, hl₀⟩ := hcreated.log
  cases h with
  | @once b o l hlog hcalls hthrew hfinished =>
    refine .once (l := l₀ ++ l) ?_ (by rw [hcalls, hcreated.calls]) hthrew (by simpa [hl₀] using hfinished)
    rw [hlog, hlog₀, List.append_assoc]
  | @twice o o' l hlog hcalls hslip =>
    refine .twice (l := l₀ ++ l) ?_ (by rw [hcalls, hcreated.calls]) (by simpa [hl₀] using hslip)
    rw [hlog, hlog₀, List.append_assoc]

theorem wp_refuseVm {msg : ByteString} (h : w.shutdownVmInCaseOfError = false) :
    wp (do return some (← handleError env container msg false))
      (Proc.Returns (fun _ w' => w'.shutdownVmInCaseOfError = false) fun _ => False) w := by
  rw [wp_bind]
  refine wp_mono (wp_handleError_handled (by simp)) ?_
  rintro _ w' ⟨rfl, l, -, h'⟩
  exact h'.shutdownVm.trans h

/-- What the outer `try` leaves with, if the VM was made. -/
def BodyReturns (w : World σ) (code : Option Nat) (w' : World σ) : Prop :=
  w'.shutdownVmInCaseOfError = true → Shut w (code.getD 0) w'

def BodyThrows (w w' : World σ) : Prop :=
  w'.shutdownVmInCaseOfError = true → ∃ w₀, Created w w₀ ∧ GetsOut w₀ w'

theorem wp_sessionBody_shut (fuel : Nat) (hflag : w.shutdownVmInCaseOfError = false) :
    wp (sessionBody env container fuel) (Proc.Returns (BodyReturns w) (BodyThrows w)) w := by
  have hmake : wp (callVmMaker env container) (Proc.Returns (fun _ w₁ => LogGrows w w₁ ∧
      shutdowns w₁.calls = shutdowns w.calls ∧ w₁.shutdownVmInCaseOfError = false) (BodyThrows w)) w := by
    unfold wp callVmMaker
    rcases container.make (w.session env) w.channel with ⟨vm | e | r, c⟩
    · exact ⟨⟨_, rfl, by simp⟩, rfl, hflag⟩
    · exact fun htrue => absurd (hflag.symm.trans htrue) (by simp)
    · trivial
  refine Proc.Returns.bind hmake fun _ w₁ ⟨hlog, hcalls, hflag₁⟩ => ?_
  have hrefuse : ∀ msg, wp (do return some (← handleError env container msg false))
      (Proc.Returns (BodyReturns w) (BodyThrows w)) w₁ := by
    refine fun msg => Proc.Returns.mono (wp_refuseVm hflag₁) (fun code w' h htrue => ?_) fun _ h => h.elim
    exact absurd (h.symm.trans htrue) (by simp)
  rw [wp_bind, wp_get, Outcome.andThen_ok]
  cases hvm : w₁.vm with
  | none => exact hrefuse _
  | some vm =>
    simp only [wp_ite]
    split_ifs with hmsg
    · exact hrefuse _
    rw [wp_bind, wp_modify, Outcome.andThen_ok]
    let w₀ : World σ := { w₁ with shutdownVmInCaseOfError := true }
    have hsome : w₀.vm.isSome := by simp [w₀, hvm]
    have hcreated : Created w w₀ := ⟨hlog, hcalls, hsome, rfl⟩
    have hloop : wp (sessionLoop env container fuel) (Proc.Returns (LoopEnds w₀) (Works w₀)) w₀ :=
      wp_sessionLoop_works fuel hsome (refl_of Works w₀)
    refine Proc.Returns.bind (Proc.Returns.mono hloop (fun _ _ => id) fun w' h _ => ⟨w₀, hcreated, .working h⟩)
      fun code w₂ h₂ => ?_
    cases code with
    | none =>
      exact Proc.Returns.mono (wp_finishSession_shut hsome h₂) (fun code w' h _ => h.created hcreated)
        fun w' h _ => ⟨w₀, hcreated, h⟩
    | some code =>
      obtain ⟨rfl, l, hl, ⟨l', hlog', hl'⟩, hcalls', -⟩ := h₂
      obtain ⟨o, rfl⟩ := List.length_eq_one_iff.mp hl
      exact fun _ => Shut.created (.once hlog' hcalls' (by simp) (by simp [hl'])) hcreated

/-- A session that returns shut its VM down once, or twice after a slip. -/
theorem wp_session_shut (fuel : Nat) (hflag : w.shutdownVmInCaseOfError = false) :
    wp (session env container fuel) (Proc.Returns (fun code w' =>
      w'.shutdownVmInCaseOfError = true → Shut w code w') fun _ => False) w := by
  rw [session]
  have hbody : wp (catching (sessionBody env container fuel) fun e => do
      let w ← get
      return some (← handleError env container (errorMessage e) w.shutdownVmInCaseOfError))
      (Proc.Returns (BodyReturns w) fun _ => False) w := by
    rw [wp_catching]
    refine wp_mono (wp_sessionBody_shut fuel hflag) fun o w' ho => ?_
    cases o with
    | ok code => exact ho
    | throw e =>
      show wp (do
        let w ← get
        return some (← handleError env container (errorMessage e) w.shutdownVmInCaseOfError)) _ w'
      rw [wp_bind, wp_get, Outcome.andThen_ok]
      cases hflag' : w'.shutdownVmInCaseOfError with
      | false =>
        refine Proc.Returns.mono (wp_refuseVm hflag') (fun code w'' h htrue => ?_) fun _ h => h
        exact absurd (h.symm.trans htrue) (by simp)
      | true =>
        obtain ⟨w₀, hcreated, hout⟩ := ho hflag'
        refine Proc.Returns.bind (wp_handleGetsOut hcreated.vm hout) fun code w'' h => ?_
        exact fun _ => h.created hcreated
    | stop r => trivial
  refine Proc.Returns.bind hbody fun code w' h => ?_
  cases code with
  | some code => exact h
  | none =>
    rw [wp_bind]
    refine wp_mono (wp_deleteVm_closes (Closes.refl w')) ?_
    rintro _ w'' ⟨rfl, ⟨l', hlog, hl'⟩, hcalls, hflag''⟩
    rw [Outcome.andThen_ok, wp_pure]
    intro htrue
    rw [List.map_nil, List.append_nil] at hcalls
    cases h (hflag''.symm.trans htrue) with
    | @once b o l hlog₁ hcalls₁ hthrew hfinished =>
      exact .once (l := l ++ l') (by rw [hlog, hlog₁, List.append_assoc]) (hcalls.trans hcalls₁) hthrew
        fun _ => rfl
    | @twice o o' l hlog₁ hcalls₁ hslip =>
      refine .twice (l := l ++ l') (by rw [hlog, hlog₁, List.append_assoc]) (hcalls.trans hcalls₁) ?_
      exact hslip.imp_right (And.imp_left (List.mem_append_left _))

end

end Client

/-! ### Whole runs -/

section
open Client
variable {σ : Type}

/-- How a session that returned `code` shut its VM down: once, or a second time after its end slipped. -/
inductive ShutDown (code : Nat) (log : List Event) (calls : List VmCall) : Prop
  | once {b : Bool} {o : Outcome Exception Unit} (hcalls : shutdowns calls = [(b, o)])
    (hthrew : b = false → ¬ ∃ e, o = .throw e) (hfinished : .sent .finished ∈ log → code = 0)
  | twice {o o' : Outcome Exception Unit} (hcalls : shutdowns calls = [(false, o), (true, o')])
    (hslip : (∃ e, o = .throw e) ∨ (.sent .finished ∈ log ∧ code = 1))

theorem exaudfclientMain_shutDown (env : Environment) (container : Container σ) (socketName : ByteString)
    (fuel code : Nat) (single : Bool) (log : List Event)
    (hcode : (exaudfclientMain env container socketName fuel {}).1 = .ok code)
    (hlog : sessionLog (exaudfclientMain env container socketName fuel {}).2.log = some (single, log))
    (hcreated : (exaudfclientMain env container socketName fuel {}).2.shutdownVmInCaseOfError = true) :
    ShutDown code log (exaudfclientMain env container socketName fuel {}).2.calls := by
  let Q : Outcome Exception Nat → World σ → Prop := fun o w => ∀ code single log, o = .ok code →
    sessionLog w.log = some (single, log) → w.shutdownVmInCaseOfError = true → ShutDown code log w.calls
  let J : World σ → Prop := fun w => shutdowns w.calls = [] ∧ w.shutdownVmInCaseOfError = false
  have hrun : wp (exaudfclientMain env container socketName fuel) Q {} := by
    have hnone : ∀ (o : Outcome Exception Nat) (w : World σ), sessionLog w.log = none → Q o w := by
      intro o w h code single log _ hlog
      rw [h] at hlog
      cases hlog
    have hinit : ∀ w, J w → w.vm = none → wp (sendInit env socketName) (fun o w' =>
        (o = .ok false → J w') ∧ (o = .ok true → J w')) w := by
      rintro w ⟨hcalls, hflag⟩ -
      have h : Works w (sendInit env socketName w).2 := (Works.keeps env).sendInit socketName w
      have hJ : J (sendInit env socketName w).2 := ⟨h.calls.trans hcalls, h.shutdownVm.trans hflag⟩
      exact ⟨fun _ => hJ, fun _ => hJ⟩
    refine wp_exaudfclientMain socketName fuel hnone hinit ?_ (fun _ h => h) ⟨rfl, rfl⟩ rfl
    rintro w ⟨hcalls₀, hflag⟩ hpre
    refine wp_mono (wp_session_shut fuel hflag) fun o w' h => ?_
    rintro code single log rfl hlog hcreated
    have hsession : ∀ l, w'.log = w.log ++ [.connected w.singleCallMode] ++ l → log = l := by
      intro l hl
      rw [hl, List.append_assoc, List.singleton_append, sessionLog_connected hpre] at hlog
      cases hlog
      rfl
    have hnil : ∀ s, shutdowns w'.calls = shutdowns w.calls ++ s → shutdowns w'.calls = s := by
      intro s hs
      rw [hs, hcalls₀, List.nil_append]
    cases h hcreated with
    | once hlog' hcalls hthrew hfinished =>
      obtain rfl := hsession _ hlog'
      exact .once (hnil _ hcalls) hthrew hfinished
    | twice hlog' hcalls hslip =>
      obtain rfl := hsession _ hlog'
      exact .twice (hnil _ hcalls) hslip
  exact hrun code single log hcode hlog hcreated

/-- A session that returns shuts its VM down once if and only if the shutdown at the end of its loop did
not throw and `MT_FINISHED` was not refused. -/
theorem shutdownOnce_iff (env : Environment) (container : Container σ) (socketName : ByteString)
    (fuel code : Nat) (single : Bool) (log : List Event)
    (hcode : (exaudfclientMain env container socketName fuel {}).1 = .ok code)
    (hlog : sessionLog (exaudfclientMain env container socketName fuel {}).2.log = some (single, log))
    (hcreated : (exaudfclientMain env container socketName fuel {}).2.shutdownVmInCaseOfError = true) :
    (shutdowns (exaudfclientMain env container socketName fuel {}).2.calls).length = 1 ↔
      ¬ EndThrew (exaudfclientMain env container socketName fuel {}).2.calls ∧ ¬ FinishedRefused log := by
  obtain ⟨p, ht, hends⟩ := exaudfclientMain_transcript env container socketName fuel single log hlog
  rw [hcode] at hends
  have hanswered : code = 0 ↔ Transcript.FinishedAnswered log := by
    rcases hends with ⟨rfl, rfl⟩ | ⟨rfl, rfl⟩
    · exact iff_of_true rfl (Transcript.finishedAnswered ht)
    · refine iff_of_false (by simp) fun h => ?_
      exact absurd (Transcript.finished_of_finishedAnswered ht h) (by simp)
  cases exaudfclientMain_shutDown env container socketName fuel code single log hcode hlog hcreated with
  | @once b o hcalls hthrew hfinished =>
    refine iff_of_true (by rw [hcalls]; rfl) ⟨?_, ?_⟩
    · rintro ⟨e, he⟩
      rw [hcalls, List.mem_singleton, Prod.mk.injEq] at he
      exact hthrew he.1.symm ⟨e, he.2.symm⟩
    · rintro ⟨hmem, hnot⟩
      exact hnot (hanswered.mp (hfinished hmem))
  | @twice o o' hcalls hslip =>
    refine iff_of_false (by rw [hcalls]; simp) ?_
    rintro ⟨hthrew, hrefused⟩
    rcases hslip with ⟨e, rfl⟩ | ⟨hmem, rfl⟩
    · exact hthrew ⟨e, by rw [hcalls]; simp⟩
    · exact hrefused ⟨hmem, fun h => absurd (hanswered.mpr h) (by simp)⟩

theorem shutdownOnce_iff_try :
    ¬ EndThrew (trySession [] true).2.calls ∧ ¬ FinishedRefused (tryLog [] true) := by
  unfold trySession
  exact (shutdownOnce_iff { server := tryDatabase [] true } (testContainer 1) (str "ipc:///tmp/try") 2 0 true
    (tryLog [] true) (by decide +kernel) (by decide +kernel) (by decide +kernel)).mp (by decide +kernel)

/-- A database that closes the session instead of finishing it. -/
def refusingDatabase : Server := fun past =>
  match past.getLast? with
  | some ⟨_, .inr .finished⟩ => reply .mtClose
  | _ => tryDatabase [] true past

/-- It shuts its VM down twice. -/
theorem shutdown_twice :
    ¬ ∀ (σ : Type) (env : Environment) (container : Container σ) (socketName : ByteString) (fuel code : Nat),
      (exaudfclientMain env container socketName fuel {}).1 = .ok code →
      (exaudfclientMain env container socketName fuel {}).2.shutdownVmInCaseOfError = true →
      (shutdowns (exaudfclientMain env container socketName fuel {}).2.calls).length = 1 := by
  intro h
  have htwice : (shutdowns (exaudfclientMain { server := refusingDatabase } (testContainer 1)
      (str "ipc:///tmp/try") 2 {}).2.calls).length = 2 := by decide +kernel
  rw [h _ _ _ _ _ 1 (by decide +kernel) (by decide +kernel)] at htwice
  cases htwice

end

end UdfRunner
