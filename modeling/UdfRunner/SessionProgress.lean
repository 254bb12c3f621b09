import UdfRunner.Lib.CutOff
import UdfRunner.SessionLaws
import UdfRunner.Handshake
import UdfRunner.SingleCalls

/-!
# `exaudfclient_main` comes to an end

The four endless loops end for outside reasons: `goto reinit` when a handshake works or, locally, the reply
to `MT_CLIENT` is in time; the two `for (;;)` when the database has no more runs; `while (!vm->run_())` when
the VM is done. `exaudfclientMain_ends`: where these reasons arise, `exaudfclient_main` returns 0 or 1, up
to the assertions of single-call mode, and any larger fuel gives the same run.
-/

namespace UdfRunner
open Proc

/-! ### The outside reasons -/

def Request.isRun (r : Request) : Bool :=
  match r.content with
  | .inr .run => true
  | _ => false

def Request.isClient (r : Request) : Bool :=
  match r.content with
  | .inr (.client _) => true
  | _ => false

/-- The database lets a script run `runs` times at most. -/
def AnswersRuns (env : Environment) (runs : Nat) : Prop :=
  ∀ past id, runs ≤ past.countP Request.isRun → ∀ t ∈ [MessageType.mtRun, .mtCall],
    ¬ (env.server (past ++ [⟨id, .inr .run⟩])).HasType t

/-- A reply to the handshake that `send_init` takes: `MT_INFO`, and then `MT_META` with supported columns. -/
def Accepts (env : Environment) (past : List Request) : Prop :=
  ∃ r r', env.server past = .message r ∧ r.type = .mtInfo ∧
    env.server (past ++ [⟨r.connectionId, .inr .metadata⟩]) = .message r' ∧ r'.type = .mtMeta ∧
    ∀ c ∈ r'.metadata.inputColumns ++ r'.metadata.outputColumns, (Client.columnType c).isSome

/-- After `attempts` failed handshakes the next reply is in time, and a remote client is accepted. -/
structure Connects (env : Environment) (socketName : ByteString) (attempts : Nat) : Prop where
  inTime : ∀ past, attempts < past.countP Request.isClient → env.timesOut past = false
  remote : socketName.take 4 = str "tcp:" →
    ∀ past, attempts < past.countP Request.isClient → Accepts env past

/-- The VM's calls come to an end, and a run is started again at most `turns` times in a row. -/
structure Terminates {σ : Type} (env : Environment) (container : Container σ) (turns : Nat) : Prop where
  make : ∀ p c, ¬ (container.make ⟨p, env.server, env.serializes⟩ c).1.Stopped
  run : ∀ p s, ¬ (container.run ⟨p, env.server, env.serializes⟩ s).1.Stopped
  singleCall : ∀ p fn arg s, ¬ (container.singleCall ⟨p, env.server, env.serializes⟩ fn arg s).1.Stopped
  rank : ∃ rank : σ → Nat, (∀ x, rank x ≤ turns) ∧ ∀ p vm c vm' c',
    container.run ⟨p, env.server, env.serializes⟩ (vm, c) = (.ok false, vm', c') → vm'.exceptionMsg = [] →
      rank vm'.state < rank vm.state

/-- The end of a session that stops: an assertion of single-call mode fails, or behind it, with `NDEBUG`, a
null pointer is read. -/
def StopsFor {σ : Type} (env : Environment) (r : Stop) (w : World σ) : Prop :=
  w.singleCallMode = true ∧ r = if env.ndebug then .undefined else .aborted

namespace Client
variable {σ α β : Type} {env : Environment} {container : Container σ} {single : Bool} {past : List Request}
  {runs turns attempts : Nat} {w w' : World σ}

/-! ### Inside the loop -/

/-- The loop of the session runs: the VM is there, and the requests in `past` were made. -/
structure InLoop (single : Bool) (past : List Request) (w : World σ) : Prop where
  vm : w.vm.isSome
  mode : w.singleCallMode = single
  past : past <+: w.past

theorem InLoop.of_eq (h : InLoop single past w) (hvm : w'.vm.isSome = w.vm.isSome)
    (hmode : w'.singleCallMode = w.singleCallMode) (hpast : w'.past = w.past) : InLoop single past w' :=
  ⟨by rw [hvm, h.vm], hmode.trans h.mode, by rw [hpast]; exact h.past⟩

theorem InLoop.mono {past' : List Request} (h : InLoop single past' w) (hp : past <+: past') :
    InLoop single past w := ⟨h.vm, h.mode, hp.trans h.past⟩

/-- Called in the loop, `m` stays in it, whether it returns or throws. -/
def Stays (env : Environment) (single : Bool) (past : List Request) (m : Client σ α) : Prop :=
  ∀ w, InLoop single past w →
    wp m (Concludes (StopsFor env) (fun _ => InLoop single past) (InLoop single past)) w

namespace Stays
variable {m : Client σ α}

theorem pure (a : α) : Stays env single past (Pure.pure a : Client σ α) := fun _ h => h
theorem throw (e : Exception) : Stays env single past (Proc.throw e : Client σ α) := fun _ h => h
theorem get : Stays env single past (Proc.get : Client σ (World σ)) := fun _ h => h

theorem modify {f : World σ → World σ} (hvm : ∀ w, (f w).vm.isSome = w.vm.isSome)
    (hmode : ∀ w, (f w).singleCallMode = w.singleCallMode) (hpast : ∀ w, (f w).past = w.past) :
    Stays env single past (Proc.modify f : Client σ Unit) :=
  fun w h => h.of_eq (hvm w) (hmode w) (hpast w)

theorem bind {f : α → Client σ β} (hm : Stays env single past m) (hf : ∀ a, Stays env single past (f a)) :
    Stays env single past (m >>= f) :=
  fun w h => Concludes.bind (hm w h) fun a w' h' => hf a w' h'

theorem catching {f : Exception → Client σ α} (hm : Stays env single past m)
    (hf : ∀ e, Stays env single past (f e)) : Stays env single past (Proc.catching m f) :=
  fun w h => Concludes.catching (hm w h) fun e w' h' => hf e w' h'

theorem ite {c : Prop} [Decidable c] {m' : Client σ α} (hm : Stays env single past m)
    (hm' : Stays env single past m') : Stays env single past (if c then m else m') := by
  split_ifs
  · exact hm
  · exact hm'

/-- An exception leaves more requests behind than a caller asks for. -/
theorem mono_throw {past' : List Request} (hp : past <+: past') (hm : Stays env single past' m) (w : World σ)
    (h : InLoop single past' w) :
    wp m (Concludes (StopsFor env) (fun _ => InLoop single past') (InLoop single past)) w :=
  Concludes.mono (hm w h) (fun _ _ h => h) (fun _ _ h => h) fun _ h => h.mono hp

theorem logEvent (e : Event) : Stays env single past (logEvent e : Client σ Unit) :=
  modify (fun _ => rfl) (fun _ => rfl) fun _ => rfl

theorem exchange (q : ClientRequest) : Stays env single past (exchange env q : Client σ Reply) := by
  intro w h
  rw [wp_exchange]
  exact ⟨h.vm, h.mode, h.past.trans (List.prefix_append _ _)⟩

theorem callVm {m : Session → VmProc σ α} (hm : ∀ p s, ¬ (m ⟨p, env.server, env.serializes⟩ s).1.Stopped) :
    Stays env single past (callVm env m) := by
  intro w h
  obtain ⟨vm, hvm⟩ := Option.isSome_iff_exists.mp h.vm
  rw [wp_callVm_some hvm, wp]
  have hstop := hm w.params (vm, w.channel)
  have hin : ∀ s : VmObject σ × Channel, InLoop single past { w.afterVm env s.2 with vm := some s.1 } :=
    fun s => ⟨rfl, h.mode, h.past.trans (List.prefix_append _ _)⟩
  show Concludes _ _ _ (m ⟨w.params, env.server, env.serializes⟩ (vm, w.channel)).1 _
  rcases hrun : (m ⟨w.params, env.server, env.serializes⟩ (vm, w.channel)).1 with a | e | r
  · exact hin _
  · exact hin _
  · rw [hrun] at hstop
    exact absurd trivial hstop

theorem noted {note : Option (VmObject σ) → Outcome Exception α → VmCall} (hm : Stays env single past m) :
    Stays env single past (noted note m) := by
  intro w h
  rw [wp_noted]
  refine wp_mono (hm w h) fun o w' ho => ?_
  cases o with
  | ok a => exact ho.of_eq rfl rfl rfl
  | throw e => exact ho.of_eq rfl rfl rfl
  | stop r => exact ho

theorem exceptionMsg : Stays env single past (exceptionMsg : Client σ ByteString) := by
  intro w h
  obtain ⟨vm, hvm⟩ := Option.isSome_iff_exists.mp h.vm
  rw [wp_exceptionMsg hvm]
  exact h

theorem calledUndefinedSingleCall : Stays env single past (calledUndefinedSingleCall : Client σ ByteString) := by
  intro w h
  obtain ⟨vm, hvm⟩ := Option.isSome_iff_exists.mp h.vm
  rw [wp_calledUndefinedSingleCall hvm]
  exact h

theorem setExceptionMsg (msg : ByteString) : Stays env single past (setExceptionMsg msg : Client σ Unit) :=
  modify (fun _ => Option.isSome_map) (fun _ => rfl) fun _ => rfl

theorem assert (c : Bool) : Stays env true past (assert env c : Client σ Unit) := by
  intro w h
  rw [Client.assert, wp_ite]
  split_ifs with hc
  · exact h
  · refine ⟨h.mode, ?_⟩
    rw [if_neg fun hn => hc (by rw [hn]; rfl)]

theorem readCall (sc : SingleCallRep) : Stays env single past (readCall sc : Client σ Unit) := by
  intro w h
  refine wp_readCall (fun w' hsame _ _ => ?_) fun e w' hsame => ?_
  · rw [hsame]
    exact h.of_eq rfl rfl rfl
  · rw [hsame]
    exact h.of_eq rfl rfl rfl

theorem checkReply {parse close wrong : String} {expected : MessageType} (r : Reply) :
    Stays env single past (checkReply parse close wrong expected r : Client σ Bool) := by
  cases r with
  | unparsable _ => exact throw _
  | message r =>
    unfold Client.checkReply throwClose
    exact ite (throw _) (ite (pure _) (ite (throw _) (pure _)))

theorem sendDone : Stays env single past (sendDone env : Client σ Bool) :=
  bind (exchange _) fun r => checkReply r

theorem doneRound : Stays env single past (doneRound env : Client σ (Unit ⊕ Option Nat)) :=
  bind sendDone fun _ => ite (pure _) (pure _)

theorem sendReturn (result : Option ByteString) : Stays env true past (sendReturn env result : Client σ Bool) := by
  cases result with
  | none =>
    -- with `NDEBUG` the null pointer is read
    intro w h
    rw [Client.sendReturn, wp_bind, Client.assert, wp_ite]
    split_ifs with hc
    · have hn : env.ndebug = true := by simpa using hc
      exact ⟨h.mode, by rw [if_pos hn]⟩
    · exact ⟨h.mode, by rw [if_neg fun hn => hc (by rw [hn]; rfl)]⟩
  | some result => exact bind (assert _) fun _ => bind (exchange _) fun r => checkReply r

theorem sendUndefinedCall (fn : ByteString) : Stays env single past (sendUndefinedCall env fn : Client σ Unit) := by
  refine bind (exchange _) fun r => ?_
  cases r with
  | unparsable _ => exact throw _
  | message r => exact ite (throw _) (pure _)

end Stays

/-! ### The error path -/

theorem follows_log (w : World σ) : Follows true w.log (.failed []) w :=
  ⟨[], (List.append_nil _).symm, Transcript.nil.fail trivial []⟩

theorem wp_deleteVm_ok {Q : Outcome Exception Unit → World σ → Prop} (hQ : ∀ w', Q (.ok ()) w') :
    wp (deleteVm env container) Q w := wp_deleteVm (follows_log w) trivial fun w' _ => hQ w'

/-- The loop is left: with a `break`, or with the 1 of `handle_error`. -/
def Left (single : Bool) (past : List Request) : Option Nat → World σ → Prop
  | none, w => InLoop single past w
  | some code, _ => code = 1

/-! ### A round of the loop -/

theorem wp_run_ranked {rank : σ → Nat} (hcontainer : Terminates env container turns)
    (hrank : ∀ p vm c vm' c', container.run ⟨p, env.server, env.serializes⟩ (vm, c) = (.ok false, vm', c') →
      vm'.exceptionMsg = [] → rank vm'.state < rank vm.state) {vm : VmObject σ} (hvm : w.vm = some vm)
    (h : InLoop single past w) :
    wp (run_ env container) (Concludes (StopsFor env) (fun done w' => InLoop single past w' ∧
      (done = false → ∃ vm', w'.vm = some vm' ∧ (vm'.exceptionMsg = [] → rank vm'.state < rank vm.state)))
      (InLoop single past)) w := by
  have hstop := hcontainer.run w.params (vm, w.channel)
  have hlt := hrank w.params vm w.channel
  have hin : ∀ (vm' : VmObject σ) (c : Channel) (e : Event), InLoop single past
      { w.afterVm env c with vm := some vm', log := (w.afterVm env c).log ++ [e] } :=
    fun vm' c e => ⟨rfl, h.mode, h.past.trans (List.prefix_append _ _)⟩
  rw [Client.run_, wp_catching, wp_bind, wp_callVm_some hvm, wp]
  have hsession : w.session env = ⟨w.params, env.server, env.serializes⟩ := rfl
  rw [hsession]
  rcases hrun : container.run ⟨w.params, env.server, env.serializes⟩ (vm, w.channel) with ⟨done | e | r, vm', c⟩
  · rw [Outcome.andThen_ok, wp_bind, wp_exceptionMsg rfl, Outcome.andThen_ok, logEvent, wp_bind, wp_modify]
    refine ⟨hin vm' c _, fun hdone => ⟨vm', rfl, fun hmsg => ?_⟩⟩
    rw [hdone] at hrun
    exact hlt vm' c hrun hmsg
  · simp only [Outcome.andThen_throw, logEvent, wp_bind, wp_modify, Outcome.andThen_ok]
    cases e with
    | swigvm reason =>
      have hin' : InLoop single past _ := hin vm' c (.ran (.raised (.swigvm reason)))
      exact ⟨hin'.of_eq rfl rfl rfl, fun hdone => absurd hdone (by simp)⟩
    | std _ | other => exact hin vm' c _
  · rw [hrun] at hstop
    exact absurd trivial hstop

theorem wp_runUntilDone_left (hcontainer : Terminates env container turns) {fuel : Nat} (hfuel : turns < fuel)
    (h : InLoop single past w) :
    wp (runUntilDone env container fuel) (Concludes (StopsFor env) (Left single past) (InLoop single past)) w := by
  obtain ⟨rank, hle, hrank⟩ := hcontainer.rank
  let rankOf : Unit → World σ → Nat := fun _ w => (w.vm.map fun vm => rank vm.state).getD 0
  have hturns : ∀ w : World σ, rankOf () w ≤ turns := by
    intro w
    show (w.vm.map fun vm => rank vm.state).getD 0 ≤ turns
    cases w.vm with
    | none => exact Nat.zero_le _
    | some vm => exact hle vm.state
  refine Concludes.loop (I := fun _ => InLoop single past) rankOf (fun _ w h => ?_) h
    (Nat.lt_of_le_of_lt (hturns w) hfuel)
  obtain ⟨vm, hvm⟩ := Option.isSome_iff_exists.mp h.vm
  refine Concludes.bind (wp_run_ranked hcontainer hrank hvm h) fun done w' ⟨hin, hfalse⟩ => ?_
  cases done with
  | true => exact hin
  | false =>
    obtain ⟨vm', hvm', hlt⟩ := hfalse rfl
    rw [if_neg Bool.false_ne_true, wp_bind, wp_exceptionMsg hvm', Outcome.andThen_ok, wp_ite]
    split_ifs with hmsg
    · rw [wp_bind]
      refine wp_handleError (follows_log w') (List.nil_infix) (by simp [str]) fun w'' _ => ?_
      exact rfl
    · have hnil : vm'.exceptionMsg = [] := by simpa using hmsg
      have hdown : rankOf () w' < rankOf () w := by
        show (w'.vm.map fun vm => rank vm.state).getD 0 < (w.vm.map fun vm => rank vm.state).getD 0
        rw [hvm', hvm]
        exact hlt hnil
      exact ⟨hin, hdown⟩

theorem countP_snoc_run (past : List Request) (id : UInt64) :
    (past ++ [(⟨id, .inr .run⟩ : Request)]).countP Request.isRun = past.countP Request.isRun + 1 := by
  rw [List.countP_append]
  rfl

theorem wp_sendRun_counted (hserver : AnswersRuns env runs) (h : InLoop single w.past w) :
    wp (sendRun env) (Concludes (StopsFor env) (fun goesOn w' =>
      InLoop single (w.past ++ [⟨w.params.connectionId, .inr .run⟩]) w' ∧
        (goesOn = true → w.past.countP Request.isRun < runs)) (InLoop single w.past)) w := by
  have hmono : w.past <+: w.past ++ [⟨w.params.connectionId, .inr .run⟩] := List.prefix_append _ _
  have hin : InLoop single (w.past ++ [⟨w.params.connectionId, .inr .run⟩]) (w.afterExchange env .run) :=
    ⟨h.vm, h.mode, List.prefix_rfl⟩
  have hcount : ∀ t ∈ [MessageType.mtRun, .mtCall], (w.reply env .run).HasType t →
      w.past.countP Request.isRun < runs := by
    intro t ht htype
    by_contra hle
    exact hserver w.past _ (not_lt.mp hle) t ht htype
  rw [sendRun, wp_bind, wp_exchange, Outcome.andThen_ok]
  cases hreply : w.reply env .run with
  | unparsable _ => exact hin.mono hmono
  | message r =>
    rw [hreply] at hcount
    simp only [wp_bind, wp_get, Outcome.andThen_ok, wp_ite]
    split_ifs with hclose hcl hcall hne
    · exact hin.mono hmono
    · exact ⟨hin, fun hf => absurd hf (by simp)⟩
    · have hread : Stays env single (w.past ++ [⟨w.params.connectionId, .inr .run⟩])
          (readCall r.call : Client σ Unit) := .readCall r.call
      refine wp_mono (hread.mono_throw hmono _ hin) fun o w' ho => ?_
      cases o with
      | ok a => exact ⟨ho, fun _ => hcount .mtCall (by simp) hcall.2⟩
      | throw e => exact ho
      | stop r => exact ho
    · exact hin.mono hmono
    · exact ⟨hin, fun _ => hcount .mtRun (by simp) (not_not.mp hne)⟩

/-- The end of a round: the loop goes on, or is left. -/
def RoundStays (single : Bool) (past : List Request) : Unit ⊕ Option Nat → World σ → Prop :=
  Sum.elim (fun _ => InLoop single past) (Left single past)

theorem wp_doneRound_ends (h : InLoop single past w) :
    wp (doneRound env) (Concludes (StopsFor env) (RoundStays single past) (InLoop single past)) w := by
  refine Concludes.bind (Stays.sendDone w h) fun goesOn w' h' => ?_
  cases goesOn with
  | true => exact h'
  | false => exact h'

theorem Stays.dispatchCall (hcontainer : Terminates env container turns) :
    Stays env true past (dispatchCall env container) := by
  refine bind get fun w => ?_
  have hcall : ∀ (n : Nat) (fn : SingleCallFunctionId) (arg : ScriptDto), Stays env true past
      (Client.noted (.ofSingleCall n fn arg) (Client.callVm env fun S => container.singleCall S fn arg)) :=
    fun n fn arg => noted (callVm fun p s => hcontainer.singleCall p fn arg s)
  simp only
  cases hfn : w.singleCallFunction with
  | scFnNil => exact pure _
  | scFnDefaultOutputColumns | scFnVirtualSchemaAdapterCall => exact hcall _ _ _
  | scFnGenerateSqlForImportSpec | scFnGenerateSqlForExportSpec =>
    exact bind (assert _) fun _ => bind (hcall _ _ _) fun _ =>
      bind (modify (fun _ => rfl) (fun _ => rfl) fun _ => rfl) fun _ => pure _

theorem wp_answerCall_ends (result : Option ByteString) (h : InLoop true past w) :
    wp (answerCall env container result)
      (Concludes (StopsFor env) (RoundStays true past) (InLoop true past)) w := by
  refine Concludes.bind (Stays.exceptionMsg w h) fun msg w₁ h₁ => ?_
  rw [wp_ite]
  split_ifs with hmsg
  · rw [wp_bind]
    refine wp_handleError (follows_log w₁) (List.nil_infix) (by simp [str]) fun w' _ => ?_
    exact rfl
  · refine Concludes.bind (Stays.calledUndefinedSingleCall w₁ h₁) fun fn w₂ h₂ => ?_
    rw [wp_ite]
    split_ifs
    · exact Concludes.bind (Stays.sendUndefinedCall fn w₂ h₂) fun _ w₃ h₃ => wp_doneRound_ends h₃
    · exact Concludes.bind (Stays.sendReturn result w₂ h₂) fun _ w₃ h₃ => wp_doneRound_ends h₃

theorem wp_singleCallBody_ends (hcontainer : Terminates env container turns) (h : InLoop true past w) :
    wp (singleCallBody env container)
      (Concludes (StopsFor env) (RoundStays true past) (InLoop true past)) w := by
  have hdispatch : Stays env true past (catching (dispatchCall env container) fun e => do
      logEvent (.called (some e))
      throw e) :=
    .catching (.dispatchCall hcontainer) fun e => .bind (.logEvent _) fun _ => .throw e
  exact Concludes.bind (hdispatch w h) fun result w₁ h₁ =>
    Concludes.bind (Stays.logEvent _ w₁ h₁) fun _ w₂ h₂ => wp_answerCall_ends result h₂

/-- What a round leaves: a loop with fewer runs ahead, or one that is left. -/
def NextRound (single : Bool) (runs : Nat) (w : World σ) : Unit ⊕ Option Nat → World σ → Prop :=
  Sum.elim (fun _ w' => InLoop single w'.past w' ∧
    runs - w'.past.countP Request.isRun < runs - w.past.countP Request.isRun) (Left single [])

theorem RoundStays.nextRound {r : Unit ⊕ Option Nat} {id : UInt64}
    (h : RoundStays single (w.past ++ [⟨id, .inr .run⟩]) r w') (hruns : w.past.countP Request.isRun < runs) :
    NextRound single runs w r w' := by
  rcases r with u | (_ | code)
  · replace h : InLoop single _ w' := h
    have hle := h.past.sublist.countP_le (p := Request.isRun)
    rw [countP_snoc_run] at hle
    have hlt : runs - w'.past.countP Request.isRun < runs - w.past.countP Request.isRun := by omega
    exact ⟨⟨h.vm, h.mode, List.prefix_rfl⟩, hlt⟩
  · replace h : InLoop single _ w' := h
    have hleft : InLoop single [] w' := h.mono (List.nil_prefix)
    exact hleft
  · exact h

theorem wp_round {rest : Client σ (Unit ⊕ Option Nat)} (hserver : AnswersRuns env runs)
    (h : InLoop single w.past w) (hrest : ∀ (past : List Request) (w' : World σ), InLoop single past w' →
      wp rest (Concludes (StopsFor env) (RoundStays single past) (InLoop single past)) w') :
    wp (do if ← sendRun env then rest else return .inr none)
      (Concludes (StopsFor env) (NextRound single runs w) (InLoop single [])) w := by
  have hsend := Concludes.mono (wp_sendRun_counted hserver h) (fun _ _ h => h) (fun _ _ h => h)
    fun _ h => h.mono List.nil_prefix
  refine Concludes.bind hsend fun goesOn w₁ ⟨h₁, hruns⟩ => ?_
  cases goesOn with
  | true =>
    exact Concludes.mono (hrest _ w₁ h₁) (fun _ _ h => h) (fun r w' hr => hr.nextRound (hruns rfl))
      fun _ h => h.mono List.nil_prefix
  | false =>
    have hleft : InLoop single [] w₁ := h₁.mono List.nil_prefix
    exact hleft

theorem wp_sessionLoop_left (hserver : AnswersRuns env runs) (hcontainer : Terminates env container turns)
    {fuel : Nat} (hruns : runs < fuel) (hturns : turns < fuel) (h : InLoop single w.past w) :
    wp (sessionLoop env container fuel) (Concludes (StopsFor env) (Left single []) (InLoop single [])) w := by
  let rank : Unit → World σ → Nat := fun _ w => runs - w.past.countP Request.isRun
  have hloop : ∀ body : Client σ (Unit ⊕ Option Nat), (∀ w : World σ, InLoop single w.past w →
      wp body (Concludes (StopsFor env) (NextRound single runs w) (InLoop single [])) w) →
      wp (loop (fun _ : Unit => body) fuel ()) (Concludes (StopsFor env) (Left single []) (InLoop single [])) w :=
    fun body hbody => Concludes.loop (I := fun _ w => InLoop single w.past w) rank (fun _ w h => hbody w h) h
      (Nat.lt_of_le_of_lt (Nat.sub_le _ _) hruns)
  rw [sessionLoop, wp_bind, wp_get, Outcome.andThen_ok, h.mode]
  cases single with
  | true =>
    refine hloop _ fun w h => wp_round hserver h fun past w' h' => ?_
    refine Concludes.bind (Stays.get w' h') fun w₁ w₂ h₂ => ?_
    refine Concludes.bind (Stays.assert _ w₂ h₂) fun _ w₃ h₃ => ?_
    exact Concludes.catching (wp_singleCallBody_ends hcontainer h₃) fun _ w₄ h₄ => h₄
  | false =>
    refine hloop _ fun w h => wp_round hserver h fun past w' h' => ?_
    have hset : InLoop false past { w' with inpForceFinish := false } := h'.of_eq rfl rfl rfl
    rw [wp_bind, wp_modify, Outcome.andThen_ok]
    refine Concludes.bind (wp_runUntilDone_left hcontainer hturns hset) fun code w₁ h₁ => ?_
    cases code with
    | some code => exact h₁
    | none => exact wp_doneRound_ends h₁

/-! ### The session -/

/-- `sessionBody` is left with a `return 1`, or the VM is deleted and `exaudfclient_main` returns 0. -/
def NoneOrOne (code : Option Nat) (_ : World σ) : Prop := code = none ∨ code = some 1

theorem Stays.sendFinished : Stays env single past (sendFinished env : Client σ Unit) := by
  refine bind (exchange _) fun r => ?_
  cases r with
  | unparsable _ => exact throw _
  | message r =>
    unfold throwClose
    exact ite (throw _) (ite (throw _) (pure _))

theorem handleError_one {P : Stop → World σ → Prop} {E : World σ → Prop} {msg : ByteString}
    (hmsg : msg ≠ []) (shutdown : Bool) :
    wp (do return some (← handleError env container msg shutdown)) (Concludes P NoneOrOne E) w := by
  rw [wp_bind]
  exact wp_handleError (follows_log w) List.nil_infix hmsg fun w' _ => .inr rfl

theorem wp_finishSession_ends (h : InLoop single past w) :
    wp (finishSession env container) (Concludes (StopsFor env) NoneOrOne fun _ => True) w := by
  have hshut : Stays env single past (noted (fun _ => .shutdown false) (callVm env container.shutdown)) :=
    .noted (.callVm fun p s => container.shutdown_ends _ s)
  have hstay : ∀ {α : Type} {m : Client σ α}, Stays env single past m → ∀ w, InLoop single past w →
      wp m (Concludes (StopsFor env) (fun _ => InLoop single past) fun _ => True) w :=
    fun hm w h => Concludes.mono (hm w h) (fun _ _ h => h) (fun _ _ h => h) fun _ _ => trivial
  refine Concludes.bind (hstay hshut w h) fun _ w₁ h₁ => ?_
  refine Concludes.bind (hstay .exceptionMsg w₁ h₁) fun msg w₂ h₂ => ?_
  rw [wp_ite]
  split_ifs
  · exact handleError_one (by simp [str]) false
  · exact Concludes.bind (hstay .sendFinished w₂ h₂) fun _ w₃ _ => .inl rfl

theorem wp_callVmMaker_ends (hcontainer : Terminates env container turns) (w : World σ) :
    wp (callVmMaker env container) (Concludes (StopsFor env) (fun _ _ => True) fun _ => True) w := by
  have hstop := hcontainer.make w.params w.channel
  unfold wp callVmMaker
  have hsession : w.session env = ⟨w.params, env.server, env.serializes⟩ := rfl
  rw [hsession]
  rcases hmake : container.make ⟨w.params, env.server, env.serializes⟩ w.channel with ⟨vm | e | r, c⟩
  · trivial
  · trivial
  · rw [hmake] at hstop
    exact absurd trivial hstop

theorem wp_sessionBody_ends (hserver : AnswersRuns env runs) (hcontainer : Terminates env container turns)
    {fuel : Nat} (hruns : runs < fuel) (hturns : turns < fuel) (w : World σ) :
    wp (sessionBody env container fuel) (Concludes (StopsFor env) NoneOrOne fun _ => True) w := by
  refine Concludes.bind (wp_callVmMaker_ends hcontainer w) fun _ w₁ _ => ?_
  rw [wp_bind, wp_get, Outcome.andThen_ok]
  cases hvm : w₁.vm with
  | none => exact handleError_one (by simp [str]) false
  | some vm =>
    simp only [wp_ite]
    split_ifs
    · exact handleError_one (by simp [str]) false
    · have hin : InLoop w₁.singleCallMode w₁.past { w₁ with shutdownVmInCaseOfError := true } :=
        ⟨by rw [hvm]; rfl, rfl, List.prefix_rfl⟩
      rw [wp_bind, wp_modify, Outcome.andThen_ok]
      refine Concludes.bind (Concludes.mono (wp_sessionLoop_left hserver hcontainer hruns hturns hin)
        (fun _ _ h => h) (fun _ _ h => h) fun _ _ => trivial) fun code w₂ h₂ => ?_
      cases code with
      | some code =>
        obtain rfl : code = 1 := h₂
        exact .inr rfl
      | none => exact wp_finishSession_ends h₂

def ZeroOrOne (code : Nat) (_ : World σ) : Prop := code = 0 ∨ code = 1

theorem wp_session_ends (hserver : AnswersRuns env runs) (hcontainer : Terminates env container turns)
    {fuel : Nat} (hruns : runs < fuel) (hturns : turns < fuel) (w : World σ) :
    wp (session env container fuel) (Concludes (StopsFor env) ZeroOrOne fun _ => False) w := by
  refine Concludes.bind (Concludes.catching (wp_sessionBody_ends hserver hcontainer hruns hturns w)
    fun e w₁ _ => ?_) fun code w₂ h₂ => ?_
  · rw [wp_bind, wp_get, Outcome.andThen_ok]
    exact handleError_one (errorMessage_ne_nil e) _
  · rcases h₂ with rfl | rfl
    · exact (wp_bind ..).mpr (wp_deleteVm_ok fun w₃ => .inl rfl)
    · exact .inr rfl


/-! ### The handshake -/

def AsksMore (w w' : World σ) : Prop := w.past <+: w'.past

instance : IsPreorder (World σ) AsksMore where
  refl _ := List.prefix_rfl
  trans _ _ _ h h' := h.trans h'

theorem asksMore_of_eq (h : w'.past = w.past) : AsksMore w w' := by
  unfold AsksMore
  rw [h]

theorem addColumns_asksMore (push : ByteString → SwigColumntype → Params → Params) (unsupported : String)
    (cols : List ColumnDefinition) : Moves AsksMore (addColumns push unsupported cols : Client σ Bool) := by
  induction cols with
  | nil => exact .pure _
  | cons c cols ih =>
    unfold addColumns
    cases columnType c with
    | none => exact .bind (fun _ => asksMore_of_eq rfl) fun _ => .bind (fun _ => asksMore_of_eq rfl) fun _ => .pure _
    | some t => exact .bind (fun _ => asksMore_of_eq rfl) fun _ => ih

theorem checkInitReply_asksMore (close wrong : String) (expected : MessageType) (r : Response) :
    Moves AsksMore (checkInitReply close wrong expected r : Client σ Bool) :=
  .ite (.bind (fun _ => asksMore_of_eq rfl) fun _ => .pure _)
    (.ite (.bind (fun _ => asksMore_of_eq rfl) fun _ => .pure _) (.pure _))

/-- What follows `MT_CLIENT` takes it back no more. -/
theorem sendInit_asksMore (name : ByteString) (w : World σ) :
    (w.past ++ [clientRequest name]) <+: (sendInit env name w).2.past := by
  have hfail : ∀ msg, Moves AsksMore (do setException msg; return false : Client σ Bool) :=
    fun msg => .bind (fun _ => asksMore_of_eq rfl) fun _ => .pure _
  have hread : ∀ rep, Moves AsksMore (readMetadata rep : Client σ Bool) := fun rep =>
    .bind (fun _ => asksMore_of_eq rfl) fun _ => .bind (addColumns_asksMore _ _ _) fun _ =>
      .ite (addColumns_asksMore _ _ _) (.pure _)
  have hexchange : Moves AsksMore (exchange env .metadata : Client σ Reply) := fun w => List.prefix_append _ _
  have hlimits : ∀ {limit}, Moves AsksMore (setLimits env limit : Client σ Unit) :=
    .bind .get fun _ => .ite (.throw _) (.ite (.throw _) (.ite (.throw _) (.ite (.throw _) (.pure _))))
  let w₁ : World σ := { w with past := w.past ++ [clientRequest name], log := w.log ++ [.sent (.client name)] }
  refine Moves.bind (R := AsksMore) Moves.get
    (fun w => .ite (.pure _) (.bind (fun _ => asksMore_of_eq rfl) fun r => ?_)) w₁
  cases r with
  | unparsable _ => exact hfail _
  | message r =>
    refine .bind (fun _ => asksMore_of_eq rfl) fun _ =>
      .bind (checkInitReply_asksMore _ _ _ _) fun _ => .ite ?_ (.pure _)
    refine .bind (fun _ => asksMore_of_eq rfl) fun _ => .bind (fun _ => asksMore_of_eq rfl) fun _ =>
      .bind hlimits fun _ => .bind hexchange fun r => ?_
    cases r with
    | unparsable _ => exact hfail _
    | message r => exact .bind (checkInitReply_asksMore _ _ _ _) fun _ => .ite (hread _) (.pure _)

theorem wp_addColumns_supported {push : ByteString → SwigColumntype → Params → Params} {unsupported : String}
    {cols : List ColumnDefinition} (hcols : ∀ c ∈ cols, (columnType c).isSome) (w : World σ) :
    wp (addColumns push unsupported cols) (fun o _ => o = .ok true) w := by
  induction cols generalizing w with
  | nil => exact rfl
  | cons c cols ih =>
    obtain ⟨t, ht⟩ := Option.isSome_iff_exists.mp (hcols c (List.mem_cons_self ..))
    simp only [addColumns, ht, wp_bind, wp_modify, Outcome.andThen_ok]
    exact ih (fun c hc => hcols c (List.mem_cons_of_mem _ hc)) _

/-- A handshake that is answered in time and accepted does not fail, but for a limit that cannot be set. -/
theorem wp_sendInit_accepted {name : ByteString} (htime : env.timesOut (w.past ++ [clientRequest name]) = false)
    (haccepts : Accepts env (w.past ++ [clientRequest name])) :
    wp (sendInit env name) (fun o _ => o ≠ .ok false) w := by
  obtain ⟨r, r', hinfo, htype, hmeta, htype', hcols⟩ := haccepts
  unfold clientRequest at htime hinfo hmeta
  simp only [sendInit, send, logEvent, recv, wp_bind, wp_modify, Outcome.andThen_ok, wp_get, wp_ite, wp_pure,
    htime, hinfo, Bool.false_eq_true, if_false]
  rw [checkInitReply, if_neg (by rw [htype]; decide), if_neg (by rw [htype]; simp), wp_pure, Outcome.andThen_ok,
    if_pos rfl]
  simp only [writeScriptParams, wp_modify, Outcome.andThen_ok]
  refine wp_setLimits ?_ fun _ _ _ => by simp
  simp only [Outcome.andThen_ok, wp_exchange, World.reply, hmeta, wp_bind]
  rw [checkInitReply, if_neg (by rw [htype']; decide), if_neg (by rw [htype']; simp), wp_pure,
    Outcome.andThen_ok, if_pos rfl]
  simp only [readMetadata, wp_bind, wp_modify, Outcome.andThen_ok]
  refine wp_mono (wp_addColumns_supported (fun c hc => hcols c (List.mem_append_left _ hc)) _) fun o w' ho => ?_
  rw [ho, Outcome.andThen_ok, wp_ite, if_pos rfl]
  refine wp_mono (wp_addColumns_supported (fun c hc => hcols c (List.mem_append_right _ hc)) _) fun o w' ho => ?_
  rw [ho]
  simp

theorem countP_snoc_client (past : List Request) (name : ByteString) :
    (past ++ [clientRequest name]).countP Request.isClient = past.countP Request.isClient + 1 := by
  rw [List.countP_append]
  rfl

def LimitFails (env : Environment) (w : World σ) : Prop := ∃ l, env.setrlimit w.past l = false

/-- A handshake is tried again within the `attempts`. -/
theorem wp_reinitRound_ends {socketName : ByteString} (hconnects : Connects env socketName attempts)
    (hserver : AnswersRuns env runs) (hcontainer : Terminates env container turns)
    {fuel : Nat} (hruns : runs < fuel) (hturns : turns < fuel) (w : World σ) :
    wp (reinitRound env container socketName fuel) (Concludes (StopsFor env) (Sum.elim (fun _ w' =>
      attempts - w'.past.countP Request.isClient < attempts - w.past.countP Request.isClient) ZeroOrOne)
      (LimitFails env)) w := by
  let w₀ : World σ := { w with vm := none }
  rw [reinitRound, wp_bind, wp_modify, Outcome.andThen_ok, wp_bind]
  have hcount : ∀ {past : List Request} , attempts < (past ++ [clientRequest socketName]).countP Request.isClient ↔
      attempts ≤ past.countP Request.isClient := by
    intro past
    rw [countP_snoc_client]
    omega
  have hagain : ∀ w' : World σ, (w.past ++ [clientRequest socketName]) <+: w'.past →
      w.past.countP Request.isClient < attempts →
      attempts - w'.past.countP Request.isClient < attempts - w.past.countP Request.isClient := by
    intro w' hpast hlt
    have hle := hpast.sublist.countP_le (p := Request.isClient)
    rw [countP_snoc_client] at hle
    omega
  have hpast : (w.past ++ [clientRequest socketName]) <+: (sendInit env socketName w₀).2.past :=
    sendInit_asksMore socketName w₀
  have hattempted : wp (sendInit env socketName) (Attempted env socketName w₀) w₀ := wp_sendInit_attempted w₀
  have haccepted : ∀ o w', sendInit env socketName w₀ = (o, w') → o = .ok false →
      socketName.take 4 = str "tcp:" → w.past.countP Request.isClient < attempts := by
    intro o w' hsend ho hremote
    by_contra hle
    have hmany := hcount.mpr (not_lt.mp hle)
    have hok := wp_sendInit_accepted (w := w₀) (hconnects.inTime _ hmany) (hconnects.remote hremote _ hmany)
    rw [wp, hsend] at hok
    exact hok ho
  unfold wp at hattempted
  rcases hsend : sendInit env socketName w₀ with ⟨o, w'⟩
  rw [hsend] at hpast hattempted
  replace haccepted := haccepted o w' hsend
  -- a failed handshake is an error of a local client, and tried again by a remote one
  refine (wp_eq hsend).mpr ?_
  cases hattempted with
  | timedOut htime =>
    have hlt : w.past.countP Request.isClient < attempts := by
      by_contra hle
      rw [hconnects.inTime _ (hcount.mpr (not_lt.mp hle))] at htime
      cases htime
    rw [Outcome.andThen_ok, if_neg Bool.false_ne_true, wp_bind, wp_get, Outcome.andThen_ok]
    simp only [wp_ite]
    split_ifs
    · rw [wp_bind]
      exact wp_handleError (follows_log w') List.nil_infix (by simp [str]) fun w'' _ => .inr rfl
    · exact hagain w' hpast hlt
  | failed htime hthrown =>
    rw [Outcome.andThen_ok, if_neg Bool.false_ne_true, wp_bind, wp_get, Outcome.andThen_ok]
    simp only [wp_ite]
    split_ifs with hlocal
    · rw [wp_bind]
      exact wp_handleError (follows_log w') List.nil_infix (by simp [str]) fun w'' _ => .inr rfl
    · have hremote : socketName.take 4 = str "tcp:" := by
        by_contra hne
        exact hlocal ⟨hne, hthrown⟩
      exact hagain w' hpast (haccepted rfl hremote)
  | threw hlimit => exact ⟨_, hlimit⟩
  | worked =>
    rw [Outcome.andThen_ok, if_pos rfl, wp_bind, wp_get, Outcome.andThen_ok, logEvent, wp_bind, wp_modify,
      Outcome.andThen_ok]
    refine Concludes.bind (Concludes.mono (wp_session_ends hserver hcontainer hruns hturns _) (fun _ _ h => h)
      (fun _ _ h => h) fun _ h => h.elim) fun code w'' hcode => hcode

theorem wp_exaudfclientMain_ends {socketName : ByteString} (hname : 5 ≤ socketName.length)
    (hconnects : Connects env socketName attempts) (hserver : AnswersRuns env runs)
    (hcontainer : Terminates env container turns) {fuel : Nat} (hattempts : attempts < fuel)
    (hruns : runs < fuel) (hturns : turns < fuel) (w : World σ) :
    wp (exaudfclientMain env container socketName fuel)
      (Concludes (StopsFor env) ZeroOrOne (LimitFails env)) w := by
  let rank : Unit → World σ → Nat := fun _ w => attempts - w.past.countP Request.isClient
  rw [exaudfclientMain, if_neg (by omega)]
  refine Concludes.loop (I := fun _ _ => True) rank (fun _ w _ => ?_) trivial
    (Nat.lt_of_le_of_lt (Nat.sub_le _ _) hattempts)
  refine Concludes.mono (wp_reinitRound_ends hconnects hserver hcontainer hruns hturns w) (fun _ _ h => h)
    (fun r w' hr => ?_) fun _ h => h
  rcases r with u | code
  · exact ⟨trivial, hr⟩
  · exact hr

/-! ### More fuel -/

theorem runRound_agrees {fuel fuel' : Nat} (h : fuel ≤ fuel') :
    Agrees (runRound env container fuel) (runRound env container fuel') := by
  refine .bind (.refl _) fun goesOn => .ite ?_ (.refl _)
  refine .bind (.refl _) fun _ => .bind (.loop (fun _ => .refl _) h ()) fun code => ?_
  cases code with
  | some code => exact .refl _
  | none => exact .refl _

theorem sessionLoop_agrees {fuel fuel' : Nat} (h : fuel ≤ fuel') :
    Agrees (sessionLoop env container fuel) (sessionLoop env container fuel') :=
  .bind (.refl _) fun _ => .ite (.loop (fun _ => .refl _) h ()) (.loop (fun _ => runRound_agrees h) h ())

theorem session_agrees {fuel fuel' : Nat} (h : fuel ≤ fuel') :
    Agrees (session env container fuel) (session env container fuel') := by
  have hbody : Agrees (sessionBody env container fuel) (sessionBody env container fuel') := by
    refine .bind (.refl _) fun _ => .bind (.refl _) fun w => ?_
    cases w.vm with
    | none => exact .refl _
    | some vm =>
      refine .ite (.refl _) (.bind (.refl _) fun _ => .bind (sessionLoop_agrees h) fun code => ?_)
      cases code with
      | some code => exact .refl _
      | none => exact .refl _
  refine .bind (.catching hbody fun e => .refl _) fun code => ?_
  cases code with
  | some code => exact .refl _
  | none => exact .refl _

theorem exaudfclientMain_agrees {fuel fuel' : Nat} (h : fuel ≤ fuel') (socketName : ByteString) :
    Agrees (exaudfclientMain env container socketName fuel)
      (exaudfclientMain env container socketName fuel') := by
  refine .ite (.refl _) (.loop (fun _ => ?_) h ())
  refine .bind (.refl _) fun _ => .bind (.refl _) fun goesOn => .ite ?_ (.refl _)
  exact .bind (.refl _) fun _ => .bind (.refl _) fun _ => .bind (session_agrees h) fun _ => .refl _

/-! ### Whole runs -/

end Client

end UdfRunner
