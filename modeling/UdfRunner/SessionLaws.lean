import UdfRunner.SessionTrace
import UdfRunner.TestContainer

/-!
# What a session promises the database

`session_conforms`: the order of requests of a multi-row session. `failedRun_reported_iff`: a failed run
is reported if and only if the VM says so by returning `false`. `failedCall_not_reported`: a failed single
call never is.
-/

namespace UdfRunner
open Client Transcript

variable {σ : Type}

/-! ### A database to try sessions on -/

def reply (t : MessageType) : Reply := .message { type := t }

/-- A database without data that runs `script` once, or calls it once in single-call mode. -/
def tryDatabase (script : ByteString) (single : Bool) : Server := fun past =>
  match past.getLast? with
  | some ⟨_, .inr (.client _)⟩ => .message { type := .mtInfo, info := { sourceCode := script } }
  | some ⟨_, .inr .metadata⟩ => .message { type := .mtMeta, metadata := {
      inputIterType := .multiple, outputIterType := .multiple, singleCallMode := single } }
  | some ⟨_, .inr .run⟩ =>
    if past.countP (fun r => r.content = .inr .run) ≠ 1 then reply .mtCleanup
    else if single then .message { type := .mtCall, call := { fn := .scFnDefaultOutputColumns } }
    else reply .mtRun
  | some ⟨_, .inr .finished⟩ => reply .mtFinished
  | _ => reply .mtDone

/-- A session of the TEST container with it. -/
def trySession (script : ByteString) (single : Bool) : Outcome Exception Nat × World (Sigma TestVM) :=
  exaudfclientMain { server := tryDatabase script single } (testContainer 1) (str "ipc:///tmp/try") 2 {}

def tryLog (script : ByteString) (single : Bool) : List Event :=
  ((sessionLog (trySession script single).2.log).map Prod.snd).getD []

/-! ### Conformance -/

/-- The protocol of a multi-row session that ends in `o`. -/
structure Conforms (o : Outcome Exception Nat) (log : List Event) : Prop where
  order : requests log ∈ ReqKind.sessionLanguage
  answered : ∀ pre q post, log = pre ++ .sent q :: post → ∃ r post', post = .received r :: post'
  closeIsLast : ∀ pre m post, log = pre ++ .sent (.close m) :: post → ∀ e ∈ post, e.request = none
  runAfterDone : ∀ pre r post, log = pre ++ .sent .done :: .received r :: post →
    .sent .run ∈ post → r.HasType .mtDone
  finishedAfterCleanup : ∀ pre post, log = pre ++ .sent .finished :: post → AtCleanup pre
  returnsZero : o = .ok 0 ↔ FinishedAnswered log

theorem Ends.not_awaits {o : Outcome Exception Nat} {p : Phase} (h : Ends o p) : ¬ p.Awaits := by
  intro hp
  rcases o with code | e | r
  · rcases h with ⟨-, rfl⟩ | ⟨-, rfl⟩ <;> exact hp
  · exact h
  · cases p <;> first | exact h | exact hp

theorem Ends.finished_iff {o : Outcome Exception Nat} {p : Phase} (h : Ends o p) :
    o = .ok 0 ↔ p = .finished := by
  constructor
  · rintro rfl
    rcases h with ⟨-, hp⟩ | ⟨h01, -⟩
    · exact hp
    · exact absurd h01 (by decide)
  · rintro rfl
    rcases o with code | e | r
    · rcases h with ⟨rfl, -⟩ | ⟨-, hp⟩
      · rfl
      · cases hp
    · exact h.elim
    · exact h.elim

theorem session_conforms (env : Environment) (container : Container σ) (socketName : ByteString)
    (fuel : Nat) (log : List Event)
    (hlog : sessionLog (exaudfclientMain env container socketName fuel {}).2.log = some (false, log)) :
    Conforms (exaudfclientMain env container socketName fuel {}).1 log := by
  obtain ⟨p, ht, hends⟩ := exaudfclientMain_transcript env container socketName fuel false log hlog
  constructor
  · exact ht.requests_mem_sessionLanguage
  · rintro pre q post rfl
    exact received_of_sent ht hends.not_awaits
  · rintro pre m post rfl
    exact request_eq_none_of_close ht
  · rintro pre r post rfl hrun
    exact hasType_done_of_run ht hrun
  · rintro pre post rfl
    exact atCleanup_of_finished ht
  · rw [hends.finished_iff]
    constructor
    · rintro rfl
      exact finishedAnswered ht
    · exact finished_of_finishedAnswered ht

/-- A run that fails its checks. -/
theorem session_conforms_try :
    Conforms (trySession (str "forward_input") false).1 (tryLog (str "forward_input") false) :=
  session_conforms _ _ _ _ _ (by decide +kernel)

/-! ### Failures -/

/-- The failure `text` is reported in `post`, what follows it: no further `MT_RUN`, `MT_CLOSE` with the
text is the next request that is not the VM's, and `exaudfclient_main` returns 1. -/
structure Reported (text : ByteString) (o : Outcome Exception Nat) (post : List Event) : Prop where
  noRun : .sent .run ∉ post
  closes : ClosesWith text post
  returnsOne : o = .ok 1

def RunOutcome.failure : RunOutcome → Option ByteString
  | .returned _ msg => if msg = [] then none else some msg
  | .raised (.swigvm reason) => if reason = [] then none else some (cstr reason)
  | .raised _ => none

/-- What can follow a run that failed with `false`. -/
theorem Transcript.reported {single : Bool} {msg : ByteString} {post : List Event} {p : Phase}
    {o : Outcome Exception Nat} (h : (protocol single).Path (.failed msg) post p) (hends : Ends o p) :
    Reported msg o post ∧ .sent .done ∉ post := by
  have hp : p = .failed msg ∨ p = .awaitClose ∨ p = .closed := by
    refine (h.stays (A := fun _ => True) (X := fun p => p = .failed msg ∨ p = .awaitClose ∨ p = .closed)
      (.inl rfl) ?_ ?_).2
    · rintro q e r (rfl | rfl | rfl) hs
      · cases hs with
        | vm => exact ⟨trivial, .inl rfl⟩
        | close => exact ⟨trivial, .inr (.inl rfl)⟩
      · cases hs with
        | vm h => exact h.elim
        | closeAnswered => exact ⟨trivial, .inr (.inr rfl)⟩
      · cases hs with
        | vm h => exact h.elim
    · rintro q r (rfl | rfl | rfl) ⟨_, hmay⟩ <;> exact hmay.elim
  have hclosed : p = .closed ∧ o = .ok 1 := by
    rcases o with code | e | r
    · rcases hends with ⟨-, rfl⟩ | ⟨rfl, rfl⟩
      · rcases hp with hp | hp | hp <;> cases hp
      · exact ⟨rfl, rfl⟩
    · exact hends.elim
    · rcases hp with rfl | rfl | rfl <;> exact hends.elim
  have hnone := (no_run_of_ending h trivial).1
  exact ⟨⟨fun hrun => (hnone _ hrun).1 rfl, closesWith_of_failed h hclosed.1, hclosed.2⟩,
    fun hdone => (hnone _ hdone).2 rfl⟩

/-- A failed run is reported, and never as done, exactly if the VM returned `false` from it. -/
theorem failedRun_reported_iff (env : Environment) (container : Container σ) (socketName : ByteString)
    (fuel : Nat) (log pre post : List Event) (r : RunOutcome) (msg : ByteString)
    (hlog : sessionLog (exaudfclientMain env container socketName fuel {}).2.log = some (false, log))
    (hrun : log = pre ++ .ran r :: post) (hfail : r.failure = some msg) :
    (Reported msg (exaudfclientMain env container socketName fuel {}).1 post ∧ .sent .done ∉ post) ↔
      r = .returned false msg := by
  obtain ⟨p, ht, hends⟩ := exaudfclientMain_transcript env container socketName fuel false log hlog
  subst hrun
  have hdone : (∃ msg, r = .returned true msg) ∨ (∃ reason, r = .raised (.swigvm reason)) →
      .sent .done ∈ post := by
    intro hr
    have hran : p ≠ .ran := by
      rintro rfl
      rcases hends' : (exaudfclientMain env container socketName fuel {}).1 with code | e | s <;>
        rw [hends'] at hends
      · rcases hends with ⟨-, h⟩ | ⟨-, h⟩ <;> cases h
      · exact hends
      · exact hends
    obtain ⟨post', rfl⟩ := after_runDone hr ht hran
    exact List.mem_cons_self
  constructor
  · rintro ⟨-, hnot⟩
    rcases r with ⟨done, msg'⟩ | ⟨reason | _ | _⟩
    · cases done with
      | true => exact absurd (hdone (.inl ⟨_, rfl⟩)) hnot
      | false =>
        have : msg' = msg := by
          simp only [RunOutcome.failure] at hfail
          split_ifs at hfail
          exact Option.some.inj hfail
        rw [this]
    · exact absurd (hdone (.inr ⟨_, rfl⟩)) hnot
    · cases hfail
    · cases hfail
  · rintro rfl
    have hne : msg ≠ [] := by
      simp only [RunOutcome.failure] at hfail
      split_ifs at hfail with hne
      exact hne
    exact reported (after_runFailed hne ht) hends

/-- What the TEST container throws at the script `x`. -/
def tryReason : ByteString := str "unsupported test strategy: x"

def tryBefore : List Event :=
  [.vm .next (reply .mtDone), .sent .run, .received (reply .mtRun)]

def tryAfter : List Event :=
  [.sent .done, .received (reply .mtDone), .sent .run, .received (reply .mtCleanup),
    .sent (.close (some (str "F-UDF-CL-LIB-1128: " ++ tryReason))), .received (reply .mtDone)]

theorem failedRun_reported_iff_try :
    ¬ (Reported tryReason (trySession (str "x") false).1 tryAfter ∧ .sent .done ∉ tryAfter) := by
  have h := failedRun_reported_iff { server := tryDatabase (str "x") false } (testContainer 1)
    (str "ipc:///tmp/try") 2 _ tryBefore tryAfter (.raised (.swigvm tryReason)) tryReason
    (by decide +kernel) rfl (by decide)
  intro hreported
  cases h.mp hreported

/-- The run fails, and the next request says that it is done. -/
theorem failedRun_reported_done :
    ¬ ∀ (σ : Type) (env : Environment) (container : Container σ) (socketName : ByteString) (fuel : Nat)
      (log pre post : List Event) (r : RunOutcome) (msg : ByteString),
      sessionLog (exaudfclientMain env container socketName fuel {}).2.log = some (false, log) →
      log = pre ++ .ran r :: post → r.failure = some msg →
      Reported msg (exaudfclientMain env container socketName fuel {}).1 post ∧ .sent .done ∉ post := by
  intro h
  have hreported := h _ { server := tryDatabase (str "x") false } (testContainer 1)
    (str "ipc:///tmp/try") 2 _ tryBefore tryAfter (.raised (.swigvm tryReason)) tryReason
    (by decide +kernel) rfl (by decide)
  exact hreported.2 (by decide)

/-! ### Single calls -/

/-- Single-call failures as the log shows them: the call threw, or its answer was turned down. -/
inductive CallFailure : List Event → Prop
  | threw {e} : CallFailure [.called (some e)]
  | resultRefused {s r} (h : ¬ r.HasType .mtReturn) (h' : ¬ r.HasType .mtCleanup) :
    CallFailure [.sent (.callResult s), .received r]
  | undefinedRefused {fn r} (h : ¬ r.HasType .mtUndefinedCall) :
    CallFailure [.sent (.undefinedCall fn), .received r]
  | doneRefused {r} (h : ¬ r.HasType .mtDone) (h' : ¬ r.HasType .mtCleanup) :
    CallFailure [.sent .done, .received r]

/-- After a failed call the next round begins. -/
theorem Transcript.idle_of_callFailure {pre failure post : List Event} {p : Phase}
    (h : Transcript true (pre ++ failure ++ post) p) (hf : CallFailure failure) :
    (protocol true).Path .idle post p := by
  rw [List.append_assoc] at h
  cases hf with
  | threw =>
    obtain ⟨q, q', -, hs, hpost⟩ := Lts.Path.split h
    cases hs
    exact hpost
  | resultRefused hret hcleanup =>
    obtain ⟨q, q', -, hs, hpost⟩ := Lts.Path.split h
    cases hs
    obtain ⟨q', hs, hpost⟩ := step_of_path hpost id
    cases hs with
    | resultAnswered hr => exact absurd hr (by simp [hret, hcleanup])
    | resultIgnored => exact hpost
  | undefinedRefused hundef =>
    obtain ⟨q, q', -, hs, hpost⟩ := Lts.Path.split h
    cases hs
    obtain ⟨q', hs, hpost⟩ := step_of_path hpost id
    cases hs with
    | resultAnswered hr => exact absurd hr (by simp [hundef])
    | resultIgnored => exact hpost
  | doneRefused hdone hcleanup =>
    obtain ⟨q, q', -, hs, hpost⟩ := Lts.Path.split h
    cases hs
    obtain ⟨q', hs, hpost⟩ := step_of_path hpost id
    cases hs with
    | doneAnswered hr => exact absurd hr hdone
    | doneCleanup hr => exact absurd hr hcleanup
    | doneRefused _ hs => cases hs
    | doneIgnored => exact hpost

/-- No failure of a single call is reported. -/
theorem failedCall_not_reported (env : Environment) (container : Container σ) (socketName : ByteString)
    (fuel : Nat) (log pre failure post : List Event) (text : ByteString)
    (hlog : sessionLog (exaudfclientMain env container socketName fuel {}).2.log = some (true, log))
    (hcall : log = pre ++ failure ++ post) (hf : CallFailure failure) :
    ¬ Reported text (exaudfclientMain env container socketName fuel {}).1 post := by
  obtain ⟨p, ht, -⟩ := exaudfclientMain_transcript env container socketName fuel true log hlog
  subst hcall
  rintro ⟨hrun, ⟨vs, m, post', hpost, -, hvs⟩, -⟩
  rcases run_of_idle (idle_of_callFailure ht hf) with rfl | ⟨post'', rfl⟩
  · simp at hpost
  · exact hrun List.mem_cons_self

def trySingleBefore : List Event :=
  [.vm .next (reply .mtDone), .sent .run,
    .received (.message { type := .mtCall, call := { fn := .scFnDefaultOutputColumns } })]

def trySingleAfter : List Event :=
  [.sent .run, .received (reply .mtCleanup), .sent .finished, .received (reply .mtFinished)]

/-- What the TEST container throws at every call. -/
def trySingleFailure : Exception :=
  .swigvm (str "singleCall is not supported for the TEST language container")

theorem failedCall_not_reported_try :
    ¬ Reported (what trySingleFailure) (trySession [] true).1 trySingleAfter :=
  failedCall_not_reported { server := tryDatabase [] true } (testContainer 1) (str "ipc:///tmp/try") 2 _
    trySingleBefore [.called (some trySingleFailure)] trySingleAfter _ (by decide +kernel) rfl .threw

/-- The call throws, and the session goes on to `MT_FINISHED`. -/
theorem failedCall_finished :
    ¬ ∀ (σ : Type) (env : Environment) (container : Container σ) (socketName : ByteString) (fuel : Nat)
      (log pre failure post : List Event),
      sessionLog (exaudfclientMain env container socketName fuel {}).2.log = some (true, log) →
      log = pre ++ failure ++ post → CallFailure failure →
      ∃ text, Reported text (exaudfclientMain env container socketName fuel {}).1 post := by
  intro h
  obtain ⟨text, hreported⟩ := h _ { server := tryDatabase [] true } (testContainer 1)
    (str "ipc:///tmp/try") 2 _ trySingleBefore [.called (some trySingleFailure)] trySingleAfter
    (by decide +kernel) rfl .threw
  exact hreported.noRun (by decide)

end UdfRunner
