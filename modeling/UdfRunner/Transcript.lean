import Mathlib.Computability.Language
import UdfRunner.Lib.Lts
import UdfRunner.SocketHighLevel
import Mathlib.Order.CompletePartialOrder

/-!
# The session protocol

`protocol single` is the protocol of a session, multi-row or single-call, over the events of its log.
It says what the session is for; `SessionTrace.lean` shows that the loops of `exaudfclient_main` follow
it. `requests_mem_sessionLanguage` and the lemmas after it are what it promises about the order of
requests.
-/

namespace UdfRunner

def Reply.HasType (t : MessageType) : Reply → Prop
  | .message r => r.type = t
  | .unparsable _ => False

instance (t : MessageType) (r : Reply) : Decidable (r.HasType t) := by
  cases r <;> unfold Reply.HasType <;> infer_instance

inductive Phase
  | starting
  | idle
  | awaitRun
  | running
  | ran
  | awaitDone
  | calling
  | called
  | awaitResult (expected : MessageType)
  | cleanup
  | awaitFinished
  | finished
  | failed (msg : ByteString)
  | awaitClose
  | closed
deriving DecidableEq, Repr

namespace Phase

/-- Phases in which the VM has the floor. -/
def VmTurn : Phase → Prop
  | starting | running | calling | cleanup | finished | failed _ => True
  | _ => False

/-- Phases in which a reply is due. -/
def Awaits : Phase → Prop
  | awaitRun | awaitDone | awaitResult _ | awaitFinished | awaitClose => True
  | _ => False

/-- Phases in which `handle_error` can take over. -/
def MayFail : Phase → Prop
  | starting | called | cleanup => True
  | _ => False

/-- The phases after a session's loop. -/
def Ending : Phase → Prop
  | cleanup | awaitFinished | finished | failed _ | awaitClose | closed => True
  | _ => False

/-- Phases in which a session can be cut short: a VM need not come back, a round begins, or an
assertion is checked. -/
def MayStop : Phase → Prop
  | starting | idle | running | calling | called | cleanup => True
  | _ => False

end Phase

/-- One event of a session. -/
inductive SessionStep (single : Bool) : Phase → Event → Phase → Prop
  | vm {p q r} (h : p.VmTurn) : SessionStep single p (.vm q r) p
  | firstRun : SessionStep single .starting (.sent .run) .awaitRun
  | nextRun : SessionStep single .idle (.sent .run) .awaitRun
  | runAnswered {r} (h : single = false) (h' : r.HasType .mtRun) :
    SessionStep single .awaitRun (.received r) .running
  | callAnswered {r} (h : single = true) (h' : r.HasType .mtRun ∨ r.HasType .mtCall) :
    SessionStep single .awaitRun (.received r) .calling
  | runCleanup {r} (h : r.HasType .mtCleanup) : SessionStep single .awaitRun (.received r) .cleanup
  | runRefused {r} (msg) (h : ¬ r.HasType .mtRun) :
    SessionStep single .awaitRun (.received r) (.failed msg)
  | runAgain : SessionStep single .running (.ran (.returned false [])) .running
  | runFailed {msg} (h : msg ≠ []) : SessionStep single .running (.ran (.returned false msg)) (.failed msg)
  | runDone {msg} : SessionStep single .running (.ran (.returned true msg)) .ran
  | runRaised {reason} : SessionStep single .running (.ran (.raised (.swigvm reason))) .ran
  | runCrashed {e} (msg) (h : ∀ reason, e ≠ .swigvm reason) :
    SessionStep single .running (.ran (.raised e)) (.failed msg)
  | done : SessionStep single .ran (.sent .done) .awaitDone
  | doneAnswered {r} (h : r.HasType .mtDone) : SessionStep single .awaitDone (.received r) .idle
  | doneCleanup {r} (h : r.HasType .mtCleanup) : SessionStep single .awaitDone (.received r) .cleanup
  | doneRefused {r} (msg) (h : single = false) : SessionStep single .awaitDone (.received r) (.failed msg)
  | doneIgnored {r} (h : single = true) (h' : ¬ r.HasType .mtDone) (hcl : ¬ r.HasType .mtCleanup) :
    SessionStep single .awaitDone (.received r) .idle
  | callThrew {e} : SessionStep single .calling (.called (some e)) .idle
  | callReturned : SessionStep single .calling (.called none) .called
  | result {s} : SessionStep single .called (.sent (.callResult s)) (.awaitResult .mtReturn)
  | undefined {fn} :
    SessionStep single .called (.sent (.undefinedCall fn)) (.awaitResult .mtUndefinedCall)
  | resultAnswered {t r} (h : r.HasType t ∨ (t = .mtReturn ∧ r.HasType .mtCleanup)) :
    SessionStep single (.awaitResult t) (.received r) .ran
  | resultIgnored {t r} (h : ¬ r.HasType t) (hcl : t = .mtReturn → ¬ r.HasType .mtCleanup) :
    SessionStep single (.awaitResult t) (.received r) .idle
  | finish : SessionStep single .cleanup (.sent .finished) .awaitFinished
  | finishAnswered {r} (h : r.HasType .mtFinished) :
    SessionStep single .awaitFinished (.received r) .finished
  | finishRefused {r} (msg) (h : ¬ r.HasType .mtFinished) :
    SessionStep single .awaitFinished (.received r) (.failed msg)
  | close {msg m} (h : msg <:+: m) (hne : m ≠ []) :
    SessionStep single (.failed msg) (.sent (.close (some m))) .awaitClose
  | closeAnswered {r} : SessionStep single .awaitClose (.received r) .closed

/-- `handle_error` may be called for what no event shows: the VM could not be made, its shutdown
failed, or a call left an exception message. -/
inductive SessionSilent : Phase → Phase → Prop
  | giveUp {p} (msg) (h : p.MayFail) : SessionSilent p (.failed msg)

def protocol (single : Bool) : Lts Phase Event := ⟨SessionStep single, SessionSilent⟩

/-- The log of a session, from its start. -/
def Transcript (single : Bool) (log : List Event) (p : Phase) : Prop :=
  (protocol single).Path .starting log p

namespace Transcript
variable {single : Bool} {log : List Event} {p q : Phase} {e : Event}

theorem nil : Transcript single [] .starting := Lts.Path.nil

theorem step (h : Transcript single log p) (hs : SessionStep single p e q) :
    Transcript single (log ++ [e]) q := Lts.Path.step h hs

theorem fail (h : Transcript single log p) (hp : p.MayFail) (msg : ByteString) :
    Transcript single log (.failed msg) := Lts.Path.silent h (.giveUp msg hp)

end Transcript

/-- A session's mode and its log, which starts after the handshake. -/
def sessionLog : List Event → Option (Bool × List Event)
  | [] => none
  | .connected single :: log => some (single, log)
  | _ :: log => sessionLog log

theorem sessionLog_connected {log : List Event} (h : sessionLog log = none) (single : Bool)
    (log' : List Event) : sessionLog (log ++ .connected single :: log') = some (single, log') := by
  induction log with
  | nil => rfl
  | cons e log ih =>
    cases e with
    | connected => simp [sessionLog] at h
    | sent | received | vm | ran | called => exact ih h

theorem sessionLog_snoc {log : List Event} {e : Event} (h : sessionLog log = none)
    (he : sessionLog [e] = none) : sessionLog (log ++ [e]) = none := by
  induction log with
  | nil => exact he
  | cons e' log ih =>
    cases e' with
    | connected => simp [sessionLog] at h
    | sent | received | vm | ran | called => exact ih h

/-- How `exaudfclient_main` ends: it returns 0 after `MT_FINISHED` was answered and 1 after `MT_CLOSE`. -/
def Ends : Outcome Exception Nat → Phase → Prop
  | .ok code, p => (code = 0 ∧ p = .finished) ∨ (code = 1 ∧ p = .closed)
  | .throw _, _ => False
  | .stop _, p => p.MayStop

/-! ### The language of requests -/

/-- A request as the session language sees it; `vm` stands for any request of the VM. -/
inductive ReqKind
  | vm | run | done | finished | close | other
deriving DecidableEq, Repr

def ClientRequest.kind : ClientRequest → ReqKind
  | .run => .run
  | .done => .done
  | .finished => .finished
  | .close _ => .close
  | _ => .other

def Event.request : Event → Option ReqKind
  | .sent q => some q.kind
  | .vm _ _ => some .vm
  | _ => none

def requests (log : List Event) : List ReqKind := log.filterMap Event.request

namespace ReqKind
open Computability

/-- One request. -/
def one (k : ReqKind) : Language ReqKind := {[k]}

/-- `V*`. -/
def vms : Language ReqKind := (one vm)∗

/-- `V* (RUN V* DONE)*`. -/
def rounds : Language ReqKind := vms * (one run * vms * one done)∗

/-- `V* (RUN V* DONE)* [RUN] V*`. -/
def opened : Language ReqKind := rounds * (1 + one run) * vms

/-- `V* (RUN V* DONE)* [RUN] V* [FINISHED] V* [CLOSE]`. -/
def sessionLanguage : Language ReqKind := opened * (1 + one finished) * vms * (1 + one close)

/-- The requests of a multi-row session up to a phase. -/
def ofPhase : Phase → Language ReqKind
  | .starting => vms
  | .idle | .awaitDone => rounds
  | .awaitRun | .running | .ran => rounds * one run * vms
  | .cleanup => opened
  | .awaitFinished | .finished => opened * one finished * vms
  | .failed _ => opened * (1 + one finished) * vms
  | .awaitClose | .closed => opened * (1 + one finished) * vms * one close
  | .calling | .called | .awaitResult _ => 0

section
variable {A B : Language ReqKind}

theorem one_le_vms : 1 ≤ vms := one_le_kstar
theorem vms_mul_vm : vms * one vm ≤ vms := kstar_mul_le_kstar

theorem le_mul_of_one_le (h : 1 ≤ B) : A ≤ A * B := le_mul_of_one_le_right' h

theorem one_le_optional (k : ReqKind) : (1 : Language ReqKind) ≤ 1 + one k := by
  rw [add_eq_sup]; exact le_sup_left

theorem le_optional (k : ReqKind) : one k ≤ 1 + one k := by
  rw [add_eq_sup]; exact le_sup_right

theorem mul_vms_vm (A : Language ReqKind) : A * vms * one vm ≤ A * vms := by
  rw [mul_assoc]; exact mul_le_mul_right vms_mul_vm A

theorem vms_le_rounds : vms ≤ rounds := le_mul_of_one_le one_le_kstar

theorem rounds_le_opened : rounds ≤ opened :=
  (le_mul_of_one_le (one_le_optional run)).trans (le_mul_of_one_le one_le_vms)

theorem run_le_opened : rounds * one run * vms ≤ opened :=
  mul_le_mul_left (mul_le_mul_right (le_optional run) rounds) vms

theorem opened_le_failed : opened ≤ opened * (1 + one finished) * vms :=
  (le_mul_of_one_le (one_le_optional finished)).trans (le_mul_of_one_le one_le_vms)

theorem finished_le_failed : opened * one finished * vms ≤ opened * (1 + one finished) * vms :=
  mul_le_mul_left (mul_le_mul_right (le_optional finished) opened) vms

theorem round_le_rounds : rounds * one run * vms * one done ≤ rounds := by
  have : rounds * one run * vms * one done =
      vms * ((one run * vms * one done)∗ * (one run * vms * one done)) := by
    simp only [rounds, mul_assoc]
  rw [this]
  exact mul_le_mul_right kstar_mul_le_kstar vms

end

theorem ofPhase_le_sessionLanguage (p : Phase) : ofPhase p ≤ sessionLanguage := by
  have hfailed : opened * (1 + one finished) * vms ≤ sessionLanguage :=
    le_mul_of_one_le (one_le_optional close)
  have hopened := opened_le_failed.trans hfailed
  cases p with
  | starting => exact vms_le_rounds.trans (rounds_le_opened.trans hopened)
  | idle | awaitDone => exact rounds_le_opened.trans hopened
  | awaitRun | running | ran => exact run_le_opened.trans hopened
  | cleanup => exact hopened
  | awaitFinished | finished => exact finished_le_failed.trans hfailed
  | failed => exact hfailed
  | awaitClose | closed => exact mul_le_mul_right (le_optional close) _
  | calling | called | awaitResult => exact bot_le

/-- What an event adds to the requests. -/
def ofEvent (e : Event) : Language ReqKind := match e.request with
  | some k => one k
  | none => 1

theorem mul_ofEvent_le {p q : Phase} {e : Event} (h : SessionStep false p e q) :
    ofPhase p * ofEvent e ≤ ofPhase q := by
  cases h with
  | vm h =>
    cases p <;> simp only [Phase.VmTurn] at h
    · exact vms_mul_vm
    · exact mul_vms_vm _
    · exact (zero_mul (one ReqKind.vm)).le
    · exact mul_vms_vm _
    · exact mul_vms_vm _
    · exact mul_vms_vm _
  | firstRun => exact (mul_le_mul_left vms_le_rounds _).trans (le_mul_of_one_le one_le_vms)
  | nextRun => exact le_mul_of_one_le one_le_vms
  | runCleanup => exact (mul_one (ofPhase .awaitRun)).le.trans run_le_opened
  | runRefused => exact (mul_one (ofPhase .awaitRun)).le.trans (run_le_opened.trans opened_le_failed)
  | runFailed | runCrashed =>
    exact (mul_one (ofPhase .running)).le.trans (run_le_opened.trans opened_le_failed)
  | done => exact round_le_rounds
  | doneCleanup => exact (mul_one (ofPhase .awaitDone)).le.trans rounds_le_opened
  | doneRefused => exact (mul_one (ofPhase .awaitDone)).le.trans (rounds_le_opened.trans opened_le_failed)
  | doneIgnored h | callAnswered h => simp at h
  | callThrew | callReturned | result | undefined | resultAnswered | resultIgnored =>
    exact (zero_mul (ofEvent _)).le.trans bot_le
  | finish => exact le_mul_of_one_le one_le_vms
  | finishRefused => exact (mul_one (ofPhase .awaitFinished)).le.trans finished_le_failed
  | runAnswered | runAgain | runDone | runRaised | doneAnswered | finishAnswered | close | closeAnswered =>
    first
      | exact (mul_one _).le
      | exact le_rfl

theorem le_of_silent {p q : Phase} (h : SessionSilent p q) : ofPhase p ≤ ofPhase q := by
  obtain ⟨msg, h⟩ := h
  cases p <;> simp only [Phase.MayFail] at h
  · exact vms_le_rounds.trans (rounds_le_opened.trans opened_le_failed)
  · exact bot_le
  · exact opened_le_failed

end ReqKind

namespace Transcript
variable {single : Bool} {log pre post : List Event} {p q : Phase} {e : Event}

theorem requests_mem_ofPhase (h : Transcript false log p) : requests log ∈ ReqKind.ofPhase p := by
  refine Lts.Path.invariant h ?_ ?_ ?_ (I := fun l q => requests l ∈ ReqKind.ofPhase q)
  · exact ReqKind.one_le_vms rfl
  · intro l q e r hl hs
    refine ReqKind.mul_ofEvent_le hs ?_
    have : requests (l ++ [e]) = requests l ++ (e.request).toList := by
      cases he : e.request <;> simp [requests, he]
    rw [this]
    refine Language.append_mem_mul hl ?_
    unfold ReqKind.ofEvent
    cases e.request <;> rfl
  · intro l q r hl hs
    exact ReqKind.le_of_silent hs hl

/-- The requests of a multi-row session, in the order they are sent. -/
theorem requests_mem_sessionLanguage (h : Transcript false log p) :
    requests log ∈ ReqKind.sessionLanguage :=
  ReqKind.ofPhase_le_sessionLanguage p h.requests_mem_ofPhase

/-! ### What follows what -/

/-- From a phase in which `handle_error` cannot take over, nothing is silent. -/
theorem eq_of_path_nil (h : (protocol single).Path p [] q) (hp : ¬ p.MayFail) : p = q := by
  generalize hl : ([] : List Event) = l at h
  induction h with
  | nil => rfl
  | step => simp at hl
  | silent _ hs ih =>
    obtain rfl := ih hl
    obtain ⟨_, hmay⟩ := hs
    exact absurd hmay hp

/-- The first event after such a phase is a step of it. -/
theorem step_of_path (h : (protocol single).Path p (e :: post) q) (hp : ¬ p.MayFail) :
    ∃ p', SessionStep single p e p' ∧ (protocol single).Path p' post q := by
  obtain ⟨p₁, p₂, h₁, h₂, h₃⟩ := Lts.Path.split (l := []) h
  obtain rfl := eq_of_path_nil h₁ hp
  exact ⟨p₂, h₂, h₃⟩

theorem awaits_of_sent {q' : ClientRequest} (h : SessionStep single p (.sent q') q) : q.Awaits := by
  cases h <;> trivial

theorem not_mayFail_of_awaits (h : p.Awaits) : ¬ p.MayFail := by
  cases p <;> first | exact h.elim | exact id

/-- A reply follows every request. -/
theorem received_of_sent (h : Transcript single (pre ++ .sent c :: post) p) (hp : ¬ p.Awaits) :
    ∃ r post', post = .received r :: post' := by
  obtain ⟨q, q', -, hs, hpost⟩ := Lts.Path.split h
  have haw := awaits_of_sent hs
  cases post with
  | nil => exact absurd (eq_of_path_nil hpost (not_mayFail_of_awaits haw) ▸ haw) hp
  | cons e post =>
    obtain ⟨q'', hs', -⟩ := step_of_path hpost (not_mayFail_of_awaits haw)
    cases hs' <;> first | exact ⟨_, _, rfl⟩ | exact haw.elim | skip
    rename_i hturn
    cases q' <;> first | exact haw.elim | exact hturn.elim

theorem request_eq_none_of_close {m : Option ByteString}
    (h : Transcript single (pre ++ .sent (.close m) :: post) p) : ∀ e ∈ post, e.request = none := by
  obtain ⟨q, q', -, hs, hpost⟩ := Lts.Path.split h
  refine (hpost.stays (X := fun q => q = .awaitClose ∨ q = .closed) ?_ ?_ ?_).1
  · cases hs
    exact .inl rfl
  · rintro q e r (rfl | rfl) hs
    · cases hs with
      | vm h => exact h.elim
      | closeAnswered => exact ⟨rfl, .inr rfl⟩
    · cases hs with
      | vm h => exact h.elim
  · rintro q r (rfl | rfl) ⟨_, hmay⟩ <;> exact hmay.elim

theorem no_run_of_ending (h : (protocol single).Path p post q) (hp : p.Ending) :
    (∀ e ∈ post, e ≠ .sent .run ∧ e ≠ .sent .done) ∧ q.Ending := by
  refine h.stays (A := fun e => e ≠ .sent .run ∧ e ≠ .sent .done) hp ?_ ?_
  · intro q e r hq hs
    cases hs <;> first | exact hq.elim | exact ⟨⟨by simp, by simp⟩, hq⟩
  · rintro q r hq ⟨_, -⟩
    trivial

/-- `MT_RUN` comes after an `MT_DONE` only if that was answered by `MT_DONE`. -/
theorem hasType_done_of_run {r : Reply} (h : Transcript false (pre ++ .sent .done :: .received r :: post) p)
    (hrun : Event.sent .run ∈ post) : r.HasType .mtDone := by
  obtain ⟨q, q', -, hs, hpost⟩ := Lts.Path.split h
  cases hs
  obtain ⟨q', hs, hpost⟩ := step_of_path hpost id
  have hend : ¬ q'.Ending := fun hend => ((no_run_of_ending hpost hend).1 _ hrun).1 rfl
  cases hs with
  | doneAnswered h => exact h
  | doneCleanup => exact absurd trivial hend
  | doneRefused => exact absurd trivial hend
  | doneIgnored h => simp at h

/-- The log ends in an `MT_CLEANUP` reply, but for exchanges of the VM. -/
def AtCleanup (log : List Event) : Prop :=
  ∃ pre r vs, log = pre ++ .received r :: vs ∧ r.HasType .mtCleanup ∧
    ∀ e ∈ vs, ∃ q r', e = .vm q r'

theorem atCleanup (h : Transcript single log .cleanup) : AtCleanup log := by
  refine Lts.Path.invariant h (I := fun l q => q = .cleanup → AtCleanup l) (by simp) ?_ ?_ rfl
  · rintro l q e r hl hs rfl
    cases hs with
    | @vm _ q r' =>
      obtain ⟨pre, r, vs, rfl, hr, hvs⟩ := hl rfl
      refine ⟨pre, r, vs ++ [.vm q r'], by simp, hr, fun e he => ?_⟩
      rcases List.mem_append.mp he with he | he
      · exact hvs e he
      · exact ⟨_, _, List.mem_singleton.mp he⟩
    | runCleanup h => exact ⟨l, _, [], rfl, h, by simp⟩
    | doneCleanup h => exact ⟨l, _, [], rfl, h, by simp⟩
  · rintro l q r hl ⟨_, -⟩ hr
    simp at hr

/-- `MT_FINISHED` is requested right after `MT_CLEANUP`, but for exchanges of the VM. -/
theorem atCleanup_of_finished (h : Transcript single (pre ++ .sent .finished :: post) p) :
    AtCleanup pre := by
  obtain ⟨q, q', hpre, hs, -⟩ := Lts.Path.split h
  cases hs
  exact atCleanup hpre

/-- `MT_FINISHED` was requested and answered by `MT_FINISHED`. -/
def FinishedAnswered (log : List Event) : Prop :=
  ∃ pre r post, log = pre ++ .sent .finished :: .received r :: post ∧ r.HasType .mtFinished

theorem finishedAnswered (h : Transcript single log .finished) : FinishedAnswered log := by
  refine (Lts.Path.invariant h (I := fun l q => (q = .awaitFinished → ∃ pre, l = pre ++ [.sent .finished]) ∧
    (q = .finished → FinishedAnswered l)) (by simp) ?_ ?_).2 rfl
  · rintro l q e r ⟨hawait, hfin⟩ hs
    constructor
    · rintro rfl
      cases hs with
      | vm h => exact h.elim
      | finish => exact ⟨l, rfl⟩
    · rintro rfl
      cases hs with
      | @vm _ q r' =>
        obtain ⟨pre, r, post, rfl, hr⟩ := hfin rfl
        exact ⟨pre, r, post ++ [.vm q r'], by simp, hr⟩
      | finishAnswered h =>
        obtain ⟨pre, rfl⟩ := hawait rfl
        exact ⟨pre, _, [], by simp, h⟩
  · rintro l q r - ⟨_, -⟩
    simp

theorem finished_of_finishedAnswered (h : Transcript single log p) (hfin : FinishedAnswered log) :
    p = .finished := by
  obtain ⟨pre, r, post, rfl, hr⟩ := hfin
  obtain ⟨q, q', -, hs, hpost⟩ := Lts.Path.split h
  cases hs
  obtain ⟨q', hs, hpost⟩ := step_of_path hpost id
  have hq : q' = .finished := by
    cases hs with
    | finishAnswered => rfl
    | finishRefused _ h => exact absurd hr h
  subst hq
  refine (hpost.stays (X := fun q => q = .finished) (A := fun _ => True) rfl ?_ ?_).2
  · rintro q e r rfl hs
    cases hs
    exact ⟨trivial, rfl⟩
  · rintro q r rfl ⟨_, hmay⟩
    exact hmay.elim

/-! ### After a failure -/

/-- The log goes on with exchanges of the VM and then `MT_CLOSE` carrying `msg`. -/
def ClosesWith (msg : ByteString) (log : List Event) : Prop :=
  ∃ vs m post, log = vs ++ .sent (.close (some m)) :: post ∧ msg <:+: m ∧ ∀ e ∈ vs, ∃ q r, e = .vm q r

theorem closesWith_of_failed {msg : ByteString} (h : (protocol single).Path (.failed msg) post p)
    (hp : p = .closed) : ClosesWith msg post := by
  have := h.invariant (I := fun l q => (q = .failed msg ∧ ∀ e ∈ l, ∃ q r, e = .vm q r) ∨
    ((q = .awaitClose ∨ q = .closed) ∧ ClosesWith msg l)) (.inl ⟨rfl, by simp⟩) ?_ ?_
  · rcases this with ⟨rfl, -⟩ | ⟨-, hc⟩
    · simp at hp
    · exact hc
  · rintro l q e r (⟨rfl, hl⟩ | ⟨hq, vs, m, post, rfl, hm, hvs⟩) hs
    · cases hs with
      | vm =>
        refine .inl ⟨rfl, fun e he => ?_⟩
        rcases List.mem_append.mp he with he | he
        · exact hl e he
        · exact ⟨_, _, List.mem_singleton.mp he⟩
      | close hm _ => exact .inr ⟨.inl rfl, l, _, [], rfl, hm, hl⟩
    · refine .inr ⟨?_, vs, m, post ++ [e], by simp, hm, hvs⟩
      rcases hq with rfl | rfl
      · cases hs with
        | vm h => exact h.elim
        | closeAnswered => exact .inr rfl
      · cases hs with
        | vm h => exact h.elim
  · rintro l q r (⟨rfl, hl⟩ | ⟨rfl | rfl, -⟩) ⟨_, hmay⟩ <;> exact hmay.elim

/-- A run that reports failure by `false`: what follows. -/
theorem after_runFailed {msg : ByteString} (hne : msg ≠ [])
    (h : Transcript single (pre ++ .ran (.returned false msg) :: post) p) :
    (protocol single).Path (.failed msg) post p := by
  obtain ⟨q, q', -, hs, hpost⟩ := Lts.Path.split h
  cases hs with
  | runAgain => exact absurd rfl hne
  | runFailed => exact hpost

theorem done_of_ran (h : (protocol single).Path .ran post p) (hp : p ≠ .ran) :
    ∃ post', post = .sent .done :: post' := by
  cases post with
  | nil => exact absurd (eq_of_path_nil h id).symm hp
  | cons e post =>
    obtain ⟨q', hs, -⟩ := step_of_path h id
    cases hs with
    | vm hturn => exact hturn.elim
    | done => exact ⟨post, rfl⟩

/-- A run that reports anything else than `false`, be it by an exception of the VM's own kind:
`MT_DONE` comes next. -/
theorem after_runDone {o : RunOutcome} (ho : (∃ msg, o = .returned true msg) ∨
      ∃ reason, o = .raised (.swigvm reason))
    (h : Transcript single (pre ++ .ran o :: post) p) (hp : p ≠ .ran) :
    ∃ post', post = .sent .done :: post' := by
  obtain ⟨q, q', -, hs, hpost⟩ := Lts.Path.split h
  obtain rfl : q' = .ran := by
    rcases ho with ⟨msg, rfl⟩ | ⟨reason, rfl⟩ <;> cases hs
    · rfl
    · rfl
    · rename_i hne
      exact absurd rfl (hne reason)
  exact done_of_ran hpost hp

theorem run_of_idle (h : (protocol single).Path .idle post p) :
    post = [] ∨ ∃ post', post = .sent .run :: post' := by
  cases post with
  | nil => exact .inl rfl
  | cons e post =>
    obtain ⟨q', hs, -⟩ := step_of_path h id
    cases hs with
    | vm hturn => exact hturn.elim
    | nextRun => exact .inr ⟨post, rfl⟩

end Transcript

end UdfRunner
