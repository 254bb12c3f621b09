import UdfRunner.SessionLaws

/-!
# What single calls promise

`singleCall_endsAtCleanup_iff`: when `MT_CLEANUP` ends a single-call session.
-/

namespace UdfRunner
open Proc Client Transcript

/-- The requests of the session, without those of the VM. -/
def sessionRequests (log : List Event) : List ClientRequest :=
  log.filterMap fun
    | .sent q => some q
    | _ => none

@[simp] theorem sessionRequests_append (l l' : List Event) :
    sessionRequests (l ++ l') = sessionRequests l ++ sessionRequests l' := List.filterMap_append ..

@[simp] theorem sessionRequests_sent (q : ClientRequest) : sessionRequests [.sent q] = [q] := rfl

def Finishes (log : List Event) : Prop := ∃ m, (sessionRequests log).Sublist [.finished, .close m]

/-- The requests an `MT_CLEANUP` reply ends the session after. -/
def ClientRequest.MayCleanup : ClientRequest → Prop
  | .run | .done | .callResult _ => True
  | _ => False

def EndsAtCleanup (log : List Event) : Prop :=
  ∀ pre q r post, log = pre ++ .sent q :: .received r :: post → q.MayCleanup → r.HasType .mtCleanup →
    Finishes post

/-- After the loop: what has been requested, by the phase reached. -/
def Requested (l : List Event) : Phase → Prop
  | .cleanup => sessionRequests l = []
  | .awaitFinished | .finished | .failed _ => (sessionRequests l).Sublist [.finished]
  | .awaitClose | .closed => Finishes l
  | _ => False

theorem Requested.finishes {l : List Event} {p : Phase} (h : Requested l p) : Finishes l := by
  have hclose : [ClientRequest.finished].Sublist [.finished, .close none] := by decide
  cases p <;> first | exact h.elim | exact h | skip
  · exact ⟨none, by rw [show sessionRequests l = [] from h]; exact List.nil_sublist _⟩
  all_goals exact ⟨none, List.Sublist.trans h hclose⟩

/-- Once the loop is left the requests come in order. -/
theorem Requested.of_path {single : Bool} {p q : Phase} {l : List Event}
    (h : (protocol single).Path p l q) (hp : Requested [] p) : Requested l q := by
  refine h.invariant (I := Requested) hp ?_ ?_
  · intro l q e r hq hs
    have hquiet : sessionRequests [e] = [] → sessionRequests (l ++ [e]) = sessionRequests l := by
      intro he
      rw [sessionRequests_append, he, List.append_nil]
    cases hs with
    | vm hturn =>
      have hl := hquiet rfl
      cases q <;> first | exact hq.elim | exact hturn.elim | skip
      all_goals simpa only [Requested, hl] using hq
    | finish =>
      show (sessionRequests _).Sublist _
      rw [sessionRequests_append, show sessionRequests l = [] from hq]
      exact List.Sublist.refl _
    | finishAnswered | finishRefused =>
      show (sessionRequests _).Sublist _
      rw [hquiet rfl]
      exact hq
    | @close _ m =>
      refine ⟨some m, ?_⟩
      rw [sessionRequests_append]
      exact List.Sublist.append hq (List.Sublist.refl (sessionRequests [.sent (.close (some m))]))
    | closeAnswered =>
      obtain ⟨m, hm⟩ := hq
      exact ⟨m, by rw [hquiet rfl]; exact hm⟩
    | _ => exact hq.elim
  · rintro l q r hq ⟨msg, hmay⟩
    cases q <;> first | exact hq.elim | exact hmay.elim | skip
    show (sessionRequests l).Sublist _
    rw [show sessionRequests l = [] from hq]
    exact List.nil_sublist _

theorem Ends.ne_ran {o : Outcome Exception Nat} {p : Phase} (h : Ends o p) : p ≠ .ran := by
  rintro rfl
  rcases o with code | e | r
  · rcases h with ⟨-, h⟩ | ⟨-, h⟩ <;> cases h
  · exact h
  · exact h

theorem Reply.HasType.unique {r : Reply} {t t' : MessageType} (h : r.HasType t) (h' : r.HasType t') :
    t = t' := by
  cases r with
  | unparsable _ => exact h.elim
  | message r => exact (show r.type = t from h).symm.trans h'

/-- `MT_CLEANUP` ends a single-call session if and only if it never is the answer to `MT_RETURN`. -/
theorem singleCall_endsAtCleanup_iff {σ : Type} (env : Environment) (container : Container σ)
    (socketName : ByteString) (fuel : Nat) (log : List Event)
    (hlog : sessionLog (exaudfclientMain env container socketName fuel {}).2.log = some (true, log)) :
    EndsAtCleanup log ↔ ∀ pre s r post, log = pre ++ .sent (.callResult s) :: .received r :: post →
      ¬ r.HasType .mtCleanup := by
  obtain ⟨p, ht, hends⟩ := exaudfclientMain_transcript env container socketName fuel true log hlog
  constructor
  · rintro h pre s r post rfl hcleanup
    obtain ⟨q, q', -, hs, hpost⟩ := Lts.Path.split ht
    cases hs
    obtain ⟨q', hs, hpost⟩ := step_of_path hpost id
    cases hs with
    | resultAnswered =>
      obtain ⟨post', rfl⟩ := done_of_ran hpost hends.ne_ran
      obtain ⟨m, hm⟩ := h pre _ r _ rfl trivial hcleanup
      have hmem : ClientRequest.done ∈ [ClientRequest.finished, .close m] := hm.subset (by simp [sessionRequests])
      simp at hmem
    | resultIgnored _ hcl => exact hcl rfl hcleanup
  · rintro h pre q r post rfl hq hcleanup
    obtain ⟨q₁, q₂, -, hs, hpost⟩ := Lts.Path.split ht
    cases hs with
    | firstRun | nextRun =>
      obtain ⟨q', hs, hpost⟩ := step_of_path hpost id
      cases hs with
      | runAnswered hsingle => cases hsingle
      | callAnswered _ hr => rcases hr with hr | hr <;> cases hr.unique hcleanup
      | runCleanup => exact (Requested.of_path hpost rfl).finishes
      | runRefused => exact (Requested.of_path hpost (List.nil_sublist _)).finishes
    | done =>
      obtain ⟨q', hs, hpost⟩ := step_of_path hpost id
      cases hs with
      | doneAnswered hr => cases hr.unique hcleanup
      | doneCleanup => exact (Requested.of_path hpost rfl).finishes
      | doneRefused => exact (Requested.of_path hpost (List.nil_sublist _)).finishes
      | doneIgnored _ _ hcl => exact absurd hcleanup hcl
    | result => exact absurd hcleanup (h pre _ r post rfl)
    | undefined | finish | close => exact hq.elim

/-! ### Sessions to try -/

/-- A VM that answers every call by `ok`, or by the mark of a function it lacks. -/
def callContainer (lacks : SingleCallFunctionId → Bool) : Container Unit where
  make _ := return some { state := () }
  run _ := return true
  singleCall _ fn _ := do
    if lacks fn then modify fun s => ({ s.1 with calledUndefinedSingleCall := str "missing" }, s.2)
    return some (str "ok")
  shutdown _ := return ()
  destroy _ := return ()
  shutdown_ends _ _ h := h
  destroy_returns _ _ := rfl

/-- A database that gives its replies in order. -/
def replying (replies : List Reply) : Server := fun past => replies.getD (past.length - 1) (reply .mtFinished)

/-- The handshake of a single-call session, and what comes next. -/
def callReplies (replies : List Reply) : List Reply :=
  reply .mtInfo :: .message { type := .mtMeta, metadata := { singleCallMode := true } } :: replies

def callReply (fn : SingleCallFunctionId) : Reply :=
  .message { type := .mtCall, call := { fn := fn, jsonArg := some [] } }

def tryCalls (lacks : SingleCallFunctionId → Bool) (replies : List Reply) :
    Outcome Exception Nat × World Unit :=
  exaudfclientMain { server := replying (callReplies replies) } (callContainer lacks) (str "ipc:///tmp/try") 4 {}

def tryCallsLog (lacks : SingleCallFunctionId → Bool) (replies : List Reply) : List Event :=
  ((sessionLog (tryCalls lacks replies).2.log).map Prod.snd).getD []

/-- The reply to `MT_RETURN` is `MT_CLEANUP`. -/
def cleanupInReturn : List Reply :=
  [callReply .scFnDefaultOutputColumns, reply .mtCleanup, reply .mtDone, reply .mtCleanup]

theorem singleCall_endsAtCleanup_iff_try :
    ¬ EndsAtCleanup (tryCallsLog (fun _ => false) cleanupInReturn) := by
  have hiff := singleCall_endsAtCleanup_iff { server := replying (callReplies cleanupInReturn) }
    (callContainer fun _ => false) (str "ipc:///tmp/try") 4
    (tryCallsLog (fun _ => false) cleanupInReturn) (by decide +kernel)
  intro hends
  exact hiff.mp hends [.sent .run, .received (callReply .scFnDefaultOutputColumns), .called none] (str "ok")
    (reply .mtCleanup) [.sent .done, .received (reply .mtDone), .sent .run, .received (reply .mtCleanup),
      .sent .finished, .received (reply .mtFinished)] (by decide +kernel) rfl

/-- `MT_DONE` follows it. -/
theorem singleCall_doneAfterCleanup :
    ¬ ∀ (σ : Type) (env : Environment) (container : Container σ) (socketName : ByteString) (fuel : Nat)
      (log : List Event), sessionLog (exaudfclientMain env container socketName fuel {}).2.log = some (true, log) →
      EndsAtCleanup log := by
  intro h
  have hends := h Unit { server := replying (callReplies cleanupInReturn) } (callContainer fun _ => false)
    (str "ipc:///tmp/try") 4 (tryCallsLog (fun _ => false) cleanupInReturn) (by decide +kernel)
  obtain ⟨m, hm⟩ := hends [.sent .run, .received (callReply .scFnDefaultOutputColumns), .called none]
    (.callResult (str "ok")) (reply .mtCleanup) [.sent .done, .received (reply .mtDone), .sent .run,
      .received (reply .mtCleanup), .sent .finished, .received (reply .mtFinished)] (by decide +kernel)
    trivial rfl
  have hmem : ClientRequest.done ∈ [ClientRequest.finished, .close m] := hm.subset (by decide)
  simp at hmem

end UdfRunner
