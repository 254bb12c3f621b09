import UdfRunner.Handshake
import UdfRunner.SingleCalls
import UdfRunner.VmShutdown

/-!
# Single calls and what earlier ones left

Function, argument and the mark of a missing function outlive a call. `CallTold` is what holds of every
call, `CallFits` what single calls promise; `singleCalls_fit_iff` says when the two agree.
-/

namespace UdfRunner
open Proc Client

def ClientRequest.IsAnswer : ClientRequest → Prop
  | .callResult _ | .undefinedCall _ => True
  | _ => False

/-- The right answer to a call that returned `result`; `missing` says whether its function is missing. -/
def Answers (missing : Prop) (result : Option ByteString) : ClientRequest → Prop
  | .undefinedCall _ => missing
  | .callResult s => ¬ missing ∧ ∃ r, result = some r ∧ s = cstr r
  | _ => False

theorem Answers.isAnswer {missing : Prop} {result : Option ByteString} {q : ClientRequest}
    (h : Answers missing result q) : q.IsAnswer := by
  cases q <;> first | exact trivial | exact h.elim

theorem Answers.congr {missing missing' : Prop} {result : Option ByteString} {q : ClientRequest}
    (hmissing : missing ↔ missing') : Answers missing result q ↔ Answers missing' result q := by
  rw [propext hmissing]

def nextRequest (log : List Event) (n : Nat) : Option ClientRequest := (sessionRequests (log.drop n)).head?

def leftMark (calls : List VmCall) : ByteString :=
  (calls.filterMap fun
    | .singleCall _ _ _ _ _ mark => some mark
    | .shutdown .. => none).getLast?.getD []

section
variable (lacks : SingleCallFunctionId → Bool)

/-- What is promised of a call that was made when the log had `n` events: it is that of the `MT_CALL` the
last `MT_RUN` was answered with, and where it returns and the VM has no complaint it is answered, rightly. A
null pointer is no result. -/
structure CallFits (log : List Event) (n : Nat) (fn : SingleCallFunctionId) (arg : ScriptDto)
    (o : Outcome Exception (Option ByteString)) (msg : ByteString) : Prop where
  read : ∃ pre r, log.take n = pre ++ [.sent .run, .received (.message r)] ∧ r.type = .mtCall ∧
    fn = r.call.fn ∧ decodeArgument r.call = some arg
  right : ∀ q, nextRequest log n = some q → q.IsAnswer →
    ∃ result, o = .ok result ∧ msg = [] ∧ Answers (lacks fn = true) result q
  answered : ∀ result, o = .ok result → msg = [] → (lacks fn = true ∨ result.isSome) →
    ∃ q, nextRequest log n = some q ∧ q.IsAnswer

/-- What holds of every call; `before` is the mark it found. -/
structure CallTold (before : ByteString) (log : List Event) (n : Nat) (fn : SingleCallFunctionId)
    (arg : ScriptDto) (o : Outcome Exception (Option ByteString)) (msg mark : ByteString) : Prop where
  le : n ≤ log.length
  read : ∃ pre r, log.take n = pre ++ [.sent .run, .received (.message r)] ∧ (r.type = .mtRun ∨
    (r.type = .mtCall ∧ fn = r.call.fn ∧ decodeArgument r.call = some arg))
  marked : lacks fn = true → mark ≠ []
  unmarked : lacks fn = false → mark = [] ∨ mark = before
  right : ∀ q, nextRequest log n = some q → q.IsAnswer →
    ∃ result, o = .ok result ∧ msg = [] ∧ Answers (mark ≠ []) result q
  answered : ∀ result, o = .ok result → msg = [] → (mark ≠ [] ∨ result.isSome) →
    ∃ q, nextRequest log n = some q ∧ q.IsAnswer

def Told (log : List Event) (calls : List VmCall) : Prop :=
  ∀ pre n fn arg o msg mark post, calls = pre ++ .singleCall n fn arg o msg mark :: post →
    CallTold lacks (leftMark pre) log n fn arg o msg mark

def Followed (log : List Event) (calls : List VmCall) : Prop :=
  ∀ n fn arg o msg mark, .singleCall n fn arg o msg mark ∈ calls → nextRequest log n ≠ none

end

section
variable {lacks : SingleCallFunctionId → Bool} {log post : List Event} {calls : List VmCall} {n : Nat}
  {fn : SingleCallFunctionId} {arg : ScriptDto} {o : Outcome Exception (Option ByteString)}
  {msg mark before : ByteString} {q : ClientRequest}

theorem leftMark_snoc : leftMark (calls ++ [.singleCall n fn arg o msg mark]) = mark := by
  simp [leftMark]

theorem nextRequest_append (hle : n ≤ log.length) : nextRequest (log ++ post) n =
    (nextRequest log n).or (sessionRequests post).head? := by
  rw [nextRequest, List.drop_append_of_le_length hle, sessionRequests_append, List.head?_append]
  rfl

theorem CallTold.append (h : CallTold lacks before log n fn arg o msg mark)
    (hpost : nextRequest log n = none → ∀ q, (sessionRequests post).head? = some q → ¬ q.IsAnswer) :
    CallTold lacks before (log ++ post) n fn arg o msg mark := by
  refine ⟨?_, ?_, h.marked, h.unmarked, ?_, ?_⟩
  · have hle := h.le
    rw [List.length_append]
    omega
  · rw [List.take_append_of_le_length h.le]
    exact h.read
  · intro q hq hanswer
    rw [nextRequest_append h.le] at hq
    cases hnext : nextRequest log n with
    | none =>
      rw [hnext, Option.none_or] at hq
      exact absurd hanswer (hpost hnext q hq)
    | some q' =>
      rw [hnext, Option.some_or] at hq
      exact h.right q (hnext.trans hq) hanswer
  · intro result ho hmsg hsent
    obtain ⟨q, hq, hanswer⟩ := h.answered result ho hmsg hsent
    exact ⟨q, by rw [nextRequest_append h.le, hq, Option.some_or], hanswer⟩

def NoAnswer (post : List Event) : Prop := ∀ q, (sessionRequests post).head? = some q → ¬ q.IsAnswer

theorem Told.quiet (h : Told lacks log calls) (hpost : NoAnswer post) : Told lacks (log ++ post) calls :=
  fun pre n fn arg o msg mark post' heq => (h pre n fn arg o msg mark post' heq).append fun _ => hpost

theorem Told.followed (h : Told lacks log calls) (hf : Followed log calls) :
    Told lacks (log ++ post) calls := by
  intro pre n fn arg o msg mark post' heq
  have hmem : VmCall.singleCall n fn arg o msg mark ∈ calls := by rw [heq]; simp
  exact (h pre n fn arg o msg mark post' heq).append fun hnone => absurd hnone (hf n fn arg o msg mark hmem)

theorem Told.le (h : Told lacks log calls) (hmem : .singleCall n fn arg o msg mark ∈ calls) :
    n ≤ log.length := by
  obtain ⟨pre, post', heq⟩ := List.append_of_mem hmem
  exact (h pre n fn arg o msg mark post' heq).le

theorem Followed.append (h : Followed log calls) (hle : ∀ n fn arg o msg mark,
    .singleCall n fn arg o msg mark ∈ calls → n ≤ log.length) : Followed (log ++ post) calls := by
  intro n fn arg o msg mark hmem
  rw [nextRequest_append (hle n fn arg o msg mark hmem)]
  have hne := h n fn arg o msg mark hmem
  simp [hne]

theorem followed_snoc (hle : ∀ n fn arg o msg mark, .singleCall n fn arg o msg mark ∈ calls →
    n ≤ log.length) : Followed (log ++ [.sent q]) calls := by
  intro n fn arg o msg mark hmem
  rw [nextRequest_append (hle n fn arg o msg mark hmem)]
  simp [sessionRequests]

theorem eq_or_exists_of_snoc {α : Type} {l pre post : List α} {a b : α} (h : l ++ [b] = pre ++ a :: post) :
    (l = pre ∧ b = a) ∨ ∃ post', l = pre ++ a :: post' := by
  rcases List.eq_nil_or_concat post with rfl | ⟨post', c, rfl⟩
  · obtain ⟨h₁, h₂⟩ := List.append_inj' h rfl
    exact .inl ⟨h₁, by simpa using h₂⟩
  · have h' : l ++ [b] = (pre ++ a :: post') ++ [c] := by simpa using h
    exact .inr ⟨post', (List.append_inj' h' rfl).1⟩

theorem Told.snoc {c : VmCall} (h : Told lacks log calls)
    (hc : ∀ n fn arg o msg mark, c = .singleCall n fn arg o msg mark →
      CallTold lacks (leftMark calls) log n fn arg o msg mark) : Told lacks log (calls ++ [c]) := by
  intro pre n fn arg o msg mark post heq
  rcases eq_or_exists_of_snoc heq with ⟨rfl, rfl⟩ | ⟨post', heq'⟩
  · exact hc n fn arg o msg mark rfl
  · exact h pre n fn arg o msg mark post' heq'

theorem Told.call (h : Told lacks log calls) (hf : Followed log calls)
    (hread : ∃ pre r, log = pre ++ [.sent .run, .received (.message r)] ∧ (r.type = .mtRun ∨
      (r.type = .mtCall ∧ fn = r.call.fn ∧ decodeArgument r.call = some arg)))
    (hmarked : lacks fn = true → mark ≠ []) (hunmarked : lacks fn = false → mark = [] ∨ mark = leftMark calls)
    (hright : ∀ q, (sessionRequests post).head? = some q → q.IsAnswer →
      ∃ result, o = .ok result ∧ msg = [] ∧ Answers (mark ≠ []) result q)
    (hanswered : ∀ result, o = .ok result → msg = [] → (mark ≠ [] ∨ result.isSome) →
      ∃ q, (sessionRequests post).head? = some q ∧ q.IsAnswer) :
    Told lacks (log ++ post) (calls ++ [.singleCall log.length fn arg o msg mark]) := by
  refine (h.followed hf).snoc fun n fn' arg' o' msg' mark' heq => ?_
  cases heq
  have hnext : nextRequest (log ++ post) log.length = (sessionRequests post).head? := by
    rw [nextRequest, List.drop_left]
  refine ⟨by simp, ?_, hmarked, hunmarked, ?_, ?_⟩
  · rw [List.take_left]
    exact hread
  · rw [hnext]
    exact hright
  · rw [hnext]
    exact hanswered

end

/-! ### The VM -/

/-- The VM marks exactly the calls of functions it lacks, and begins without a mark. What becomes of a mark in
the calls of other functions is up to it: it stays, or is taken away. -/
structure Marks {σ : Type} (container : Container σ) (S : Session) (lacks : SingleCallFunctionId → Bool) :
    Prop where
  made : ∀ c vm, (container.make S c).1 = .ok (some vm) → vm.calledUndefinedSingleCall = []
  marked : ∀ fn arg s, lacks fn = true →
    (container.singleCall S fn arg s).2.1.calledUndefinedSingleCall ≠ []
  unmarked : ∀ fn arg s, lacks fn = false →
    (container.singleCall S fn arg s).2.1.calledUndefinedSingleCall = [] ∨
      (container.singleCall S fn arg s).2.1.calledUndefinedSingleCall = s.1.calledUndefinedSingleCall

/-- Between two requests of the loop. -/
structure Between {σ : Type} (env : Environment) (S : Session) (lacks : SingleCallFunctionId → Bool)
    (w : World σ) : Prop where
  told : Told lacks w.log w.calls
  marked : ∀ vm, w.vm = some vm → vm.calledUndefinedSingleCall = leftMark w.calls
  session : w.session env = S
  vm : w.vm.isSome
  mode : w.singleCallMode = true

/-- `MT_RUN` was answered, by `MT_CALL` with the function and the argument in the globals, or by
`MT_RUN`. -/
structure Opened {σ : Type} (env : Environment) (S : Session) (lacks : SingleCallFunctionId → Bool)
    (w : World σ) : Prop extends Between env S lacks w where
  followed : Followed w.log w.calls
  read : ∃ pre r, w.log = pre ++ [.sent .run, .received (.message r)] ∧ (r.type = .mtRun ∨
    (r.type = .mtCall ∧ w.singleCallFunction = r.call.fn ∧
      decodeArgument r.call = some (argument w.singleCallFunction w)))

/-- The VM was called and returned `result`: the right answer leaves everything in order, and where the VM has
a complaint, or nothing to answer with, so does silence. -/
structure Invoked {σ : Type} (env : Environment) (S : Session) (lacks : SingleCallFunctionId → Bool)
    (result : Option ByteString) (w : World σ) : Prop where
  marked : ∀ vm, w.vm = some vm → vm.calledUndefinedSingleCall = leftMark w.calls
  session : w.session env = S
  vm : w.vm.isSome
  mode : w.singleCallMode = true
  silent : ∀ vm, w.vm = some vm → (vm.exceptionMsg = [] → vm.calledUndefinedSingleCall = [] ∧ result = none) →
    Told lacks w.log w.calls
  answered : ∀ vm q l, w.vm = some vm → vm.exceptionMsg = [] →
    Answers (vm.calledUndefinedSingleCall ≠ []) result q → sessionRequests l = [] →
    Told lacks (w.log ++ l ++ [.sent q]) w.calls ∧ Followed (w.log ++ l ++ [.sent q]) w.calls

section
variable {σ α : Type} {env : Environment} {container : Container σ} {S : Session}
  {lacks : SingleCallFunctionId → Bool} {w : World σ}

def AllTold (lacks : SingleCallFunctionId → Bool) (w : World σ) : Prop := Told lacks w.log w.calls

theorem Between.allTold (h : Between env S lacks w) : AllTold lacks w := h.told

/-- What a part of the loop comes to. -/
abbrev Calls (env : Environment) (S : Session) (lacks : SingleCallFunctionId → Bool)
    (Q : α → World σ → Prop) : Outcome Exception α → World σ → Prop :=
  Yields Q (Between env S lacks) (AllTold lacks)

theorem Between.exchange (h : Between env S lacks w) {q : ClientRequest} (hq : ¬ q.IsAnswer) :
    Between env S lacks (w.afterExchange env q) := by
  refine ⟨?_, h.marked, h.session, h.vm, h.mode⟩
  show Told lacks (w.log ++ [Event.sent q] ++ [Event.received (w.reply env q)]) w.calls
  rw [List.append_assoc]
  refine h.told.quiet fun q' hq' => ?_
  obtain rfl : q = q' := by simpa [sessionRequests] using hq'
  exact hq

theorem Between.same {w' : World σ} (h : Between env S lacks w) (hsame : SameButCall w w') :
    Between env S lacks w' := by
  rw [hsame]
  exact ⟨h.told, h.marked, h.session, h.vm, h.mode⟩

theorem wp_sendRun_opened (h : Between env S lacks w) :
    wp (sendRun env) (Calls env S lacks fun go w' =>
      if go then Opened env S lacks w' else Between env S lacks w') w := by
  simp only [sendRun, wp_bind, wp_exchange, Outcome.andThen_ok]
  have hafter : Between env S lacks (w.afterExchange env .run) := h.exchange id
  have hle : ∀ n fn arg o msg mark, VmCall.singleCall n fn arg o msg mark ∈ w.calls → n ≤ w.log.length :=
    fun n fn arg o msg mark hmem => h.told.le hmem
  have hfollowed : Followed (w.afterExchange env .run).log w.calls :=
    (followed_snoc hle).append fun n fn arg o msg mark hmem => (hle n fn arg o msg mark hmem).trans (by simp)
  cases hreply : w.reply env .run with
  | unparsable _ => exact hafter
  | message r =>
    have hlog : (w.afterExchange env .run).log = w.log ++ [.sent .run, .received (.message r)] := by
      rw [World.afterExchange, hreply, List.append_assoc]
      rfl
    simp only [wp_bind, wp_get, Outcome.andThen_ok, wp_ite, hafter.mode]
    split_ifs with hclose hcl hcall hne
    · exact hafter
    · exact hafter
    · refine wp_readCall (fun w' hsame hfn hdecode => ?_) fun e w' hsame => hafter.same hsame
      have hlog' : w'.log = w.log ++ [.sent .run, .received (.message r)] := by rw [hsame]; exact hlog
      have hfollowed' : Followed w'.log w'.calls := by rw [hsame]; exact hfollowed
      have hopened : Opened env S lacks w' := by
        refine ⟨hafter.same hsame, hfollowed', w.log, r, hlog', .inr ⟨hcall.2, hfn, ?_⟩⟩
        rw [hfn]
        exact hdecode
      exact hopened
    · exact hafter
    · exact ⟨hafter, hfollowed, w.log, r, hlog, .inl (not_not.mp hne)⟩

@[simp] theorem sessionRequests_vms (l : List (VmRequest × Reply)) :
    sessionRequests (l.map fun e => Event.vm e.1 e.2) = [] := by
  simp [sessionRequests]

theorem wp_singleCall (hmarks : Marks container S lacks) (h : Opened env S lacks w) :
    wp (noted (.ofSingleCall w.log.length w.singleCallFunction (argument w.singleCallFunction w))
      (callVm env fun S => container.singleCall S w.singleCallFunction (argument w.singleCallFunction w)))
      (Calls env S lacks (Invoked env S lacks)) w := by
  obtain ⟨vm, hvm⟩ := Option.isSome_iff_exists.mp h.vm
  rw [wp_noted, wp_callVm_some hvm, h.session]
  have hmarked := hmarks.marked w.singleCallFunction (argument w.singleCallFunction w) (vm, w.channel)
  have hunmarked := hmarks.unmarked w.singleCallFunction (argument w.singleCallFunction w) (vm, w.channel)
  rcases hrun : container.singleCall S w.singleCallFunction (argument w.singleCallFunction w)
    (vm, w.channel) with ⟨o, vm', c⟩
  rw [hrun] at hmarked hunmarked
  rw [h.marked vm hvm] at hunmarked
  rw [wp, hrun]
  let vms : List Event := c.exchanges.map fun e => .vm e.1 e.2
  let call : VmCall := .singleCall w.log.length w.singleCallFunction (argument w.singleCallFunction w) o
    vm'.exceptionMsg vm'.calledUndefinedSingleCall
  let w' : World σ := { w.afterVm env c with vm := some vm', calls := w.calls ++ [call] }
  have htold : ∀ post, (∀ q, (sessionRequests post).head? = some q → q.IsAnswer →
        ∃ result, o = .ok result ∧ vm'.exceptionMsg = [] ∧ Answers (vm'.calledUndefinedSingleCall ≠ []) result q) →
      (∀ result, o = .ok result → vm'.exceptionMsg = [] →
        (vm'.calledUndefinedSingleCall ≠ [] ∨ result.isSome) →
        ∃ q, (sessionRequests post).head? = some q ∧ q.IsAnswer) → Told lacks (w.log ++ post) w'.calls :=
    fun post hright hanswered => h.told.call h.followed h.read hmarked hunmarked hright hanswered
  have hvms : ∀ q, (sessionRequests vms).head? = some q → q.IsAnswer →
      ∃ result, o = .ok result ∧ vm'.exceptionMsg = [] ∧
        Answers (vm'.calledUndefinedSingleCall ≠ []) result q := by simp [vms]
  have hleft : ∀ vm, w'.vm = some vm → vm.calledUndefinedSingleCall = leftMark w'.calls := by
    rintro _ ⟨⟩
    exact leftMark_snoc.symm
  have hthrew : (∀ result, o ≠ .ok result) → Between env S lacks w' := fun ho =>
    ⟨htold vms hvms fun result heq => absurd heq (ho result), hleft, h.session, rfl, h.mode⟩
  cases o with
  | ok result =>
    have hinvoked : Invoked env S lacks result w' := by
      refine ⟨hleft, h.session, rfl, h.mode, ?_, ?_⟩
      · rintro _ ⟨⟩ hsilent
        refine htold vms hvms fun result' heq hmsg hsent => ?_
        cases heq
        obtain ⟨hmark, rfl⟩ := hsilent hmsg
        exact absurd hsent (by simp [hmark])
      · rintro _ q l ⟨⟩ hmsg hq hl
        have hlog : w'.log ++ l ++ [.sent q] = w.log ++ (vms ++ l ++ [.sent q]) := by
          simp [w', vms, World.afterVm]
        have hhead : (sessionRequests (vms ++ l ++ [.sent q])).head? = some q := by simp [hl, vms]
        have htold' : Told lacks (w'.log ++ l ++ [.sent q]) w'.calls := by
          rw [hlog]
          refine htold _ (fun q' hq' _ => ?_) fun _ _ _ _ => ⟨q, hhead, hq.isAnswer⟩
          obtain rfl : q = q' := Option.some.inj (hhead.symm.trans hq')
          exact ⟨result, rfl, hmsg, hq⟩
        refine ⟨htold', followed_snoc fun n fn arg o' msg mark hmem => ?_⟩
        rcases List.mem_append.mp hmem with hmem | hmem
        · exact (h.told.le hmem).trans (by simp [w', World.afterVm])
        · obtain ⟨rfl, -⟩ := VmCall.singleCall.inj (List.mem_singleton.mp hmem)
          simp [w', World.afterVm]
    exact hinvoked
  | throw e => exact hthrew (by simp)
  | stop r => exact (hthrew (by simp)).told

theorem Invoked.same {w' : World σ} {result : Option ByteString} (h : Invoked env S lacks result w)
    (hsame : SameButCall w w') : Invoked env S lacks result w' := by
  rw [hsame]
  exact ⟨h.marked, h.session, h.vm, h.mode, h.silent, h.answered⟩

theorem wp_dispatchCall_invoked (hmarks : Marks container S lacks) (h : Opened env S lacks w) :
    wp (dispatchCall env container) (Calls env S lacks (Invoked env S lacks)) w := by
  have hcall := wp_singleCall hmarks h
  have hreset : ∀ {m : Client σ (Option ByteString)} {c : Bool} {f : World σ → World σ},
      wp m (Calls env S lacks (Invoked env S lacks)) w → (∀ w', SameButCall w' (f w')) →
      wp (do assert env c; let result ← m; modify f; return result)
        (Calls env S lacks (Invoked env S lacks)) w := by
    intro m c f hm hf
    rw [wp_bind]
    refine wp_assert ?_ h.allTold
    exact Yields.bind hm fun result w' h' => h'.same (hf w')
  simp only [dispatchCall, wp_bind (m := Proc.get), wp_get, Outcome.andThen_ok]
  cases hfn : w.singleCallFunction with
  | scFnNil =>
    have hle : ∀ n fn arg o msg mark, VmCall.singleCall n fn arg o msg mark ∈ w.calls → n ≤ w.log.length :=
      fun n fn arg o msg mark hmem => h.told.le hmem
    have hnothing : Invoked env S lacks none w := by
      refine ⟨h.marked, h.session, h.vm, h.mode, fun _ _ _ => h.told, fun vm q l _ _ _ _ => ?_⟩
      rw [List.append_assoc]
      exact ⟨h.told.followed h.followed, h.followed.append hle⟩
    exact hnothing
  | scFnDefaultOutputColumns | scFnVirtualSchemaAdapterCall =>
    rw [hfn] at hcall
    exact hcall
  | scFnGenerateSqlForImportSpec | scFnGenerateSqlForExportSpec =>
    rw [hfn] at hcall
    exact hreset hcall fun _ => rfl

/-- The loop is left, by `break` or with a code. -/
def LoopLeft (env : Environment) (S : Session) (lacks : SingleCallFunctionId → Bool) :
    Option Nat → World σ → Prop
  | none, w => Between env S lacks w
  | some _, w => AllTold lacks w

/-- No request in these events is an answer. -/
def Event.Unanswering (e : Event) : Prop := ∀ q, e = .sent q → ¬ q.IsAnswer

theorem Told.appends {w' : World σ} (h : Told lacks w.log w.calls)
    (hw : Appends Event.Unanswering (fun c => ∃ b o, c = .shutdown b o) w w') :
    Told lacks w'.log w'.calls := by
  obtain ⟨⟨post, hlog, hpost⟩, ⟨cs, hcalls, hcs⟩⟩ := hw
  rw [hlog, hcalls]
  have hquiet : NoAnswer post := by
    intro q hq
    obtain ⟨e, he, heq⟩ := List.mem_filterMap.mp (List.mem_of_mem_head? hq)
    cases e with
    | sent q' =>
      obtain rfl : q' = q := by simpa using heq
      exact hpost _ he q' rfl
    | _ => simp at heq
  clear hcalls
  induction cs using List.reverseRecOn with
  | nil =>
    rw [List.append_nil]
    exact h.quiet hquiet
  | append_singleton cs c ih =>
    rw [← List.append_assoc]
    refine (ih fun c' hc' => hcs c' (by simp [hc'])).snoc fun n fn arg o msg mark heq => ?_
    obtain ⟨b, o', rfl⟩ := hcs c (by simp)
    cases heq

/-- Past the loop no call is made, and no request is an answer. -/
theorem AllTold.moves {m : Client σ α} (h : AllTold lacks w)
    (hm : Moves (Appends Event.Unanswering fun c => ∃ b o, c = .shutdown b o) m) :
    wp m (fun _ => AllTold lacks) w := Told.appends h (hm w)

theorem AllTold.handleError {msg : ByteString} {shutdown : Bool} (h : AllTold lacks w) :
    wp (handleError env container msg shutdown) (fun _ => AllTold lacks) w :=
  h.moves (Appends.handleError (fun _ _ _ => nofun)
    (fun _ q hq => by cases hq; exact id) (fun _ _ => nofun) fun b o => ⟨b, o, rfl⟩)

theorem wp_doneRound_left (h : Between env S lacks w) :
    wp (doneRound env) (Calls env S lacks (Sum.elim (fun _ => Between env S lacks)
      (LoopLeft env S lacks))) w := by
  have hdone : Between env S lacks (w.afterExchange env .done) := h.exchange id
  simp only [doneRound, sendDone, wp_bind, wp_exchange, Outcome.andThen_ok]
  exact wp_checkReply (by decide) (fun _ => hdone) (fun _ => hdone) fun _ _ _ => hdone

theorem Invoked.exchange {result : Option ByteString} {vm : VmObject σ} {q : ClientRequest}
    (h : Invoked env S lacks result w) (hvm : w.vm = some vm) (hmsg : vm.exceptionMsg = [])
    (hq : Answers (vm.calledUndefinedSingleCall ≠ []) result q) : Between env S lacks (w.afterExchange env q) := by
  obtain ⟨htold, hfollowed⟩ := h.answered vm q [] hvm hmsg hq rfl
  rw [List.append_nil] at htold hfollowed
  exact ⟨htold.followed hfollowed, h.marked, h.session, h.vm, h.mode⟩

theorem wp_answerCall_left {result : Option ByteString} (h : Invoked env S lacks result w) :
    wp (answerCall env container result) (Calls env S lacks (Sum.elim (fun _ => Between env S lacks)
      (LoopLeft env S lacks))) w := by
  obtain ⟨vm, hvm⟩ := Option.isSome_iff_exists.mp h.vm
  rw [answerCall, wp_bind, wp_exceptionMsg hvm, Outcome.andThen_ok, wp_ite]
  split_ifs with hcomplaint
  · have htold : AllTold lacks w := h.silent vm hvm fun hmsg => absurd hmsg (List.length_pos_iff.mp hcomplaint)
    rw [wp_bind]
    refine wp_mono (wp_and htold.handleError (wp_handleError_handled fun _ => h.vm)) ?_
    rintro _ w' ⟨h', rfl, -⟩
    exact h'
  have hmsg : vm.exceptionMsg = [] := by simpa using hcomplaint
  rw [wp_bind, wp_calledUndefinedSingleCall hvm, Outcome.andThen_ok]
  simp only [wp_ite]
  split_ifs with hmark
  · have hafter := h.exchange (q := .undefinedCall vm.calledUndefinedSingleCall) hvm hmsg
      (List.length_pos_iff.mp hmark)
    refine Yields.bind (Q := fun _ => Between env S lacks) ?_ fun _ _ => wp_doneRound_left
    simp only [sendUndefinedCall, wp_bind, wp_exchange, Outcome.andThen_ok]
    cases w.reply env (.undefinedCall vm.calledUndefinedSingleCall) with
    | unparsable _ => exact hafter
    | message r =>
      rw [wp_ite]
      split_ifs <;> exact hafter
  · have hnone : vm.calledUndefinedSingleCall = [] := by simpa using hmark
    refine Yields.bind (Q := fun _ => Between env S lacks) ?_ fun _ _ => wp_doneRound_left
    cases result with
    | none =>
      -- the assertion stops it, or the null pointer
      have htold : AllTold lacks w := h.silent vm hvm fun _ => ⟨hnone, rfl⟩
      simp only [sendReturn, wp_bind (m := assert _ _)]
      exact wp_assert htold htold
    | some result =>
      have hafter := h.exchange (q := .callResult (cstr result)) hvm hmsg ⟨absurd hnone, result, rfl, rfl⟩
      simp only [sendReturn, assert, Option.isSome_some, Bool.or_true, if_true, wp_bind, wp_pure, wp_exchange,
        Outcome.andThen_ok]
      exact wp_checkReply (by decide) (fun _ => hafter) (fun _ => hafter) fun _ _ _ => hafter

theorem Between.called (h : Between env S lacks w) (e : Option Exception) :
    Between env S lacks { w with log := w.log ++ [.called e] } :=
  ⟨h.told.quiet (by simp [NoAnswer, sessionRequests]), h.marked, h.session, h.vm, h.mode⟩

theorem Invoked.called {result : Option ByteString} (h : Invoked env S lacks result w) :
    Invoked env S lacks result { w with log := w.log ++ [.called none] } := by
  refine ⟨h.marked, h.session, h.vm, h.mode, fun vm hvm hsilent => ?_, fun vm q l hvm hmsg hq hl => ?_⟩
  · exact (h.silent vm hvm hsilent).quiet (by simp [NoAnswer, sessionRequests])
  · have hquiet : sessionRequests (.called none :: l) = [] := hl
    have hanswered := h.answered vm q (.called none :: l) hvm hmsg hq hquiet
    simpa using hanswered

theorem wp_singleCallRound_left (hmarks : Marks container S lacks) (h : Between env S lacks w) :
    wp (singleCallRound env container) (Calls env S lacks (Sum.elim (fun _ => Between env S lacks)
      (LoopLeft env S lacks))) w := by
  refine Yields.bind (wp_sendRun_opened h) fun go w₁ h₁ => ?_
  cases go with
  | false => exact h₁
  | true =>
    have hopened : Opened env S lacks w₁ := h₁
    rw [if_pos rfl, wp_bind, wp_get, Outcome.andThen_ok, wp_bind]
    refine wp_assert ?_ hopened.allTold
    rw [Outcome.andThen_ok, wp_catching]
    have hbody : wp (singleCallBody env container) (Calls env S lacks
        (Sum.elim (fun _ => Between env S lacks) (LoopLeft env S lacks))) w₁ := by
      rw [singleCallBody]
      refine Yields.bind (Q := Invoked env S lacks) ?_ fun result w₂ h₂ => ?_
      · rw [wp_catching]
        refine wp_mono (wp_dispatchCall_invoked hmarks hopened) fun o w₂ h₂ => ?_
        cases o with
        | ok result => exact h₂
        | throw e => exact Between.called h₂ (some e)
        | stop r => exact h₂
      · rw [logEvent, wp_bind, wp_modify, Outcome.andThen_ok]
        exact wp_answerCall_left h₂.called
    refine wp_mono hbody fun o w₂ h₂ => ?_
    cases o with
    | ok r => exact h₂
    | throw e => exact h₂
    | stop r => exact h₂

theorem wp_sessionLoop_left (hmarks : Marks container S lacks) (fuel : Nat) (h : Between env S lacks w) :
    wp (sessionLoop env container fuel) (Calls env S lacks (LoopLeft env S lacks)) w := by
  rw [sessionLoop, wp_bind, wp_get, Outcome.andThen_ok, h.mode, wp_ite, if_pos rfl]
  exact Yields.loop (I := fun _ => Between env S lacks) (fun _ _ h => h.allTold)
    (fun _ _ => wp_singleCallRound_left hmarks) fuel h

theorem AllTold.deleteVm (h : AllTold lacks w) :
    wp (deleteVm env container) (fun _ => AllTold lacks) w :=
  h.moves (Appends.deleteVm fun _ _ _ => nofun)

theorem allTold_bind {β : Type} {Q : α → World σ → Prop} {m : Client σ α} {f : α → Client σ β}
    (hm : wp m (Yields Q (AllTold lacks) (AllTold lacks)) w)
    (hf : ∀ a w', Q a w' → wp (f a) (fun _ => AllTold lacks) w') :
    wp (m >>= f) (fun _ => AllTold lacks) w :=
  Yields.same_iff.mp (Yields.bind hm fun a w' h => Yields.same_iff.mpr (hf a w' h))

theorem allTold_then {β : Type} {m : Client σ α} {f : α → Client σ β}
    (hm : wp m (fun _ => AllTold lacks) w)
    (hf : ∀ a w', AllTold lacks w' → wp (f a) (fun _ => AllTold lacks) w') :
    wp (m >>= f) (fun _ => AllTold lacks) w :=
  allTold_bind (Yields.same_iff.mpr hm) hf

theorem wp_sessionBody_allTold (hmarks : Marks container S lacks) (fuel : Nat)
    (hmode : w.singleCallMode = true) (hcalls : w.calls = []) (hsession : w.session env = S) :
    wp (sessionBody env container fuel) (fun _ => AllTold lacks) w := by
  have hnil : ∀ log, Told lacks log [] := by
    intro log pre n fn arg o msg mark post heq
    simp at heq
  have hafter : ∀ c, AllTold lacks (w.afterVm env c) := by
    intro c
    show Told lacks _ w.calls
    rw [hcalls]
    exact hnil _
  have hmake : wp (callVmMaker env container) (Yields (fun _ w₁ => AllTold lacks w₁ ∧
      w₁.session env = S ∧ w₁.calls = [] ∧ w₁.singleCallMode = true ∧
      ∀ vm, w₁.vm = some vm → vm.calledUndefinedSingleCall = []) (AllTold lacks) (AllTold lacks)) w := by
    unfold wp callVmMaker
    rw [hsession]
    have hmade := hmarks.made w.channel
    rcases hrun : container.make S w.channel with ⟨vm | e | r, c⟩ <;> rw [hrun] at hmade
    · refine ⟨hafter c, hsession, hcalls, hmode, ?_⟩
      rintro vm' rfl
      exact hmade vm' rfl
    · exact hafter c
    · exact hafter c
  refine allTold_bind hmake ?_
  rintro _ w₁ ⟨h₁, hsession₁, hcalls₁, hmode₁, hmark₁⟩
  have hclose : ∀ msg, wp (do return some (← handleError env container msg false))
      (fun _ => AllTold lacks) w₁ :=
    fun msg => allTold_then h₁.handleError fun _ _ h => h
  rw [wp_bind, wp_get, Outcome.andThen_ok]
  cases hvm : w₁.vm with
  | none => exact hclose _
  | some vm =>
    simp only [wp_ite]
    split_ifs with hmsg
    · exact hclose _
    · have hbetween : Between env S lacks { w₁ with shutdownVmInCaseOfError := true } := by
        refine ⟨h₁, fun vm' hvm' => ?_, hsession₁, by simp [hvm], hmode₁⟩
        simp [hmark₁ vm' hvm', hcalls₁, leftMark]
      rw [wp_bind, wp_modify, Outcome.andThen_ok]
      have hloop := wp_sessionLoop_left hmarks fuel hbetween
      refine allTold_bind (Yields.mono hloop (fun _ _ h => h) (fun _ h => h.allTold) fun _ h => h)
        fun code w₂ h₂ => ?_
      cases code with
      | some code => exact h₂
      | none =>
        have hleft : Between env S lacks w₂ := h₂
        refine hleft.allTold.moves (Appends.finishSession (fun _ _ _ h => by cases h) ?_ ?_
          (fun _ _ h => by cases h) fun b o => ⟨b, o, rfl⟩)
        · rintro q ⟨⟩
          exact id
        · rintro m q ⟨⟩
          exact id

theorem wp_session_allTold (hmarks : Marks container S lacks) (fuel : Nat)
    (hmode : w.singleCallMode = true) (hcalls : w.calls = []) (hsession : w.session env = S) :
    wp (session env container fuel) (fun _ => AllTold lacks) w := by
  refine allTold_then (m := catching _ _) ?_ fun code w₁ h₁ => ?_
  · rw [wp_catching]
    refine wp_mono (wp_sessionBody_allTold hmarks fuel hmode hcalls hsession) fun o w₁ h₁ => ?_
    cases o with
    | ok code => exact h₁
    | throw e =>
      exact allTold_then (m := get) h₁ fun _ _ h => allTold_then h.handleError fun _ _ h => h
    | stop r => exact h₁
  · cases code with
    | some code => exact h₁
    | none => exact allTold_then h₁.deleteVm fun _ _ h => h

end

/-! ### Whole runs -/

section
variable {σ : Type}

theorem exaudfclientMain_told (env : Environment) (container : Container σ) (socketName : ByteString)
    (fuel : Nat) (lacks : SingleCallFunctionId → Bool)
    (hmarks : ∀ w : World σ, StartsAfter env socketName w → Marks container (w.session env) lacks)
    (log : List Event)
    (hlog : sessionLog (exaudfclientMain env container socketName fuel {}).2.log = some (true, log)) :
    Told lacks (exaudfclientMain env container socketName fuel {}).2.log
      (exaudfclientMain env container socketName fuel {}).2.calls := by
  obtain ⟨w, hstart, hrun⟩ := exaudfclientMain_startsAfter env container socketName fuel (by simp [hlog])
  rw [hrun] at hlog ⊢
  obtain ⟨hnone, hcalls⟩ := hstart.nothing
  let w₁ : World σ := { w with log := w.log ++ [.connected w.singleCallMode] }
  have hmode : w.singleCallMode = true := by
    have hfollows : Follows w.singleCallMode w₁.log .starting w₁ := ⟨[], (List.append_nil _).symm, .nil⟩
    have hsession : wp (session env container fuel) _ w₁ := wp_session fuel hfollows rfl
    obtain ⟨p, ⟨l, hl, -⟩, -⟩ := hsession
    rw [hl, List.append_assoc, List.singleton_append, sessionLog_connected hnone] at hlog
    simpa using congrArg (fun o => o.map Prod.fst) hlog
  exact wp_session_allTold (hmarks w hstart) fuel hmode hcalls rfl

/-- No call was made after an `MT_RUN` that was answered by `MT_RUN`. -/
def CallsAreFresh (log : List Event) (calls : List VmCall) : Prop :=
  ∀ n fn arg o msg mark, .singleCall n fn arg o msg mark ∈ calls →
    ∀ pre r, log.take n = pre ++ [.received (.message r)] → r.type ≠ .mtRun

/-- No call of a function the VM has was answered under a mark that was there before it: there was none, or the
VM took it away. -/
def CallsAreUnmixed (lacks : SingleCallFunctionId → Bool) (calls : List VmCall) : Prop :=
  ∀ pre n fn arg result mark post, calls = pre ++ .singleCall n fn arg (.ok result) [] mark :: post →
    lacks fn = false → leftMark pre = [] ∨ mark = []

/-- The calls of a session are what single calls promise if and only if they are fresh and unmixed. -/
theorem singleCalls_fit_iff (env : Environment) (container : Container σ) (socketName : ByteString)
    (fuel : Nat) (lacks : SingleCallFunctionId → Bool)
    (hmarks : ∀ w : World σ, StartsAfter env socketName w → Marks container (w.session env) lacks)
    (log : List Event)
    (hlog : sessionLog (exaudfclientMain env container socketName fuel {}).2.log = some (true, log)) :
    (∀ n fn arg o msg mark,
      .singleCall n fn arg o msg mark ∈ (exaudfclientMain env container socketName fuel {}).2.calls →
      CallFits lacks (exaudfclientMain env container socketName fuel {}).2.log n fn arg o msg) ↔
    CallsAreFresh (exaudfclientMain env container socketName fuel {}).2.log
      (exaudfclientMain env container socketName fuel {}).2.calls ∧
    CallsAreUnmixed lacks (exaudfclientMain env container socketName fuel {}).2.calls := by
  have htold := exaudfclientMain_told env container socketName fuel lacks hmarks log hlog
  constructor
  · refine fun hfits => ⟨fun n fn arg o msg mark hmem pre r htake => ?_,
      fun pre n fn arg result mark post heq hlacks => ?_⟩
    · obtain ⟨pre', r', htake', hcall, -⟩ := (hfits n fn arg o msg mark hmem).read
      rw [htake', show [Event.sent ClientRequest.run, .received (.message r')] =
        [.sent .run] ++ [.received (.message r')] from rfl, ← List.append_assoc] at htake
      obtain ⟨-, hr⟩ := List.append_inj' htake rfl
      obtain rfl : r' = r := by simpa using hr
      rw [hcall]
      decide
    · by_contra hmixed
      have hmark : mark ≠ [] := fun hnone => hmixed (.inr hnone)
      have hcall := htold pre n fn arg _ _ mark post heq
      obtain ⟨q, hq, hanswer⟩ := hcall.answered result rfl rfl (.inl hmark)
      obtain ⟨_, ⟨⟩, -, hactual⟩ := hcall.right q hq hanswer
      have hmem : .singleCall n fn arg (.ok result) [] mark ∈
          (exaudfclientMain env container socketName fuel {}).2.calls := by rw [heq]; simp
      obtain ⟨_, ⟨⟩, -, hwanted⟩ := (hfits n fn arg _ _ mark hmem).right q hq hanswer
      cases q with
      | undefinedCall fn' => exact absurd (show lacks fn = true from hwanted) (by simp [hlacks])
      | callResult s => exact hactual.1 hmark
      | _ => exact hanswer
  · rintro ⟨hfresh, hunmixed⟩ n fn arg o msg mark hmem
    obtain ⟨pre, post, heq⟩ := List.append_of_mem hmem
    have hcall := htold pre n fn arg o msg mark post heq
    -- a call that is answered finds no mark, or leaves none
    have hmissing : ∀ result, o = .ok result → msg = [] → (mark ≠ [] ↔ lacks fn = true) := by
      rintro result rfl rfl
      refine ⟨fun hmark => ?_, hcall.marked⟩
      by_contra hhas
      have hlacks : lacks fn = false := by simpa using hhas
      rcases hcall.unmarked hlacks with hnone | hsame
      · exact hmark hnone
      · rcases hunmixed pre n fn arg result mark post heq hlacks with hnone | hnone
        · exact hmark (hsame.trans hnone)
        · exact hmark hnone
    refine ⟨?_, fun q hq hanswer => ?_, fun result ho hmsg hsent => ?_⟩
    · obtain ⟨pre', r, htake, hrun | hread⟩ := hcall.read
      · have htake' : (exaudfclientMain env container socketName fuel {}).2.log.take n =
            (pre' ++ [.sent .run]) ++ [.received (.message r)] := by rw [htake]; simp
        exact absurd hrun (hfresh n fn arg o msg mark hmem _ r htake')
      · exact ⟨pre', r, htake, hread⟩
    · obtain ⟨result, ho, hmsg, hright⟩ := hcall.right q hq hanswer
      exact ⟨result, ho, hmsg, (Answers.congr (hmissing result ho hmsg)).mp hright⟩
    · exact hcall.answered result ho hmsg (hsent.imp_left (hmissing result ho hmsg).mpr)

theorem callContainer_marks (lacks : SingleCallFunctionId → Bool) (S : Session) :
    Marks (callContainer lacks) S lacks := by
  have hrun : ∀ fn arg s, (callContainer lacks).singleCall S fn arg s = (.ok (some (str "ok")),
      if lacks fn then ({ s.1 with calledUndefinedSingleCall := str "missing" }, s.2) else s) := by
    intro fn arg s
    unfold callContainer
    cases hfn : lacks fn with
    | false => simp [hfn]
    | true => simp [hfn]; rfl
  refine ⟨?_, fun fn arg s hfn => ?_, fun fn arg s hfn => ?_⟩
  · rintro c _ ⟨⟩
    rfl
  · rw [hrun, hfn]
    simp [str]
  · rw [hrun, hfn]
    exact .inr rfl

def lacksColumns (fn : SingleCallFunctionId) : Bool := fn = .scFnDefaultOutputColumns

/-- It is called for, and then one the VM has. -/
def twoCalls : List Reply :=
  [callReply .scFnDefaultOutputColumns, reply .mtUndefinedCall, reply .mtDone,
    callReply .scFnVirtualSchemaAdapterCall, reply .mtUndefinedCall, reply .mtDone, reply .mtCleanup]

/-- The second call is answered as if the VM lacked its function, too. -/
theorem twoCalls_second :
    .singleCall 14 .scFnVirtualSchemaAdapterCall (.string []) (.ok (some (str "ok"))) [] (str "missing") ∈
      (tryCalls lacksColumns twoCalls).2.calls ∧
    ¬ CallFits lacksColumns (tryCalls lacksColumns twoCalls).2.log 14 .scFnVirtualSchemaAdapterCall
      (.string []) (.ok (some (str "ok"))) [] := by
  refine ⟨by decide +kernel, fun hfits => ?_⟩
  have hsent : nextRequest (tryCalls lacksColumns twoCalls).2.log 14 =
      some (.undefinedCall (str "missing")) := by decide +kernel
  obtain ⟨_, -, -, hmissing⟩ := hfits.right _ hsent trivial
  exact absurd (show lacksColumns .scFnVirtualSchemaAdapterCall = true from hmissing) (by decide)

theorem singleCalls_fit_iff_twoCalls :
    ¬ (CallsAreFresh (tryCalls lacksColumns twoCalls).2.log (tryCalls lacksColumns twoCalls).2.calls ∧
      CallsAreUnmixed lacksColumns (tryCalls lacksColumns twoCalls).2.calls) := by
  intro h
  obtain ⟨hmem, hnot⟩ := twoCalls_second
  unfold tryCalls at h hmem hnot
  have hiff := singleCalls_fit_iff { server := replying (callReplies twoCalls) } (callContainer lacksColumns)
    (str "ipc:///tmp/try") 4 lacksColumns (fun _ _ => callContainer_marks _ _)
    (tryCallsLog lacksColumns twoCalls) (by decide +kernel)
  exact hnot (hiff.mpr h 14 _ _ _ _ _ hmem)

theorem singleCall_marked :
    ¬ ∀ (σ : Type) (env : Environment) (container : Container σ) (socketName : ByteString) (fuel : Nat)
      (lacks : SingleCallFunctionId → Bool),
      (∀ w : World σ, StartsAfter env socketName w → Marks container (w.session env) lacks) →
      ∀ log, sessionLog (exaudfclientMain env container socketName fuel {}).2.log = some (true, log) →
      ∀ n fn arg o msg mark,
        .singleCall n fn arg o msg mark ∈ (exaudfclientMain env container socketName fuel {}).2.calls →
        CallFits lacks (exaudfclientMain env container socketName fuel {}).2.log n fn arg o msg := by
  intro h
  obtain ⟨hmem, hnot⟩ := twoCalls_second
  unfold tryCalls at hmem hnot
  have hlog : sessionLog (exaudfclientMain { server := replying (callReplies twoCalls) }
      (callContainer lacksColumns) (str "ipc:///tmp/try") 4 {}).2.log =
      some (true, tryCallsLog lacksColumns twoCalls) := by decide +kernel
  exact hnot (h Unit _ _ _ 4 lacksColumns (fun _ _ => callContainer_marks _ _) _ hlog 14 _ _ _ _ _ hmem)

end

end UdfRunner
