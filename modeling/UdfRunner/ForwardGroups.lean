import UdfRunner.ForwardPath
import UdfRunner.SessionTrace

/-!
# Sessions of `forward_input`

`runs log` cuts a session's log into its runs. The iterator of a `TestVM` is made once and never
reinitialized, so a session forwards its first group and nothing after it: `forwardGroups_iff`.
-/

namespace UdfRunner
open Proc TableData

/-! ### The runs of a session -/

inductive RunState
  | idle
  | requested
  | running (emits : List TableData)

/-- How many runs `MT_RUN` began, and what each emitted until its `MT_DONE`. -/
structure Runs where
  state : RunState := .idle
  began : Nat := 0
  emits : List (List TableData) := []

def Runs.step (s : Runs) (e : Event) : Runs :=
  match s.state, e with
  | .running ts, .vm (.emit t) _ => { s with state := .running (ts ++ [t]) }
  | .running ts, .sent .done => { s with state := .idle, emits := s.emits ++ [ts] }
  | .requested, .received r =>
    if r.HasType .mtRun then { s with state := .running [], began := s.began + 1 }
    else { s with state := .idle }
  | _, .sent .run => { s with state := .requested }
  | _, _ => s

def runs (log : List Event) : Runs := log.foldl Runs.step {}

theorem runs_append (log log' : List Event) : runs (log ++ log') = log'.foldl Runs.step (runs log) :=
  List.foldl_append

theorem Runs.foldl_vm {s : Runs} {ts : List TableData} (hs : s.state = .running ts)
    (l : List (VmRequest × Reply)) :
    (l.map fun x => Event.vm x.1 x.2).foldl Runs.step s =
      { s with state := .running (ts ++ emitted (l.map Prod.fst)) } := by
  induction l generalizing s ts with
  | nil =>
    obtain ⟨state, began, emits⟩ := s
    obtain rfl : state = _ := hs
    simp [emitted]
  | cons x l ih =>
    obtain ⟨q, r⟩ := x
    rw [List.map_cons, List.foldl_cons, List.map_cons]
    cases q with
    | emit t =>
      have hstep : s.step (.vm (.emit t) r) = { s with state := .running (ts ++ [t]) } := by
        unfold Runs.step
        rw [hs]
      rw [hstep, ih rfl]
      simp [emitted]
    | next | reset | importScript =>
      have hstep : ∀ q, (∀ t, q ≠ VmRequest.emit t) → s.step (.vm q r) = s := by
        intro q hq
        unfold Runs.step
        rw [hs]
        cases q <;> first | rfl | exact absurd rfl (hq _)
      rw [hstep _ (by simp), ih hs]
      simp [emitted]

/-- An event that is neither `MT_RUN` nor `MT_DONE`. -/
def Event.Ends (e : Event) : Prop := e ≠ .sent .run ∧ e ≠ .sent .done

theorem Runs.foldl_ends {s : Runs} (hs : s.state = .idle) {post : List Event} (hpost : ∀ e ∈ post, e.Ends) :
    post.foldl Runs.step s = s := by
  induction post with
  | nil => rfl
  | cons e post ih =>
    have hstep : s.step e = s := by
      obtain ⟨hrun, -⟩ := hpost e (by simp)
      unfold Runs.step
      rw [hs]
      rcases e with (_ | _ | _ | _ | _ | _ | _ | _) | _ | _ | _ | _ | _ <;>
        first | rfl | exact absurd rfl hrun
    rw [List.foldl_cons, hstep]
    exact ih fun e' he => hpost e' (by simp [he])

/-! ### The database -/

/-- Where a session is in its data: the group, the batch in it, and whether `MT_RUN` was requested. The
data requests before the first `MT_RUN` belong to the first group. -/
structure Position where
  group : Nat := 0
  batch : Nat := 0
  started : Bool := false

def Position.step (p : Position) (r : Request) : Position :=
  match r.content with
  | .inr .run => if p.started then { p with group := p.group + 1, batch := 0 } else { p with started := true }
  | .inl .next => { p with batch := p.batch + 1 }
  | _ => p

def position (past : List Request) : Position := past.foldl Position.step {}

/-- A database that starts a multi-row session of `forward_input` on a VARCHAR column and answers the
data requests of run `i` by the batches of group `i` and then `MT_DONE`. It may answer everything else as
it likes. -/
structure Serves (server : Server) (groups : Nat → List TableData) : Prop where
  info : ∀ past id name, ∃ r, server (past ++ [⟨id, .inr (.client name)⟩]) = .message r ∧
    r.type = .mtInfo ∧ cstr r.info.sourceCode = TestVM.forwardInputStrategy
  metadata : ∀ past id, ∃ r, server (past ++ [⟨id, .inr .metadata⟩]) = .message r ∧ r.type = .mtMeta ∧
    r.metadata.singleCallMode = false ∧
    r.metadata.inputIterType = .multiple ∧ r.metadata.outputIterType = .multiple ∧
    r.metadata.inputColumns.map (·.type) = [.pbString] ∧
    r.metadata.outputColumns.map (·.type) = [.pbString]
  data : ∀ past id, ∃ r, server (past ++ [⟨id, .inl .next⟩]) = .message r ∧ r.connectionId = id ∧
    match (groups (position past).group)[(position past).batch]? with
    | some t => r.type = .mtNext ∧ r.next = t
    | none => r.type = .mtDone

/-- Requests that do not move the position. -/
def Request.Quiet (r : Request) : Prop := r.content ≠ .inr .run ∧ r.content ≠ .inl .next

theorem position_append_quiet (past : List Request) {mid : List Request} (hmid : ∀ r ∈ mid, r.Quiet) :
    position (past ++ mid) = position past := by
  rw [position, List.foldl_append]
  change mid.foldl Position.step (position past) = position past
  induction mid with
  | nil => rfl
  | cons r mid ih =>
    have hstep : (position past).step r = position past := by
      obtain ⟨hrun, hnext⟩ := hmid r (by simp)
      unfold Position.step
      rcases hr : r.content with (_ | _ | _ | _) | (_ | _ | _ | _ | _ | _ | _ | _) <;>
        first | rfl | exact absurd hr hrun | exact absurd hr hnext
    rw [List.foldl_cons, hstep]
    exact ih fun r' hr => hmid r' (by simp [hr])

theorem position_append_next (S : Session) (past : List Request) :
    position (past ++ [Channel.request S .next]) =
      { position past with batch := (position past).batch + 1 } := by
  rw [position, List.foldl_append]
  rfl

section
variable {server : Server} {groups : Nat → List TableData} {S : Session}

theorem Serves.answers (h : Serves server groups) (hS : S.server = server) (past : List Request) :
    (∀ t, (groups (position past).group)[(position past).batch]? = some t →
      TableIterator.AnswersBatch S false past t) ∧
    ((groups (position past).group)[(position past).batch]? = none →
      TableIterator.AnswersDone S past) := by
  obtain ⟨r, hr, hid, hdata⟩ := h.data past S.connectionId
  subst hS
  constructor
  · intro t ht
    rw [ht] at hdata
    exact ⟨r, hr, hid, hdata⟩
  · intro hnone
    rw [hnone] at hdata
    exact ⟨r, hr, hid, hdata⟩

theorem Serves.feeds (h : Serves server groups) (hS : S.server = server) {past : List Request}
    {ts : List TableData} (hts : (groups (position past).group).drop (position past).batch = ts) :
    TableIterator.Feeds S Request.Quiet past ts := by
  induction ts generalizing past with
  | nil =>
    intro mid hmid
    refine (h.answers hS (past ++ mid)).2 ?_
    rw [position_append_quiet past hmid, ← List.head?_drop, hts]
    rfl
  | cons t ts ih =>
    intro mid hmid
    refine ⟨(h.answers hS (past ++ mid)).1 t ?_, ih ?_⟩
    · rw [position_append_quiet past hmid, ← List.head?_drop, hts]
      rfl
    · rw [position_append_next, position_append_quiet past hmid]
      show (groups (position past).group).drop ((position past).batch + 1) = ts
      rw [← List.drop_drop, hts]
      rfl

end

namespace Client
variable {σ : Type} {env : Environment} {groups : Nat → List TableData} {w : World σ}

/-- Between two tries of the handshake. -/
structure Handshaking (w : World σ) : Prop where
  inpNames : w.params.inpNames = []
  inpTypes : w.params.inpTypes = []
  outNames : w.params.outNames = []
  outTypes : w.params.outTypes = []
  past : ∀ r ∈ w.past, r.Quiet

/-- After the handshake. -/
structure Prepared (env : Environment) (w : World σ) : Prop where
  mode : w.singleCallMode = false
  forwards : TestVM.Forwards (w.session env)
  script : cstr w.params.scriptCode = TestVM.forwardInputStrategy
  past : ∀ r ∈ w.past, r.Quiet

theorem wp_addColumn_string {push : ByteString → SwigColumntype → Params → Params} {unsupported : String}
    {Q : Outcome Exception Bool → World σ → Prop} {c : ColumnDefinition} (hc : c.type = .pbString)
    (hQ : ∀ t : SwigColumntype, t.type = .string →
      Q (.ok true) { w with params := push c.name t w.params }) :
    wp (addColumns push unsupported [c]) Q w := by
  have htype : columnType c = some { type := .string, typeName := c.typeName, len := c.size } := by
    rw [columnType, hc]
  simp only [addColumns, htype, wp_bind, wp_modify, Outcome.andThen_ok, wp_pure]
  exact hQ _ rfl

theorem wp_sendInit (h : Serves env.server groups) (hw : Handshaking w) (name : ByteString) :
    wp (sendInit env name) (fun o w' => (o = .ok false → Handshaking w') ∧ (o = .ok true → Prepared env w'))
      w := by
  have hsent : ∀ past : List Request, (∀ r ∈ past, r.Quiet) → ∀ q : Request, q.Quiet →
      ∀ r ∈ past ++ [q], r.Quiet := by
    intro past hpast q hq r hr
    rcases List.mem_append.mp hr with hr | hr
    · exact hpast r hr
    · obtain rfl := List.mem_singleton.mp hr
      exact hq
  have hclient : ∀ r ∈ w.past ++ [⟨0, .inr (.client name)⟩], r.Quiet :=
    hsent _ hw.past _ ⟨by simp, by simp⟩
  obtain ⟨r, hr, htype, hscript⟩ := h.info w.past 0 name
  simp only [sendInit, send, logEvent, wp_bind, wp_modify, Outcome.andThen_ok, wp_get, wp_ite, wp_pure]
  split_ifs
  · exact ⟨fun _ => ⟨hw.inpNames, hw.inpTypes, hw.outNames, hw.outTypes, hclient⟩, by simp⟩
  simp only [recv, logEvent, wp_bind, wp_get, wp_modify, Outcome.andThen_ok, wp_pure, hr, checkInitReply,
    htype, reduceCtorEq, if_false, ne_eq, not_true_eq_false, if_true, writeScriptParams]
  refine Client.wp_setLimits ?_ fun _ _ _ => ⟨by simp, by simp⟩
  obtain ⟨r', hr', htype', hmode, hinp, hout, hinpCols, houtCols⟩ :=
    h.metadata (w.past ++ [⟨0, .inr (.client name)⟩]) r.connectionId
  simp only [Outcome.andThen_ok, wp_exchange, World.reply, hr', wp_bind, htype',
    reduceCtorEq, if_false, not_true_eq_false, wp_pure, if_true, readMetadata, wp_modify]
  obtain ⟨c, hc, hct⟩ := List.map_eq_singleton_iff.mp hinpCols
  obtain ⟨c', hc', hct'⟩ := List.map_eq_singleton_iff.mp houtCols
  rw [hc, hc']
  refine wp_addColumn_string hct fun t ht => ?_
  simp only [Outcome.andThen_ok, if_true]
  refine wp_addColumn_string hct' fun t' ht' => ?_
  refine ⟨by simp, fun _ => ⟨hmode, ⟨?_, ?_, ?_, ?_, hinp, hout⟩, hscript, ?_⟩⟩
  · simp [World.session, World.afterExchange, Session.inputTypes, pushInput, pushOutput, hw.inpTypes, ht]
  · simp [World.session, World.afterExchange, Session.outputTypes, pushInput, pushOutput, hw.outTypes, ht']
  · simp [World.session, World.afterExchange, pushInput, pushOutput, hw.inpNames]
  · simp [World.session, World.afterExchange, pushInput, pushOutput, hw.outNames]
  · exact hsent _ hclient _ ⟨by simp, by simp⟩

end Client

/-! ### The session -/

/-- The first run emits what the first group has, and later runs nothing. -/
def OnlyFirst (group : List TableData) : List (List TableData) → Prop
  | [] => True
  | ts :: rest => SameTexts ts group ∧ ∀ ts ∈ rest, SameTexts ts []

/-- A run that is answered, and what comes of it. -/
def roundLog (r : Reply) (l : List (VmRequest × Reply)) (o : RunOutcome) (r' : Reply) : List Event :=
  [.sent .run, .received r] ++ l.map (fun x => .vm x.1 x.2) ++ [.ran o, .sent .done, .received r']

/-- A log between two rounds: every run that began is done. -/
structure Settled (group : List TableData) (log : List Event) : Prop where
  idle : (runs log).state = .idle
  began : (runs log).began = (runs log).emits.length
  emits : OnlyFirst group (runs log).emits

namespace Settled
variable {group : List TableData} {log : List Event} {r : Reply}

theorem nil (group : List TableData) : Settled group [] := ⟨rfl, rfl, trivial⟩

theorem ends (h : Settled group log) {post : List Event} (hpost : ∀ e ∈ post, e.Ends) :
    Settled group (log ++ post) := by
  have hruns : runs (log ++ post) = runs log := by
    rw [runs_append, Runs.foldl_ends h.idle hpost]
  exact ⟨hruns ▸ h.idle, hruns ▸ h.began, hruns ▸ h.emits⟩

theorem refused (h : Settled group log) (hr : ¬ r.HasType .mtRun) :
    Settled group (log ++ [.sent .run, .received r]) := by
  have hruns : runs (log ++ [.sent .run, .received r]) = runs log := by
    rw [runs_append]
    obtain ⟨hidle, -, -⟩ := h
    rcases hs : runs log with ⟨state, began, emits⟩
    rw [hs] at hidle
    obtain rfl : state = _ := hidle
    simp [Runs.step, hr]
  exact ⟨hruns ▸ h.idle, hruns ▸ h.began, hruns ▸ h.emits⟩

theorem runs_round (h : Settled group log) (hr : r.HasType .mtRun) (l : List (VmRequest × Reply))
    (o : RunOutcome) (r' : Reply) : runs (log ++ roundLog r l o r') =
      ⟨.idle, (runs log).began + 1, (runs log).emits ++ [emitted (l.map Prod.fst)]⟩ := by
  rw [runs_append, roundLog, List.foldl_append, List.foldl_append]
  obtain ⟨hidle, -, -⟩ := h
  rcases hs : runs log with ⟨state, began, emits⟩
  rw [hs] at hidle
  obtain rfl : state = _ := hidle
  have hopen : [Event.sent .run, .received r].foldl Runs.step ⟨.idle, began, emits⟩ =
      ⟨.running [], began + 1, emits⟩ := by
    simp [Runs.step, hr]
  rw [hopen, Runs.foldl_vm rfl]
  rfl

/-- A run emits the first group if it is the first, and nothing if it is not. -/
theorem round (h : Settled group log) (hr : r.HasType .mtRun) (l : List (VmRequest × Reply))
    (o : RunOutcome) (r' : Reply)
    (hemits : SameTexts (emitted (l.map Prod.fst)) (if (runs log).emits = [] then group else [])) :
    Settled group (log ++ roundLog r l o r') := by
  have hruns := h.runs_round hr l o r'
  refine ⟨by rw [hruns], by rw [hruns, h.began, List.length_append]; rfl, ?_⟩
  rw [hruns]
  show OnlyFirst group ((runs log).emits ++ [_])
  have hfirst := h.emits
  rcases he : (runs log).emits with _ | ⟨ts, rest⟩ <;> rw [he] at hemits hfirst
  · exact ⟨hemits, by simp⟩
  · refine ⟨hfirst.1, fun ts' hts => ?_⟩
    rcases List.mem_append.mp hts with hts | hts
    · exact hfirst.2 ts' hts
    · obtain rfl := List.mem_singleton.mp hts
      exact hemits

end Settled

/-- Tables that hold the cut rows of a group without NUL bytes carry its texts. -/
theorem sameTexts_of_cut {types : List Datatype} {ts group : List TableData} {later sentRows : List (List Row)}
    (hholds : List.Forall₂ (TableData.Holds types) group later)
    (hnul : ∀ t ∈ group, ∀ v ∈ t.dataString, (0 : UInt8) ∉ v)
    (hsent : List.Forall₂ (TableData.Holds types) ts sentRows)
    (hcut : sentRows.flatten = later.flatten.map Row.cut) : SameTexts ts group := by
  obtain ⟨hnulls, hstrings⟩ := texts_of_cut hholds hsent hcut
  refine ⟨hnulls, hstrings.trans (map_cstr_eq_self_iff.mpr fun v hv => ?_)⟩
  obtain ⟨t, ht, hv⟩ := List.mem_flatMap.mp hv
  exact hnul t ht v hv

namespace Client
variable {σ α : Type} {env : Environment} {S : Session} {group : List TableData} {later : List (List Row)}
  {base : List Event} {rowFuel : Nat}

/-- Since `base`, the log is settled. -/
def SettledSince (group : List TableData) (base : List Event) (w : World σ) : Prop :=
  ∃ log, w.log = base ++ log ∧ Settled group log

theorem SettledSince.grows {m : Client σ α} {w : World σ} (h : SettledSince group base w)
    (hm : Grows Event.Ends m) : wp m (fun _ w' => SettledSince group base w') w := by
  obtain ⟨log, hlog, hsettled⟩ := h
  obtain ⟨post, hpost, hends⟩ := hm w
  exact ⟨log ++ post, by rw [hpost, hlog, List.append_assoc], hsettled.ends hends⟩

theorem wp_sendRun_multi {w : World σ} (hmode : w.singleCallMode = false) :
    wp (sendRun env) (fun o w' => w' = w.afterExchange env .run ∧
      (o = .ok true ↔ (w.reply env .run).HasType .mtRun)) w := by
  simp only [sendRun, wp_bind, wp_exchange, Outcome.andThen_ok]
  cases w.reply env .run with
  | unparsable _ => exact ⟨rfl, by simp [Reply.HasType, throwSwigvm, Proc.throw]⟩
  | message r =>
    have hmode' : (w.afterExchange env .run).singleCallMode = false := hmode
    simp only [wp_bind, wp_get, Outcome.andThen_ok, wp_ite, hmode', Bool.false_eq_true, false_and, if_false,
      Reply.HasType]
    split_ifs with hclose hcleanup hne
    · exact ⟨rfl, by simp [hclose, throwClose, throwSwigvm, Proc.throw]⟩
    · exact ⟨rfl, by simp [hcleanup]⟩
    · exact ⟨rfl, by simp [hne, throwSwigvm, Proc.throw]⟩
    · exact ⟨rfl, by simpa using hne⟩

theorem wp_sendDone_after {w : World σ} :
    wp (sendDone env) (fun _ w' => w' = w.afterExchange env .done) w := by
  simp only [sendDone, wp_bind, wp_exchange, Outcome.andThen_ok]
  exact wp_checkReply (by decide) (fun _ => rfl) (fun _ => rfl) fun _ _ _ => rfl

/-- A session of `forward_input` whose VM can run. -/
structure Runnable (S : Session) (rowFuel : Nat) (group : List TableData) (later : List (List Row)) :
    Prop where
  forwards : TestVM.Forwards S
  script : cstr S.scriptCode = TestVM.forwardInputStrategy
  serializes : ∀ t, S.serializes t = true
  holds : List.Forall₂ (TableData.Holds S.inputTypes) group later
  nulFree : ∀ t ∈ group, ∀ v ∈ t.dataString, (0 : UInt8) ∉ v
  fuel : later.flatten.length < rowFuel

/-- A round can begin: if it is the first one, the rows of the first group are ahead. -/
structure AtRound (env : Environment) (S : Session) (group : List TableData) (later : List (List Row))
    (base : List Event) (w : World (Sigma TestVM)) : Prop where
  session : w.session env = S
  mode : w.singleCallMode = false
  ready : ∃ log, w.log = base ++ log ∧ Settled group log ∧ ∃ vm : TestVM S.inputTypes,
    w.vm = some { state := ⟨S.inputTypes, vm⟩ } ∧ TestVM.Idle S vm ∧
    ∀ c : Channel, c.past = w.past ++ [⟨S.connectionId, .inr .run⟩] →
      TableIterator.Reads S Request.Quiet (if (runs log).emits = [] then later.flatten else [])
        (vm.input, c)

theorem AtRound.settled {w : World (Sigma TestVM)} (h : AtRound env S group later base w) :
    SettledSince group base w := by
  obtain ⟨log, hlog, hsettled, -⟩ := h.ready
  exact ⟨log, hlog, hsettled⟩

theorem wp_run_test {w : World (Sigma TestVM)} (hS : Runnable S rowFuel group later)
    (hsession : w.session env = S) (hforce : w.inpForceFinish = false) {vm : TestVM S.inputTypes}
    (hvm : w.vm = some { state := ⟨S.inputTypes, vm⟩ }) (hidle : TestVM.Idle S vm) {first : Prop}
    [Decidable first] (hreads : TableIterator.Reads S Request.Quiet (if first then later.flatten else [])
      (vm.input, w.channel)) :
    wp (run_ env (testContainer rowFuel)) (fun o w' => o = .ok true ∧ ∃ (l : List (VmRequest × Reply))
      (vm' : TestVM S.inputTypes), w'.log = w.log ++ l.map (fun x => Event.vm x.1 x.2) ++
        [.ran (.returned true [])] ∧
      SameTexts (emitted (l.map Prod.fst)) (if first then group else []) ∧
      w'.session env = S ∧ w'.singleCallMode = w.singleCallMode ∧
      w'.vm = some { state := ⟨S.inputTypes, vm'⟩ } ∧ TestVM.Idle S vm' ∧ vm'.input.rowsReceived = 0) w := by
  have hrun : wp (TestVM.run S rowFuel) (fun o s => o = .ok true ∧ TestVM.Idle S s.1 ∧
      s.1.input.rowsReceived = 0 ∧ SameTexts (emitted (s.2.exchanges.map Prod.fst))
        (if first then group else [])) (vm, w.channel) := by
    refine TestVM.wp_run hS.script ?_
    have hfuel : (if first then later.flatten else []).length < rowFuel := by
      have := hS.fuel
      split_ifs
      · exact this
      · exact Nat.zero_lt_of_lt this
    refine wp_mono (TestVM.wp_forwardInput hS.forwards (fun t => ⟨by simp [Channel.request], by
      simp [Channel.request]⟩) hS.serializes hidle hforce rfl hreads hfuel)
      fun o s ⟨ho, hidle', hz, sentRows, hsent, hcut⟩ => ⟨ho, hidle', hz, ?_⟩
    have hout : S.outputTypes = S.inputTypes := hS.forwards.output.trans hS.forwards.input.symm
    rw [hout] at hsent
    split_ifs at hcut ⊢
    · exact sameTexts_of_cut hS.holds hS.nulFree hsent hcut
    · have hnil : List.Forall₂ (TableData.Holds S.inputTypes) [] [] := .nil
      exact sameTexts_of_cut hnil (by simp) hsent hcut
  subst hsession
  simp only [run_, wp_catching, wp_bind]
  rw [wp_callVm_some hvm]
  show wp (TestVM.method fun _ => TestVM.run (w.session env) rowFuel) _ _
  rw [TestVM.wp_method]
  refine wp_mono hrun fun o s ⟨ho, hidle', hz, hsame⟩ => ?_
  subst ho
  simp only [Outcome.andThen_ok]
  rw [wp_exceptionMsg rfl]
  simp only [Outcome.andThen_ok, logEvent, wp_modify, wp_pure]
  exact ⟨trivial, s.2.exchanges, s.1, rfl, hsame, rfl, rfl, rfl, hidle', hz⟩

theorem wp_runRound_test {w : World (Sigma TestVM)} (hS : Runnable S rowFuel group later)
    (h : AtRound env S group later base w) (fuel : Nat) :
    wp (runRound env (testContainer rowFuel) (fuel + 1)) (fun o w' => SettledSince group base w' ∧
      (o = .ok (.inl ()) → AtRound env S group later base w')) w := by
  obtain ⟨hsession, hmode, log, hlog, hsettled, vm, hvm, hidle, hreads⟩ := h
  rw [runRound, wp_bind]
  refine wp_mono (wp_sendRun_multi hmode) ?_
  rintro o w₁ ⟨hw₁, ho⟩
  have hlog₁ : w₁.log = base ++ (log ++ [.sent .run, .received (w.reply env .run)]) := by
    rw [hw₁, World.afterExchange, hlog]
    simp
  have hrefused : o ≠ .ok true → SettledSince group base w₁ := fun hne =>
    ⟨_, hlog₁, hsettled.refused fun ht => hne (ho.mpr ht)⟩
  rcases o with b | e | r
  case throw => exact ⟨hrefused (by simp), by simp⟩
  case stop => exact ⟨hrefused (by simp), by simp⟩
  cases b with
  | false => exact ⟨hrefused (by simp), fun h => by simp at h⟩
  | true =>
    simp only [Outcome.andThen_ok, if_true, wp_bind, wp_modify]
    let w₂ : World (Sigma TestVM) := { w₁ with inpForceFinish := false }
    have hsession₂ : w₂.session env = S := by
      show w₁.session env = S
      rw [hw₁]
      exact hsession
    have hvm₂ : w₂.vm = some { state := ⟨S.inputTypes, vm⟩ } := by
      show w₁.vm = _
      rw [hw₁]
      exact hvm
    have hpast₂ : w₂.channel.past = w.past ++ [⟨S.connectionId, .inr .run⟩] := by
      show w₁.past = _
      rw [hw₁, ← hsession]
      rfl
    have hran := wp_run_test hS hsession₂ rfl hvm₂ hidle (hreads _ hpast₂)
    show wp (runUntilDone env (testContainer rowFuel) (fuel + 1)) _ w₂
    rw [runUntilDone, loop_succ, wp_bind, wp_bind]
    refine wp_mono hran ?_
    rintro o w₃ ⟨rfl, l, vm', hlog₃, hsame, hsession₃, hmode₃, hvm₃, hidle', hz⟩
    simp only [Outcome.andThen_ok, if_true, wp_pure, wp_pure', doneRound, wp_bind]
    refine wp_mono wp_sendDone_after fun o w₄ hw₄ => ?_
    have ht : (w.reply env .run).HasType .mtRun := ho.mp rfl
    have hsettled₄ := hsettled.round ht l (.returned true []) (w₃.reply env .done) hsame
    have hlog₄ : w₄.log = base ++
        (log ++ roundLog (w.reply env .run) l (.returned true []) (w₃.reply env .done)) := by
      rw [hw₄, World.afterExchange, hlog₃]
      show w₁.log ++ _ ++ _ ++ _ ++ _ = _
      rw [hlog₁]
      simp [roundLog]
    have hsince : SettledSince group base w₄ := ⟨_, hlog₄, hsettled₄⟩
    have hround : AtRound env S group later base w₄ := by
      refine ⟨?_, ?_, _, hlog₄, hsettled₄, vm', ?_, hidle', fun c _ => ?_⟩
      · rw [hw₄]
        exact hsession₃
      · rw [hw₄]
        show w₃.singleCallMode = false
        rw [hmode₃]
        show w₁.singleCallMode = false
        rw [hw₁]
        exact hmode
      · rw [hw₄]
        exact hvm₃
      · rw [hsettled.runs_round ht l, if_neg (by simp)]
        exact .inl ⟨hz, rfl⟩
    rcases o with b | e | r
    · cases b with
      | true => exact ⟨hsince, fun _ => hround⟩
      | false => exact ⟨hsince, fun h => by simp at h⟩
    · exact ⟨hsince, by simp⟩
    · exact ⟨hsince, by simp⟩

theorem moves_handleError {container : Container σ} (msg : ByteString) (shutdown : Bool) :
    Moves (Appends Event.Ends fun _ => True) (handleError env container msg shutdown) :=
  Appends.handleError (fun _ _ => ⟨by simp, by simp⟩) (fun _ => ⟨by simp, by simp⟩) (fun _ => ⟨by simp, by simp⟩)
    fun _ _ => trivial

theorem moves_finishSession {container : Container σ} :
    Moves (Appends Event.Ends fun _ => True) (finishSession env container) :=
  Appends.finishSession (fun _ _ => ⟨by simp, by simp⟩) ⟨by simp, by simp⟩ (fun _ => ⟨by simp, by simp⟩)
    (fun _ => ⟨by simp, by simp⟩) fun _ _ => trivial

theorem wp_rounds_test {w : World (Sigma TestVM)} (hS : Runnable S rowFuel group later)
    (h : AtRound env S group later base w) (fuel : Nat) :
    wp (sessionLoop env (testContainer rowFuel) (fuel + 1)) (fun _ w' => SettledSince group base w') w := by
  rw [sessionLoop, wp_bind, wp_get, Outcome.andThen_ok, h.mode, wp_ite, if_neg (by simp)]
  refine wp_loop (fun _ => AtRound env S group later base) (fun _ w h => h.settled) (fun _ w h => ?_)
    (fuel + 1) h
  refine wp_mono (wp_runRound_test hS h fuel) ?_
  rintro o w' ⟨hsettled, hround⟩
  rcases o with (⟨⟩ | code) | e | r
  · exact hround rfl
  · exact hsettled
  · exact hsettled
  · exact hsettled

theorem wp_make_test {groups : Nat → List TableData} (hserves : Serves S.server groups)
    (hS : Runnable S rowFuel (groups 0) later) (hne : ∀ r ∈ later, r ≠ []) {c : Channel}
    (hpast : ∀ r ∈ c.past, r.Quiet) (hex : c.exchanges = []) :
    wp ((testContainer rowFuel).make S) (fun o c' => ∃ (vm : TestVM S.inputTypes) (r : Reply),
      o = .ok (some { state := ⟨S.inputTypes, vm⟩ }) ∧ TestVM.Idle S vm ∧ c'.exchanges = [(.next, r)] ∧
      ∀ c'' : Channel, c''.past = c.past ++ [Channel.request S .next] ++ [⟨S.connectionId, .inr .run⟩] →
        TableIterator.Reads S Request.Quiet later.flatten (vm.input, c'')) c := by
  have hposition : position c.past = {} := position_append_quiet [] hpast
  obtain ⟨hbatch, hdone⟩ := hserves.answers rfl c.past
  rw [hposition] at hbatch hdone
  have hexchanges : (c.after S .next).exchanges = [(.next, c.answer S .next)] := by
    rw [Channel.after, hex]
    rfl
  simp only [testContainer, wp_bind, wp_construct]
  refine TestVM.wp_create hS.forwards ?_
  have hholds := hS.holds
  rcases hgroup : groups 0 with _ | ⟨t, ts⟩ <;> rw [hgroup] at hholds
  · obtain rfl : later = [] := by simpa using hholds
    refine TableIterator.wp_receiveDone (hdone (by rw [hgroup]; rfl)) fun it hz => ?_
    refine ⟨rfl, fun vm hidle hinput => ⟨vm, _, rfl, hidle, hexchanges, fun c'' _ => .inl ⟨?_, rfl⟩⟩⟩
    rw [hinput]
    exact hz
  · obtain ⟨rows, later, ht, hlater, rfl⟩ := List.forall₂_cons_left_iff.mp hholds
    obtain ⟨row, todo, rfl⟩ := List.exists_cons_of_ne_nil (hne rows (by simp))
    refine TableIterator.wp_receiveBatch (hbatch t (by rw [hgroup]; rfl)) ht fun it hat => ?_
    refine ⟨rfl, fun vm hidle hinput => ⟨vm, _, rfl, hidle, hexchanges, fun c'' hpast'' => .inr ?_⟩⟩
    have hfeeds : TableIterator.Feeds S Request.Quiet c''.past ts := by
      refine hserves.feeds rfl ?_
      have hafter : position c''.past = ⟨0, 1, true⟩ := by
        have hbefore : c.past.foldl Position.step {} = {} := hposition
        rw [hpast'', position, List.foldl_append, List.foldl_append, hbefore]
        rfl
      rw [hafter]
      show (groups 0).drop 1 = ts
      rw [hgroup]
      rfl
    exact ⟨[], row, todo, later.flatten, hinput ▸ hat,
      ⟨ts, later, hlater, fun r hr => hne r (by simp [hr]), hfeeds, rfl⟩, by simp⟩

theorem wp_session_test {groups : Nat → List TableData} {w : World (Sigma TestVM)}
    (hserves : Serves env.server groups) (hw : Prepared env w)
    (hS : Runnable (w.session env) rowFuel (groups 0) later) (hne : ∀ r ∈ later, r ≠ [])
    (hlog : w.log = base) (fuel : Nat) :
    wp (session env (testContainer rowFuel) (fuel + 1)) (fun _ w' => SettledSince (groups 0) base w') w := by
  have hmaker : wp (callVmMaker env (testContainer rowFuel)) (fun o w' => o = .ok () ∧
      AtRound env (w.session env) (groups 0) later base w' ∧
      ∃ vm, w'.vm = some vm ∧ vm.exceptionMsg = []) w := by
    have hmake := wp_make_test hserves hS hne (c := w.channel) hw.past rfl
    unfold wp at hmake
    unfold wp callVmMaker
    rcases hrun : (testContainer rowFuel).make (w.session env) w.channel with ⟨o, c⟩
    rw [hrun] at hmake
    obtain ⟨vm, r, ho, hidle, hex, hreads⟩ := hmake
    subst ho
    refine ⟨rfl, ⟨rfl, hw.mode, [.vm .next r], ?_, ?_, vm, rfl, hidle, fun c' hpast => ?_⟩, _, rfl, rfl⟩
    · show w.log ++ c.exchanges.map _ = _
      rw [hlog, hex]
      rfl
    · have hends : ∀ e ∈ [Event.vm .next r], e.Ends := by simp [Event.Ends]
      exact (Settled.nil _).ends hends
    · refine hreads c' ?_
      rw [hpast]
      show w.past ++ c.exchanges.map _ ++ _ = _
      rw [hex]
      rfl
  have hbody : wp (sessionBody env (testContainer rowFuel) (fuel + 1))
      (fun _ w' => SettledSince (groups 0) base w') w := by
    rw [sessionBody, wp_bind]
    refine wp_mono hmaker fun o w' ⟨ho, hround, vm, hvm, hmsg⟩ => ?_
    subst ho
    rw [Outcome.andThen_ok, wp_bind, wp_get, Outcome.andThen_ok, hvm]
    simp only [hmsg, List.length_nil, lt_self_iff_false, if_false, wp_bind, wp_modify, Outcome.andThen_ok]
    have hround' : AtRound env (w.session env) (groups 0) later base
        { w' with shutdownVmInCaseOfError := true } := ⟨hround.session, hround.mode, hround.ready⟩
    refine wp_mono (wp_rounds_test hS hround' fuel) fun o w'' hsettled => ?_
    rcases o with (_ | code) | e | r
    · exact hsettled.grows (Appends.grows moves_finishSession)
    · exact hsettled
    · exact hsettled
    · exact hsettled
  have hcaught : wp (catching (sessionBody env (testContainer rowFuel) (fuel + 1)) fun e => do
      let w ← get
      return some (← handleError env (testContainer rowFuel) (errorMessage e) w.shutdownVmInCaseOfError))
      (fun _ w' => SettledSince (groups 0) base w') w := by
    rw [wp_catching]
    refine wp_mono hbody fun o w' hsettled => ?_
    cases o with
    | ok code => exact hsettled
    | throw e =>
      exact hsettled.grows (Appends.grows (C := fun _ => True)
        (.bind .get fun _ => .bind (moves_handleError _ _) fun _ => .pure _))
    | stop r => exact hsettled
  rw [session, wp_bind]
  refine wp_mono hcaught fun o w' hsettled => ?_
  rcases o with (_ | code) | e | r
  · exact hsettled.grows (Appends.grows (C := fun _ => True)
      (.bind (Appends.deleteVm fun _ _ => ⟨by simp, by simp⟩) fun _ => .pure _))
  · exact hsettled
  · exact hsettled
  · exact hsettled

end Client

/-- Well-formed tables of one VARCHAR column that carry no texts are no tables. -/
theorem sameTexts_nil_iff {group : List TableData} (hwf : ∀ t ∈ group, t.WellFormed [.string]) :
    SameTexts [] group ↔ group = [] := by
  constructor
  · rintro ⟨hnulls, -⟩
    cases group with
    | nil => rfl
    | cons t ts =>
      have ht := hwf t (by simp)
      have hnone : t.dataNulls = [] := by
        have : ([] : List Bool) = t.dataNulls ++ nullsOf ts := hnulls
        exact (List.append_eq_nil_iff.mp this.symm).1
      have hlen := ht.nulls_length
      have hpos := ht.rows_pos
      rw [hnone, List.length_nil, List.length_singleton] at hlen
      omega
  · rintro rfl
    exact ⟨rfl, rfl⟩

theorem OnlyFirst.same_iff {groups : Nat → List TableData} {emits : List (List TableData)}
    (hwf : ∀ i, ∀ t ∈ groups i, t.WellFormed [.string]) (h : OnlyFirst (groups 0) emits) :
    (∀ i ts, emits[i]? = some ts → SameTexts ts (groups i)) ↔
      ∀ i, 0 < i → i < emits.length → groups i = [] := by
  cases emits with
  | nil => simp
  | cons ts rest =>
    have hlater : ∀ i ts', rest[i]? = some ts' →
        (SameTexts ts' (groups (i + 1)) ↔ groups (i + 1) = []) := by
      intro i ts' hts
      have hempty := h.2 ts' (List.mem_of_getElem? hts)
      rw [← sameTexts_nil_iff (hwf (i + 1)), SameTexts, SameTexts, hempty.1, hempty.2]
    constructor
    · intro hsame i hi hlt
      obtain ⟨i, rfl⟩ := Nat.exists_eq_succ_of_ne_zero (Nat.ne_of_gt hi)
      have hlt' : i < rest.length := by simpa using hlt
      have hget : rest[i]? = some rest[i] := List.getElem?_eq_getElem hlt'
      exact (hlater i _ hget).mp (hsame (i + 1) _ (by simp))
    · intro hnone i ts' hts
      cases i with
      | zero =>
        obtain rfl : ts = ts' := by simpa using hts
        exact h.1
      | succ i =>
        have hget : rest[i]? = some ts' := by simpa using hts
        have hlt : i < rest.length := (List.getElem?_eq_some_iff.mp hget).1
        exact (hlater i ts' hget).mpr (hnone (i + 1) (Nat.succ_pos i) (by simpa using hlt))

/-- Every run of a `forward_input` session ends, and the runs emit exactly their groups if and only if
no group after the first has a row. -/
theorem forwardGroups_iff (env : Environment) (groups : Nat → List TableData)
    (hserves : Serves env.server groups) (hser : ∀ t, env.serializes t = true)
    (hwf : ∀ i, ∀ t ∈ groups i, t.WellFormed [.string])
    (hnul : ∀ i, ∀ t ∈ groups i, ∀ v ∈ t.dataString, (0 : UInt8) ∉ v) (rowFuel : Nat)
    (hfuel : ((groups 0).map TableData.rowCount).sum < rowFuel) (socketName : ByteString) (fuel : Nat)
    (single : Bool) (log : List Event)
    (hlog : sessionLog (Client.exaudfclientMain env (testContainer rowFuel) socketName fuel {}).2.log =
      some (single, log)) :
    (runs log).began = (runs log).emits.length ∧
      ((∀ i ts, (runs log).emits[i]? = some ts → SameTexts ts (groups i)) ↔
        ∀ i, 0 < i → i < (runs log).began → groups i = []) := by
  obtain ⟨later, hholds, hne⟩ := TableData.exists_holds (hwf 0)
  let Q (_ : Outcome Exception Nat) (w : World (Sigma TestVM)) : Prop :=
    ∀ single log, sessionLog w.log = some (single, log) → Settled (groups 0) log
  have hrun : wp (Client.exaudfclientMain env (testContainer rowFuel) socketName fuel) Q {} := by
    have hnone : ∀ o w, sessionLog w.log = none → Q o w := by
      intro o w h single log hlog
      rw [h] at hlog
      cases hlog
    cases fuel with
    | zero =>
      rw [Client.exaudfclientMain, wp_ite]
      split_ifs
      · exact hnone (.stop .aborted) _ rfl
      · exact hnone (.stop .cutOff) _ rfl
    | succ fuel =>
      refine Client.wp_exaudfclientMain socketName (fuel + 1) hnone
        (fun w hw _ => Client.wp_sendInit hserves hw socketName) (fun w hw h => ?_)
        (fun w hw => ⟨hw.inpNames, hw.inpTypes, hw.outNames, hw.outTypes, hw.past⟩)
        ⟨rfl, rfl, rfl, rfl, by simp⟩ rfl
      have hS : Client.Runnable (w.session env) rowFuel (groups 0) later :=
        ⟨hw.forwards, hw.script, hser, hw.forwards.input ▸ hholds, hnul 0,
          (TableData.length_flatten_of_holds hholds).symm ▸ hfuel⟩
      let w' : World (Sigma TestVM) := { w with log := w.log ++ [.connected w.singleCallMode] }
      have hw' : Client.Prepared env w' := ⟨hw.mode, hw.forwards, hw.script, hw.past⟩
      have hsettled := Client.wp_session_test hserves hw' hS hne rfl fuel
      refine wp_mono hsettled ?_
      rintro o w'' ⟨log', hlog', hsettled'⟩ single log hlog
      have hconnected : sessionLog (w'.log ++ log') = some (w.singleCallMode, log') :=
        (congrArg sessionLog (List.append_assoc _ _ _)).trans (sessionLog_connected h _ log')
      rw [hlog', hconnected] at hlog
      obtain ⟨-, rfl⟩ := Prod.mk.inj (Option.some.inj hlog)
      exact hsettled'
  have hsettled : Settled (groups 0) log := hrun single log hlog
  refine ⟨hsettled.began, ?_⟩
  rw [hsettled.began]
  exact hsettled.emits.same_iff hwf

/-- A database that starts `k` runs on `groups`. -/
def groupsDatabase (groups : Nat → List TableData) (k : Nat) : Server := fun past =>
  match past.getLast? with
  | some ⟨_, .inr (.client _)⟩ => .message { type := .mtInfo, info := { sourceCode := str "forward_input" } }
  | some ⟨_, .inr .metadata⟩ => .message { type := .mtMeta, metadata := {
      inputIterType := .multiple, outputIterType := .multiple,
      inputColumns := [{ name := str "x", typeName := str "VARCHAR(10)", type := .pbString }],
      outputColumns := [{ name := str "y", typeName := str "VARCHAR(10)", type := .pbString }] } }
  | some ⟨id, .inl .next⟩ => .message { nextOrDone
      (groups (position past.dropLast).group)[(position past.dropLast).batch]? with connectionId := id }
  | some ⟨_, .inr .run⟩ =>
    .message { type := if past.countP (fun r => r.content = .inr .run) ≤ k then .mtRun else .mtCleanup }
  | some ⟨_, .inr .finished⟩ => .message { type := .mtFinished }
  | _ => .message { type := .mtDone }

theorem groupsDatabase_serves (groups : Nat → List TableData) (k : Nat) :
    Serves (groupsDatabase groups k) groups where
  info past id name := by
    refine ⟨_, by rw [groupsDatabase, List.getLast?_concat], rfl, ?_⟩
    decide
  metadata past id := by
    refine ⟨_, by rw [groupsDatabase, List.getLast?_concat], rfl, rfl, rfl, rfl, rfl, rfl⟩
  data past id := by
    refine ⟨_, by rw [groupsDatabase, List.getLast?_concat, List.dropLast_concat], rfl, ?_⟩
    rcases (groups (position past).group)[(position past).batch]? with _ | t
    · rfl
    · exact ⟨rfl, rfl⟩

def oneRow : TableData where
  rows := some 1
  dataString := [[97]]
  dataNulls := [false]
  rowNumber := [0]

theorem oneRow_wellFormed : ∀ t ∈ [oneRow], t.WellFormed [.string] := by
  intro t ht
  obtain rfl := List.mem_singleton.mp ht
  exact ⟨by decide, rfl, rfl, fun k => by rcases k with _ | (_ | _ | _ | _ | _) <;> rfl⟩

/-- Two runs, each with a group of one row. -/
def twoGroups : Outcome Exception Nat × World (Sigma TestVM) :=
  Client.exaudfclientMain { server := groupsDatabase (fun _ => [oneRow]) 2 } (testContainer 2)
    (str "ipc:///tmp/try") 3 {}

def twoGroupsLog : List Event := ((sessionLog twoGroups.2.log).map Prod.snd).getD []

/-- The second group is not forwarded. -/
theorem forwardGroups_iff_two :
    ¬ ∀ (i : Nat) (ts : List TableData), (runs twoGroupsLog).emits[i]? = some ts →
      SameTexts ts [oneRow] := by
  have h := forwardGroups_iff { server := groupsDatabase (fun _ => [oneRow]) 2 } (fun _ => [oneRow])
    (groupsDatabase_serves (fun _ => [oneRow]) 2) (fun _ => rfl) (fun _ => oneRow_wellFormed) (fun _ => by decide) 2
    (by decide) (str "ipc:///tmp/try") 3 false twoGroupsLog (by decide +kernel)
  have hbegan : (runs twoGroupsLog).began = 2 := by decide +kernel
  intro hsame
  have hnone := h.2.mp hsame 1 (by decide) (by rw [hbegan]; decide)
  simp at hnone

/-- Sessions with more than one group are not forwarded. -/
theorem forwardGroups_onlyFirst :
    ¬ ∀ (env : Environment) (groups : Nat → List TableData), Serves env.server groups →
      (∀ t, env.serializes t = true) → (∀ i, ∀ t ∈ groups i, t.WellFormed [.string]) →
      (∀ i, ∀ t ∈ groups i, ∀ v ∈ t.dataString, (0 : UInt8) ∉ v) →
      ∀ rowFuel, (∀ i, ((groups i).map TableData.rowCount).sum < rowFuel) →
      ∀ (socketName : ByteString) (fuel : Nat) (single : Bool) (log : List Event),
        sessionLog (Client.exaudfclientMain env (testContainer rowFuel) socketName fuel {}).2.log =
          some (single, log) →
        ∀ i ts, (runs log).emits[i]? = some ts → SameTexts ts (groups i) := by
  intro h
  have hsame := h { server := groupsDatabase (fun _ => [oneRow]) 2 } (fun _ => [oneRow])
    (groupsDatabase_serves (fun _ => [oneRow]) 2) (fun _ => rfl) (fun _ => oneRow_wellFormed) (fun _ => by decide) 2
    (fun _ => by decide) (str "ipc:///tmp/try") 3 false twoGroupsLog (by decide +kernel) 1 [] (by decide +kernel)
  exact absurd hsame (by decide)

end UdfRunner
