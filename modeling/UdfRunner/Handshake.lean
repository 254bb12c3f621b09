import UdfRunner.SessionTrace

/-!
# Handshakes that are tried again

A remote client goes back to `reinit` until `send_init` works. Nothing that a failed attempt left in the
globals is taken back, so a session starts clean exactly if the attempts before it all timed out:
`retriedHandshake_clean_iff`.
-/

namespace UdfRunner
open Proc

namespace Client
variable {σ : Type} {env : Environment} {container : Container σ} {name : ByteString} {w w' : World σ}

/-- What `send_init` sends first. -/
def clientRequest (name : ByteString) : Request := ⟨0, .inr (.client name)⟩

/-- The worlds between the attempts, with which of them timed out. -/
inductive Attempts (env : Environment) (name : ByteString) : List Bool → World σ → Prop
  | start : Attempts env name [] {}
  | retry {l : List Bool} {w w' : World σ} (h : Attempts env name l w)
    (hfailed : sendInit env name { w with vm := none } = (.ok false, w')) :
    Attempts env name (l ++ [env.timesOut (w.past ++ [clientRequest name])]) w'

/-- What a script calls a type of the protocol. -/
def scriptType : ColumnType → Datatype
  | .pbUnsupported => .unsupported
  | .pbDouble => .double
  | .pbInt32 => .int32
  | .pbInt64 => .int64
  | .pbNumeric => .numeric
  | .pbTimestamp => .timestamp
  | .pbDate => .date
  | .pbString => .string
  | .pbBoolean => .boolean

/-- The type of a column has all that the `MT_META` says of it. -/
structure Describes (c : ColumnDefinition) (t : SwigColumntype) : Prop where
  type : t.type = scriptType c.type
  typeName : t.typeName = c.typeName
  len : t.len = c.size
  prec : t.prec = c.precision
  scale : t.scale = c.scale

/-- The columns are those of the `MT_META` that the log ends with, and no exception is pending. -/
structure CleanStart (w : World σ) (rep : Metadata) : Prop where
  inpNames : w.params.inpNames = rep.inputColumns.map (·.name)
  inpTypes : List.Forall₂ Describes rep.inputColumns w.params.inpTypes
  inpLengths : w.params.inpNames.length = w.params.inpTypes.length
  outNames : w.params.outNames = rep.outputColumns.map (·.name)
  outTypes : List.Forall₂ Describes rep.outputColumns w.params.outTypes
  outLengths : w.params.outNames.length = w.params.outTypes.length
  noException : w.exchandler.exthrowed = false

/-- A size is for strings, a precision and a scale are for numbers that are not floating. -/
def OwnFields (c : ColumnDefinition) : Prop :=
  (c.type ≠ .pbString → c.size = 0) ∧
    (c.type ∉ [.pbInt32, .pbInt64, .pbNumeric] → c.precision = 0 ∧ c.scale = 0)

instance : DecidablePred OwnFields := fun c =>
  inferInstanceAs (Decidable ((c.type ≠ .pbString → c.size = 0) ∧
    (c.type ∉ [ColumnType.pbInt32, .pbInt64, .pbNumeric] → c.precision = 0 ∧ c.scale = 0)))

theorem describes_iff {c : ColumnDefinition} {t : SwigColumntype} (ht : columnType c = some t) :
    Describes c t ↔ OwnFields c := by
  have hfields : Describes c t ↔ t.type = scriptType c.type ∧ t.typeName = c.typeName ∧ t.len = c.size ∧
      t.prec = c.precision ∧ t.scale = c.scale :=
    ⟨fun h => ⟨h.type, h.typeName, h.len, h.prec, h.scale⟩, fun ⟨h₁, h₂, h₃, h₄, h₅⟩ => ⟨h₁, h₂, h₃, h₄, h₅⟩⟩
  rw [hfields, OwnFields]
  cases hc : c.type <;> simp only [columnType, hc, Option.some.injEq, reduceCtorEq] at ht <;> subst ht <;>
    simp [scriptType, eq_comm]

theorem forall₂_describes_iff {cols : List ColumnDefinition} {types : List SwigColumntype}
    (h : types.map some = cols.map columnType) : List.Forall₂ Describes cols types ↔ ∀ c ∈ cols, OwnFields c := by
  induction cols generalizing types with
  | nil =>
    obtain rfl : types = [] := by simpa using h
    simp
  | cons c cols ih =>
    cases types with
    | nil => exact absurd h (by simp)
    | cons t types =>
      obtain ⟨ht, hrest⟩ := List.cons.inj h
      rw [List.forall₂_cons, List.forall_mem_cons, describes_iff ht.symm, ih hrest]

/-- What the loop over the columns does to one side's names and types. -/
structure Adds (names : Params → List ByteString) (types : Params → List SwigColumntype)
    (cols : List ColumnDefinition) (p p' : Params) : Prop where
  names_eq : names p' = names p ++ cols.map (·.name)
  types_eq : (types p').map some = (types p).map some ++ cols.map columnType

theorem Adds.cons {names : Params → List ByteString} {types : Params → List SwigColumntype}
    {cols : List ColumnDefinition} {c : ColumnDefinition} {t : SwigColumntype} {p p₁ p' : Params}
    (hnames : names p₁ = names p ++ [c.name]) (htypes : types p₁ = types p ++ [t])
    (ht : columnType c = some t) (h : Adds names types cols p₁ p') :
    Adds names types (c :: cols) p p' := by
  refine ⟨?_, ?_⟩
  · rw [h.names_eq, hnames, List.map_cons, List.append_assoc]
    rfl
  · rw [h.types_eq, htypes, List.map_append, List.append_assoc, List.map_cons, List.map_cons, ht]
    rfl

/-- The loop over one side's columns: it adds them all, or leaves an exception. `keep` is what of the
parameters the side does not touch. -/
theorem wp_addColumns_side {κ : Type} (push : ByteString → SwigColumntype → Params → Params)
    (names : Params → List ByteString) (types : Params → List SwigColumntype) (keep : Params → κ)
    {unsupported : String}
    (hnames : ∀ n t p, names (push n t p) = names p ++ [n])
    (htypes : ∀ n t p, types (push n t p) = types p ++ [t])
    (hkeep : ∀ n t p, keep (push n t p) = keep p) (cols : List ColumnDefinition) (w : World σ) :
    wp (addColumns push unsupported cols) (fun o w' =>
      (o = .ok true ∧ w'.exchandler = w.exchandler ∧ w'.log = w.log ∧ keep w'.params = keep w.params ∧
        Adds names types cols w.params w'.params) ∨
      (o = .ok false ∧ w'.exchandler.exthrowed = true)) w := by
  induction cols generalizing w with
  | nil =>
    have hnone : Adds names types [] w.params w.params := ⟨by simp, by simp⟩
    rw [addColumns, wp_pure]
    exact .inl ⟨rfl, rfl, rfl, rfl, hnone⟩
  | cons c cols ih =>
    rcases ht : columnType c with _ | t
    · simp only [addColumns, ht, wp_bind, wp_modify, Outcome.andThen_ok, setException, wp_pure]
      exact .inr ⟨trivial, rfl⟩
    · simp only [addColumns, ht, wp_bind, wp_modify, Outcome.andThen_ok]
      refine wp_mono (ih _) fun o w' hw' => ?_
      rcases hw' with ⟨ho, hexch, hlog, hk, hadds⟩ | hfailed
      · refine .inl ⟨ho, hexch, hlog, hk.trans (hkeep _ _ _), ?_⟩
        exact hadds.cons (hnames _ _ _) (htypes _ _ _) ht
      · exact .inr hfailed

theorem wp_readMetadata (rep : Metadata) (w : World σ) :
    wp (readMetadata rep) (fun o w' =>
      (o = .ok true ∧ w'.exchandler = w.exchandler ∧ w'.log = w.log ∧
        Adds Params.inpNames Params.inpTypes rep.inputColumns w.params w'.params ∧
        Adds Params.outNames Params.outTypes rep.outputColumns w.params w'.params) ∨
      (o = .ok false ∧ w'.exchandler.exthrowed = true)) w := by
  simp only [readMetadata, wp_bind, wp_modify, Outcome.andThen_ok]
  refine wp_mono (wp_addColumns_side pushInput Params.inpNames Params.inpTypes
    (fun p => (p.outNames, p.outTypes)) (fun _ _ _ => rfl) (fun _ _ _ => rfl) (fun _ _ _ => rfl)
    rep.inputColumns _) fun o w₁ h₁ => ?_
  rcases h₁ with ⟨rfl, hexch₁, hlog₁, hkeep₁, hinp⟩ | ⟨rfl, hthrown⟩
  · simp only [Outcome.andThen_ok, if_true]
    refine wp_mono (wp_addColumns_side pushOutput Params.outNames Params.outTypes
      (fun p => (p.inpNames, p.inpTypes)) (fun _ _ _ => rfl) (fun _ _ _ => rfl) (fun _ _ _ => rfl)
      rep.outputColumns w₁) fun o w₂ h₂ => ?_
    rcases h₂ with ⟨ho, hexch₂, hlog₂, hkeep₂, hout⟩ | hfailed
    · obtain ⟨hnames₁, htypes₁⟩ := Prod.mk.inj hkeep₁
      obtain ⟨hnames₂, htypes₂⟩ := Prod.mk.inj hkeep₂
      refine .inl ⟨ho, hexch₂.trans hexch₁, hlog₂.trans hlog₁, ⟨?_, ?_⟩, ⟨?_, ?_⟩⟩
      · exact hnames₂.trans hinp.names_eq
      · exact (congrArg _ htypes₂).trans hinp.types_eq
      · exact hout.names_eq.trans (congrArg (· ++ _) hnames₁)
      · exact hout.types_eq.trans (congrArg (fun ts => ts.map some ++ _) htypes₁)
    · exact .inr hfailed
  · exact .inr ⟨rfl, hthrown⟩

def EndsInMetadata (w : World σ) (rep : Metadata) : Prop :=
  ∃ log r, w.log = log ++ [.received (.message r)] ∧ r.type = .mtMeta ∧ r.metadata = rep

/-- What an attempt comes to. -/
inductive Attempted (env : Environment) (name : ByteString) (w : World σ) :
    Outcome Exception Bool → World σ → Prop
  | timedOut {w' : World σ} (h : env.timesOut (w.past ++ [clientRequest name]) = true)
    (hparams : w'.params = w.params) (hexch : w'.exchandler = w.exchandler) : Attempted env name w (.ok false) w'
  | failed {w' : World σ} (h : env.timesOut (w.past ++ [clientRequest name]) = false)
    (hthrown : w'.exchandler.exthrowed = true) : Attempted env name w (.ok false) w'
  | threw {w' : World σ} {l : ResourceLimit} {e : Exception} (hlimit : env.setrlimit w'.past l = false) :
    Attempted env name w (.throw e) w'
  | worked {w' : World σ} {rep : Metadata} {p : Params} (hend : EndsInMetadata w' rep)
    (hexch : w'.exchandler = w.exchandler)
    (hinp : p.inpNames = w.params.inpNames ∧ p.inpTypes = w.params.inpTypes)
    (hout : p.outNames = w.params.outNames ∧ p.outTypes = w.params.outTypes)
    (hinps : Adds Params.inpNames Params.inpTypes rep.inputColumns p w'.params)
    (houts : Adds Params.outNames Params.outTypes rep.outputColumns p w'.params) :
    Attempted env name w (.ok true) w'

theorem wp_checkInitReply {Q : Outcome Exception Bool → World σ → Prop} {close wrong : String}
    {expected : MessageType} {r : Response}
    (hok : r.type = expected → Q (.ok true) w)
    (hfailed : ∀ w' : World σ, w'.exchandler.exthrowed = true → Q (.ok false) w') :
    wp (checkInitReply close wrong expected r) Q w := by
  simp only [checkInitReply, setException, wp_ite, wp_bind, wp_modify, Outcome.andThen_ok, wp_pure]
  split_ifs with hclose hne
  · exact hfailed _ rfl
  · exact hfailed _ rfl
  · exact hok (not_not.mp hne)

theorem wp_sendInit_attempted (w : World σ) : wp (sendInit env name) (Attempted env name w) w := by
  simp only [sendInit, send, logEvent, wp_bind, wp_modify, Outcome.andThen_ok, wp_get, wp_ite, wp_pure]
  split_ifs with htime
  · exact .timedOut htime rfl rfl
  have htime' : env.timesOut (w.past ++ [clientRequest name]) = false := Bool.eq_false_iff.mpr htime
  have hfailed : ∀ w' : World σ, w'.exchandler.exthrowed = true → Attempted env name w (.ok false) w' :=
    fun w' h => .failed htime' h
  simp only [recv, logEvent, wp_bind, wp_get, wp_modify, Outcome.andThen_ok, wp_pure]
  split
  · exact hfailed _ rfl
  simp only [wp_bind, wp_modify, Outcome.andThen_ok]
  refine wp_checkInitReply (fun _ => ?_) fun w' h => hfailed w' h
  simp only [Outcome.andThen_ok, if_true, writeScriptParams, wp_bind, wp_modify, wp_exchange]
  refine wp_setLimits ?_ fun l msg hlimit => .threw hlimit
  simp only [Outcome.andThen_ok]
  split
  · exact hfailed _ rfl
  rename_i r hr
  refine (wp_bind ..).mpr (wp_checkInitReply (fun hmeta => ?_) fun w' h => hfailed w' h)
  simp only [Outcome.andThen_ok, if_true]
  refine wp_mono (wp_readMetadata r.metadata _) fun o w' h => ?_
  rcases h with ⟨rfl, hexch, hlog, hinp, hout⟩ | ⟨rfl, hthrown⟩
  · rw [World.afterExchange, hr] at hlog
    have hend : EndsInMetadata w' r.metadata := ⟨_, r, hlog, hmeta, rfl⟩
    refine .worked hend hexch ?_ ?_ hinp hout
    · exact ⟨rfl, rfl⟩
    · exact ⟨rfl, rfl⟩
  · exact hfailed w' hthrown

/-! ### Sequences of attempts -/

theorem attempted_of_eq {o : Outcome Exception Bool} (h : sendInit env name w = (o, w')) :
    Attempted env name w o w' := by
  have hwp := @wp_sendInit_attempted _ env name w
  rwa [wp, h] at hwp

/-- The globals after a sequence of attempts: untouched if all timed out, else with an exception that
no one takes back. -/
theorem Attempts.globals {l : List Bool} (h : Attempts env name l w) :
    ((∀ b ∈ l, b = true) ∧ w.params = {} ∧ w.exchandler = {}) ∨
      ((∃ b ∈ l, b = false) ∧ w.exchandler.exthrowed = true) := by
  induction h with
  | start => exact .inl ⟨by simp, rfl, rfl⟩
  | @retry l w w' h hfailed ih =>
    cases attempted_of_eq hfailed with
    | timedOut htime hparams hexch =>
      replace htime : env.timesOut (w.past ++ [clientRequest name]) = true := htime
      rcases ih with ⟨hall, hp, he⟩ | ⟨⟨b, hb, hfalse⟩, hthrown⟩
      · refine .inl ⟨fun b hb => ?_, hparams.trans hp, hexch.trans he⟩
        rcases List.mem_append.mp hb with hb | hb
        · exact hall b hb
        · rw [List.mem_singleton.mp hb, htime]
      · refine .inr ⟨⟨b, List.mem_append_left _ hb, hfalse⟩, ?_⟩
        rw [hexch]
        exact hthrown
    | failed htime hthrown =>
      exact .inr ⟨⟨_, List.mem_append_right _ (List.mem_singleton_self _), htime⟩, hthrown⟩

/-- The handshake that works after a sequence of attempts starts clean if and only if the reply to
`MT_CLIENT` did not come in time in any of them, and no column has a field that its type has no use for. -/
theorem retriedHandshake_clean_iff (env : Environment) (name : ByteString) (l : List Bool) (w w' : World σ)
    (h : Attempts env name l w) (hworked : sendInit env name { w with vm := none } = (.ok true, w')) :
    ∃ rep, EndsInMetadata w' rep ∧
      (CleanStart w' rep ↔ (∀ b ∈ l, b = true) ∧ ∀ c ∈ rep.inputColumns ++ rep.outputColumns, OwnFields c) := by
  cases attempted_of_eq hworked with
  | @worked _ rep p hend hexch hinp hout hinps houts =>
    refine ⟨rep, hend, ?_⟩
    rcases h.globals with ⟨hall, hp, he⟩ | ⟨⟨b, hb, hfalse⟩, hthrown⟩
    · obtain ⟨hin, hit⟩ : p.inpNames = [] ∧ p.inpTypes = [] := by rw [hinp.1, hinp.2, hp]; exact ⟨rfl, rfl⟩
      obtain ⟨hon, hot⟩ : p.outNames = [] ∧ p.outTypes = [] := by rw [hout.1, hout.2, hp]; exact ⟨rfl, rfl⟩
      have hinpNames : w'.params.inpNames = rep.inputColumns.map (·.name) := by
        rw [hinps.names_eq, hin, List.nil_append]
      have hinpTypes : w'.params.inpTypes.map some = rep.inputColumns.map columnType := by
        rw [hinps.types_eq, hit, List.map_nil, List.nil_append]
      have houtNames : w'.params.outNames = rep.outputColumns.map (·.name) := by
        rw [houts.names_eq, hon, List.nil_append]
      have houtTypes : w'.params.outTypes.map some = rep.outputColumns.map columnType := by
        rw [houts.types_eq, hot, List.map_nil, List.nil_append]
      have hlengths : ∀ {names : List ByteString} {types : List SwigColumntype} {cols : List ColumnDefinition},
          names = cols.map (·.name) → types.map some = cols.map columnType → names.length = types.length := by
        intro names types cols hnames htypes
        have hlength := congrArg List.length htypes
        rw [List.length_map, List.length_map] at hlength
        rw [hnames, List.length_map, hlength]
      rw [List.forall_mem_append, ← forall₂_describes_iff hinpTypes, ← forall₂_describes_iff houtTypes]
      refine ⟨fun hclean => ⟨hall, hclean.inpTypes, hclean.outTypes⟩, fun ⟨_, hinpDescribed, houtDescribed⟩ => ?_⟩
      refine ⟨hinpNames, hinpDescribed, hlengths hinpNames hinpTypes, houtNames, houtDescribed,
        hlengths houtNames houtTypes, ?_⟩
      rw [hexch]
      exact congrArg ExceptionHandler.exthrowed he
    · refine iff_of_false (fun hclean => ?_) fun hall => ?_
      · have hpending : w'.exchandler.exthrowed = true := by rw [hexch]; exact hthrown
        rw [hclean.noException] at hpending
        cases hpending
      · rw [hall.1 b hb] at hfalse
        cases hfalse

/-- An `MT_META` that is the second reply has a column of an unsupported type behind another. -/
def tryMetadata (past : List Request) : Metadata :=
  let x : ColumnDefinition := { name := str "x", type := .pbString, typeName := str "VARCHAR", size := 100 }
  let y : ColumnDefinition := { name := str "y", type := .pbUnsupported, typeName := str "GEOMETRY" }
  { inputColumns := if past.length = 2 then [x, y] else [x] }

def tryHandshakes : Server := fun past =>
  match past.getLast? with
  | some ⟨_, .inr (.client _)⟩ => .message { type := .mtInfo }
  | _ => .message { type := .mtMeta, metadata := tryMetadata past }

/-- A client of it; the first reply to `MT_CLIENT` may be late. -/
def tryRemote (late : Bool) : Environment :=
  { server := tryHandshakes, timesOut := fun past => late && past.length = 1 }

def tryAttempt (late : Bool) (w : World Unit) : Outcome Exception Bool × World Unit :=
  sendInit (tryRemote late) (str "tcp://db") { w with vm := none }

theorem retriedHandshake_clean_late :
    ∃ rep, EndsInMetadata (tryAttempt true (tryAttempt true {}).2).2 rep ∧
      CleanStart (tryAttempt true (tryAttempt true {}).2).2 rep := by
  have hlate : (tryAttempt true {}).1 = .ok false := by decide +kernel
  have hworked : (tryAttempt true (tryAttempt true {}).2).1 = .ok true := by decide +kernel
  have hlast : (tryAttempt true (tryAttempt true {}).2).2.log.getLast? =
      some (.received (.message { type := .mtMeta, metadata := tryMetadata [] })) := by decide +kernel
  obtain ⟨rep, hend, hclean⟩ := retriedHandshake_clean_iff (tryRemote true) (str "tcp://db") _ _
    (tryAttempt true (tryAttempt true {}).2).2 (Attempts.start.retry (Prod.ext hlate rfl)) (Prod.ext hworked rfl)
  obtain ⟨log, r, hlog, hmeta, rfl⟩ := hend
  rw [hlog, List.getLast?_concat] at hlast
  obtain rfl : r = { type := .mtMeta, metadata := tryMetadata [] } := by simpa using hlast
  exact ⟨_, ⟨log, _, hlog, hmeta, rfl⟩, hclean.mpr ⟨by decide, by decide +kernel⟩⟩

/-- The second attempt works, with a column too many. -/
theorem retriedHandshake_stale :
    ¬ ∀ (σ : Type) (env : Environment) (name : ByteString) (l : List Bool) (w w' : World σ),
      name.take 4 = str "tcp:" → Attempts env name l w →
      sendInit env name { w with vm := none } = (.ok true, w') →
      ∃ rep, EndsInMetadata w' rep ∧ CleanStart w' rep := by
  intro h
  have hfailed : (tryAttempt false {}).1 = .ok false := by decide +kernel
  have hworked : (tryAttempt false (tryAttempt false {}).2).1 = .ok true := by decide +kernel
  have hpending : (tryAttempt false (tryAttempt false {}).2).2.exchandler.exthrowed = true := by
    decide +kernel
  have hretried : Attempts (tryRemote false) (str "tcp://db") _ (tryAttempt false {}).2 :=
    Attempts.start.retry (Prod.ext hfailed rfl)
  obtain ⟨rep, -, hclean⟩ := h Unit (tryRemote false) (str "tcp://db") _ (tryAttempt false {}).2
    (tryAttempt false (tryAttempt false {}).2).2 (by decide) hretried (Prod.ext hworked rfl)
  rw [hclean.noException] at hpending
  cases hpending

/-- The world a session starts in: a handshake worked, after attempts that did not. -/
structure StartsAfter (env : Environment) (name : ByteString) (w' : World σ) : Prop where
  attempts : ∃ (l : List Bool) (w : World σ), Attempts env name l w ∧
    sendInit env name { w with vm := none } = (.ok true, w')

theorem exaudfclientMain_startsAfter (env : Environment) (container : Container σ)
    (socketName : ByteString) (fuel : Nat)
    (hsession : sessionLog (exaudfclientMain env container socketName fuel {}).2.log ≠ none) :
    ∃ w' : World σ, StartsAfter env socketName w' ∧
      exaudfclientMain env container socketName fuel {} =
        session env container fuel { w' with log := w'.log ++ [.connected w'.singleCallMode] } := by
  let Q : Outcome Exception Nat → World σ → Prop := fun o w => sessionLog w.log ≠ none →
    ∃ w' : World σ, StartsAfter env socketName w' ∧
      (o, w) = session env container fuel { w' with log := w'.log ++ [.connected w'.singleCallMode] }
  -- between the attempts only the VM pointer may differ
  let J : World σ → Prop := fun w => ∃ (l : List Bool) (w₀ : World σ), Attempts env socketName l w₀ ∧
    ({ w with vm := none } : World σ) = { w₀ with vm := none }
  have hrun : wp (exaudfclientMain env container socketName fuel) Q {} := by
    have hstart : J {} := ⟨[], {}, .start, rfl⟩
    have hnone : ∀ (o : Outcome Exception Nat) (w : World σ), sessionLog w.log = none → Q o w :=
      fun _ _ h hne => absurd h hne
    have hsession : ∀ w : World σ, StartsAfter env socketName w → sessionLog w.log = none →
        wp (session env container fuel) Q { w with log := w.log ++ [.connected w.singleCallMode] } :=
      fun w hw _ _ => ⟨w, hw, rfl⟩
    refine wp_exaudfclientMain socketName fuel hnone ?_ hsession ?_ hstart rfl
    · rintro w ⟨l, w₀, hl, heq⟩ hvm
      have hw : w = { w₀ with vm := none } := by rw [← heq, ← hvm]
      constructor
      · intro ho
        exact ⟨_, _, hl.retry (Prod.ext (by rw [← hw]; exact ho) rfl), by rw [hw]⟩
      · intro ho
        exact ⟨l, w₀, hl, Prod.ext (by rw [← hw]; exact ho) (by rw [hw])⟩
    · rintro w ⟨l, w₀, hl, heq⟩
      exact ⟨l, w₀, hl, heq⟩
  exact hrun hsession

theorem StartsAfter.nothing (h : StartsAfter env name w') : sessionLog w'.log = none ∧ w'.calls = [] := by
  have hinit : ∀ w : World σ, sessionLog w.log = none ∧ w.calls = [] →
      sessionLog (sendInit env name w).2.log = none ∧ (sendInit env name w).2.calls = [] := by
    rintro w ⟨hlog, hcalls⟩
    have happ : Moves (Appends (fun e => sessionLog [e] = none) fun _ => False)
        (sendInit env name : Client σ Bool) :=
      (Appends.keeps (fun _ _ => rfl) (fun _ => rfl) (fun _ _ => rfl) fun _ => rfl).sendInit name
    refine ⟨Grows.sessionLog_eq_none (Appends.grows happ) hlog, ?_⟩
    obtain ⟨post, hpost, hnone⟩ := (happ w).calls
    obtain rfl : post = [] := List.eq_nil_iff_forall_not_mem.mpr hnone
    rw [hpost, hcalls]
    rfl
  have hattempts : ∀ {l : List Bool} {w : World σ}, Attempts env name l w →
      sessionLog w.log = none ∧ w.calls = [] := by
    intro l w h
    induction h with
    | start => exact ⟨rfl, rfl⟩
    | @retry l w w' _ hfailed ih =>
      have hretry := hinit { w with vm := none } ih
      rwa [hfailed] at hretry
  obtain ⟨l, w, hl, hworked⟩ := h.attempts
  have hbefore := hattempts hl
  have hfinal := hinit { w with vm := none } hbefore
  rwa [hworked] at hfinal

end Client

end UdfRunner
