import UdfRunner.EmitTexts
import UdfRunner.ForwardErrors
import UdfRunner.UniformSessions

/-!
# Sessions of `emit_metadata`

`metadataSession_alike`: a run emits the scope user and the script and returns, or it emits nothing and throws if
the output is not two VARCHAR columns. It is done either way.
-/

namespace UdfRunner
open Proc

namespace TestVM
variable {types : List Datatype} {S : Session} {vm : TestVM types} {c : Channel}

/-- The output takes the two texts. -/
def TakesMetadata (S : Session) : Prop := S.outNames.length = 2 ∧ S.outputTypes = [.string, .string]

instance (S : Session) : Decidable (TakesMetadata S) := inferInstanceAs (Decidable (_ ∧ _))

def metadataRows (S : Session) (currentRow : UInt64) : List Row :=
  if TakesMetadata S then [textRow S.outputTypes [cstr S.scopeUser, cstr S.scriptCode] currentRow] else []

/-- The tables a run emits, whatever the iterator's current row was. -/
def EmitsMetadata (S : Session) (ts : List TableData) : Prop :=
  ∃ currentRow, Carry S.outputTypes ts (metadataRows S currentRow)

/-- The script throws exactly if the output does not take the texts. -/
def EndsMetadata (S : Session) (o : RunOutcome) : Prop :=
  (TakesMetadata S → ∃ msg, o = .returned true msg) ∧
    (¬ TakesMetadata S → ∃ reason, o = .raised (.swigvm reason))

theorem wp_requireOutput {Q : Outcome Exception Unit → TestVM types × Channel → Prop} (column : Nat)
    (strategy : ByteString) (hok : S.outputTypes[column]? = some .string → Q (.ok ()) (vm, c))
    (hthrow : ∀ reason, S.outputTypes[column]? ≠ some .string → Q (.throw (.swigvm reason)) (vm, c)) :
    wp (requireStringColumn S column false strategy) Q (vm, c) := by
  have htype : S.outputTypes[column]? = some .string ↔ columnType S.outTypes column = .string := by
    rw [Session.outputTypes, List.getElem?_map, columnType]
    cases S.outTypes[column]? <;> simp
  simp only [requireStringColumn, Bool.false_eq_true, if_false]
  by_cases hstring : columnType S.outTypes column = .string
  · rw [if_neg (not_not.mpr hstring)]
    exact hok (htype.mpr hstring)
  · rw [if_pos hstring]
    exact hthrow _ fun h => hstring (htype.mp h)

theorem takesMetadata_of_columns (hpaired : S.outNames.length = S.outTypes.length)
    (hnames : S.outNames.length = 2) (h₀ : S.outputTypes[0]? = some .string)
    (h₁ : S.outputTypes[1]? = some .string) : TakesMetadata S := by
  have hlength : S.outputTypes.length = 2 := by rw [Session.outputTypes, List.length_map, ← hpaired, hnames]
  refine ⟨hnames, ?_⟩
  obtain ⟨t₀, t₁, htypes⟩ := List.length_eq_two.mp hlength
  rw [htypes] at h₀ h₁ ⊢
  rw [Option.some.inj h₀, Option.some.inj h₁]

/-- A run emits its row, or throws before it wrote anything. -/
theorem wp_emitMetadata (hser : ∀ t, S.serializes t = true) (hpaired : S.outNames.length = S.outTypes.length)
    (hbetween : ResultHandler.Between S 2 vm.output) (hc : emitted (c.exchanges.map Prod.fst) = []) :
    wp (emitMetadata S) (fun o s =>
      (TakesMetadata S ∧ o = .ok () ∨ ¬ TakesMetadata S ∧ ∃ reason, o = .throw (.swigvm reason)) ∧
      ResultHandler.Between S 2 s.1.output ∧ EmitsMetadata S (emitted (s.2.exchanges.map Prod.fst))) (vm, c) := by
  have hthrow : ∀ reason, ¬ TakesMetadata S →
      (TakesMetadata S ∧ (.throw (.swigvm reason) : Outcome Exception Unit) = .ok () ∨ ¬ TakesMetadata S ∧
        ∃ reason', (.throw (.swigvm reason) : Outcome Exception Unit) = .throw (.swigvm reason')) ∧
      ResultHandler.Between S 2 vm.output ∧ EmitsMetadata S (emitted (c.exchanges.map Prod.fst)) := by
    intro reason hnot
    refine ⟨.inr ⟨hnot, reason, rfl⟩, hbetween, 0, ?_⟩
    rw [metadataRows, if_neg hnot, hc]
    exact carry_nil_iff.mpr rfl
  rw [emitMetadata, wp_ite]
  split_ifs with hnames
  · exact hthrow _ fun h => hnames h.1
  rw [wp_bind]
  refine wp_requireOutput 0 _ (fun h₀ => ?_) fun reason hne => hthrow _ fun h => hne (by rw [h.2]; rfl)
  rw [Outcome.andThen_ok, wp_bind]
  refine wp_requireOutput 1 _ (fun h₁ => ?_) fun reason hne => hthrow _ fun h => hne (by rw [h.2]; rfl)
  have htakes := takesMetadata_of_columns hpaired (not_not.mp hnames) h₀ h₁
  have hfits : Fits 2 S.outputTypes := htakes.2 ▸ by decide
  simp only [Outcome.andThen_ok, wp_bind, wp_onOutput]
  refine wp_mono (hbetween.writing.setString Nat.two_pos (cstr S.scopeUser) _) ?_
  rintro o ⟨output₁, c₁⟩ ⟨rfl, hw₁⟩
  rw [Outcome.andThen_ok]
  refine wp_mono (hw₁.setString Nat.one_lt_two (cstr S.scriptCode) _) ?_
  rintro o ⟨output₂, c₂⟩ ⟨rfl, hw₂⟩
  simp only [Outcome.andThen_ok, wp_get, wp_onOutput]
  refine wp_mono (hw₂.next rfl _) ?_
  rintro o ⟨output₃, c₃⟩ ⟨⟨taken, rfl⟩, hw₃⟩
  rw [Outcome.andThen_ok]
  refine wp_mono (hw₃.flush hser) ?_
  rintro o ⟨output₄, c₄⟩ ⟨rfl, hw₄, hempty⟩
  obtain ⟨hbetween', hcarry⟩ := hw₄.carry hempty hc
  refine ⟨.inl ⟨htakes, rfl⟩, hbetween', vm.input.currentRow, ?_⟩
  simpa only [metadataRows, htakes, hfits, List.nil_append, List.singleton_append] using hcarry

/-- The VM of an `emit_metadata` session between two runs. -/
def Waits (S : Session) (vm : VmObject (Sigma TestVM)) : Prop :=
  cstr S.scriptCode = emitMetadataStrategy → ResultHandler.Between S 2 vm.state.2.output

theorem wp_make_waits (fuel : Nat) (c : Channel) : wp ((testContainer fuel).make S)
    (fun o _ => ∀ vm, o = .ok (some vm) → Waits S vm) c := by
  have hinput : wp (create S) (fun _ s => s.1.output = {}) ({ input := {} }, c) := by
    rw [create, wp_bind, wp_onInput]
    refine wp_mono (Q := fun _ _ => True) trivial fun o s _ => ?_
    rcases o with ⟨⟩ | e | r
    · rw [Outcome.andThen_ok, wp_ite]
      split_ifs <;> exact rfl
    · exact rfl
    · exact rfl
  simp only [testContainer, wp_bind, wp_construct]
  refine wp_mono hinput fun o s hs => ?_
  rcases o with ⟨⟩ | e | r
  · rintro vm hvm -
    obtain rfl := Option.some.inj (Outcome.ok.inj hvm)
    exact hs ▸ ResultHandler.between_new S 2
  · simp
  · simp

theorem uniform_metadata (hser : ∀ t, S.serializes t = true) (hpaired : S.outNames.length = S.outTypes.length)
    (fuel : Nat) : Uniform (testContainer fuel) S (Waits S)
      (fun o => cstr S.scriptCode = emitMetadataStrategy → EndsMetadata S o)
      (fun ts => cstr S.scriptCode = emitMetadataStrategy → EmitsMetadata S ts) where
  make := wp_make_waits fuel
  run vm c hvm hc := by
    by_cases hscript : cstr S.scriptCode = emitMetadataStrategy
    · have hrun : wp (TestVM.run S fuel) (fun o s =>
          (TakesMetadata S ∧ o = .ok true ∨ ¬ TakesMetadata S ∧ ∃ reason, o = .throw (.swigvm reason)) ∧
          ResultHandler.Between S 2 s.1.output ∧ EmitsMetadata S (emitted (s.2.exchanges.map Prod.fst)))
          (vm.state.2, c) := by
        simp only [TestVM.run, hscript, if_true, wp_bind]
        refine wp_mono (wp_emitMetadata hser hpaired (hvm hscript) (by rw [hc]; rfl)) ?_
        rintro o s ⟨⟨htakes, rfl⟩ | ⟨hnot, reason, rfl⟩, h⟩
        · exact ⟨.inl ⟨htakes, rfl⟩, h⟩
        · exact ⟨.inr ⟨hnot, reason, rfl⟩, h⟩
      show wp (TestVM.method fun _ => TestVM.run S fuel) _ _
      rw [TestVM.wp_method]
      refine wp_mono hrun ?_
      rintro o s ⟨⟨htakes, rfl⟩ | ⟨hnot, reason, rfl⟩, hbetween, hemits⟩
      · exact ⟨rfl, fun _ => hbetween, fun _ => ⟨fun _ => ⟨_, rfl⟩, absurd htakes⟩, fun _ => hemits⟩
      · exact ⟨reason, rfl, fun _ => hbetween, fun _ => ⟨(absurd · hnot), fun _ => ⟨reason, rfl⟩⟩, fun _ => hemits⟩
    · obtain ⟨hok, hthrow⟩ := testContainer_logsRuns fuel S (vm, c)
      unfold wp
      rcases hr : (testContainer fuel).run S (vm, c) with ⟨done | e | r, s⟩ <;> rw [hr] at hok hthrow
      · have hpasses : RunOutcome.Passes (.returned done s.1.exceptionMsg) := hok done rfl _ _ rfl
        obtain rfl : done = true := by
          rcases hpasses with ⟨_, h⟩ | ⟨_, h⟩
          · exact (RunOutcome.returned.inj h).1
          · cases h
        exact ⟨rfl, fun h => absurd h hscript, fun h => absurd h hscript, fun h => absurd h hscript⟩
      · have hpasses : RunOutcome.Passes (.raised e) := hthrow e rfl _ rfl
        rcases hpasses with ⟨_, h⟩ | ⟨reason, h⟩
        · cases h
        · obtain rfl := RunOutcome.raised.inj h
          exact ⟨reason, rfl, fun h => absurd h hscript, fun h => absurd h hscript, fun h => absurd h hscript⟩
      · trivial

end TestVM

/-- Whatever the database answers to the requests of an `emit_metadata` session: if the output is two VARCHAR
columns, every run returned and emitted one row with the scope user and the script, and if it is not, every run
threw and emitted no table. Unless the client stops, every run that began is done. -/
theorem metadataSession_alike (env : Environment) (hser : ∀ t, env.serializes t = true) (rowFuel : Nat)
    (socketName : ByteString) (fuel : Nat) (o : Outcome Exception Nat) (w : World (Sigma TestVM))
    (hw : Client.exaudfclientMain env (testContainer rowFuel) socketName fuel {} = (o, w))
    (hscript : cstr w.params.scriptCode = TestVM.emitMetadataStrategy)
    (log : List Event) (hlog : sessionLog w.log = some (false, log)) :
    (∀ r, .ran r ∈ log → TestVM.EndsMetadata (w.session env) r) ∧
    (∀ ts ∈ (runs log).emits, TestVM.EmitsMetadata (w.session env) ts) ∧
    (¬ o.Stopped → (runs log).began = (runs log).emits.length) := by
  have huniform : ∀ S : Session, S.server = env.server → S.serializes = env.serializes →
      S.outNames.length = S.outTypes.length → Uniform (testContainer rowFuel) S (TestVM.Waits S)
        (fun r => cstr S.scriptCode = TestVM.emitMetadataStrategy → TestVM.EndsMetadata S r)
        (fun ts => cstr S.scriptCode = TestVM.emitMetadataStrategy → TestVM.EmitsMetadata S ts) :=
    fun S _ hS hpaired => TestVM.uniform_metadata (fun t => hS ▸ hser t) hpaired rowFuel
  have h := uniformSession
    (G := fun S r => cstr S.scriptCode = TestVM.emitMetadataStrategy → TestVM.EndsMetadata S r)
    (P := fun S ts => cstr S.scriptCode = TestVM.emitMetadataStrategy → TestVM.EmitsMetadata S ts)
    huniform socketName fuel
  rw [wp_eq hw] at h
  obtain ⟨halike, hdone⟩ := h log hlog
  exact ⟨fun r hr => halike.ran r hr hscript, fun ts hts => halike.emits ts hts hscript, fun ho => (hdone ho).began⟩

/-- A database that runs `emit_metadata` once, for the user `SYS`. -/
def metadataDatabase : Server := fun past =>
  match past.getLast? with
  | some ⟨_, .inr (.client _)⟩ =>
    .message { type := .mtInfo, info := { currentUser := str "SYS", sourceCode := str "emit_metadata" } }
  | some ⟨_, .inr .metadata⟩ => .message { type := .mtMeta, metadata := {
      inputIterType := .multiple, outputIterType := .multiple,
      outputColumns := [{ name := str "u", typeName := str "VARCHAR(10)", type := .pbString },
        { name := str "c", typeName := str "VARCHAR(20)", type := .pbString }] } }
  | _ => groupsDatabase (fun _ => []) 1 past

def metadataEnvironment : Environment := { server := metadataDatabase }

def metadataSession : Outcome Exception Nat × World (Sigma TestVM) :=
  Client.exaudfclientMain metadataEnvironment (testContainer 2) (str "ipc:///tmp/try") 3 {}

def metadataLog : List Event := ((sessionLog metadataSession.2.log).map Prod.snd).getD []

theorem metadataSession_alike_sys : (runs metadataLog).emits.length = 1 ∧ ∀ ts ∈ (runs metadataLog).emits,
    ∃ currentRow, Carry [.string, .string] ts
      [⟨currentRow, [some (.string (str "SYS")), some (.string (str "emit_metadata"))]⟩] := by
  obtain ⟨-, hemits, hdone⟩ := metadataSession_alike metadataEnvironment (fun _ => rfl) 2 (str "ipc:///tmp/try") 3
    metadataSession.1 metadataSession.2 Prod.mk.eta.symm (by decide +kernel) metadataLog (by decide +kernel)
  have hok : metadataSession.1 = .ok 0 := by decide +kernel
  have hbegan : (runs metadataLog).began = 1 := by decide +kernel
  have htakes : TestVM.TakesMetadata (metadataSession.2.session metadataEnvironment) := by decide +kernel
  have htexts : (metadataSession.2.session metadataEnvironment).scopeUser = str "SYS" ∧
      (metadataSession.2.session metadataEnvironment).scriptCode = str "emit_metadata" := by decide +kernel
  rw [hok] at hdone
  refine ⟨(hdone id).symm.trans hbegan, fun ts hts => ?_⟩
  obtain ⟨currentRow, hcarry⟩ := hemits ts hts
  rw [TestVM.metadataRows, if_pos htakes, htakes.2, htexts.1, htexts.2] at hcarry
  exact ⟨currentRow, hcarry⟩

end UdfRunner
