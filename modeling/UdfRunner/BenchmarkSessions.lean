import UdfRunner.BenchmarkContainer
import UdfRunner.EmitTexts
import UdfRunner.ForwardErrors
import UdfRunner.UniformSessions

/-!
# Sessions of the BENCHMARK container

`benchmarkSession_alike`: whatever the database answers, a run emits the two rows of its own or none, by the
output columns alone, and no run fails.
-/

namespace UdfRunner
open Proc

/-! ### What the iterator asks for -/

namespace TableIterator
variable {types : List Datatype} {S : Session}

/-- No table is emitted. -/
def Asks (s s' : TableIterator types × Channel) : Prop :=
  emitted (s'.2.exchanges.map Prod.fst) = emitted (s.2.exchanges.map Prod.fst)

instance : IsPreorder (TableIterator types × Channel) Asks where
  refl _ := rfl
  trans _ _ _ h h' := Eq.trans h' h

theorem asks_update (f : TableIterator types → TableIterator types) : Moves Asks (update f) := fun _ => rfl

theorem asks_setException (msg : ByteString) :
    Moves Asks (setException msg : Iterating types Unit) := fun _ => rfl

theorem asks_element {α : Type} (data : List α) (index : Nat) :
    Moves Asks (element data index : Iterating types α) := by
  unfold element
  cases data[index]? with
  | none => exact .stop _
  | some v => exact .pure v

theorem asks_advanceColumns (rest : List Datatype) (col nullIndex : Nat) :
    Moves Asks (advanceColumns col nullIndex rest : Iterating types Unit) := by
  induction rest generalizing col nullIndex with
  | nil => exact .pure _
  | cons type rest ih =>
    unfold advanceColumns
    refine .bind .get fun s => .bind (asks_element _ _) fun isNull => .ite (ih _ _) ?_
    cases type <;> first | exact asks_setException _ | exact .bind (asks_update _) fun _ => ih _ _

theorem asks_incrementColOffsets (reset : Bool) :
    Moves Asks (incrementColOffsets reset : Iterating types Unit) :=
  .bind .get fun _ => .bind (asks_element _ _) fun _ => .bind (asks_update _) fun _ =>
    .ite (asks_setException _) (asks_advanceColumns _ _ _)

theorem asks_receiveNextData (reset : Bool) :
    Moves Asks (receiveNextData S reset : Iterating types Unit) := by
  have hexchange : Moves Asks (onChannel (Channel.exchange S (if reset then .reset else .next)) :
      Iterating types Reply) := by
    rintro ⟨it, c⟩
    show emitted ((c.after S _).exchanges.map Prod.fst) = _
    cases reset <;> simp [Channel.after, emitted]
  refine .bind (asks_update _) fun _ => .bind hexchange fun reply => ?_
  cases reply with
  | unparsable leftover => exact .bind (asks_update _) fun _ => asks_setException _
  | message r =>
    refine .bind (asks_update _) fun _ => .ite (asks_setException _) (.ite (.pure _) (.ite ?_
      (.ite (asks_setException _) (.bind (asks_update _) fun _ => asks_incrementColOffsets _))))
    cases r.close with
    | none => exact .bind .get fun _ => .ite (.pure _) (asks_setException _)
    | some msg => exact asks_setException _

theorem asks_next : Moves Asks (next S : Iterating types Bool) :=
  .bind .get fun _ => .ite (.bind (asks_setException _) fun _ => .pure _)
    (.bind (asks_update _) fun _ => .ite (.pure _)
      (.ite (.bind (asks_receiveNextData _) fun _ => .bind .get fun _ => .pure _)
        (.bind (asks_incrementColOffsets _) fun _ => .pure _)))

theorem asks_checkIndex (index available : Nat) (tp otype ts : String) :
    Moves Asks (checkIndex index available tp otype ts : Iterating types (Option Nat)) :=
  .ite (.pure _) (.bind .get fun _ => .bind (asks_setException _) fun _ => .bind (asks_update _) fun _ => .pure _)

theorem asks_getCell {α : Type} (expected : Datatype) (typeName noColumn wrongType otype : String)
    (onError onNull : α) (data : TableData → List α) (col : Nat) :
    Moves Asks (getCell expected typeName noColumn wrongType otype onError onNull data col :
      Iterating types α) := by
  have hcheck : ∀ available, Moves Asks (checkValue col available otype : Iterating types (Option Nat)) := by
    refine fun available => .bind (asks_update _) fun _ => .bind .get fun _ =>
      .bind (asks_checkIndex _ _ _ _ _) fun index => ?_
    cases index with
    | none => exact .pure _
    | some index =>
      exact .bind (asks_element _ _) fun _ => .bind (asks_update _) fun _ =>
        .ite (.pure _) (asks_checkIndex _ _ _ _ _)
  unfold getCell
  cases types[col]? with
  | none => exact .bind (asks_setException _) fun _ => .bind (asks_update _) fun _ => .pure _
  | some type =>
    refine .ite (.bind (asks_setException _) fun _ => .bind (asks_update _) fun _ => .pure _)
      (.bind .get fun _ => .bind (hcheck _) fun index => ?_)
    cases index with
    | none => exact .pure _
    | some index => exact asks_element _ _

end TableIterator

namespace BenchmarkVM
variable {types : List Datatype} {S : Session} {vm : BenchmarkVM types} {c : Channel}

/-- The rows are only read. -/
def Fetches (s s' : BenchmarkVM types × Channel) : Prop :=
  s'.1.outp = s.1.outp ∧ TableIterator.Asks (s.1.inp, s.2) (s'.1.inp, s'.2)

instance : IsPreorder (BenchmarkVM types × Channel) Fetches where
  refl _ := ⟨rfl, rfl⟩
  trans _ _ _ h h' := ⟨h'.1.trans h.1, Eq.trans h'.2 h.2⟩

theorem fetches_onInp {α : Type} {m : Iterating types α} (hm : Moves TableIterator.Asks m) :
    Moves Fetches (onInp m) := .zoom hm fun _ _ h => ⟨rfl, h⟩

theorem fetches_fetchColumns (cols : List Nat) : Moves Fetches (fetchColumns S cols : Benchmarking types Unit) := by
  have hcolumn : ∀ col, Moves Fetches (fetchColumn S col : Benchmarking types Unit) := by
    intro col
    unfold fetchColumn
    split <;> first
      | exact .bind (fetches_onInp (TableIterator.asks_getCell _ _ _ _ _ _ _ _ _)) fun _ => .pure _
      | exact .pure _
  induction cols with
  | nil => exact .pure _
  | cons col cols ih => exact .bind (hcolumn col) fun _ => ih

theorem fetches_fetch (fuel : Nat) : Moves Fetches (fetch S fuel : Benchmarking types Unit) :=
  .loop (fun _ => .bind (fetches_fetchColumns _) fun _ => .bind (fetches_onInp TableIterator.asks_next) fun _ =>
    .ite (.pure _) (.pure _)) fuel ()

theorem throws_fetch {P : Exception → Prop} (fuel : Nat) : Throws P (fetch S fuel : Benchmarking types Unit) := by
  have hcolumn : ∀ col, Throws P (fetchColumn S col : Benchmarking types Unit) := by
    intro col
    unfold fetchColumn
    split <;> first
      | exact .bind (.zoom (TableIterator.throws_getCell _ _ _ _ _ _ _ _ _)) fun _ => .pure _
      | exact .pure _
  have hcolumns : ∀ cols, Throws P (fetchColumns S cols : Benchmarking types Unit) := by
    intro cols
    induction cols with
    | nil => exact .pure _
    | cons col cols ih => exact .bind (hcolumn col) fun _ => ih
  exact .loop (fun _ => .bind (hcolumns _) fun _ => .bind (.zoom TableIterator.throws_next) fun _ =>
    .ite (.pure _) (.pure _)) fuel ()

@[simp] theorem wp_onOutp {α : Type} {Q : Outcome Exception α → BenchmarkVM types × Channel → Prop}
    (m : Emitting α) :
    wp (onOutp m) Q (vm, c) ↔ wp m (fun o t => Q o ({ vm with outp := t.1 }, t.2)) (vm.outp, c) := Iff.rfl

theorem wp_method {α : Type} {m : ∀ types, Benchmarking types α}
    {Q : Outcome Exception α → VmObject (Sigma BenchmarkVM) × Channel → Prop} {vm : VmObject (Sigma BenchmarkVM)} :
    wp (method m) Q (vm, c) ↔ wp (m vm.state.1)
      (fun o s => Q o ({ vm with state := ⟨vm.state.1, s.1⟩ }, s.2)) (vm.state.2, c) := Iff.rfl

theorem wp_caught {R : Unit → VmObject (Sigma BenchmarkVM) × Channel → Prop} {m : VmProc (Sigma BenchmarkVM) Unit}
    {s : VmObject (Sigma BenchmarkVM) × Channel} (hm : wp m (Proc.Returns R fun _ => False) s) :
    wp (caught m) (Proc.Returns R fun _ => False) s := by
  rw [caught, wp_catching]
  refine wp_mono hm fun o s' ho => ?_
  rcases o with a | e | r
  · exact ho
  · exact ho.elim
  · trivial

/-- The rows a run emits. -/
def rows (types : List Datatype) (currentRow : UInt64) : List Row :=
  if Fits 1 types then [textRow types [str "test1"] currentRow, textRow types [str "test2"] currentRow] else []

/-- The tables a run emits, whatever the iterator's current row was. -/
def Emits (types : List Datatype) (ts : List TableData) : Prop := ∃ currentRow, Carry types ts (rows types currentRow)

theorem wp_emitRow {start : Channel} {taken : List Row} (h : ResultHandler.Writing S 1 start taken [] (vm.outp, c))
    (text : ByteString) : wp (emitRow S text) (fun o s => o = .ok () ∧ s.1.inp = vm.inp ∧
      ResultHandler.Writing S 1 start (taken ++ [textRow S.outputTypes [text] vm.inp.currentRow]) [] (s.1.outp, s.2))
      (vm, c) := by
  simp only [emitRow, wp_bind, wp_onOutp]
  refine wp_mono (h.setString Nat.one_pos text text.length) ?_
  rintro o ⟨outp, c'⟩ ⟨rfl, h'⟩
  simp only [Outcome.andThen_ok, wp_get, wp_onOutp]
  refine wp_mono (h'.next rfl _) ?_
  rintro o ⟨outp', c''⟩ ⟨⟨taken', rfl⟩, h''⟩
  exact ⟨rfl, rfl, h''⟩

theorem wp_emit (hser : ∀ t, S.serializes t = true) (hbetween : ResultHandler.Between S 1 vm.outp)
    (hc : emitted (c.exchanges.map Prod.fst) = []) :
    wp (emit S) (Proc.Returns (fun _ s => ResultHandler.Between S 1 s.1.outp ∧
      Emits S.outputTypes (emitted (s.2.exchanges.map Prod.fst))) fun _ => False) (vm, c) := by
  simp only [emit, wp_bind]
  refine wp_mono (wp_emitRow hbetween.writing _) ?_
  rintro o ⟨vm₁, c₁⟩ ⟨rfl, hinp, h₁⟩
  rw [Outcome.andThen_ok]
  refine wp_mono (wp_emitRow h₁ _) ?_
  rintro o ⟨vm₂, c₂⟩ ⟨rfl, -, h₂⟩
  simp only [Outcome.andThen_ok, wp_onOutp]
  refine wp_mono (h₂.flush hser) ?_
  rintro o ⟨outp, c₃⟩ ⟨rfl, h₃, hempty⟩
  obtain ⟨hbetween', hcarry⟩ := h₃.carry hempty hc
  refine ⟨hbetween', vm.inp.currentRow, ?_⟩
  have hinp : vm₁.inp = vm.inp := hinp
  rwa [hinp] at hcarry

/-- The VM between two runs. -/
def Idle (S : Session) (vm : VmObject (Sigma BenchmarkVM)) : Prop :=
  vm.exceptionMsg = [] ∧ ResultHandler.Between S 1 vm.state.2.outp

theorem wp_run (hser : ∀ t, S.serializes t = true) {vm : VmObject (Sigma BenchmarkVM)} (hvm : Idle S vm)
    (hc : c.exchanges = []) (fuel : Nat) :
    wp (run S fuel) (Proc.Returns (fun done s => done = true ∧ Idle S s.1 ∧
      Emits S.outputTypes (emitted (s.2.exchanges.map Prod.fst))) fun _ => False) (vm, c) := by
  obtain ⟨hmsg, hbetween⟩ := hvm
  refine Proc.Returns.bind (Q := fun _ s => Idle S s.1 ∧ Emits S.outputTypes (emitted (s.2.exchanges.map Prod.fst)))
    (wp_caught ?_) fun _ s hs => ⟨rfl, hs⟩
  have hfetch : wp (method fun _ => fetch S fuel) (Proc.Returns (fun _ s => s.1.exceptionMsg = [] ∧
      ResultHandler.Between S 1 s.1.state.2.outp ∧ emitted (s.2.exchanges.map Prod.fst) = []) fun _ => False)
      (vm, c) := by
    rw [wp_method]
    refine wp_mono ((throws_fetch fuel).returns (fetches_fetch fuel) _) fun o s hs => ?_
    rcases o with ⟨⟩ | e | r
    · obtain ⟨houtp, hasks⟩ := hs
      have hasks : emitted (s.2.exchanges.map Prod.fst) = emitted (c.exchanges.map Prod.fst) := hasks
      have houtp : s.1.outp = vm.state.2.outp := houtp
      exact ⟨hmsg, houtp ▸ hbetween, by rw [hasks, hc]; rfl⟩
    · exact hs.elim
    · trivial
  refine Proc.Returns.bind (wp_caught hfetch) fun _ ⟨vm', c'⟩ ⟨hmsg', hbetween', hc'⟩ => ?_
  have hemit : wp (method fun _ => emit S) (Proc.Returns (fun _ s => Idle S s.1 ∧
      Emits S.outputTypes (emitted (s.2.exchanges.map Prod.fst))) fun _ => False) (vm', c') := by
    rw [wp_method]
    refine wp_mono (wp_emit hser hbetween' hc') fun o s hs => ?_
    rcases o with ⟨⟩ | e | r
    · exact ⟨⟨hmsg', hs.1⟩, hs.2⟩
    · exact hs.elim
    · trivial
  refine Proc.Returns.bind (wp_caught hemit) fun _ s hs => ?_
  have hempty : ¬ 0 < s.1.exceptionMsg.length := by rw [hs.1.1]; exact lt_irrefl 0
  rw [wp_bind, wp_get, Outcome.andThen_ok]
  simp only [if_neg hempty]
  exact hs

theorem wp_make (fuel : Nat) (c : Channel) : wp ((benchmarkContainer fuel).make S)
    (fun o _ => ∀ vm, o = .ok (some vm) → Idle S vm) c := by
  have hmoves : Moves Fetches (create S) :=
    .bind (fetches_onInp (TableIterator.asks_receiveNextData _)) fun _ => .ite (.throw _) (.pure _)
  have houtp : wp (create S) (fun _ s => s.1.outp = {}) ({ inp := {} }, c) := (hmoves _).1
  simp only [benchmarkContainer, wp_bind, wp_construct]
  refine wp_mono houtp fun o s hs => ?_
  rcases o with ⟨⟩ | e | r
  · rintro vm hvm
    obtain rfl := Option.some.inj (Outcome.ok.inj hvm)
    exact ⟨rfl, hs ▸ ResultHandler.between_new S 1⟩
  · simp
  · simp

theorem uniform (hser : ∀ t, S.serializes t = true) (fuel : Nat) :
    Uniform (benchmarkContainer fuel) S (Idle S) (· = .returned true []) (Emits S.outputTypes) where
  make := wp_make fuel
  run vm c hvm hc := by
    refine wp_mono (wp_run hser hvm hc fuel) fun o s hs => ?_
    rcases o with done | e | r
    · obtain ⟨rfl, hidle, hemits⟩ := hs
      exact ⟨rfl, hidle, by rw [hidle.1], hemits⟩
    · exact hs.elim
    · trivial

end BenchmarkVM

/-- Whatever the database answers to the requests of a BENCHMARK session, no run fails, and a run that is done
emitted its two rows if the output is at most one VARCHAR column, and no table if it is anything else. Unless
the client stops, every run that began is done. -/
theorem benchmarkSession_alike (env : Environment) (hser : ∀ t, env.serializes t = true) (rowFuel : Nat)
    (socketName : ByteString) (fuel : Nat) (o : Outcome Exception Nat) (w : World (Sigma BenchmarkVM))
    (hw : Client.exaudfclientMain env (benchmarkContainer rowFuel) socketName fuel {} = (o, w))
    (log : List Event) (hlog : sessionLog w.log = some (false, log)) :
    (∀ r, .ran r ∈ log → r = .returned true []) ∧
    (∀ ts ∈ (runs log).emits, BenchmarkVM.Emits (w.session env).outputTypes ts) ∧
    (¬ o.Stopped → (runs log).began = (runs log).emits.length) := by
  have huniform : ∀ S : Session, S.server = env.server → S.serializes = env.serializes →
      S.outNames.length = S.outTypes.length → Uniform (benchmarkContainer rowFuel) S (BenchmarkVM.Idle S)
        (· = .returned true []) (BenchmarkVM.Emits S.outputTypes) :=
    fun S _ hS _ => BenchmarkVM.uniform (fun t => hS ▸ hser t) rowFuel
  have h := uniformSession (G := fun _ => (· = .returned true []))
    (P := fun S => BenchmarkVM.Emits S.outputTypes) huniform socketName fuel
  rw [wp_eq hw] at h
  obtain ⟨halike, hdone⟩ := h log hlog
  exact ⟨halike.ran, halike.emits, fun ho => (hdone ho).began⟩

def benchmarkEnvironment : Environment := { server := groupsDatabase (fun _ => [oneRow]) 2 }

/-- Two runs on a database with a row for each. -/
def twoBenchmarks : Outcome Exception Nat × World (Sigma BenchmarkVM) :=
  Client.exaudfclientMain benchmarkEnvironment (benchmarkContainer 3) (str "ipc:///tmp/try") 3 {}

def twoBenchmarksLog : List Event := ((sessionLog twoBenchmarks.2.log).map Prod.snd).getD []

theorem benchmarkSession_alike_two : (runs twoBenchmarksLog).emits.length = 2 ∧
    ∀ ts ∈ (runs twoBenchmarksLog).emits, BenchmarkVM.Emits [.string] ts := by
  obtain ⟨-, hemits, hdone⟩ := benchmarkSession_alike benchmarkEnvironment (fun _ => rfl) 3 (str "ipc:///tmp/try") 3
    twoBenchmarks.1 twoBenchmarks.2 Prod.mk.eta.symm twoBenchmarksLog (by decide +kernel)
  have htypes : (twoBenchmarks.2.session benchmarkEnvironment).outputTypes = [.string] := by decide +kernel
  have hok : twoBenchmarks.1 = .ok 0 := by decide +kernel
  have hbegan : (runs twoBenchmarksLog).began = 2 := by decide +kernel
  rw [hok] at hdone
  rw [htypes] at hemits
  exact ⟨(hdone id).symm.trans hbegan, hemits⟩

end UdfRunner
