import UdfRunner.EmitPath
import UdfRunner.InputPath
import UdfRunner.TestContainer

/-!
# What `forward_input` forwards

`Forwarding S quiet done rows s`: the rows `done` went through the result handler and `rows` are still
to be read. A row comes out cut: its strings end before their first NUL.
-/

namespace UdfRunner
open Proc ColumnStore

theorem Cell.storage_cut (c : Cell) : c.cut.storage = c.storage := by cases c <;> rfl

def Row.cut (row : Row) : Row := { row with cells := row.cells.map (Option.map Cell.cut) }

theorem cellsOf_map_cut (rows : List Row) :
    cellsOf (rows.map Row.cut) = (cellsOf rows).map (Option.map Cell.cut) := by
  induction rows with
  | nil => rfl
  | cons row rows ih => rw [List.map_cons, cellsOf_cons, cellsOf_cons, List.map_append, ih]; rfl

def emitted (qs : List VmRequest) : List TableData :=
  qs.filterMap fun q => match q with
    | .emit t => some t
    | _ => none

@[simp] theorem emitted_append (qs qs' : List VmRequest) :
    emitted (qs ++ qs') = emitted qs ++ emitted qs' := List.filterMap_append ..

@[simp] theorem emitted_map_emit (ts : List TableData) : emitted (ts.map .emit) = ts := by
  induction ts with
  | nil => rfl
  | cons t ts ih => exact congrArg (t :: ·) ih

namespace TableData

def nullsOf (ts : List TableData) : List Bool := ts.flatMap dataNulls

def stringsOf (ts : List TableData) : List ByteString := ts.flatMap dataString

/-- The tables carry the same nullable strings. -/
def SameTexts (ts ts' : List TableData) : Prop :=
  nullsOf ts = nullsOf ts' ∧ stringsOf ts = stringsOf ts'

instance (ts ts' : List TableData) : Decidable (SameTexts ts ts') := inferInstanceAs (Decidable (_ ∧ _))

section
variable {types : List Datatype} {ts : List TableData} {rows : List (List Row)}

theorem nullsOf_eq (h : List.Forall₂ (Holds types) ts rows) :
    nullsOf ts = nulls (cellsOf rows.flatten) := by
  induction h with
  | nil => rfl
  | cons ht _ ih =>
    rw [List.flatten_cons, cellsOf_append, nulls_append, ← ih, ← ht.nulls_eq]
    rfl

theorem stringsOf_eq (h : List.Forall₂ (Holds types) ts rows) :
    (stringsOf ts).map .string = column Cell.storage (some .string) (cellsOf rows.flatten) := by
  induction h with
  | nil => rfl
  | @cons t _ ts _ ht _ ih =>
    show (t.dataString ++ stringsOf ts).map Cell.string = _
    rw [List.map_append, List.flatten_cons, cellsOf_append, column_append, ← ih, ← ht.column_eq]
    rfl

/-- Tables that hold the cut rows of others: their texts are the cut texts. -/
theorem texts_of_cut {ts' : List TableData} {rows' : List (List Row)}
    (h : List.Forall₂ (Holds types) ts rows) (h' : List.Forall₂ (Holds types) ts' rows')
    (hcut : rows'.flatten = rows.flatten.map Row.cut) :
    nullsOf ts' = nullsOf ts ∧ stringsOf ts' = (stringsOf ts).map cstr := by
  constructor
  · rw [nullsOf_eq h, nullsOf_eq h', hcut, cellsOf_map_cut, nulls_map]
  · have hinj : Function.Injective (List.map Cell.string) :=
      List.map_injective_iff.mpr fun _ _ h => by simpa using h
    apply hinj
    rw [stringsOf_eq h', hcut, cellsOf_map_cut, column_map Cell.storage_cut, ← stringsOf_eq h,
      List.map_map, List.map_map]
    rfl

end

end TableData

/-- Every element has its C string, as a list has. -/
theorem map_cstr_eq_self_iff {l : List ByteString} : l.map cstr = l ↔ ∀ s ∈ l, (0 : UInt8) ∉ s := by
  induction l with
  | nil => simp
  | cons s l ih => simp [ih, cstr_eq_self_iff]

namespace TestVM

/-- A session of a script on one VARCHAR column in and out. -/
structure Forwards (S : Session) : Prop where
  input : S.inputTypes = [.string]
  output : S.outputTypes = [.string]
  inpNames : S.inpNames.length = 1
  outNames : S.outNames.length = 1
  inpIter : S.inpIterType = .multiple
  outIter : S.outIterType = .multiple

/-- The rows that went into the handler are those of the emitted tables and of the pending one. -/
def Went (S : Session) (done : List Row) (table : TableData) (c : Channel) : Prop :=
  ∃ sentRows waiting, done = sentRows.flatten ++ waiting ∧
    List.Forall₂ (TableData.Holds S.outputTypes) (emitted (c.exchanges.map Prod.fst)) sentRows ∧
    table.Holds S.outputTypes waiting

/-- The rows `done` went through, and `rows` are still to be read. -/
structure Forwarding (S : Session) (quiet : Request → Prop) (done rows : List Row)
    (s : TestVM S.inputTypes × Channel) : Prop where
  reads : TableIterator.Reads S quiet rows (s.1.input, s.2)
  force : s.2.inpForceFinish = false
  went : Went S done s.1.output.table s.2

section
variable {S : Session} {quiet : Request → Prop} {done rows : List Row} {row : Row}
  {vm : TestVM S.inputTypes} {c : Channel} {types : List Datatype}

@[simp] theorem wp_onInput {α : Type} {Q : Outcome Exception α → TestVM types × Channel → Prop}
    {vm : TestVM types} (m : Iterating types α) :
    wp (onInput m) Q (vm, c) ↔ wp m (fun o t => Q o ({ vm with input := t.1 }, t.2)) (vm.input, c) :=
  Iff.rfl

@[simp] theorem wp_onOutput {α : Type} {Q : Outcome Exception α → TestVM types × Channel → Prop}
    {vm : TestVM types} (m : Emitting α) :
    wp (onOutput m) Q (vm, c) ↔ wp m (fun o t => Q o ({ vm with output := t.1 }, t.2)) (vm.output, c) :=
  Iff.rfl

theorem wp_method {α : Type} {m : ∀ types, Testing types α}
    {Q : Outcome Exception α → VmObject (Sigma TestVM) × Channel → Prop} {vm : VmObject (Sigma TestVM)} :
    wp (method m) Q (vm, c) ↔ wp (m vm.state.1)
      (fun o s => Q o ({ vm with state := ⟨vm.state.1, s.1⟩ }, s.2)) (vm.state.2, c) := Iff.rfl

theorem Went.emit {h : ResultHandler} (hwent : Went S done h.table c) :
    ∃ waiting, EmitInv S c { rows := waiting } (h, c) ∧
      ∀ v h' c' more, EmitInv S c v (h', c') → v.rows = waiting ++ more → Went S (done ++ more) h'.table c' := by
  obtain ⟨sentRows, waiting, rfl, hsent, hwaiting⟩ := hwent
  refine ⟨waiting, .init hwaiting c, fun v h' c' more hi hv => ?_⟩
  obtain ⟨sent, sentRows', waiting', hd⟩ := hi.delivered
  refine ⟨sentRows ++ sentRows', waiting', ?_, ?_, hd.waiting⟩
  · rw [List.append_assoc, ← hv, hd.rows_eq, List.flatten_append, List.append_assoc]
  · have hex : c'.exchanges.map Prod.fst = _ := hd.exchanges
    rw [hex, emitted_append, emitted_map_emit]
    exact List.rel_append hsent hd.holds

theorem Went.next {table : TableData} (h : Went S done table c) :
    Went S done table (c.after S .next) := by
  obtain ⟨sentRows, waiting, hdone, hsent, hwaiting⟩ := h
  refine ⟨sentRows, waiting, hdone, ?_, hwaiting⟩
  have hex : emitted ((c.after S .next).exchanges.map Prod.fst) = emitted (c.exchanges.map Prod.fst) := by
    simp [Channel.after, emitted]
  rwa [hex]

theorem reads_of_emitInv {h' : ResultHandler} {c' : Channel} {v : EmitView}
    (hquiet : ∀ t, quiet (Channel.request S (.emit t))) {it : TableIterator S.inputTypes}
    (h : TableIterator.Reads S quiet rows (it, c)) (hi : EmitInv S c v (h', c')) :
    TableIterator.Reads S quiet rows (it, c') := by
  obtain ⟨sent, _, _, hd⟩ := hi.delivered
  refine h.append (fun r hr => ?_) hd.past
  obtain ⟨t, -, rfl⟩ := List.mem_map.mp hr
  exact hquiet t

theorem force_of_emitInv (hS : Forwards S) {h' : ResultHandler} {c' : Channel} {v : EmitView}
    (hi : EmitInv S c v (h', c')) : c'.inpForceFinish = c.inpForceFinish := by
  rcases hi.force with ⟨honce, -⟩ | hforce
  · rw [hS.inpIter] at honce
    cases honce
  · exact hforce

/-- The cell the handler gets for a row. -/
def cutCell (row : Row) : Option Cell := (row.cells.head?.getD none).map Cell.cut

theorem wp_forwardCell {Q : Outcome Exception Unit → TestVM S.inputTypes × Channel → Prop}
    (hS : Forwards S) (hreads : TableIterator.Reads S quiet (row :: rows) (vm.input, c)) {v : EmitView}
    (hi : EmitInv S c v (vm.output, c))
    (hQ : ∀ b h' c', row.cut = ⟨vm.input.currentRow, [cutCell row]⟩ →
      EmitInv S c (v.assigned (some (0, cutCell row))) (h', c') →
      Q (.ok ()) (⟨{ vm.input with wasNull := b }, h'⟩, c')) :
    wp (forwardCell S) Q (vm, c) := by
  obtain ⟨-, habs⟩ | ⟨ds, row', todo, rest, hat, hahead, hrows⟩ := hreads
  · cases habs
  obtain rfl : row' = row := by simpa using (congrArg List.head? hrows).symm
  have htype : S.inputTypes[0]? = some .string := by rw [hS.input]; rfl
  have hlen : row'.cells.length = 1 := by
    rw [hat.holds.cells_length (by simp), hS.input]
    rfl
  obtain ⟨cell, hcells⟩ := List.length_eq_one_iff.mp hlen
  have hcell : row'.cells[0]? = some cell := by rw [hcells]; rfl
  have hcut : cutCell row' = cell.map Cell.cut := by rw [cutCell, hcells]; rfl
  have hrow : row'.cut = ⟨vm.input.currentRow, [cell.map Cell.cut]⟩ := by
    rw [hat.currentRow, Row.cut, hcells]
    rfl
  rw [hcut] at hQ
  simp only [forwardCell, wp_bind, wp_onInput]
  refine TableIterator.wp_getString hat htype hcell ?_ ?_
  · rintro rfl
    simp only [Outcome.andThen_ok, wp_get, wp_ite, if_true, wp_onOutput]
    refine wp_mono (hi.setNull 0) ?_
    rintro o s ⟨rfl, hi'⟩
    exact hQ true _ _ hrow hi'
  · rintro s rfl
    have hout : S.outputTypes[0]? = some .string := by rw [hS.output]; rfl
    have htext := hi.setText_cstr 0 s "STRING" "1096" "1097"
      (show Datatype.string.storage = some .string from rfl)
    simp only [Outcome.andThen_ok, wp_get, wp_ite, Bool.false_eq_true, if_false, wp_onOutput]
    refine wp_mono htext ?_
    rintro o s' ⟨rfl, hi'⟩
    rw [EmitOp.assign.typed, if_pos hout] at hi'
    exact hQ false _ _ hrow hi'

theorem wp_forwardRow (hS : Forwards S) (hquiet : ∀ t, quiet (Channel.request S (.emit t)))
    (h : Forwarding S quiet done (row :: rows) (vm, c)) :
    wp (forwardRow S) (fun o s => o = .ok () ∧ Forwarding S quiet (done ++ [row.cut]) rows s)
      (vm, c) := by
  obtain ⟨hreads, hforce, hwent⟩ := h
  obtain ⟨waiting, hinit, hmore⟩ := hwent.emit
  rw [forwardRow, wp_bind]
  refine wp_forwardCell hS hreads hinit fun b h' c' hcut hi => ?_
  set v : EmitView := EmitView.assigned { rows := waiting } (some (0, cutCell row))
  have hcomplete : v.Complete S.outputTypes := by
    intro col hcol
    have : col = 0 := by simpa [hS.output] using hcol
    subst this
    simp [v, EmitView.assigned]
  have hrow : v.row S.outputTypes vm.input.currentRow = row.cut := by
    rw [hcut, EmitView.row, hS.output]
    rfl
  simp only [Outcome.andThen_ok, wp_bind, wp_get, wp_onOutput, wp_onInput]
  refine wp_mono (hi.next hcomplete vm.input.currentRow) ?_
  rintro o s ⟨rfl, hi'⟩
  have hreads' := reads_of_emitInv hquiet (hreads.wasNull b) hi'
  have hforce' := (force_of_emitInv hS hi').trans hforce
  simp only [Outcome.andThen_ok]
  refine TableIterator.wp_next hreads' hforce' fun it c'' hreads'' hc => ?_
  have hwent' := hmore _ _ _ _ hi' rfl
  rw [hrow] at hwent'
  refine ⟨rfl, hreads'', ?_, ?_⟩
  · rcases hc with rfl | rfl <;> exact hforce'
  · rcases hc with rfl | rfl
    · exact hwent'
    · exact hwent'.next

theorem wp_forwardRows (hS : Forwards S) (hquiet : ∀ t, quiet (Channel.request S (.emit t)))
    {s : TestVM S.inputTypes × Channel} (h : Forwarding S quiet done rows s) {fuel : Nat}
    (hfuel : rows.length < fuel) :
    wp (forwardRows S fuel) (fun o s =>
      o = .ok () ∧ Forwarding S quiet (done ++ rows.map Row.cut) [] s) s := by
  induction rows generalizing fuel s done with
  | nil =>
    obtain ⟨fuel, rfl⟩ := Nat.exists_eq_succ_of_ne_zero (Nat.ne_of_gt hfuel)
    have heot : s.1.input.eot = true := by simpa [TableIterator.eot] using h.reads.received.mpr rfl
    simp only [forwardRows, loop_succ, wp_bind, wp_get, Outcome.andThen_ok, heot, if_true, wp_pure]
    simpa using h
  | cons row rows ih =>
    obtain ⟨fuel, rfl⟩ := Nat.exists_eq_succ_of_ne_zero (Nat.ne_of_gt (Nat.zero_lt_of_lt hfuel))
    have heot : s.1.input.eot = false := by
      have := h.reads.received
      simp only [List.cons_ne_nil, iff_false] at this
      simpa [TableIterator.eot] using this
    simp only [forwardRows, loop_succ, wp_bind, wp_get, Outcome.andThen_ok, heot, Bool.false_eq_true,
      if_false]
    refine wp_mono (wp_forwardRow hS hquiet h) ?_
    rintro o s' ⟨rfl, h'⟩
    simp only [Outcome.andThen_ok, wp_pure]
    refine wp_mono (ih h' (by simpa using hfuel)) ?_
    rintro o s'' ⟨ho, h''⟩
    exact ⟨ho, by simpa using h''⟩

theorem wp_requireStringColumn {Q : Outcome Exception Unit → TestVM types × Channel → Prop}
    {vm : TestVM types} (hS : Forwards S) (input : Bool) (strategy : ByteString) :
    wp (requireStringColumn S 0 input strategy) Q (vm, c) ↔ Q (.ok ()) (vm, c) := by
  have hcolumn : ∀ columns : List SwigColumntype, columns.map (·.type) = [.string] →
      columnType columns 0 = .string := by
    intro columns h
    rw [columnType, ← List.getElem?_map, h]
    rfl
  have htype : columnType (if input then S.inpTypes else S.outTypes) 0 = .string := by
    cases input
    · exact hcolumn _ hS.output
    · exact hcolumn _ hS.input
  rw [requireStringColumn, if_neg (not_not.mpr htype), wp_pure]

def Idle (S : Session) (vm : TestVM types) : Prop := vm.output.table.Holds S.outputTypes []

theorem wp_forwardInput (hS : Forwards S) (hquiet : ∀ t, quiet (Channel.request S (.emit t)))
    (hser : ∀ t, S.serializes t = true) (hidle : Idle S vm) (hforce : c.inpForceFinish = false)
    (hex : c.exchanges = []) (hreads : TableIterator.Reads S quiet rows (vm.input, c)) {fuel : Nat}
    (hfuel : rows.length < fuel) :
    wp (forwardInput S fuel) (fun o s => o = .ok () ∧ Idle S s.1 ∧ s.1.input.rowsReceived = 0 ∧
      ∃ sentRows, List.Forall₂ (TableData.Holds S.outputTypes) (emitted (s.2.exchanges.map Prod.fst))
        sentRows ∧ sentRows.flatten = rows.map Row.cut) (vm, c) := by
  have hstart : Forwarding S quiet [] rows (vm, c) :=
    ⟨hreads, hforce, [], [], rfl, by simp [hex, emitted], hidle⟩
  have hnames : ¬ (S.inpNames.length ≠ 1 ∨ S.outNames.length ≠ 1) := by
    simp [hS.inpNames, hS.outNames]
  simp only [forwardInput, if_neg hnames, wp_bind, wp_requireStringColumn hS, Outcome.andThen_ok]
  refine wp_mono (wp_forwardRows hS hquiet hstart hfuel) ?_
  rintro o ⟨vm', c'⟩ ⟨rfl, h⟩
  obtain ⟨hreads', -, hwent⟩ := h
  obtain ⟨waiting, hinit, hmore⟩ := hwent.emit
  simp only [Outcome.andThen_ok, wp_onOutput]
  refine wp_mono (wp_and hinit.flush (ResultHandler.flush_empties (hser _))) ?_
  rintro o s' ⟨⟨ho, hi⟩, hempty⟩
  obtain ⟨sentRows, waiting', hdone, hsent, hwaiting⟩ := hmore _ _ _ [] hi (by simp)
  have hnone : waiting' = [] := List.length_eq_zero_iff.mp (hwaiting.rowCount.symm.trans hempty)
  subst hnone
  refine ⟨ho, hwaiting, hreads'.received.mpr rfl, sentRows, hsent, ?_⟩
  simpa using hdone.symm

theorem wp_run (hscript : cstr S.scriptCode = forwardInputStrategy) {fuel : Nat}
    {Q : TestVM S.inputTypes × Channel → Prop}
    (h : wp (forwardInput S fuel) (fun o s => o = .ok () ∧ Q s) (vm, c)) :
    wp (run S fuel) (fun o s => o = .ok true ∧ Q s) (vm, c) := by
  have hne : forwardInputStrategy ≠ emitMetadataStrategy := by decide
  simp only [run, hscript, if_neg hne, if_true, wp_bind]
  refine wp_mono h ?_
  rintro o s ⟨rfl, hs⟩
  exact ⟨rfl, hs⟩

theorem wp_create {Q : Outcome Exception Unit → TestVM S.inputTypes × Channel → Prop}
    (hS : Forwards S) {input : TableIterator S.inputTypes}
    (hreceive : wp (TableIterator.receiveNextData S false) (fun o s => o = .ok () ∧
      ∀ vm : TestVM S.inputTypes, Idle S vm → vm.input = s.1 → Q (.ok ()) (vm, s.2)) (input, c)) :
    wp (create S) Q ({ input := input }, c) := by
  have hiter : ¬ (S.inpIterType ≠ .multiple ∨ S.outIterType ≠ .multiple) := by
    simp [hS.inpIter, hS.outIter]
  simp only [create, wp_bind, wp_onInput]
  refine wp_mono hreceive ?_
  rintro o s ⟨rfl, hQ⟩
  simp only [Outcome.andThen_ok, if_neg hiter, wp_pure]
  exact hQ _ (.empty _) rfl

end

end TestVM

theorem TableData.length_flatten_of_holds {types : List Datatype} {batches : List TableData}
    {later : List (List Row)} (h : List.Forall₂ (TableData.Holds types) batches later) :
    later.flatten.length = (batches.map TableData.rowCount).sum := by
  rw [List.length_flatten]
  induction h with
  | nil => rfl
  | cons ht _ ih => rw [List.map_cons, List.map_cons, List.sum_cons, List.sum_cons, ih, ht.rowCount]

/-- The tables a run emits carry the texts of the batches it read exactly if no value has a NUL byte in
it. In between the requests of `mid` are sent. -/
theorem forwardInput_identity_iff (S : Session) (hS : TestVM.Forwards S)
    (hser : ∀ t, S.serializes t = true) (quiet : Request → Prop)
    (hquiet : ∀ t, quiet (Channel.request S (.emit t))) (batches : List TableData)
    (hwf : ∀ t ∈ batches, t.WellFormed S.inputTypes) (c : Channel)
    (hfeeds : TableIterator.Feeds S quiet c.past batches) (mid : List Request)
    (hmid : ∀ r ∈ mid, quiet r) (fuel : Nat) (hfuel : (batches.map TableData.rowCount).sum < fuel) :
    wp (TestVM.create S) (fun o s => o = .ok () ∧
      ∀ c' : Channel, c'.past = s.2.past ++ mid → c'.exchanges = [] → c'.inpForceFinish = false →
        wp (TestVM.forwardInput S fuel) (fun o s => o = .ok () ∧
          (TableData.SameTexts (emitted (s.2.exchanges.map Prod.fst)) batches ↔
            ∀ t ∈ batches, ∀ v ∈ t.dataString, (0 : UInt8) ∉ v)) (s.1, c'))
      ({ input := {} }, c) := by
  obtain ⟨later, hholds, hne⟩ := TableData.exists_holds hwf
  have hrows := TableData.length_flatten_of_holds hholds
  refine TestVM.wp_create hS ?_
  refine TableIterator.wp_receiveAhead ⟨batches, later, hholds, hne, hfeeds, rfl⟩ fun it hreads => ?_
  refine ⟨rfl, fun vm hidle hinput => ⟨rfl, fun c' hpast hex hforce => ?_⟩⟩
  have hreads' : TableIterator.Reads S quiet later.flatten (vm.input, c') :=
    hinput ▸ hreads.append hmid hpast
  refine wp_mono (TestVM.wp_forwardInput hS hquiet hser hidle hforce hex hreads' (hrows ▸ hfuel))
    fun o s ⟨ho, _, _, sentRows, hsent, hcut⟩ => ⟨ho, ?_⟩
  have hout : S.outputTypes = S.inputTypes := hS.output.trans hS.input.symm
  obtain ⟨hnulls, hstrings⟩ := TableData.texts_of_cut hholds (hout ▸ hsent) hcut
  have hmem : (∀ t ∈ batches, ∀ v ∈ t.dataString, (0 : UInt8) ∉ v) ↔
      ∀ v ∈ TableData.stringsOf batches, (0 : UInt8) ∉ v := by
    simp only [TableData.stringsOf, List.mem_flatMap]
    exact ⟨fun h v ⟨t, ht, hv⟩ => h t ht v hv, fun h t ht v hv => h v ⟨t, ht, hv⟩⟩
  rw [TableData.SameTexts, hnulls, hstrings, hmem, ← map_cstr_eq_self_iff]
  exact and_iff_right rfl

/-! ### A database to try runs on -/

/-- How many times the next batch was asked for. -/
def nexts (past : List Request) : Nat := past.countP fun r => r.content = .inl .next

theorem nexts_append_quiet (past : List Request) {mid : List Request}
    (hmid : ∀ r ∈ mid, r.content ≠ .inl .next) : nexts (past ++ mid) = nexts past := by
  unfold nexts
  rw [List.countP_append, Nat.add_eq_left, List.countP_eq_zero]
  simpa using hmid

theorem nexts_append_next (S : Session) (past : List Request) :
    nexts (past ++ [Channel.request S .next]) = nexts past + 1 := by
  rw [nexts, List.countP_append]
  rfl

def nextOrDone : Option TableData → Response
  | some t => { type := .mtNext, next := t }
  | none => { type := .mtDone }

/-- Answers the data requests with `batches` and then `MT_DONE`. -/
def feed (batches : List TableData) : Server := fun past =>
  .message (nextOrDone batches[nexts past - 1]?)

def feedSession (batches : List TableData) : Session where
  server := feed batches
  serializes := fun _ => true
  scriptCode := str "forward_input"
  inpNames := [str "x"]
  inpTypes := [{ type := .string }]
  outNames := [str "y"]
  outTypes := [{ type := .string }]

theorem feedSession_forwards (batches : List TableData) : TestVM.Forwards (feedSession batches) :=
  ⟨rfl, rfl, rfl, rfl, rfl, rfl⟩

theorem feed_next (batches : List TableData) (past : List Request) :
    feed batches (past ++ [Channel.request (feedSession batches) .next]) =
      .message (nextOrDone (batches.drop (nexts past)).head?) := by
  rw [feed, nexts_append_next, Nat.add_sub_cancel, List.head?_drop]

theorem feedSession_feeds {batches ts : List TableData} {past : List Request}
    (h : batches.drop (nexts past) = ts) :
    TableIterator.Feeds (feedSession batches) (fun r => r.content ≠ .inl .next) past ts := by
  induction ts generalizing past with
  | nil =>
    intro mid hmid
    refine ⟨_, feed_next batches (past ++ mid), ?_⟩
    rw [nexts_append_quiet past hmid, h]
    exact ⟨rfl, rfl⟩
  | cons t ts ih =>
    intro mid hmid
    refine ⟨⟨_, feed_next batches (past ++ mid), ?_⟩, ih ?_⟩
    · rw [nexts_append_quiet past hmid, h]
      exact ⟨rfl, rfl, rfl⟩
    · rw [nexts_append_next, nexts_append_quiet past hmid, ← List.drop_drop, h]
      rfl

/-- The value `a\0b`, and a NULL. -/
def nulBatch : TableData where
  rows := some 2
  dataString := [[97, 0, 98]]
  dataNulls := [false, true]
  rowNumber := [0, 1]

theorem nulBatch_wellFormed : ∀ t ∈ [nulBatch], t.WellFormed (feedSession [nulBatch]).inputTypes := by
  intro t ht
  obtain rfl := List.mem_singleton.mp ht
  exact ⟨by decide, rfl, rfl, fun k => by rcases k with _ | (_ | _ | _ | _ | _) <;> rfl⟩

def nulStart : TestVM (feedSession [nulBatch]).inputTypes × Channel :=
  (TestVM.create (feedSession [nulBatch]) ({ input := {} }, {})).2

def nulEnd : TestVM (feedSession [nulBatch]).inputTypes × Channel :=
  (TestVM.forwardInput (feedSession [nulBatch]) 3 (nulStart.1, { nulStart.2 with exchanges := [] })).2

/-- The value comes out as `a`. -/
theorem forwardInput_identity_iff_nul :
    ¬ TableData.SameTexts (emitted (nulEnd.2.exchanges.map Prod.fst)) [nulBatch] := by
  have h := forwardInput_identity_iff (feedSession [nulBatch]) (feedSession_forwards _) (fun _ => rfl)
    (fun r => r.content ≠ .inl .next) (by simp [Channel.request]) [nulBatch] nulBatch_wellFormed {}
    (feedSession_feeds rfl) [] (by simp) 3 (by decide)
  have hrun := h.2 { nulStart.2 with exchanges := [] } (List.append_nil _).symm rfl (by decide +kernel)
  exact fun hsame => absurd (hrun.2.mp hsame) (by decide)

/-- Forwarding is not the identity on all values. -/
theorem forwardInput_not_identity :
    ¬ ∀ (S : Session), TestVM.Forwards S → (∀ t, S.serializes t = true) →
      ∀ quiet : Request → Prop, (∀ t, quiet (Channel.request S (.emit t))) →
      ∀ batches : List TableData, (∀ t ∈ batches, t.WellFormed S.inputTypes) →
      ∀ c : Channel, TableIterator.Feeds S quiet c.past batches →
      ∀ mid : List Request, (∀ r ∈ mid, quiet r) →
      ∀ fuel, (batches.map TableData.rowCount).sum < fuel →
        wp (TestVM.create S) (fun o s => o = .ok () ∧
          ∀ c' : Channel, c'.past = s.2.past ++ mid → c'.exchanges = [] → c'.inpForceFinish = false →
            wp (TestVM.forwardInput S fuel) (fun o s => o = .ok () ∧
              TableData.SameTexts (emitted (s.2.exchanges.map Prod.fst)) batches) (s.1, c'))
          ({ input := {} }, c) := by
  intro h
  have hcreate := h (feedSession [nulBatch]) (feedSession_forwards _) (fun _ => rfl)
    (fun r => r.content ≠ .inl .next) (by simp [Channel.request]) [nulBatch] nulBatch_wellFormed {}
    (feedSession_feeds rfl) [] (by simp) 3 (by decide)
  have hrun := hcreate.2 { nulStart.2 with exchanges := [] } (List.append_nil _).symm rfl
    (by decide +kernel)
  exact absurd hrun.2 (by decide +kernel : ¬ TableData.SameTexts
    (emitted (nulEnd.2.exchanges.map Prod.fst)) [nulBatch])

end UdfRunner
