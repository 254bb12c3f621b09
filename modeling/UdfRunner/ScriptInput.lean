import UdfRunner.StreamingContainer

/-!
# `streamingcontainer.cc`: the input of the script

The writer thread of `StreamingVM::run` prints the rows without quotes and without a mark for NULL.
`inputText_eq_iff`: what its text says about the rows.
-/

namespace UdfRunner
open Proc

/-- What the writer thread works on. -/
structure StreamWriter (types : List Datatype) where
  str : ByteString := []
  inp : TableIterator types := {}

abbrev Writing (types : List Datatype) := Proc (StreamWriter types × Channel) Exception

namespace StreamingVM
variable {types : List Datatype}

def onInput {α : Type} (m : Iterating types α) : Writing types α :=
  zoom (fun s => (s.1.inp, s.2)) (fun s t => ({ s.1 with inp := t.1 }, t.2)) m

def write (text : ByteString) : Writing types Unit := modify fun s => ({ s.1 with str := s.1.str ++ text }, s.2)

def throwOnInput (type : String) : Writing types Unit :=
  throw (.swigvm (str "Trying to serialize " ++ str type ++ str " datatype to CSV"))

/-- `csvPrinters[type](str, col)`. `showDouble` is what an `ostream` makes of a `double`; a `const char*` is
written up to its NUL. -/
def csvPrinter (showDouble : Double → ByteString) (type : Datatype) (col : Nat) : Writing types Unit :=
  match type with
  | .unsupported => throwOnInput "UNSUPPORTED"
  | .double => do write (showDouble (← onInput (TableIterator.getDouble col)))
  | .int32 => do write (str (toString (← onInput (TableIterator.getInt32 col))))
  | .int64 => do write (str (toString (← onInput (TableIterator.getInt64 col))))
  | .numeric => do write (cstr (← onInput (TableIterator.getNumeric col)))
  | .timestamp => do write (cstr (← onInput (TableIterator.getTimestamp col)))
  | .date => do write (cstr (← onInput (TableIterator.getDate col)))
  | .string => do write (cstr (← onInput (TableIterator.getString col)).1)
  | .boolean => do write (if ← onInput (TableIterator.getBoolean col) then str "true" else str "false")
  | .intervalYm => throwOnInput "INTERVALYM"
  | .intervalDs => throwOnInput "INTERVALDS"
  | .geometry => throwOnInput "GEOMETRY"

/-- The loop over the columns from `col` on. -/
def writeColumns (S : Session) (showDouble : Double → ByteString) : Nat → Nat → Writing types Unit
  | 0, _ => return ()
  | n + 1, col => do
    write [comma]
    csvPrinter showDouble (TestVM.columnType S.inpTypes col) col
    writeColumns S showDouble n (col + 1)

def inputToCSV (S : Session) (showDouble : Double → ByteString) : Writing types Unit := do
  if 0 < S.inpTypes.length then do
    csvPrinter showDouble (TestVM.columnType S.inpTypes 0) 0
    writeColumns S showDouble (S.inpTypes.length - 1) 1
  write [newline]

/-- The writer thread's loop: `fuel` cuts it off. -/
def writeInput (S : Session) (showDouble : Double → ByteString) (fuel : Nat) : Writing S.inputTypes Unit :=
  loop (fun _ : Unit => do
    inputToCSV S showDouble
    if ← onInput (TableIterator.next S) then return .inl () else return .inr ()) fuel ()

def writeRows (S : Session) (showDouble : Double → ByteString) : Nat → Writing S.inputTypes Unit
  | 0 => return ()
  | n + 1 => do
    inputToCSV S showDouble
    let _ ← onInput (TableIterator.next S)
    writeRows S showDouble n

/-- The text of the first `n` rows of a new VM. -/
def inputText (S : Session) (showDouble : Double → ByteString) (c : Channel) (n : Nat) :
    Outcome Exception Unit × ByteString :=
  let r := (do onInput (TableIterator.construct S); writeRows S showDouble n :
      Writing S.inputTypes Unit) ({}, c)
  (r.1, r.2.1.str)

end StreamingVM

/-- What a cell of a VARCHAR column looks like in the text. -/
def Cell.shown : Option Cell → ByteString
  | some (.string s) => cstr s
  | _ => []

def Row.shown (row : Row) : List ByteString := row.cells.map Cell.shown

def csvLine (fields : List ByteString) : ByteString :=
  [StreamingVM.comma].intercalate fields ++ [StreamingVM.newline]

theorem intercalate_cons (sep : UInt8) (f : ByteString) (fields : List ByteString) :
    [sep].intercalate (f :: fields) = f ++ fields.flatMap (sep :: ·) := by
  induction fields generalizing f with
  | nil => simp
  | cons g fields ih => rw [List.intercalate_cons_cons, ih, List.flatMap_cons]; simp

namespace StreamingVM
variable {S : Session} {showDouble : Double → ByteString} {c : Channel}

section
variable {types : List Datatype} {w : StreamWriter types} {done todo : List Row} {row : Row} {col : Nat}

@[simp] theorem wp_onInput {α : Type} {Q : Outcome Exception α → StreamWriter types × Channel → Prop}
    (m : Iterating types α) :
    wp (onInput m) Q (w, c) ↔ wp m (fun o t => Q o ({ w with inp := t.1 }, t.2)) (w.inp, c) := Iff.rfl

@[simp] theorem wp_write {Q : Outcome Exception Unit → StreamWriter types × Channel → Prop}
    (text : ByteString) :
    wp (write text) Q (w, c) ↔ Q (.ok ()) ({ w with str := w.str ++ text }, c) := Iff.rfl

/-- A text was written, and the iterator stands where it stood. -/
def Writes (w : StreamWriter types) (c : Channel) (text : ByteString) (o : Outcome Exception Unit)
    (s : StreamWriter types × Channel) : Prop :=
  o = .ok () ∧ ∃ b, s = ({ str := w.str ++ text, inp := { w.inp with wasNull := b } }, c)

theorem wp_csvPrinter (hat : TableIterator.AtRow done row todo w.inp) (htype : types[col]? = some .string)
    {cell : Option Cell} (hcell : row.cells[col]? = some cell) :
    wp (csvPrinter showDouble .string col) (Writes w c (Cell.shown cell)) (w, c) := by
  simp only [csvPrinter, wp_bind, wp_onInput]
  refine TableIterator.wp_getString hat htype hcell ?_ ?_
  · rintro rfl
    exact ⟨rfl, true, rfl⟩
  · rintro s rfl
    exact ⟨rfl, false, rfl⟩

/-- Every input column is a VARCHAR. -/
def TextOnly (S : Session) : Prop := ∀ type ∈ S.inputTypes, type = .string

theorem TextOnly.getElem? (hS : TextOnly S) (hcol : col < S.inputTypes.length) :
    S.inputTypes[col]? = some .string := by
  rw [List.getElem?_eq_getElem hcol, hS _ (List.getElem_mem hcol)]

theorem TextOnly.columnType (hS : TextOnly S) (hcol : col < S.inputTypes.length) :
    TestVM.columnType S.inpTypes col = .string := by
  rw [TestVM.columnType, ← List.getElem?_map, show (S.inpTypes.map (·.type))[col]? = _ from hS.getElem? hcol]
  rfl

theorem wp_writeColumns (hS : TextOnly S) {w : StreamWriter S.inputTypes} {n : Nat}
    (hn : col + n = S.inputTypes.length) (hat : TableIterator.AtRow done row todo w.inp) :
    wp (writeColumns S showDouble n col) (Writes w c ((row.shown.drop col).flatMap (comma :: ·))) (w, c) := by
  have hlen : row.cells.length = S.inputTypes.length := hat.holds.cells_length (by simp)
  induction n generalizing col w with
  | zero =>
    have hnil : row.shown.drop col = [] := List.drop_eq_nil_of_le (by rw [Row.shown, List.length_map]; omega)
    rw [hnil, List.flatMap_nil]
    exact ⟨rfl, w.inp.wasNull, by rw [List.append_nil]; rfl⟩
  | succ n ih =>
    have hcol : col < S.inputTypes.length := by omega
    have hcells : row.cells[col]? = some row.cells[col] := List.getElem?_eq_getElem (hlen ▸ hcol)
    have hshown : row.shown.drop col = Cell.shown row.cells[col] :: row.shown.drop (col + 1) := by
      rw [Row.shown, List.drop_eq_getElem_cons (by rw [List.length_map]; omega), List.getElem_map]
    rw [writeColumns, wp_bind, wp_write, Outcome.andThen_ok, wp_bind, hS.columnType hcol]
    refine wp_mono (wp_csvPrinter (w := { w with str := w.str ++ [comma] }) hat (hS.getElem? hcol) hcells)
      fun o s ho => ?_
    obtain ⟨rfl, b, rfl⟩ := ho
    set w' : StreamWriter S.inputTypes :=
      { str := w.str ++ [comma] ++ Cell.shown row.cells[col], inp := { w.inp with wasNull := b } } with hw'
    rw [Outcome.andThen_ok]
    refine wp_mono (ih (w := w') (by omega) (hat.wasNull b)) fun o s ho => ?_
    obtain ⟨rfl, b', rfl⟩ := ho
    refine ⟨rfl, b', ?_⟩
    simp only [hw', hshown, List.flatMap_cons, List.append_assoc, List.cons_append, List.nil_append]

theorem wp_inputToCSV (hS : TextOnly S) {w : StreamWriter S.inputTypes}
    (hat : TableIterator.AtRow done row todo w.inp) :
    wp (inputToCSV S showDouble) (Writes w c (csvLine row.shown)) (w, c) := by
  have hlength : S.inpTypes.length = S.inputTypes.length := (List.length_map ..).symm
  have hlen : row.cells.length = S.inputTypes.length := hat.holds.cells_length (by simp)
  simp only [inputToCSV, hlength]
  rcases hcells : row.cells with _ | ⟨cell, cells⟩
  · rw [hcells] at hlen
    rw [if_neg (by rw [← hlen]; simp)]
    exact ⟨rfl, w.inp.wasNull, by rw [Row.shown, hcells]; rfl⟩
  have hpos : 0 < S.inputTypes.length := by rw [← hlen, hcells]; simp
  rw [if_pos hpos, wp_bind, hS.columnType hpos]
  refine wp_mono (wp_csvPrinter hat (hS.getElem? hpos) (by rw [hcells]; rfl)) fun o s ho => ?_
  obtain ⟨rfl, b, rfl⟩ := ho
  set w' : StreamWriter S.inputTypes :=
    { str := w.str ++ Cell.shown cell, inp := { w.inp with wasNull := b } } with hw'
  rw [Outcome.andThen_ok, wp_bind]
  refine wp_mono (wp_writeColumns (w := w') hS (n := S.inputTypes.length - 1) (by omega)
    (hat.wasNull b)) fun o s ho => ?_
  obtain ⟨rfl, b', rfl⟩ := ho
  rw [Outcome.andThen_ok, wp_write]
  refine ⟨rfl, b', ?_⟩
  simp only [hw', csvLine, Row.shown, hcells, List.map_cons, intercalate_cons, List.drop_one, List.tail_cons,
    List.append_assoc]

end

variable {quiet : Request → Prop} {w : StreamWriter S.inputTypes} {row : Row} {rows : List Row}

theorem wp_writeRow {α : Type} {Q : Outcome Exception α → StreamWriter S.inputTypes × Channel → Prop}
    {f : Bool → Writing S.inputTypes α} (hS : TextOnly S)
    (h : TableIterator.Reads S quiet (row :: rows) (w.inp, c)) (hforce : c.inpForceFinish = false)
    (hQ : ∀ (w' : StreamWriter S.inputTypes) (c' : Channel), w'.str = w.str ++ csvLine row.shown →
      TableIterator.Reads S quiet rows (w'.inp, c') → c'.inpForceFinish = false →
      wp (f (rows ≠ [])) Q (w', c')) :
    wp (do inputToCSV S showDouble; let more ← onInput (TableIterator.next S); f more) Q (w, c) := by
  obtain ⟨done, row', todo, rest, hat, -, hrows⟩ := h.resolve_left (by simp)
  obtain rfl : row = row' := by simpa using congrArg List.head? hrows
  rw [wp_bind]
  refine wp_mono (wp_inputToCSV hS hat) fun o s ho => ?_
  obtain ⟨rfl, b, rfl⟩ := ho
  rw [Outcome.andThen_ok, wp_bind, wp_onInput]
  refine TableIterator.wp_next (h.wasNull b) hforce fun it' c' hreads hc' => ?_
  rw [Outcome.andThen_ok]
  refine hQ _ c' rfl hreads ?_
  rcases hc' with rfl | rfl <;> exact hforce

theorem wrote_cons {w' : StreamWriter S.inputTypes} {m : Writing S.inputTypes Unit}
    (hstr : w'.str = w.str ++ csvLine row.shown)
    (h : wp m (fun o s => o = .ok () ∧ s.1.str = w'.str ++ csv (rows.map Row.shown)) (w', c)) :
    wp m (fun o s => o = .ok () ∧ s.1.str = w.str ++ csv ((row :: rows).map Row.shown)) (w', c) := by
  refine wp_mono h fun o s ho => ⟨ho.1, ?_⟩
  rw [ho.2, hstr, List.append_assoc]
  rfl

theorem wp_writeRows (hS : TextOnly S) (h : TableIterator.Reads S quiet rows (w.inp, c))
    (hforce : c.inpForceFinish = false) : wp (writeRows S showDouble rows.length)
      (fun o s => o = .ok () ∧ s.1.str = w.str ++ csv (rows.map Row.shown)) (w, c) := by
  induction rows generalizing w c with
  | nil => exact ⟨rfl, (List.append_nil _).symm⟩
  | cons row rows ih =>
    exact wp_writeRow hS h hforce fun w' c' hstr hreads hforce' => wrote_cons hstr (ih hreads hforce')

theorem wp_writeInput (hS : TextOnly S) (hne : rows ≠ []) (h : TableIterator.Reads S quiet rows (w.inp, c))
    (hforce : c.inpForceFinish = false) {fuel : Nat} (hfuel : rows.length ≤ fuel) :
    wp (writeInput S showDouble fuel)
      (fun o s => o = .ok () ∧ s.1.str = w.str ++ csv (rows.map Row.shown)) (w, c) := by
  induction rows generalizing w c fuel with
  | nil => exact absurd rfl hne
  | cons row rows ih =>
    obtain ⟨fuel, rfl⟩ := Nat.exists_eq_succ_of_ne_zero (Nat.ne_of_gt (Nat.zero_lt_of_lt hfuel))
    rw [writeInput, loop_succ, wp_bind]
    refine wp_writeRow hS h hforce fun w' c' hstr hreads hforce' => ?_
    by_cases hmore : rows = []
    · rw [if_neg (by simpa using hmore)]
      subst hmore
      exact wrote_cons (m := Pure.pure ()) hstr ⟨rfl, (List.append_nil _).symm⟩
    · rw [if_pos (by simpa using hmore)]
      exact wrote_cons hstr (ih hmore hreads hforce' (by simpa using hfuel))

end StreamingVM

/-! ### Reading the text back -/

section
open StreamingVM
variable {m : Nat} {fields fields' : List ByteString} {lines lines' : List (List ByteString)}

/-- `m` fields that keep the delimiters of such a line out. -/
def PlainFields (m : Nat) (fields : List ByteString) : Prop :=
  fields.length = m ∧ ∀ f ∈ fields, newline ∉ f ∧ (1 < m → comma ∉ f)

theorem PlainFields.newline_notMem (h : PlainFields m fields) : newline ∉ [comma].intercalate fields := by
  cases fields with
  | nil => exact List.not_mem_nil
  | cons f fields =>
    rw [intercalate_cons, List.mem_append, List.mem_flatMap]
    rintro (hmem | ⟨g, hg, hmem⟩)
    · exact (h.2 f (by simp)).1 hmem
    · rcases List.mem_cons.mp hmem with heq | hmem
      · exact absurd heq (by decide)
      · exact (h.2 g (by simp [hg])).1 hmem

theorem PlainFields.inj (h : PlainFields m fields) (h' : PlainFields m fields')
    (heq : [comma].intercalate fields = [comma].intercalate fields') : fields = fields' := by
  by_cases hm : 1 < m
  · have hsplit : ∀ {fields}, PlainFields m fields → ([comma].intercalate fields).splitOn comma = fields := by
      intro fields h
      exact List.splitOn_intercalate comma (fun f hf => (h.2 f hf).2 hm)
        (List.ne_nil_of_length_pos (by rw [h.1]; omega))
    rw [← hsplit h, heq, hsplit h']
  · obtain ⟨hlen, -⟩ := h
    obtain ⟨hlen', -⟩ := h'
    rcases fields with _ | ⟨f, _ | ⟨g, fields⟩⟩ <;> rcases fields' with _ | ⟨f', _ | ⟨g', fields'⟩⟩ <;>
      simp only [List.length_nil, List.length_cons] at hlen hlen'
    all_goals first | omega | rfl | simpa using heq

theorem csv_eq_intercalate (lines : List (List ByteString)) :
    csv lines = [newline].intercalate (lines.map (List.intercalate [comma]) ++ [[]]) := by
  induction lines with
  | nil => rfl
  | cons fields lines ih =>
    rw [List.map_cons, List.cons_append, List.intercalate_cons_of_ne_nil (by simp), ← ih]
    rfl

/-- Lines of plain fields can be read back. -/
theorem csv_inj (h : ∀ fields ∈ lines, PlainFields m fields) (h' : ∀ fields ∈ lines', PlainFields m fields)
    (heq : csv lines = csv lines') : lines = lines' := by
  have hsplit : ∀ {lines}, (∀ fields ∈ lines, PlainFields m fields) →
      (csv lines).splitOn newline = lines.map (List.intercalate [comma]) ++ [[]] := by
    intro lines h
    rw [csv_eq_intercalate]
    refine List.splitOn_intercalate newline (fun l hl => ?_) (by simp)
    rcases List.mem_append.mp hl with hl | hl
    · obtain ⟨fields, hfields, rfl⟩ := List.mem_map.mp hl
      exact (h fields hfields).newline_notMem
    · rw [List.mem_singleton.mp hl]
      exact List.not_mem_nil
  have hlines := List.append_cancel_right ((hsplit h).symm.trans (heq ▸ hsplit h'))
  clear heq
  induction lines generalizing lines' with
  | nil => exact (List.map_eq_nil_iff.mp hlines.symm).symm
  | cons fields lines ih =>
    obtain ⟨fields', lines', rfl, hfields, hrest⟩ := List.map_eq_cons_iff.mp hlines.symm
    rw [(h fields (by simp)).inj (h' fields' (by simp)) hfields.symm,
      ih (fun f hf => h f (by simp [hf])) (fun f hf => h' f (by simp [hf])) hrest.symm]

end

/-- The input columns are `m` VARCHARs and the server supplies the rows. -/
structure Supplies (m : Nat) (S : Session) (c : Channel) (rows : List Row) : Prop where
  columns : S.inputTypes = List.replicate m .string
  ahead : TableIterator.Ahead S (fun _ => False) c.past rows
  force : c.inpForceFinish = false

namespace Supplies
variable {m : Nat} {S : Session} {c : Channel} {rows : List Row} {showDouble : Double → ByteString}

theorem textOnly (h : Supplies m S c rows) : StreamingVM.TextOnly S := fun type htype => by
  rw [h.columns] at htype
  exact List.eq_of_mem_replicate htype

theorem shown_length (h : Supplies m S c rows) : ∀ row ∈ rows, row.shown.length = m := by
  obtain ⟨batches, later, hholds, -, -, rfl⟩ := h.ahead
  intro row hrow
  obtain ⟨part, hpart, hmem⟩ := List.mem_flatten.mp hrow
  obtain ⟨i, hi, rfl⟩ := List.getElem_of_mem hpart
  have ht := List.Forall₂.get hholds (hholds.length_eq ▸ hi) hi
  rw [Row.shown, List.length_map, ht.cells_length (by simpa using hmem), h.columns, List.length_replicate]

theorem inputText_eq (h : Supplies m S c rows) :
    StreamingVM.inputText S showDouble c rows.length = (.ok (), csv (rows.map Row.shown)) := by
  have hrun : wp (do StreamingVM.onInput (TableIterator.construct S)
                     StreamingVM.writeRows S showDouble rows.length)
      (fun o s => o = .ok () ∧ s.1.str = csv (rows.map Row.shown)) (({} : StreamWriter S.inputTypes), c) := by
    rw [wp_bind, StreamingVM.wp_onInput]
    refine TableIterator.wp_receiveAhead h.ahead fun it hreads => ?_
    exact StreamingVM.wp_writeRows (w := { inp := it }) h.textOnly hreads h.force
  exact Prod.ext hrun.1 hrun.2

/-- The thread writes the same text, if there is a row at all. -/
theorem writeInput_eq (h : Supplies m S c rows) (hne : rows ≠ []) {fuel : Nat} (hfuel : rows.length ≤ fuel) :
    wp (do StreamingVM.onInput (TableIterator.construct S); StreamingVM.writeInput S showDouble fuel)
      (fun o s => (o, s.1.str) = StreamingVM.inputText S showDouble c rows.length)
      (({} : StreamWriter S.inputTypes), c) := by
  rw [h.inputText_eq, wp_bind, StreamingVM.wp_onInput]
  refine TableIterator.wp_receiveAhead h.ahead fun it hreads => ?_
  rw [Outcome.andThen_ok]
  refine wp_mono (StreamingVM.wp_writeInput
    (w := { inp := it }) h.textOnly hne hreads h.force hfuel) fun o s ho => ?_
  obtain ⟨rfl, hstr⟩ := ho
  exact Prod.ext rfl hstr

end Supplies

/-- Where no text shows a delimiter, the text tells what the rows show: a NULL is nothing, and a value ends
before its first NUL byte. -/
theorem inputText_eq_iff (showDouble : Double → ByteString) {m : Nat} {S S' : Session} {c c' : Channel}
    {rows rows' : List Row} (h : Supplies m S c rows) (h' : Supplies m S' c' rows')
    (hplain : ∀ row ∈ rows ++ rows', ∀ f ∈ row.shown,
      StreamingVM.newline ∉ f ∧ (1 < m → StreamingVM.comma ∉ f)) :
    StreamingVM.inputText S showDouble c rows.length = StreamingVM.inputText S' showDouble c' rows'.length ↔
      rows.map Row.shown = rows'.map Row.shown := by
  rw [h.inputText_eq, h'.inputText_eq]
  constructor
  · intro heq
    refine csv_inj (m := m) ?_ ?_ (Prod.ext_iff.mp heq).2 <;> intro fields hfields <;>
      obtain ⟨row, hrow, rfl⟩ := List.mem_map.mp hfields
    · exact ⟨h.shown_length row hrow, hplain row (by simp [hrow])⟩
    · exact ⟨h'.shown_length row hrow, hplain row (by simp [hrow])⟩
  · intro hshown
    rw [hshown]

/-- One row whose only cell is NULL, and one whose only cell is the empty string. -/
def nullCell : TableData where
  rows := some 1
  dataNulls := [true]
  rowNumber := [0]

def emptyCell : TableData where
  rows := some 1
  dataString := [[]]
  dataNulls := [false]
  rowNumber := [0]

theorem feedSession_supplies {t : TableData} {row : Row} (hholds : t.Holds [.string] [row]) :
    Supplies 1 (feedSession [t]) {} [row] where
  columns := rfl
  ahead := ⟨[t], [[row]], .cons hholds .nil, by simp, (feedSession_feeds rfl).mono nofun, rfl⟩
  force := rfl

theorem nullCell_holds : nullCell.Holds [.string] [⟨0, [none]⟩] where
  typed := by simp [Row.Typed, ColumnStore.Typed]
  rowCount := rfl
  rowNumber := rfl
  nulls_eq := rfl
  column_eq k := by rcases k with _ | (_ | _ | _ | _ | _) <;> rfl

theorem emptyCell_holds : emptyCell.Holds [.string] [⟨0, [some (.string [])]⟩] where
  typed := by
    simp [Row.Typed, ColumnStore.Typed]
    rfl
  rowCount := rfl
  rowNumber := rfl
  nulls_eq := rfl
  column_eq k := by rcases k with _ | (_ | _ | _ | _ | _) <;> rfl

theorem inputText_eq_iff_empty :
    StreamingVM.inputText (feedSession [nullCell]) (fun _ => []) {} 1 =
      StreamingVM.inputText (feedSession [emptyCell]) (fun _ => []) {} 1 :=
  (inputText_eq_iff (fun _ => []) (feedSession_supplies nullCell_holds) (feedSession_supplies emptyCell_holds)
    (by simp [Row.shown, Cell.shown, cstr])).mpr rfl

/-- A NULL and an empty string give the same text. -/
theorem inputText_notInjective : ¬∀ (showDouble : Double → ByteString) (m : Nat) (S S' : Session)
    (c c' : Channel)
    (rows rows' : List Row), Supplies m S c rows → Supplies m S' c' rows' →
      rows.map Row.cells ≠ rows'.map Row.cells →
      (StreamingVM.inputText S showDouble c rows.length).2 ≠
        (StreamingVM.inputText S' showDouble c' rows'.length).2 := by
  intro h
  have hnull := feedSession_supplies nullCell_holds
  have hempty := feedSession_supplies emptyCell_holds
  refine h (fun _ => []) 1 _ _ _ _ _ _ hnull hempty (by decide) ?_
  rw [hnull.inputText_eq, hempty.inputText_eq]
  rfl

end UdfRunner
