import UdfRunner.ExaudflibMain
import UdfRunner.ForwardPath

/-!
# `streamingcontainer.cc`: the output of the script

The reader thread of `StreamingVM::run` takes the script's standard output apart into rows. The stream
notes its end only when a `get` runs into it. `streamedRows_never`: a run of the reader never leaves the
exception handler alone.
-/

namespace UdfRunner
open Proc

/-- The script's output: what is still to be read, and the `eofbit`. -/
structure InputStream where
  rest : ByteString
  eof : Bool := false
deriving DecidableEq, Repr

/-- What the reader thread works on. -/
structure StreamReader where
  str : InputStream
  outp : ResultHandler := {}
  readBuffer : ByteString := []

abbrev Streaming := Proc (StreamReader × Channel) Exception

namespace StreamingVM

def update (f : StreamReader → StreamReader) : Streaming Unit := modify fun s => (f s.1, s.2)

def onOutput {α : Type} (m : Emitting α) : Streaming α :=
  zoom (fun s => (s.1.outp, s.2)) (fun s t => ({ s.1 with outp := t.1 }, t.2)) m

def throwSwigvm {α : Type} (reason : String) : Streaming α := throw (.swigvm (str reason))

/-- `istream::get`: after the end it stays at the end. -/
def getChar : Streaming (Option UInt8) := do
  let (r, _) ← get
  match r.str.rest with
  | [] => do
    update fun r => { r with str := { r.str with eof := true } }
    return none
  | b :: rest =>
    if r.str.eof then return none
    else do
      update fun r => { r with str := { r.str with rest := rest } }
      return some b

def newline : UInt8 := 10
def comma : UInt8 := 44

def readCSVChar (lastColumn : Bool) : Streaming (Unit ⊕ Unit) := do
  match ← getChar with
  | none => if lastColumn then return .inr () else throwSwigvm "eof before last column"
  | some current =>
    if current = newline then
      if lastColumn then return .inr () else throwSwigvm "end of line before last column"
    else if current = comma then
      if lastColumn then throwSwigvm "delimiter after last column" else return .inr ()
    else do
      update fun r => { r with readBuffer := r.readBuffer ++ [current] }
      return .inl ()

/-- A round takes a byte off the stream or is the last one. -/
def readCSVValue (S : Session) (column : Nat) : Streaming Bool := do
  let lastColumn := column + 1 = S.outputTypes.length
  let (r, _) ← get
  if r.str.eof then throwSwigvm "readCSVValue after eof"
  else do
    update fun r => { r with readBuffer := [] }
    loop (fun _ => readCSVChar lastColumn) (r.str.rest.length + 1) ()
    return true

/-- `csvReaders[type](readBuffer, col)`: the map has a reader of strings only. -/
def csvReader (S : Session) (col : Nat) : Streaming Unit := do
  let (r, _) ← get
  if TestVM.columnType S.outTypes col = .string then
    onOutput (ResultHandler.setString S col (cstr r.readBuffer) (2 ^ 64 - 1))
  else throw (.std (str "bad_function_call"))

def readColumns (S : Session) : Nat → Nat → Streaming Unit
  | 0, _ => return ()
  | n + 1, col => do
    let _ ← readCSVValue S col
    csvReader S col
    readColumns S n (col + 1)

/-- `currentRow` is what the other thread has made of the iterator's row by now. -/
def CSVToOutput (S : Session) (currentRow : Nat → UInt64) : Streaming Bool := do
  if ← readCSVValue S 0 then do
    let (r, _) ← get
    if 0 < r.outp.rowsEmited then do
      let _ ← onOutput (ResultHandler.next S (currentRow r.outp.rowsEmited))
    csvReader S 0
    readColumns S (S.outputTypes.length - 1) 1
    let (r, _) ← get
    return !r.str.eof
  else return false

/-- The reader thread: `fuel` cuts off its loop. -/
def readOutput (S : Session) (currentRow : Nat → UInt64) (fuel : Nat) : Streaming Unit := do
  loop (fun _ : Unit => do
    let (r, _) ← get
    if r.str.eof then return .inr ()
    else if ← CSVToOutput S currentRow then return .inl ()
    else return .inr ()) fuel ()
  onOutput (ResultHandler.flush S)

end StreamingVM

/-! ### The exception handler -/

/-- What was thrown into the exception handler stays there: only `checkException` takes it out. -/
def KeepsException (c c' : Channel) : Prop := c.exch.exthrowed = true → c'.exch.exthrowed = true

/-- The same of a state with a channel. -/
def KeepsThrown {τ : Type} (s s' : τ × Channel) : Prop := KeepsException s.2 s'.2

instance {τ : Type} : IsPreorder (τ × Channel) KeepsThrown where
  refl _ := id
  trans _ _ _ h h' := h' ∘ h

namespace ResultHandler
variable {S : Session}

theorem keeps_update (f : ResultHandler → ResultHandler) : Moves KeepsThrown (update f) := fun _ => id

theorem keeps_setException (msg : ByteString) : Moves KeepsThrown (setException msg) := fun _ _ => rfl

theorem keeps_flush : Moves KeepsThrown (flush S) := by
  have hcheck : ∀ reply, Moves KeepsThrown (checkReply S reply) := by
    intro reply
    cases reply with
    | unparsable _ => exact keeps_setException _
    | message r =>
      refine .ite (keeps_setException _) (.ite ?_ (.ite (keeps_setException _) (.pure _)))
      cases r.close <;> exact keeps_setException _
  have hexchange : ∀ q, Moves KeepsThrown (onChannel (Channel.exchange S q)) := fun q _ => id
  exact .bind .get fun _ => .ite (.ite (.bind (keeps_update _) fun _ => .bind (hexchange _) fun _ => hcheck _)
    (keeps_setException _)) (.pure _)

theorem keeps_addColumns (rest : List Datatype) (col : Nat) : Moves KeepsThrown (addColumns col rest) := by
  have hcell : ∀ {α : Type} (missing : String) (found : Option α) (size : α → Nat)
      (add : α → TableData → TableData), Moves KeepsThrown (addCell missing found size add) := by
    intro α missing found size add
    cases found with
    | none => exact .bind (keeps_setException _) fun _ => .pure _
    | some v => exact .bind (keeps_update _) fun _ => .pure _
  have hcolumn : ∀ col type, Moves KeepsThrown (addColumn col type) := by
    refine fun col type => .bind .get fun _ => .bind (keeps_update _) fun _ => .ite (.pure _) ?_
    cases type <;> first | exact hcell _ _ _ _ | exact .bind (keeps_setException _) fun _ => .pure _
  induction rest generalizing col with
  | nil => exact .pure _
  | cons type rest ih => exact .bind (hcolumn _ _) fun _ => .ite (ih _) (.pure _)

theorem keeps_next (currentRow : UInt64) : Moves KeepsThrown (next S currentRow) := by
  have hforce : Moves KeepsThrown (onChannel (modify fun c => { c with inpForceFinish := true })) :=
    fun _ => id
  exact .bind (keeps_update _) fun _ => .bind (keeps_addColumns _ _) fun _ =>
    .ite (.bind (keeps_update _) fun _ => .bind .get fun _ =>
      .ite (.ite (.bind hforce fun _ => .pure _) (.bind keeps_flush fun _ => .pure _)) (.pure _)) (.pure _)

theorem keeps_setString (col : Nat) (v : ByteString) (l : Nat) :
    Moves KeepsThrown (setString S col v l) := by
  unfold setString setText setCell
  cases S.outputTypes[col]? with
  | none => exact keeps_setException _
  | some type => exact .ite (keeps_setException _) (keeps_update _)

/-- The first `next` of a new handler finds no row. -/
theorem wp_next_empty {types : List Datatype} (hS : S.outputTypes = .string :: types) (currentRow : UInt64)
    (c : Channel) : wp (next S currentRow) (fun o s => o = .ok false ∧ s.2.exch.exthrowed = true)
      ({}, c) := by
  simp only [next, wp_bind, wp_update, Outcome.andThen_ok, hS, addColumns, addColumn, wp_get]
  exact ⟨rfl, rfl⟩

end ResultHandler

namespace StreamingVM
variable {S : Session}

theorem keeps_onOutput {α : Type} {m : Emitting α} (hm : Moves KeepsThrown m) :
    Moves KeepsThrown (onOutput m) := .zoom hm fun _ _ h => h

def OnlyReads (s s' : StreamReader × Channel) : Prop := s'.1.outp = s.1.outp ∧ s'.2 = s.2

instance : IsPreorder (StreamReader × Channel) OnlyReads where
  refl _ := ⟨rfl, rfl⟩
  trans _ _ _ h h' := ⟨h'.1.trans h.1, h'.2.trans h.2⟩

theorem reads_readCSVValue (column : Nat) : Moves OnlyReads (readCSVValue S column) := by
  have hthrow : ∀ {α : Type} (reason : String), Moves OnlyReads (throwSwigvm reason : Streaming α) :=
    fun _ => .throw _
  have hupdate : ∀ f : StreamReader → StreamReader, (∀ r, (f r).outp = r.outp) →
      Moves OnlyReads (update f) := fun f hf s => ⟨hf s.1, rfl⟩
  have hget : Moves OnlyReads getChar := by
    refine .bind .get fun s => ?_
    rcases s with ⟨⟨⟨_ | ⟨b, rest⟩, eof⟩, outp, buffer⟩, c⟩
    · exact .bind (hupdate _ fun _ => rfl) fun _ => .pure _
    · exact .ite (.pure _) (.bind (hupdate _ fun _ => rfl) fun _ => .pure _)
  have hchar : ∀ last : Bool, Moves OnlyReads (readCSVChar last) := by
    refine fun last => .bind hget fun current => ?_
    cases current with
    | none => exact .ite (.pure _) (hthrow _)
    | some current =>
      exact .ite (.ite (.pure _) (hthrow _)) (.ite (.ite (hthrow _) (.pure _))
        (.bind (hupdate _ fun _ => rfl) fun _ => .pure _))
  exact .bind .get fun _ => .ite (hthrow _) (.bind (hupdate _ fun _ => rfl) fun _ =>
    .bind (.loop (fun _ => hchar _) _ ()) fun _ => .pure _)

/-- `return false` is commented out. -/
theorem readCSVValue_true {column : Nat} {s : StreamReader × Channel} {b : Bool}
    (h : (readCSVValue S column s).1 = .ok b) : b = true := by
  have h' : (if s.1.str.eof then throwSwigvm "readCSVValue after eof"
      else do
        update fun r => { r with readBuffer := [] }
        loop (fun _ => readCSVChar (column + 1 = S.outputTypes.length)) (s.1.str.rest.length + 1) ()
        return true : Streaming Bool) s = readCSVValue S column s := rfl
  rw [← h'] at h
  split_ifs at h
  · cases h
  · exact eq_of_run_bind_pure (m := loop _ _ _) h

theorem keeps_readCSVValue (column : Nat) : Moves KeepsThrown (readCSVValue S column) :=
  (reads_readCSVValue column).mono fun s s' h hs => by
    rw [h.2]
    exact hs

theorem keeps_csvReader (col : Nat) : Moves KeepsThrown (csvReader S col) :=
  .bind .get fun _ => .ite (keeps_onOutput (ResultHandler.keeps_setString _ _ _)) (.throw _)

theorem keeps_readColumns (n col : Nat) : Moves KeepsThrown (readColumns S n col) := by
  induction n generalizing col with
  | zero => exact .pure _
  | succ n ih => exact .bind (keeps_readCSVValue _) fun _ => .bind (keeps_csvReader _) fun _ => ih _

theorem keeps_CSVToOutput (currentRow : Nat → UInt64) : Moves KeepsThrown (CSVToOutput S currentRow) := by
  have hrest : Moves KeepsThrown (do
      csvReader S 0
      readColumns S (S.outputTypes.length - 1) 1
      let (r, _) ← get
      return !r.str.eof : Streaming Bool) :=
    .bind (keeps_csvReader _) fun _ => .bind (keeps_readColumns _ _) fun _ => .bind .get fun _ => .pure _
  exact .bind (keeps_readCSVValue _) fun _ => .ite (.bind .get fun _ =>
    .ite (.bind (keeps_onOutput (ResultHandler.keeps_next _)) fun _ => hrest) hrest) (.pure _)

/-- The first row of a new handler is taken before there is one. -/
theorem wp_CSVToOutput_first {types : List Datatype} (hS : S.outputTypes = .string :: types)
    (currentRow : Nat → UInt64) {s : StreamReader × Channel} (hs : s.1.outp = {}) :
    wp (CSVToOutput S currentRow) (Proc.Returns (fun _ s => s.2.exch.exthrowed = true) fun _ => True) s := by
  have hread : wp (readCSVValue S 0) (Proc.Returns (fun b s' => b = true ∧ s'.1.outp = {}) fun _ => True) s := by
    have hmoves := reads_readCSVValue (S := S) 0 s
    unfold wp
    rcases hrun : readCSVValue S 0 s with ⟨b | e | r, s'⟩ <;> rw [hrun] at hmoves
    · exact ⟨readCSVValue_true (by rw [hrun]), hmoves.1.trans hs⟩
    · trivial
    · trivial
  have hrest : Moves KeepsThrown (do
      csvReader S 0
      readColumns S (S.outputTypes.length - 1) 1
      let (r, _) ← get
      return !r.str.eof : Streaming Bool) :=
    .bind (keeps_csvReader _) fun _ => .bind (keeps_readColumns _ _) fun _ => .bind .get fun _ => .pure _
  refine Proc.Returns.bind hread ?_
  rintro b s' ⟨rfl, hs'⟩
  obtain ⟨⟨str, outp, buffer⟩, c⟩ := s'
  obtain rfl : outp = {} := hs'
  simp only [if_true, wp_bind (m := Proc.get), wp_get, Outcome.andThen_ok]
  rw [if_pos (by decide)]
  have hnext : wp (onOutput (ResultHandler.next S (currentRow 1)))
      (Proc.Returns (fun _ s => s.2.exch.exthrowed = true) fun _ => True) ({ str, readBuffer := buffer }, c) := by
    unfold onOutput
    rw [wp_zoom]
    refine wp_mono (ResultHandler.wp_next_empty hS (currentRow 1) c) ?_
    rintro o s ⟨rfl, hthrown⟩
    exact hthrown
  refine Proc.Returns.bind hnext fun _ s hthrown => ?_
  exact Proc.Returns.mono (hrest.returns (refl_of KeepsThrown s)) (fun _ _ h => h hthrown) fun _ _ => trivial

/-- Whatever the script writes: a reader that comes to its end has recorded an exception. -/
theorem wp_readOutput_records {types : List Datatype} (hS : S.outputTypes = .string :: types)
    (currentRow : Nat → UInt64) (fuel : Nat) (out : ByteString) (c : Channel) :
    wp (readOutput S currentRow fuel) (Proc.Returns (fun _ s => s.2.exch.exthrowed = true) fun _ => True)
      ({ str := { rest := out } }, c) := by
  have hround : Moves KeepsThrown (do
      let (r, _) ← get
      if r.str.eof then return .inr ()
      else if ← CSVToOutput S currentRow then return .inl ()
      else return .inr () : Streaming (Unit ⊕ Unit)) :=
    .bind .get fun _ => .ite (.pure _) (.bind (keeps_CSVToOutput _) fun _ => .ite (.pure _) (.pure _))
  have hkeeps : ∀ {α : Type} {m : Streaming α} {s : StreamReader × Channel}, Moves KeepsThrown m →
      s.2.exch.exthrowed = true →
      wp m (Proc.Returns (fun _ s => s.2.exch.exthrowed = true) fun _ => True) s := fun hm hs =>
    Proc.Returns.mono (hm.returns (refl_of KeepsThrown _)) (fun _ _ h => h hs) fun _ _ => trivial
  refine Proc.Returns.bind (Q := fun _ s => s.2.exch.exthrowed = true) ?_ fun _ s hs =>
    hkeeps (keeps_onOutput ResultHandler.keeps_flush) hs
  cases fuel with
  | zero => trivial
  | succ fuel =>
    rw [loop_succ]
    refine Proc.Returns.bind (Q := fun _ s => s.2.exch.exthrowed = true) ?_ fun r s hs => ?_
    · simp only [wp_bind (m := Proc.get), wp_get, Outcome.andThen_ok, Bool.false_eq_true, if_false]
      refine Proc.Returns.bind (wp_CSVToOutput_first hS currentRow rfl) fun go s hs => ?_
      rw [wp_ite]
      split_ifs <;> exact hs
    · cases r with
      | inl => exact hkeeps (.loop (fun _ => hround) fuel ()) hs
      | inr => exact hs

end StreamingVM

/-- Newline-terminated lines of comma-separated fields. -/
def csv (lines : List (List ByteString)) : ByteString :=
  lines.flatMap fun fields => [StreamingVM.comma].intercalate fields ++ [StreamingVM.newline]

/-- Lines of `m` fields without delimiters and NUL bytes. -/
def CsvLines (m : Nat) (lines : List (List ByteString)) : Prop :=
  ∀ fields ∈ lines, fields.length = m ∧
    ∀ f ∈ fields, ∀ b ∈ f, b ≠ StreamingVM.comma ∧ b ≠ StreamingVM.newline ∧ b ≠ 0

/-- The lines went out as rows, and nothing was raised or recorded. -/
def StreamsRows (S : Session) (lines : List (List ByteString)) (o : Outcome Exception Unit)
    (s : StreamReader × Channel) : Prop :=
  o = .ok () ∧ s.2.exch.exthrowed = false ∧ ∃ rows : List (List Row),
    List.Forall₂ (TableData.Holds S.outputTypes) (emitted (s.2.exchanges.map Prod.fst)) rows ∧
    rows.flatten.map Row.cells = lines.map (List.map fun f => some (Cell.string f))

/-- On no input does the reader do its work: with at least one STRING column, whatever the lines are. -/
theorem streamedRows_never (S : Session) (m : Nat) (hm : 1 ≤ m)
    (hS : S.outputTypes = List.replicate m .string) (currentRow : Nat → UInt64)
    (lines : List (List ByteString)) (fuel : Nat) (c : Channel) :
    ¬ wp (StreamingVM.readOutput S currentRow fuel) (StreamsRows S lines)
      ({ str := { rest := csv lines } }, c) := by
  obtain ⟨m, rfl⟩ : ∃ k, m = k + 1 := ⟨m - 1, by omega⟩
  have hrecords := StreamingVM.wp_readOutput_records hS currentRow fuel (csv lines) c
  rintro ⟨ho, hnone, -⟩
  unfold wp at hrecords
  rw [ho] at hrecords
  have hthrown : _ = true := hrecords
  rw [hnone] at hthrown
  cases hthrown

def lineSession : Session where
  server := fun _ => .message { type := .mtEmit }
  serializes := fun _ => true
  outNames := [str "y"]
  outTypes := [{ type := .string }]

/-- One line `a` is not streamed. -/
theorem streamedRows_never_line : ¬ wp (StreamingVM.readOutput lineSession (fun _ => 0) 3)
    (StreamsRows lineSession [[str "a"]]) ({ str := { rest := csv [[str "a"]] } }, {}) :=
  streamedRows_never lineSession 1 (by decide) rfl (fun _ => 0) [[str "a"]] 3 {}

/-- The reader does not turn lines into rows. -/
theorem streamedRows_fail : ¬ ∀ (S : Session) (m : Nat), 1 ≤ m → S.outputTypes = List.replicate m .string →
    (∀ t, S.serializes t = true) → AcceptsEmits S → ∀ (currentRow : Nat → UInt64)
    (lines : List (List ByteString)), CsvLines m lines → ∀ fuel, lines.length + 1 < fuel →
      wp (StreamingVM.readOutput S currentRow fuel) (StreamsRows S lines)
        ({ str := { rest := csv lines } }, {}) := by
  intro h
  have hlines : CsvLines 1 [[str "a"]] := by
    intro fields hfields
    obtain rfl := List.mem_singleton.mp hfields
    exact ⟨rfl, by decide⟩
  have hrun := h lineSession 1 (by decide) rfl (fun _ => rfl) (fun _ _ => ⟨_, rfl, rfl, rfl⟩) (fun _ => 0)
    [[str "a"]] hlines 3 (by decide)
  exact absurd hrun.2.1 (by decide +kernel)

end UdfRunner
