import UdfRunner.Lib.Lines
import UdfRunner.ScriptOptions.LegacyLines
import UdfRunner.ScriptOptions.LineParser

/-!
# `script_option_lines_ctpg.cc`: the options of a code

`parseOptions` looks for the next line with a `%` and gives it to the parser of lines. `loop_eq`: it is a
fold over these lines.
-/

namespace UdfRunner
open StringSearch

namespace CtpgParser
open OptionParser Ctpg

structure ScriptOption where
  value : ByteString
  idxInSource : UInt64
  size : UInt64
deriving DecidableEq, Repr

abbrev OptionsMap := ByteString → Option (List ScriptOption)

/-- No `endPos` is `npos`. -/
structure LinePositions where
  startPos : Nat
  endPos : Option Nat
deriving DecidableEq, Repr

def getNextLine (currentPos : Nat) (scriptCode : ByteString) : Option LinePositions :=
  (findFirst (· = percent) scriptCode currentPos).map fun newOptionStartPos =>
    let lineStartPos := (findLast (· ∈ lineBreaks) scriptCode newOptionStartPos).elim 0 (· + 1)
    ⟨lineStartPos, findFirst (· ∈ lineBreaks) scriptCode lineStartPos⟩

def LinePositions.line (code : ByteString) (positions : LinePositions) : Line UInt8 :=
  let tail := code.drop positions.startPos
  ⟨positions.startPos, positions.endPos.elim tail fun endPos => tail.take (endPos - positions.startPos)⟩

def toScriptOption (startPos : Nat) (option : LineOption) : ScriptOption where
  value := option.value
  idxInSource := UInt64.ofNat startPos + option.start.column.toUInt64 - 1
  size := (option.finish.column - option.start.column + 1).toUInt64

def insertOption (result : OptionsMap) (key : ByteString) (entry : ScriptOption) : OptionsMap :=
  match result key with
  | none => Function.update result key (some [entry])
  | some found => Function.update result key (some (found ++ [entry]))

def insertOptions (startPos : Nat) (result : OptionsMap) (parserResult : List LineOption) : OptionsMap :=
  parserResult.foldl (fun result option =>
    insertOption result option.key (toScriptOption startPos option)) result

def parserError (lineNumber : Nat) (what : ByteString) : ByteString :=
  str "Error parsing script options at line " ++ str (toString lineNumber) ++ str ": " ++ cstr what

/-- The number of a line in the text of an error. -/
def lineNumber (code : ByteString) (startPos : Nat) : Nat := (code.take startPos).count 10

/-- The map after the call and the text of what is thrown. -/
structure Parsed where
  result : OptionsMap
  error : Option ByteString

def parseLoop (code : ByteString) : Nat → Nat → OptionsMap → Option Parsed
  | 0, _, _ => none
  | fuel + 1, currentPos, result =>
    match getNextLine currentPos code with
    | none => some ⟨result, none⟩
    | some positions =>
      match OptionParser.parse (positions.line code).text with
      | none => none
      | some (.error what) => some ⟨result, some (parserError (lineNumber code positions.startPos) what)⟩
      | some (.ok parserResult) =>
        let result := insertOptions positions.startPos result parserResult
        match positions.endPos with
        | none => some ⟨result, none⟩
        | some endPos => parseLoop code fuel (endPos + 1) result

/-- No line is visited twice. -/
def parseOptions (code : ByteString) (result : OptionsMap) : Option Parsed :=
  parseLoop code (code.length + 1) 0 result

/-- The lines that the loop visits as long as the parser accepts them. -/
def visit (code : ByteString) : Nat → Nat → Option (List (Line UInt8))
  | 0, _ => none
  | fuel + 1, currentPos =>
    match getNextLine currentPos code with
    | none => some []
    | some positions =>
      match positions.endPos with
      | none => some [positions.line code]
      | some endPos => (visit code fuel (endPos + 1)).map (positions.line code :: ·)

/-! ### The lines -/

abbrev isBreak (c : UInt8) : Bool := c ∈ lineBreaks

/-- The lines with a `%`, in their order. -/
def optionLines (n : Nat) (code : ByteString) : List (Line UInt8) :=
  (lines isBreak n code).filter (percent ∈ ·.text)

section
variable {code a l s b : ByteString} {c : UInt8} {n fuel : Nat}

theorem getNextLine_line (ha : Ended isBreak a) (hl : Plain isBreak l) (hmem : percent ∈ l)
    (hb : ∀ c ∈ b.head?, isBreak c = true) :
    getNextLine a.length (a ++ (l ++ b)) =
      some ⟨a.length, if b = [] then none else some (a.length + l.length)⟩ := by
  obtain ⟨l₁, l₂, rfl, hfirst⟩ := List.eq_append_cons_of_mem hmem
  have hfront : Plain isBreak l₁ := fun x hx => hl x (List.mem_append_left _ hx)
  have hpercent : findFirst (· = percent) (a ++ ((l₁ ++ percent :: l₂) ++ b)) a.length =
      some (a.length + l₁.length) := by
    rw [List.append_assoc, List.cons_append]
    refine findFirst_append ?_ (by simp)
    intro x hx
    exact decide_eq_false fun heq => hfirst (heq ▸ hx)
  have hstart : (findLast isBreak (a ++ ((l₁ ++ percent :: l₂) ++ b)) (a.length + l₁.length)).elim 0 (· + 1) =
      a.length := by
    have := findLast_lineStart (p := isBreak) (a := a ++ l₁) (t := l₂ ++ b) (c := percent) (by decide)
    rw [linesBefore_append ha hfront, List.length_append] at this
    rwa [List.append_assoc a, ← List.cons_append, ← List.append_assoc l₁] at this
  have hend : findFirst isBreak (a ++ ((l₁ ++ percent :: l₂) ++ b)) a.length =
      if b = [] then none else some (a.length + (l₁ ++ percent :: l₂).length) := by
    rcases b with _ | ⟨c, b⟩
    · rw [List.append_nil, findFirst_none hl]
      rfl
    · rw [findFirst_append hl (hb c rfl)]
      rfl
  rw [getNextLine, hpercent, Option.map_some, hstart]
  show some (LinePositions.mk a.length (findFirst isBreak _ _)) = _
  rw [hend]

theorem getNextLine_none (hl : percent ∉ l) : getNextLine a.length (a ++ l) = none := by
  have hplain : ∀ x ∈ l, decide (x = percent) = false := by
    intro x hx
    exact decide_eq_false fun heq => hl (heq ▸ hx)
  rw [getNextLine, findFirst_none hplain]
  rfl

theorem getNextLine_skip (hcode : code = a ++ (l ++ c :: s)) (hl : percent ∉ l) (hc : isBreak c = true) :
    getNextLine a.length code = getNextLine (a.length + l.length + 1) code := by
  have hplain : ∀ x ∈ l ++ [c], decide (x = percent) = false := by
    intro x hx
    refine decide_eq_false ?_
    rintro rfl
    rcases List.mem_append.mp hx with hx | hx
    · exact hl hx
    · rw [← List.mem_singleton.mp hx] at hc
      exact absurd hc (by decide)
  have hsplit : code = a ++ ((l ++ [c]) ++ s) := by rw [hcode]; simp
  rw [getNextLine, getNextLine, hsplit, findFirst_skip hplain, List.length_append, List.length_singleton,
    Nat.add_assoc]

theorem visit_congr {m : Nat} (h : getNextLine n code = getNextLine m code) :
    visit code fuel n = visit code fuel m := by
  cases fuel with
  | zero => rfl
  | succ fuel => rw [visit, visit, h]

theorem line_eq (ha : code = a ++ (l ++ b)) :
    LinePositions.line code ⟨a.length, if b = [] then none else some (a.length + l.length)⟩ =
      ⟨a.length, l⟩ := by
  subst ha
  rw [LinePositions.line, List.drop_left]
  by_cases hb : b = []
  · rw [if_pos hb, hb, List.append_nil]
    rfl
  · rw [if_neg hb, Option.elim_some, Nat.add_sub_cancel_left, List.take_left]

theorem visit_lines (ha : Ended isBreak a) (hcode : code = a ++ s) (hfuel : s.length < fuel) :
    visit code fuel a.length = some (optionLines a.length s) := by
  obtain ⟨fuel, rfl⟩ := Nat.exists_eq_succ_of_ne_zero (Nat.ne_zero_of_lt hfuel)
  induction s using line_induction (p := isBreak) generalizing a fuel with
  | last l hl =>
    subst hcode
    rw [optionLines, lines_plain hl, visit]
    by_cases hmem : percent ∈ l
    · have hnext := getNextLine_line (b := []) ha hl hmem nofun
      rw [List.append_nil] at hnext
      have hline : LinePositions.line (a ++ l) ⟨a.length, if ([] : ByteString) = [] then none else
          some (a.length + l.length)⟩ = ⟨a.length, l⟩ := line_eq (by simp)
      rw [if_pos rfl] at hline hnext
      rw [hnext]
      simp only []
      rw [hline]
      simp [hmem]
    · rw [getNextLine_none hmem]
      simp [hmem]
  | cons l c s hl hc ih =>
    have hended : Ended isBreak (a ++ (l ++ [c])) := by
      rw [← List.append_assoc]
      exact Ended.append hc
    have hsplit : code = (a ++ (l ++ [c])) ++ s := by rw [hcode]; simp
    have hlength : (a ++ (l ++ [c])).length = a.length + l.length + 1 := by simp; omega
    rw [List.length_append, List.length_cons] at hfuel
    rw [optionLines, lines_cons hl hc, List.filter_cons]
    by_cases hmem : percent ∈ l
    · obtain ⟨fuel, rfl⟩ : ∃ m, fuel = m + 1 := ⟨fuel - 1, by omega⟩
      have hnext := getNextLine_line (b := c :: s) ha hl hmem (by rintro d ⟨⟩; exact hc)
      rw [← hcode] at hnext
      have hvisit := ih hended hsplit fuel (by omega)
      rw [hlength] at hvisit
      rw [visit, hnext]
      simp only [if_neg (List.cons_ne_nil c s)]
      rw [hvisit, if_pos (by simpa using hmem)]
      have hline := line_eq (b := c :: s) hcode
      rw [if_neg (List.cons_ne_nil c s)] at hline
      rw [hline]
      rfl
    · have hvisit := ih hended hsplit fuel (by omega)
      rw [hlength] at hvisit
      rw [if_neg (by simpa using hmem), ← optionLines, ← hvisit]
      exact visit_congr (getNextLine_skip hcode hmem hc)

/-! ### The fold -/

/-- What the options of a line add to the map. -/
def entries (l : Line UInt8) : List (ByteString × ScriptOption) :=
  match parse l.text with
  | some (.ok parserResult) => parserResult.map fun option => (option.key, toScriptOption l.start option)
  | _ => []

def insertAll (result : OptionsMap) (es : List (ByteString × ScriptOption)) : OptionsMap :=
  es.foldl (fun result e => insertOption result e.1 e.2) result

def Accepted (l : Line UInt8) : Prop := ∃ os, parse l.text = some (.ok os)

/-- A line after the other, up to the first one that is rejected. -/
def foldLines (code : ByteString) : OptionsMap → List (Line UInt8) → Parsed
  | result, [] => ⟨result, none⟩
  | result, l :: ls =>
    match parse l.text with
    | some (.error what) => ⟨result, some (parserError (lineNumber code l.start) what)⟩
    | _ => foldLines code (insertAll result (entries l)) ls

theorem insertAll_append {result : OptionsMap} {es es' : List (ByteString × ScriptOption)} :
    insertAll result (es ++ es') = insertAll (insertAll result es) es' := List.foldl_append

theorem parse_cases (hne : l ≠ []) :
    (∃ os, parse l = some (.ok os)) ∨ ∃ what, parse l = some (.error what) := by
  rcases parse_splits l hne with ⟨es, rest, -, hparse⟩ | ⟨-, what, hparse⟩
  · exact .inl ⟨_, hparse⟩
  · exact .inr ⟨what, hparse⟩

/-- The loop folds over the lines that it would visit. -/
theorem parseLoop_eq {ls : List (Line UInt8)} {result : OptionsMap} (hvisit : visit code fuel n = some ls)
    (hne : ∀ x ∈ ls, x.text ≠ []) : parseLoop code fuel n result = some (foldLines code result ls) := by
  induction fuel generalizing n result ls with
  | zero => cases hvisit
  | succ fuel ih =>
    rw [visit] at hvisit
    rw [parseLoop]
    rcases hnext : getNextLine n code with _ | positions
    · rw [hnext] at hvisit
      cases hvisit
      rfl
    rw [hnext] at hvisit
    simp only [] at hvisit ⊢
    have hstart : (positions.line code).start = positions.startPos := rfl
    rcases hend : positions.endPos with _ | endPos
    · rw [hend] at hvisit
      cases hvisit
      rcases parse_cases (hne _ (List.mem_singleton_self _)) with ⟨os, hparse⟩ | ⟨what, hparse⟩
      · simp only [foldLines, hparse, entries, insertAll, insertOptions, List.foldl_map]
        rfl
      · simp only [foldLines, hparse]
        rfl
    · rw [hend] at hvisit
      obtain ⟨ls, hrest, rfl⟩ := Option.map_eq_some_iff.mp hvisit
      obtain ⟨hline, hrestNe⟩ := List.forall_mem_cons.mp hne
      rcases parse_cases hline with ⟨os, hparse⟩ | ⟨what, hparse⟩
      · simp only [foldLines, hparse]
        rw [ih hrest hrestNe]
        simp only [entries, hparse, insertAll, insertOptions, List.foldl_map]
        rfl
      · simp only [foldLines, hparse]
        rfl

theorem ne_nil_of_mem {x : Line UInt8} (hx : x ∈ optionLines n s) : x.text ≠ [] := by
  have hmem : percent ∈ x.text := by simpa using List.of_mem_filter hx
  exact List.ne_nil_of_mem hmem

/-- `parseOptions` is the fold over the lines with a `%`. -/
theorem parseOptions_eq (code : ByteString) (result : OptionsMap) :
    parseOptions code result = some (foldLines code result (optionLines 0 code)) :=
  parseLoop_eq (visit_lines (a := []) Ended.nil rfl (Nat.lt_succ_self _)) fun _ => ne_nil_of_mem

section Fold
variable {result : OptionsMap} {front back ls : List (Line UInt8)}

theorem foldLines_append (h : ∀ x ∈ front, Accepted x) :
    foldLines code result (front ++ back) = foldLines code (insertAll result (front.flatMap entries)) back := by
  induction front generalizing result with
  | nil => rfl
  | cons x front ih =>
    obtain ⟨⟨os, hparse⟩, hfront⟩ := List.forall_mem_cons.mp h
    rw [List.cons_append, foldLines, hparse, List.flatMap_cons, insertAll_append]
    exact ih hfront

theorem foldLines_accepted (h : ∀ x ∈ ls, Accepted x) :
    foldLines code result ls = ⟨insertAll result (ls.flatMap entries), none⟩ := by
  have happend : foldLines code result (ls ++ []) = foldLines code (insertAll result (ls.flatMap entries)) [] :=
    foldLines_append h
  rwa [List.append_nil] at happend

/-- All lines are accepted, or there is a first one that is not. -/
theorem lines_cases (hne : ∀ x ∈ ls, x.text ≠ []) : (∀ x ∈ ls, Accepted x) ∨
    ∃ front x back what, ls = front ++ x :: back ∧ (∀ y ∈ front, Accepted y) ∧
      parse x.text = some (.error what) := by
  induction ls with
  | nil => exact .inl nofun
  | cons x ls ih =>
    obtain ⟨hx, hls⟩ := List.forall_mem_cons.mp hne
    rcases parse_cases hx with haccepted | ⟨what, hparse⟩
    · rcases ih hls with hall | ⟨front, y, back, what, rfl, hfront, hparse⟩
      · exact .inl (List.forall_mem_cons.mpr ⟨haccepted, hall⟩)
      · exact .inr ⟨x :: front, y, back, what, rfl, List.forall_mem_cons.mpr ⟨haccepted, hfront⟩, hparse⟩
    · exact .inr ⟨[], x, ls, what, rfl, nofun, hparse⟩

theorem foldLines_rejected {x : Line UInt8} {what : ByteString} (hfront : ∀ y ∈ front, Accepted y)
    (hparse : parse x.text = some (.error what)) : foldLines code result (front ++ x :: back) =
      ⟨insertAll result (front.flatMap entries), some (parserError (lineNumber code x.start) what)⟩ := by
  rw [foldLines_append hfront, foldLines, hparse]

end Fold

/-! ### The map -/

/-- The list of a key with more options at its end. -/
def appendTo (found : Option (List ScriptOption)) : List ScriptOption → Option (List ScriptOption)
  | [] => found
  | os => some (found.getD [] ++ os)

def ofKey (k : ByteString) (es : List (ByteString × ScriptOption)) : List ScriptOption :=
  (es.filter (·.1 = k)).map Prod.snd

theorem insertOption_eq {result : OptionsMap} {key : ByteString} {entry : ScriptOption} :
    insertOption result key entry = Function.update result key (some ((result key).getD [] ++ [entry])) := by
  unfold insertOption
  cases result key <;> rfl

theorem insertAll_apply {result : OptionsMap} {es : List (ByteString × ScriptOption)} {k : ByteString} :
    insertAll result es k = appendTo (result k) (ofKey k es) := by
  induction es generalizing result with
  | nil => rfl
  | cons e es ih =>
    have hstep : insertAll result (e :: es) = insertAll (insertOption result e.1 e.2) es := rfl
    rw [hstep, ih, insertOption_eq]
    by_cases hk : e.1 = k
    · subst hk
      rw [Function.update_self, show ofKey e.1 (e :: es) = e.2 :: ofKey e.1 es by simp [ofKey]]
      rcases ofKey e.1 es with _ | ⟨o, os⟩
      · rfl
      · simp [appendTo]
    · rw [Function.update_of_ne (Ne.symm hk), show ofKey k (e :: es) = ofKey k es by simp [ofKey, hk]]

/-! ### The places -/

theorem column_update {sp : SourcePoint} {w : ByteString} (hw : SourcePoint.newline ∉ w) :
    (sp.update w).column = sp.column + UInt32.ofNat w.length := by
  induction w generalizing sp with
  | nil => simp [SourcePoint.update]
  | cons c w ih =>
    rw [List.mem_cons, not_or] at hw
    have hstep : sp.update (c :: w) = SourcePoint.update ⟨sp.line, sp.column + 1⟩ w := by
      rw [SourcePoint.update, List.foldl_cons, if_neg (Ne.symm hw.1)]
      rfl
    rw [hstep, ih hw.2, List.length_cons, UInt32.ofNat_add]
    grind

/-- The options of a line that begins at `start`, each at its own place. -/
def optionEntries (start : Nat) : List OptionText → List (ByteString × ScriptOption)
  | [] => []
  | e :: es => (e.key, {
      value := decode e.pieces
      idxInSource := UInt64.ofNat (start + e.lead.length)
      size := UInt64.ofNat (e.body.length + 1) }) :: optionEntries (start + e.text.length) es

theorem toScriptOption_eq {e : OptionText} {start : Nat} {w : ByteString}
    (hw : SourcePoint.newline ∉ w ++ e.text)
    (hlt : (w ++ e.text).length < 2 ^ 32) :
    toScriptOption start (e.option (SourcePoint.update {} w)) = {
      value := decode e.pieces
      idxInSource := UInt64.ofNat (start + w.length + e.lead.length)
      size := UInt64.ofNat (e.body.length + 1) } := by
  have hlead : SourcePoint.newline ∉ w ++ e.lead := by
    simp only [OptionText.text, List.mem_append, not_or] at hw ⊢
    exact ⟨hw.1, hw.2.1⟩
  have hbody : SourcePoint.newline ∉ w ++ (e.lead ++ e.body) := by
    simp only [OptionText.text, List.mem_append, not_or] at hw ⊢
    exact ⟨hw.1, hw.2.1, hw.2.2.1⟩
  simp only [OptionText.text, List.length_append, List.length_singleton] at hlt
  have hstart : (e.option (SourcePoint.update {} w)).start.column =
      UInt32.ofNat (1 + (w.length + e.lead.length)) := by
    show (SourcePoint.update (SourcePoint.update {} w) e.lead).column = _
    rw [← SourcePoint.update_append, column_update hlead, UInt32.ofNat_add, List.length_append]
    rfl
  have hfinish : (e.option (SourcePoint.update {} w)).finish.column =
      UInt32.ofNat (1 + (w.length + e.lead.length)) + UInt32.ofNat e.body.length := by
    show (SourcePoint.update (SourcePoint.update {} w) (e.lead ++ e.body)).column = _
    rw [← SourcePoint.update_append, column_update hbody]
    simp only [List.length_append, UInt32.ofNat_add]
    grind
  have hidx : (UInt32.ofNat (1 + (w.length + e.lead.length))).toUInt64 =
      UInt64.ofNat (1 + (w.length + e.lead.length)) :=
    UInt32.toUInt64_ofNat' (by rw [UInt32.size]; omega)
  have hsize : (UInt32.ofNat (e.body.length + 1)).toUInt64 = UInt64.ofNat (e.body.length + 1) :=
    UInt32.toUInt64_ofNat' (by rw [UInt32.size]; omega)
  rw [toScriptOption, hstart, hfinish, hidx, ← hsize]
  congr 1
  · simp only [UInt64.ofNat_add]
    grind
  · congr 1
    rw [UInt32.ofNat_add e.body.length]
    grind

theorem optionsOf_entries {es : List OptionText} {start : Nat} {w : ByteString}
    (hw : SourcePoint.newline ∉ w ++ texts es) (hlt : (w ++ texts es).length < 2 ^ 32) :
    (optionsOf (SourcePoint.update {} w) es).map (fun option => (option.key, toScriptOption start option)) =
      optionEntries (start + w.length) es := by
  induction es generalizing w with
  | nil => rfl
  | cons e es ih =>
    rw [texts_cons, ← List.append_assoc] at hw hlt
    have hfirst : SourcePoint.newline ∉ w ++ e.text := fun hmem => hw (List.mem_append_left _ hmem)
    have hentry : toScriptOption start (e.option (SourcePoint.update {} w)) = _ :=
      toScriptOption_eq hfirst (by rw [List.length_append] at hlt; omega)
    have hrest := ih hw hlt
    rw [SourcePoint.update_append, List.length_append, ← Nat.add_assoc] at hrest
    rw [optionsOf, List.map_cons, hentry, hrest]
    rfl

theorem parse_of_splits {es : List OptionText} {rest : ByteString} (hne : l ≠ []) (h : Splits l es rest) :
    parse l = some (.ok (optionsOf {} es)) := by
  rcases parse_splits l hne with ⟨es', rest', hsplits, hparse⟩ | ⟨hnone, -⟩
  · rwa [(hsplits.unique h).1] at hparse
  · exact absurd h (hnone es rest)

theorem exists_splits {x : Line UInt8} (hx : x ∈ optionLines n s) (h : Accepted x) :
    ∃ es rest, Splits x.text es rest := by
  obtain ⟨os, haccepted⟩ := h
  rcases parse_splits x.text (ne_nil_of_mem hx) with ⟨es, rest, hsplits, -⟩ | ⟨-, what, herror⟩
  · exact ⟨es, rest, hsplits⟩
  · cases haccepted.symm.trans herror

theorem plain_of_mem {x : Line UInt8} (hx : x ∈ optionLines n s) : Plain isBreak x.text := by
  obtain ⟨a, b, hline⟩ := isLine_of_mem (List.mem_of_mem_filter hx)
  exact hline.plain

/-- The places of a line's options, for a line that does not reach the end of the column's type. -/
theorem entries_eq {x : Line UInt8} {es : List OptionText} {rest : ByteString} (hx : x ∈ optionLines n s)
    (hlt : x.text.length < 2 ^ 32) (hsplits : Splits x.text es rest) :
    entries x = optionEntries x.start es := by
  have hparse := parse_of_splits (ne_nil_of_mem hx) hsplits
  have hnewline : SourcePoint.newline ∉ [] ++ texts es := by
    intro hmem
    refine absurd (plain_of_mem hx _ ?_) (show ¬isBreak SourcePoint.newline = false by decide)
    rw [hsplits.1]
    exact List.mem_append_left _ hmem
  have hlength : ([] ++ texts es).length < 2 ^ 32 := by
    rw [hsplits.1, List.length_append] at hlt
    rw [List.nil_append]
    omega
  rw [entries, hparse]
  exact optionsOf_entries hnewline hlength

/-! ### Two codes -/

def ScriptOption.shift (n : Nat) (o : ScriptOption) : ScriptOption :=
  { o with idxInSource := o.idxInSource + UInt64.ofNat n }

theorem entries_shift {x : Line UInt8} {m : Nat} :
    entries (x.shift m) = (entries x).map fun e => (e.1, e.2.shift m) := by
  unfold entries
  rw [Line.shift_text]
  rcases parse x.text with _ | (what | os)
  · rfl
  · rfl
  · simp only [List.map_map]
    refine List.map_congr_left fun o _ => ?_
    simp only [Function.comp, toScriptOption, ScriptOption.shift, Line.shift_start, UInt64.ofNat_add]
    congr 2
    grind

theorem ofKey_shift {k : ByteString} {es : List (ByteString × ScriptOption)} {m : Nat} :
    ofKey k (es.map fun e => (e.1, e.2.shift m)) = (ofKey k es).map (ScriptOption.shift m) := by
  simp only [ofKey, List.filter_map, List.map_map]
  rfl

theorem optionLines_append {code' : ByteString} (hc : isBreak c = true) :
    optionLines n (code ++ c :: code') = optionLines n code ++ optionLines (n + code.length + 1) code' := by
  rw [optionLines, lines_break hc, List.filter_append]
  rfl

theorem optionLines_shift {m : Nat} : optionLines (n + m) code = (optionLines n code).map (Line.shift m) := by
  rw [optionLines, lines_shift, List.filter_map]
  rfl

theorem lineNumber_front {code' : ByteString} (h : n ≤ code.length) :
    lineNumber (code ++ code') n = lineNumber code n := by
  rw [lineNumber, lineNumber, List.take_append_of_le_length h]

theorem lineNumber_back {code' : ByteString} :
    lineNumber (code ++ 10 :: code') (n + (code.length + 1)) = code.count 10 + 1 + lineNumber code' n := by
  have hsplit : code ++ 10 :: code' = (code ++ [10]) ++ code' := by simp
  have hlength : n + (code.length + 1) = (code ++ [10]).length + n := by simp; omega
  rw [lineNumber, lineNumber, hsplit, hlength, List.take_length_add_append, List.count_append,
    List.count_append]
  rfl

theorem finish_le {x : Line UInt8} (hx : x ∈ optionLines 0 code) : x.finish ≤ code.length := by
  obtain ⟨a, b, hline⟩ := mem_lines_iff.mp (List.mem_of_mem_filter hx)
  have hlength := congrArg List.length hline.eq
  simp only [List.length_append, ← hline.start_eq] at hlength
  show x.start + x.text.length ≤ code.length
  omega

section TwoCodes
variable {code' : ByteString} {result : OptionsMap} {ls : List (Line UInt8)}

/-- What the second of two codes adds to the options of the first. -/
structure Adds (parsed parsed' joined : Parsed) (length lineEnds : Nat) : Prop where
  result_eq : ∀ k, joined.result k =
    appendTo (parsed.result k) (((parsed'.result k).getD []).map (ScriptOption.shift length))
  error_eq : joined.error = none ∧ parsed'.error = none ∨ ∃ lineNumber what,
    parsed'.error = some (parserError lineNumber what) ∧
      joined.error = some (parserError (lineEnds + lineNumber) what)

theorem appendTo_none {os : List ScriptOption} : (appendTo none os).getD [] = os := by cases os <;> rfl

theorem insertAll_shift {es : List (ByteString × ScriptOption)} {m : Nat} {k : ByteString} :
    insertAll result (es.map fun e => (e.1, e.2.shift m)) k =
      appendTo (result k) (((insertAll (fun _ => none) es k).getD []).map (ScriptOption.shift m)) := by
  rw [insertAll_apply, insertAll_apply, ofKey_shift, appendTo_none]

theorem flatMap_shift {m : Nat} :
    (ls.map (Line.shift m)).flatMap entries = (ls.flatMap entries).map fun e => (e.1, e.2.shift m) := by
  rw [List.flatMap_map, List.map_flatMap]
  exact congrArg ls.flatMap (funext fun x => entries_shift)

theorem foldLines_shift {m d : Nat} (hne : ∀ x ∈ ls, x.text ≠ [])
    (h : ∀ x ∈ ls, lineNumber code (x.start + m) = d + lineNumber code' x.start) :
    Adds ⟨result, none⟩ (foldLines code' (fun _ => none) ls)
      (foldLines code result (ls.map (Line.shift m))) m d := by
  have haccepted : ∀ {ls : List (Line UInt8)}, (∀ x ∈ ls, Accepted x) →
      ∀ x ∈ ls.map (Line.shift m), Accepted x :=
    fun hall => List.forall_mem_map.mpr hall
  rcases lines_cases hne with hall | ⟨front, x, back, what, rfl, hfront, hparse⟩
  · rw [foldLines_accepted hall, foldLines_accepted (haccepted hall), flatMap_shift]
    exact ⟨fun k => insertAll_shift, .inl ⟨rfl, rfl⟩⟩
  · rw [foldLines_rejected hfront hparse, List.map_append, List.map_cons,
      foldLines_rejected (x := x.shift m) (haccepted hfront) hparse, flatMap_shift,
      Line.shift_start, h x (by simp)]
    exact ⟨fun k => insertAll_shift, .inr ⟨_, what, rfl, rfl⟩⟩

/-- The options of a code and then those of another one after it, unless the first is rejected. -/
theorem parseOptions_append (code code' : ByteString) (result : OptionsMap) : ∃ parsed parsed' joined,
    parseOptions code result = some parsed ∧ parseOptions code' (fun _ => none) = some parsed' ∧
    parseOptions (code ++ 10 :: code') result = some joined ∧
    (parsed.error ≠ none → joined = parsed) ∧
    (parsed.error = none → Adds parsed parsed' joined (code.length + 1) (code.count 10 + 1)) := by
  refine ⟨_, _, _, parseOptions_eq code result, parseOptions_eq code' _, parseOptions_eq _ _, ?_⟩
  rw [optionLines_append (by decide), Nat.add_assoc, optionLines_shift]
  have hne : ∀ x ∈ optionLines 0 code, x.text ≠ [] := fun x => ne_nil_of_mem
  rcases lines_cases hne with
    hall | ⟨front, x, back, what, heq, hfront, hparse⟩
  · rw [foldLines_accepted hall, foldLines_append hall]
    exact ⟨fun herror => absurd rfl herror, fun _ => foldLines_shift (fun x hx => ne_nil_of_mem hx)
      fun x _ => lineNumber_back⟩
  · rw [heq, List.append_assoc, List.cons_append, foldLines_rejected hfront hparse,
      foldLines_rejected hfront hparse,
      lineNumber_front]
    · exact ⟨fun _ => rfl, nofun⟩
    · have := finish_le (x := x) (by rw [heq]; simp)
      unfold Line.finish at this
      omega

end TwoCodes

/-! ### A code of one line -/

theorem optionLines_single (hl : Plain isBreak l) (hmem : percent ∈ l) : optionLines n l = [⟨n, l⟩] := by
  rw [optionLines, lines_plain hl]
  simp [hmem]

theorem parseOptions_single {e : OptionText} {rest : ByteString} (hl : Plain isBreak l) (hmem : percent ∈ l)
    (hsplits : Splits l [e] rest) : parseOptions l (fun _ => none) =
      some ⟨Function.update (fun _ => none) e.key (some [toScriptOption 0 (e.option {})]), none⟩ := by
  have hparse := parse_of_splits (List.ne_nil_of_mem hmem) hsplits
  have haccepted : ∀ x ∈ [Line.mk 0 l], Accepted x := by
    intro x hx
    rw [List.mem_singleton.mp hx]
    exact ⟨_, hparse⟩
  have hentries : entries ⟨0, l⟩ = [(e.key, toScriptOption 0 (e.option {}))] := by
    rw [entries, hparse]
    rfl
  rw [parseOptions_eq, optionLines_single hl hmem, foldLines_accepted haccepted,
    List.flatMap_singleton, hentries,
    insertAll, List.foldl_cons, List.foldl_nil, insertOption_eq]
  rfl

end

/-! ### A wide line -/

/-- An option after `n` spaces. -/
def wideOption (n : Nat) : OptionText where
  lead := List.replicate n 32
  key := str "k"
  gap := str " "
  value := str "v"
  pieces := [.char 118]
  lead_ws := fun c hc => List.eq_of_mem_replicate hc ▸ by decide
  key_ne := by decide
  key_alphaNumeric := by decide
  gap_ne := by decide
  gap_ws := by decide
  value_ne := by decide
  value_head := by rintro c ⟨⟩; decide
  value_read := by decide

theorem splits_wideOption {n : Nat} : Splits (wideOption n).text [wideOption n] [] := by
  refine ⟨?_, by decide⟩
  rw [texts_cons, List.append_nil]
  exact (List.append_nil _).symm

theorem mem_wideOption {n : Nat} {c : UInt8} (hc : c ∈ (wideOption n).text) : c = 32 ∨ c ∈ str "%k v;" := by
  rcases List.mem_append.mp hc with hc | hc
  · exact .inl (List.eq_of_mem_replicate hc)
  · exact .inr hc

theorem wideOption_plain {n : Nat} : Plain isBreak (wideOption n).text := by
  intro c hc
  rcases mem_wideOption hc with rfl | hc
  · rfl
  · exact (show ∀ c ∈ str "%k v;", isBreak c = false by decide) c hc

theorem percent_mem_text {e : OptionText} : percent ∈ e.text := List.mem_append_right _ (List.mem_cons_self ..)

/-- The column of the option has 32 bits. -/
theorem idx_wideOption {n : Nat} :
    (toScriptOption 0 ((wideOption n).option {})).idxInSource = (1 + UInt32.ofNat n).toUInt64 - 1 := by
  have hnewline : SourcePoint.newline ∉ List.replicate n (32 : UInt8) :=
    fun hmem => absurd (List.eq_of_mem_replicate hmem) (by decide)
  have hcolumn : (SourcePoint.update {} (List.replicate n 32)).column = _ := column_update hnewline
  rw [List.length_replicate] at hcolumn
  show 0 + (SourcePoint.update {} (List.replicate n 32)).column.toUInt64 - 1 = _
  rw [hcolumn]
  grind

end CtpgParser

open CtpgParser OptionParser

/-- `parseOptions` goes over the lines with a `%` and over no other. -/
theorem parseOptions_fold (code : ByteString) (result : OptionsMap) :
    visit code (code.length + 1) 0 = some (optionLines 0 code) ∧
    (∀ x, x ∈ optionLines 0 code ↔ percent ∈ x.text ∧ ∃ a b, IsLine isBreak code x a b) ∧
    (optionLines 0 code).Pairwise (fun x y => x.finish < y.start) ∧
    (∃ parsed, parseOptions code result = some parsed ∧
      (parsed.error ≠ none ↔ ∃ x ∈ optionLines 0 code, ∃ what, parse x.text = some (.error what)) ∧
      (parsed.error = none → ∀ k,
        parsed.result k = appendTo (result k) (ofKey k ((optionLines 0 code).flatMap entries)))) ∧
    (∀ x ∈ optionLines 0 code, x.text.length < 2 ^ 32 → ∀ es rest, Splits x.text es rest →
      entries x = optionEntries x.start es) ∧
    ∀ code', ∃ parsed parsed' joined, parseOptions code result = some parsed ∧
      parseOptions code' (fun _ => none) = some parsed' ∧
        parseOptions (code ++ 10 :: code') result = some joined ∧
      (parsed.error ≠ none → joined = parsed) ∧
      (parsed.error = none → Adds parsed parsed' joined (code.length + 1) (code.count 10 + 1)) := by
  have hmem : ∀ x, x ∈ optionLines 0 code ↔ percent ∈ x.text ∧ ∃ a b, IsLine isBreak code x a b := by
    intro x
    rw [optionLines, List.mem_filter, mem_lines_iff, decide_eq_true_iff]
    exact and_comm
  refine ⟨visit_lines Ended.nil rfl (Nat.lt_succ_self _), hmem, lines_pairwise.filter _,
    ⟨_, parseOptions_eq code result, ?_⟩, fun x hx hlt es rest hsplits => entries_eq hx hlt hsplits,
    fun code' => parseOptions_append code code' result⟩
  have hne : ∀ x ∈ optionLines 0 code, x.text ≠ [] := fun x => ne_nil_of_mem
  rcases lines_cases hne with hall | ⟨front, x, back, what, heq, hfront, hparse⟩
  · rw [foldLines_accepted hall]
    refine ⟨⟨fun h => absurd rfl h, ?_⟩, fun _ k => insertAll_apply⟩
    rintro ⟨x, hx, what, hparse⟩
    obtain ⟨os, haccepted⟩ := hall x hx
    cases haccepted.symm.trans hparse
  · rw [heq, foldLines_rejected hfront hparse]
    exact ⟨⟨fun _ => ⟨x, by simp, what, hparse⟩, fun _ => nofun⟩, nofun⟩

/-- After 2^32 spaces an option is said to be at the beginning of the code. -/
theorem parseOptions_fold_wide : ¬∀ (code : ByteString) (result : OptionsMap) (parsed : Parsed)
    (options : Line UInt8 → List OptionText), parseOptions code result = some parsed → parsed.error = none →
    (∀ x ∈ optionLines 0 code, ∃ rest, Splits x.text (options x) rest) →
    ∀ k, parsed.result k = appendTo (result k)
      (ofKey k ((optionLines 0 code).flatMap fun x => optionEntries x.start (options x))) := by
  intro h
  have hwide : ∀ n, (1 + UInt32.ofNat n).toUInt64 - 1 = UInt64.ofNat n := by
    intro n
    have hlines := optionLines_single (n := 0) (wideOption_plain (n := n)) percent_mem_text
    have hmap := h (wideOption n).text (fun _ => none) _ (fun _ => [wideOption n])
      (parseOptions_single wideOption_plain percent_mem_text splits_wideOption) rfl (by
        intro x hx
        rw [hlines, List.mem_singleton] at hx
        exact ⟨[], hx ▸ splits_wideOption⟩) (str "k")
    rw [hlines, List.flatMap_singleton] at hmap
    have hentry := (List.cons.inj (Option.some.inj hmap)).1
    have hidx := congrArg ScriptOption.idxInSource hentry
    rw [idx_wideOption] at hidx
    rw [hidx]
    show UInt64.ofNat (0 + (List.replicate n (32 : UInt8)).length) = _
    rw [List.length_replicate, Nat.zero_add]
  exact absurd (hwide (2 ^ 32)) (by decide)

end UdfRunner
