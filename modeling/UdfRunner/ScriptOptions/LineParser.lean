import UdfRunner.ScriptOptions.OptionSteps

/-!
# The parser of a line, option by option

`ends_rest`, `ends_value`, `ends_option` say how the parser gets through the pieces of a line, and
`line_cases` what becomes of the line.
-/

namespace UdfRunner
namespace OptionParser
open Ctpg

/-! ### Between options -/

/-- The state between two options, what is below it and the value of the options before: no option
yet, or some. -/
def top : Option (List LineOption) → Nat
  | none => 0
  | some _ => 3

def below : Option (List LineOption) → List Nat
  | none => []
  | some _ => [0]

def values : Option (List LineOption) → List OptionNode
  | none => []
  | some os => [.options os]

def restState : Option (List LineOption) → Nat
  | none => 2
  | some _ => 11

/-- Where a term of the rest leads. -/
def restShift (t : Nat) : Nat := [16, 17, 18, 14, 15, 12, 13].getD t 0

theorem entry_rest : ∀ t < 7, ∀ q ∈ [2, 11], (entry q t).kind = .shift ∧
    (entry q t).shift = some (restShift t) := by
  decide

theorem entry_restShift : ∀ t < 7, ∀ t' < 8, entry (restShift t) t' = reduceBy (restShift t + 11) := by decide

theorem ruleInfos_rest : ∀ t < 7, ruleInfos[restShift t + 11]? = some ⟨4, restShift t + 11, 2⟩ := by decide

theorem reductor_rest {k : Nat} (hk : 17 ≤ k) (hlt : k < 30) (args : List OptionNode) :
    optionParser.reductor k args = some .rest := by
  interval_cases k <;> rfl

section
variable {os : Option (List LineOption)} {sp : SourcePoint} {s : ByteString}

theorem goto_rest : goto (top os) 4 = some (restState os) := by cases os <;> rfl

theorem restState_mem : restState os ∈ [2, 11] := by cases os <;> simp [restState]

theorem ends_accept {l : List LineOption} :
    optionParser.Ends 1 (parsing [1, 0] [.options l] sp []) (· = .value (.options l)) :=
  .last (Parser.step_success sees_nil (by rw [entry_eq]; decide) rfl) rfl

theorem ends_text :
    optionParser.Ends 2 (parsing (restState os :: top os :: below os) (.rest :: values os) sp [])
    (· = .value (.options (os.getD []))) := by
  cases os with
  | none => exact ends_reduce sees_nil (k := 0) (by decide) rfl rfl (by decide) rfl ends_accept
  | some l => exact ends_reduce sees_nil (q := 11) (k := 1) (by decide) rfl rfl (by decide) rfl ends_accept

theorem ends_rest (s : ByteString) :
    optionParser.Ends (2 * s.length + 2)
      (parsing (restState os :: top os :: below os) (.rest :: values os) sp s)
      (· = .value (.options (os.getD []))) := by
  induction hn : s.length using Nat.strong_induction_on generalizing s sp with
  | _ n ih =>
    by_cases hs : s = []
    · subst hs
      exact ends_text.mono (by omega)
    · obtain ⟨w, s', t, rfl, hw, ht, hlexes⟩ := exists_lexes hs
      have hpos : 0 < w.length := List.length_pos_iff.mpr hw
      rw [List.length_append] at hn
      have hrest := @ih s'.length (by omega) (sp.update w) s' rfl
      have hk : 17 ≤ restShift t + 11 ∧ restShift t + 11 < 30 :=
        (show ∀ t < 7, 17 ≤ restShift t + 11 ∧ restShift t + 11 < 30 by decide) t ht
      refine (ends_shift hw hlexes (entry_rest t ht _ restState_mem) ?_).mono
        (b := 2 * s'.length + 4) (by omega)
      exact ends_reduce_any (entry_restShift t ht) (ruleInfos_rest t ht) rfl goto_rest
        (reductor_rest hk.1 hk.2 _) hrest

end

/-! ### Values -/

/-- The states before and inside the value of an option, without and with whitespace before the option. -/
def valueStart (lead : Bool) : Nat := if lead then 26 else 23
def valueState (lead : Bool) : Nat := if lead then 32 else 25

/-- Where a term of a value leads, at its beginning and later. -/
def beginShift (t : Nat) : Nat := [0, 30, 29, 0, 0, 27, 28].getD t 0
def appendShift (t : Nat) : Nat := [36, 35, 34, 38, 0, 37, 33].getD t 0

def beginTerms : List Nat := [1, 2, 5, 6]
def appendTerms : List Nat := [0, 1, 2, 3, 5, 6]

/-- `w` is a term of a value that reads as `ps`. -/
structure ValueToken (w s : ByteString) (t : Nat) (ps : List Piece) : Prop where
  ne : w ≠ []
  term : t ∈ appendTerms
  lexes : Lexes w s t
  reads : readValue (w ++ s) = (readValue s).map fun r => (ps ++ r.1, r.2)
  pieces_ne : ps ≠ []
  appends : ∀ v sp, optionParser.reductor (appendShift t - 22) [.string v, .term w sp] =
    some (.string (v ++ ps.flatMap Piece.decodeLater))
  begins : t ∈ beginTerms → ∀ sp,
    optionParser.reductor (beginShift t - 20) [.term w sp] = some (.string (decode ps))
  head : t ∈ beginTerms ↔ Stops (percent :: whitespaceChars) w

theorem readValue_run {w s : ByteString} (hw : ∀ c ∈ w, c ≠ semicolon ∧ c ≠ backslash) :
    readValue (w ++ s) = (readValue s).map fun r => (w.map Piece.char ++ r.1, r.2) := by
  induction w with
  | nil => simp
  | cons c w ih =>
    obtain ⟨hc, hw⟩ := List.forall_mem_cons.mp hw
    have hsingle : Single c (w ++ s) := ⟨hc.1, fun hb => absurd hb hc.2⟩
    rw [List.cons_append, readValue_char hsingle, ih hw, Option.map_map]
    rfl

theorem decodeLater_run (w : ByteString) : (w.map Piece.char).flatMap Piece.decodeLater = w := by
  induction w with
  | nil => rfl
  | cons c w ih => rw [List.map_cons, List.flatMap_cons, ih]; rfl

theorem decode_run (w : ByteString) : decode (w.map Piece.char) = w := by
  cases w with
  | nil => rfl
  | cons c w => rw [List.map_cons, decode, decodeLater_run]; rfl

theorem decode_append {ps ps' : List Piece} (hps : ps ≠ []) :
    decode (ps ++ ps') = decode ps ++ ps'.flatMap Piece.decodeLater := by
  obtain ⟨p, ps, rfl⟩ := List.exists_cons_of_ne_nil hps
  rw [List.cons_append, decode, decode, List.flatMap_append, List.append_assoc]

theorem valueToken_chars {w s : ByteString} {t : Nat} (hne : w ≠ [])
    (hreads : readValue (w ++ s) = (readValue s).map fun r => (w.map Piece.char ++ r.1, r.2))
    (hlexes : Lexes w s t) (hterm : t ∈ [3, 5, 6]) (hhead : t ≠ 3 ↔ Stops (percent :: whitespaceChars) w) :
    ValueToken w s t (w.map Piece.char) where
  ne := hne
  term := (show ∀ t ∈ [3, 5, 6], t ∈ appendTerms by decide) t hterm
  lexes := hlexes
  reads := hreads
  pieces_ne := by simpa using hne
  appends v sp := by
    rw [decodeLater_run]
    rcases (show t = 3 ∨ t = 5 ∨ t = 6 by simpa using hterm) with rfl | rfl | rfl <;> rfl
  begins hbegin sp := by
    rw [decode_run]
    rcases (show t = 3 ∨ t = 5 ∨ t = 6 by simpa using hterm) with rfl | rfl | rfl
    · exact absurd hbegin (by decide)
    · rfl
    · rfl
  head := ((show ∀ t ∈ [3, 5, 6], t ∈ beginTerms ↔ t ≠ 3 by decide) t hterm).trans hhead

theorem convertEscapeSeq_pair : ∀ d ∈ escapeChars,
    convertEscapeSeq [backslash, d] = some [unescape d] ∧ (Piece.pair d).decodeLater = [unescape d] := by decide

theorem convertWhitespaceEscapeSeq_pair : ∀ d ∈ whitespaceEscapeChars,
    convertWhitespaceEscapeSeq [backslash, d] = some [unescape d] ∧
      (Piece.pair d).decodeLater = [backslash, d] := by decide

theorem valueToken_pair {d : UInt8} {s : ByteString} {t : Nat}
    (hd : d ∈ escapeChars ∧ t = 1 ∨ d ∈ whitespaceEscapeChars ∧ t = 2) :
    ValueToken [backslash, d] s t [.pair d] where
  ne := List.cons_ne_nil _ _
  term := by rcases hd with ⟨-, rfl⟩ | ⟨-, rfl⟩ <;> decide
  lexes := by
    rcases hd with ⟨hd, rfl⟩ | ⟨hd, rfl⟩
    · exact lexes_escapeSeq s hd
    · exact lexes_whitespaceEscapeSeq s hd
  reads := readValue_pair ⟨rfl, hd.imp And.left And.left⟩
  pieces_ne := List.cons_ne_nil _ _
  appends v sp := by
    rw [List.flatMap_singleton]
    rcases hd with ⟨hd, rfl⟩ | ⟨hd, rfl⟩
    · obtain ⟨hconvert, hlater⟩ := convertEscapeSeq_pair d hd
      show ((convertEscapeSeq [backslash, d]).map fun x => OptionNode.string (v ++ x)) = _
      rw [hconvert, hlater]
      rfl
    · rw [(convertWhitespaceEscapeSeq_pair d hd).2]
      rfl
  begins _ sp := by
    rcases hd with ⟨hd, rfl⟩ | ⟨hd, rfl⟩
    · show (convertEscapeSeq [backslash, d]).map OptionNode.string = _
      rw [(convertEscapeSeq_pair d hd).1]
      rfl
    · show (convertWhitespaceEscapeSeq [backslash, d]).map OptionNode.string = _
      rw [(convertWhitespaceEscapeSeq_pair d hd).1]
      rfl
  head := by
    have hbegin : t ∈ beginTerms := by rcases hd with ⟨-, rfl⟩ | ⟨-, rfl⟩ <;> decide
    exact iff_of_true hbegin (stops_cons (by decide))

theorem valueToken_percent {s : ByteString} : ValueToken [percent] s 0 [.char percent] where
  ne := List.cons_ne_nil _ _
  term := by decide
  lexes := lexes_char (c := percent) (by decide) (by decide) fun h => absurd h (by decide)
  reads := readValue_run (w := [percent]) (by decide)
  pieces_ne := List.cons_ne_nil _ _
  appends v sp := rfl
  begins hbegin sp := absurd hbegin (by decide)
  head := iff_of_false (by decide) fun h => h percent rfl (List.mem_cons_self ..)

theorem value_cases (s : ByteString) : s = [] ∨ (∃ s', s = semicolon :: s') ∨
    ∃ w s' t ps, s = w ++ s' ∧ ValueToken w s' t ps := by
  refine token_cases (P := fun s => s = [] ∨ (∃ s', s = semicolon :: s') ∨
    ∃ w s' t ps, s = w ++ s' ∧ ValueToken w s' t ps) (.inl rfl) ?_ ?_ ?_ ?_ ?_ s
  · intro w s hne hw hs
    refine .inr (.inr ⟨w, s, 3, _, rfl, valueToken_chars hne (readValue_run fun c hc =>
      (ne_of_whitespace (hw c hc)).2)
      (lexes_whitespaces hne hw hs) (by decide) (iff_of_false (fun h => h rfl) fun h => ?_)⟩)
    obtain ⟨c, w, rfl⟩ := List.exists_cons_of_ne_nil hne
    exact h c rfl (List.mem_cons_of_mem _ (hw c (List.mem_cons_self ..)))
  · intro w s hne hw hs
    refine .inr (.inr ⟨w, s, 5, _, rfl, valueToken_chars hne (readValue_run fun c hc =>
      (ne_of_alphaNumeric (hw c hc)).2)
      (lexes_alphaNumeric hne hw hs) (by decide) (iff_of_true (by decide) ?_)⟩)
    obtain ⟨c, w, rfl⟩ := List.exists_cons_of_ne_nil hne
    have hc := hw c (List.mem_cons_self ..)
    refine stops_cons fun hmem => ?_
    rcases List.mem_cons.mp hmem with hp | hws
    · exact (ne_of_alphaNumeric hc).1 hp
    · exact not_alphaNumeric_of_whitespace hws hc
  · exact fun d s hd => .inr (.inr ⟨_, s, 1, _, rfl, valueToken_pair (.inl ⟨hd, rfl⟩)⟩)
  · exact fun d s hd => .inr (.inr ⟨_, s, 2, _, rfl, valueToken_pair (.inr ⟨hd, rfl⟩)⟩)
  · intro c s hws han hb
    by_cases hsemi : c = semicolon
    · exact .inr (.inl ⟨s, by rw [hsemi]; rfl⟩)
    by_cases hpercent : c = percent
    · subst hpercent
      exact .inr (.inr ⟨[percent], s, 0, _, rfl, valueToken_percent⟩)
    · have hlexes := lexes_char hws han hb
      rw [if_neg hpercent, if_neg hsemi] at hlexes
      exact .inr (.inr ⟨[c], s, 6, _, rfl,
        valueToken_chars (List.cons_ne_nil _ _) (readValue_char ⟨hsemi, hb⟩) hlexes
        (by decide) (iff_of_true (by decide) (stops_cons (by simp [hpercent, hws])))⟩)

section
variable {lead : Bool} {cs : List Nat} {vs : List OptionNode} {v : ByteString} {sp : SourcePoint}
    {s : ByteString}
  {b : Nat} {R : ParseResult OptionNode → Prop} {w : ByteString} {t : Nat} {ps : List Piece}

theorem entry_append : ∀ t ∈ appendTerms, ∀ lead, (entry (valueState lead) t).kind = .shift ∧
    (entry (valueState lead) t).shift = some (appendShift t) := by decide

theorem entry_appendShift : ∀ t ∈ appendTerms,
    (∀ t' < 7, entry (appendShift t) t' = reduceBy (appendShift t - 26)) ∧
    (entry (appendShift t) 7).kind = .error := by decide

theorem ruleInfos_append : ∀ t ∈ appendTerms,
    ruleInfos[appendShift t - 26]? = some ⟨1, appendShift t - 22, 2⟩ := by decide

theorem goto_value : ∀ lead, goto (valueStart lead) 1 = some (valueState lead) := by decide

theorem entry_value : ∀ lead, (entry (valueState lead) 7).kind = .error := by decide

abbrev inValue (lead : Bool) (cs : List Nat) (vs : List OptionNode) (v : ByteString) :
    SourcePoint → ByteString → ParseState OptionNode :=
  parsing (valueState lead :: valueStart lead :: cs) (.string v :: vs)

theorem ends_append (hw : ValueToken w s t ps) (hs : s ≠ [])
    (hrest : optionParser.Ends b (inValue lead cs vs (v ++ ps.flatMap Piece.decodeLater) (sp.update w) s) R) :
    optionParser.Ends (b + 2) (inValue lead cs vs v sp (w ++ s)) R := by
  obtain ⟨w', s', t', rfl, hw', ht', hlexes⟩ := exists_lexes hs
  refine ends_shift hw.ne hw.lexes (entry_append t hw.term lead) ?_
  exact ends_reduce (sees_of_lexes hw' hlexes) ((entry_appendShift t hw.term).1 t' ht')
    (ruleInfos_append t hw.term)
    rfl (goto_value lead) (hw.appends v sp) hrest

theorem ends_value (hread : readValue (w ++ semicolon :: s) = some (ps, s))
    (hrest : optionParser.Ends b (inValue lead cs vs (v ++ ps.flatMap Piece.decodeLater) (sp.update w)
      (semicolon :: s)) R) :
    optionParser.Ends (b + 2 * w.length) (inValue lead cs vs v sp (w ++ semicolon :: s)) R := by
  induction hn : w.length using Nat.strong_induction_on generalizing w ps v sp with
  | _ n ih =>
    rcases value_cases (w ++ semicolon :: s) with hnil | ⟨s', heq⟩ | ⟨w₁, s', t, ps₁, heq, hw₁⟩
    · exact absurd hnil (by simp)
    · rw [heq, readValue_semicolon] at hread
      cases hread
      have hw : w = [] := by
        have := congrArg List.length heq
        rw [List.length_append] at this
        exact List.eq_nil_of_length_eq_zero (by omega)
      subst hw
      rw [List.flatMap_nil, List.append_nil] at hrest
      exact hrest.mono (by omega)
    · rw [heq, hw₁.reads] at hread
      obtain ⟨⟨ps', r⟩, hs', hps⟩ := Option.map_eq_some_iff.mp hread
      cases hps
      obtain ⟨w', rfl, hw'⟩ := readValue_eq_some _ hs'
      obtain rfl : w = w₁ ++ w' := List.append_cancel_right (heq.trans (List.append_assoc ..).symm)
      have hpos : 0 < w₁.length := List.length_pos_iff.mpr hw₁.ne
      rw [List.length_append] at hn
      rw [List.append_assoc]
      rw [List.flatMap_append, ← List.append_assoc, SourcePoint.update_append] at hrest
      exact (ends_append hw₁ (by simp) (ih w'.length (by omega) hs' hrest rfl)).mono (by omega)

theorem value_rejected (hread : readValue s = none) :
    optionParser.Ends (2 * s.length + cs.length + 4) (inValue lead cs vs v sp s) Rejected := by
  induction hn : s.length using Nat.strong_induction_on generalizing s v sp with
  | _ n ih =>
    rcases value_cases s with rfl | ⟨s', rfl⟩ | ⟨w, s', t, ps, rfl, hw⟩
    · refine (ends_rejected sees_nil (entry_value lead)).mono ?_
      simp only [List.length_cons]
      omega
    · rw [readValue_semicolon] at hread
      cases hread
    · have hpos : 0 < w.length := List.length_pos_iff.mpr hw.ne
      rw [List.length_append] at hn
      by_cases hs' : s' = []
      · subst hs'
        refine (ends_shift hw.ne hw.lexes (entry_append t hw.term lead) (ends_rejected sees_nil
          (entry_appendShift t hw.term).2)).mono ?_
        simp only [List.length_cons]
        omega
      · rw [hw.reads, Option.map_eq_none_iff] at hread
        exact (ends_append hw hs' (ih s'.length (by omega) hread rfl)).mono (by omega)

theorem entry_begin : ∀ t ∈ beginTerms, ∀ lead, (entry (valueStart lead) t).kind = .shift ∧
    (entry (valueStart lead) t).shift = some (beginShift t) := by decide

theorem entry_beginShift : ∀ t ∈ beginTerms,
    (∀ t' < 7, entry (beginShift t) t' = reduceBy (beginShift t - 24)) ∧
    (entry (beginShift t) 7).kind = .error := by decide

theorem ruleInfos_begin : ∀ t ∈ beginTerms,
    ruleInfos[beginShift t - 24]? = some ⟨1, beginShift t - 20, 1⟩ := by decide

theorem entry_valueStart : ∀ t < 8, t ∉ beginTerms → ∀ lead,
    (entry (valueStart lead) t).kind = .error := by decide

theorem ends_begin (hw : ValueToken w s t ps) (ht : t ∈ beginTerms) (hs : s ≠ [])
    (hrest : optionParser.Ends b (inValue lead cs vs (decode ps) (sp.update w) s) R) :
    optionParser.Ends (b + 2) (parsing (valueStart lead :: cs) vs sp (w ++ s)) R := by
  obtain ⟨w', s', t', rfl, hw', ht', hlexes⟩ := exists_lexes hs
  refine ends_shift hw.ne hw.lexes (entry_begin t ht lead) ?_
  exact ends_reduce (sees_of_lexes hw' hlexes) ((entry_beginShift t ht).1 t' ht') (ruleInfos_begin t ht)
    rfl (goto_value lead) (hw.begins ht sp) hrest

theorem ends_valueStart (hne : w ≠ []) (hhead : Stops (percent :: whitespaceChars) w)
    (hread : readValue (w ++ semicolon :: s) = some (ps, s))
    (hrest : optionParser.Ends b (inValue lead cs vs (decode ps) (sp.update w) (semicolon :: s)) R) :
    optionParser.Ends (b + 2 * w.length) (parsing (valueStart lead :: cs) vs sp (w ++ semicolon :: s)) R := by
  rcases value_cases (w ++ semicolon :: s) with hnil | ⟨s', heq⟩ | ⟨w₁, s', t, ps₁, heq, hw₁⟩
  · exact absurd hnil (by simp)
  · rw [heq, readValue_semicolon] at hread
    cases hread
    have := congrArg List.length heq
    rw [List.length_append] at this
    exact absurd (List.eq_nil_of_length_eq_zero (by omega)) hne
  · rw [heq, hw₁.reads] at hread
    obtain ⟨⟨ps', r⟩, hs', hps⟩ := Option.map_eq_some_iff.mp hread
    cases hps
    obtain ⟨w', rfl, hw'⟩ := readValue_eq_some _ hs'
    obtain rfl : w = w₁ ++ w' := List.append_cancel_right (heq.trans (List.append_assoc ..).symm)
    have ht : t ∈ beginTerms := by
      refine hw₁.head.mpr fun c hc => hhead c ?_
      rwa [List.head?_append_of_ne_nil _ hw₁.ne]
    have hpos : 0 < w₁.length := List.length_pos_iff.mpr hw₁.ne
    rw [decode_append hw₁.pieces_ne, SourcePoint.update_append] at hrest
    rw [List.append_assoc, List.length_append]
    exact (ends_begin hw₁ ht (by simp) (ends_value hs' hrest)).mono (by omega)

theorem valueStart_rejected
    (hnot : ∀ w ps r, s = w ++ semicolon :: r → w ≠ [] → Stops (percent :: whitespaceChars) w →
      readValue s ≠ some (ps, r)) (hws : Stops whitespaceChars s) :
    optionParser.Ends (2 * s.length + cs.length + 5) (parsing (valueStart lead :: cs) vs sp s) Rejected := by
  have herror : ∀ {t n}, t < 8 → t ∉ beginTerms → optionParser.Sees s t n →
      optionParser.Ends (2 * s.length + cs.length + 5) (parsing (valueStart lead :: cs) vs sp s) Rejected :=
    fun hlt ht h => (ends_rejected h (entry_valueStart _ hlt ht lead)).mono (by omega)
  rcases value_cases s with rfl | ⟨s', rfl⟩ | ⟨w, s', t, ps, rfl, hw⟩
  · exact herror (by decide) (by decide) sees_nil
  · have hlexes : Lexes [semicolon] s' 4 :=
      lexes_char (c := semicolon) (by decide) (by decide) fun h => absurd h (by decide)
    exact herror (t := 4) (by decide) (by decide)
      (sees_of_lexes (w := [semicolon]) (List.cons_ne_nil _ _) hlexes)
  · have hlt : t < 8 := (show ∀ t ∈ appendTerms, t < 8 by decide) t hw.term
    by_cases ht : t ∈ beginTerms
    swap
    · exact herror hlt ht (sees_of_lexes hw.ne hw.lexes)
    have hpos : 0 < w.length := List.length_pos_iff.mpr hw.ne
    by_cases hs' : s' = []
    · subst hs'
      refine (ends_shift hw.ne hw.lexes (entry_begin t ht lead) (ends_rejected sees_nil
        (entry_beginShift t ht).2)).mono ?_
      simp only [List.length_cons, List.length_append, List.length_nil]
      omega
    rcases hread : readValue s' with _ | ⟨ps', r⟩
    · rw [List.length_append]
      exact (ends_begin hw ht hs' (value_rejected hread)).mono (by omega)
    · obtain ⟨w', rfl, -⟩ := readValue_eq_some _ hread
      refine absurd ?_ (hnot (w ++ w') (ps ++ ps') r (by simp) (List.append_ne_nil_of_left_ne_nil hw.ne _) ?_)
      · rw [hw.reads, hread]
        rfl
      · exact stops_append hw.ne (hw.head.mp ht)

end

/-! ### Options -/

def percentState (lead : Bool) : Nat := if lead then 22 else 19
def keyState (lead : Bool) : Nat := if lead then 24 else 21
def endState (lead : Bool) : Nat := if lead then 39 else 31

/-- What is on the stacks before the `%` of an option: the whitespace in front, if there is any. -/
def openCursors (lead : Bool) (os : Option (List LineOption)) : List Nat :=
  if lead then 5 :: top os :: below os else top os :: below os

def openValues (lead : ByteString) (sp : SourcePoint) (os : Option (List LineOption)) : List OptionNode :=
  if lead ≠ [] then .term lead sp :: values os else values os

section
variable {os : Option (List LineOption)} {lead : Bool} {cs : List Nat} {vs : List OptionNode} {sp : SourcePoint}
  {s : ByteString} {b : Nat} {R : ParseResult OptionNode → Prop}

theorem entry_key : ∀ lead, (entry (percentState lead) 5).kind = .shift ∧
    (entry (percentState lead) 5).shift = some (keyState lead) ∧
    ∀ t < 8, t ≠ 5 → (entry (percentState lead) t).kind = .error := by decide

theorem entry_gap : ∀ lead, (entry (keyState lead) 3).kind = .shift ∧
    (entry (keyState lead) 3).shift = some (valueStart lead) ∧
    ∀ t < 8, t ≠ 3 → (entry (keyState lead) t).kind = .error := by decide

theorem entry_end : ∀ lead, (entry (valueState lead) 4).kind = .shift ∧
    (entry (valueState lead) 4).shift = some (endState lead) := by decide

theorem lexes_percent : Lexes [percent] s 0 :=
  lexes_char (c := percent) (by decide) (by decide) fun h => absurd h (by decide)

theorem lexes_semicolon : Lexes [semicolon] s 4 :=
  lexes_char (c := semicolon) (by decide) (by decide) fun h => absurd h (by decide)

/-- Without a key, or without whitespace after it, there is no option. -/
theorem percent_rejected (hs : Stops alphaNumericChars s) :
    optionParser.Ends (cs.length + 2) (parsing (percentState lead :: cs) vs sp s) Rejected := by
  obtain ⟨t, n, hlt, ht, h⟩ := exists_sees_ne (.inr (.inl ⟨rfl, rfl⟩)) hs
  exact ends_rejected h ((entry_key lead).2.2 t hlt ht)

theorem key_rejected (hs : Stops whitespaceChars s) :
    optionParser.Ends (cs.length + 2) (parsing (keyState lead :: cs) vs sp s) Rejected := by
  obtain ⟨t, n, hlt, ht, h⟩ := exists_sees_ne (.inl ⟨rfl, rfl⟩) hs
  exact ends_rejected h ((entry_gap lead).2.2 t hlt ht)

theorem ends_key {key : ByteString} (hne : key ≠ []) (hkey : ∀ c ∈ key, c ∈ alphaNumericChars)
    (hs : Stops alphaNumericChars s)
    (hrest : optionParser.Ends b (parsing (keyState lead :: percentState lead :: cs) (.term key sp :: vs)
      (sp.update key) s) R) :
    optionParser.Ends (b + 1) (parsing (percentState lead :: cs) vs sp (key ++ s)) R :=
  ends_shift hne (lexes_alphaNumeric hne hkey hs) ⟨(entry_key lead).1, (entry_key lead).2.1⟩ hrest

theorem ends_gap {gap : ByteString} (hne : gap ≠ []) (hgap : ∀ c ∈ gap, c ∈ whitespaceChars)
    (hs : Stops whitespaceChars s)
    (hrest : optionParser.Ends b (parsing (valueStart lead :: keyState lead :: cs) (.term gap sp :: vs)
      (sp.update gap) s) R) :
    optionParser.Ends (b + 1) (parsing (keyState lead :: cs) vs sp (gap ++ s)) R :=
  ends_shift hne (lexes_whitespaces hne hgap hs) ⟨(entry_gap lead).1, (entry_gap lead).2.1⟩ hrest

theorem top_mem : top os ∈ [0, 3] := by cases os <;> simp [top]

theorem entry_open : ∀ q ∈ [0, 3], (entry q 0).kind = .shift ∧ (entry q 0).shift = some 19 ∧
    (entry q 3).kind = .shift ∧ (entry q 3).shift = some 5 := by decide

theorem ends_open {lead : ByteString} (hlead : ∀ c ∈ lead, c ∈ whitespaceChars)
    (hrest : optionParser.Ends b (parsing (percentState (lead ≠ []) :: openCursors (lead ≠ []) os)
      (.term [percent] (sp.update lead) :: openValues lead sp os) ((sp.update lead).update [percent]) s) R) :
    optionParser.Ends (b + 2) (parsing (top os :: below os) (values os) sp (lead ++ percent :: s)) R := by
  obtain ⟨hkind, hshift, hkindWs, hshiftWs⟩ := entry_open _ (@top_mem os)
  by_cases hnil : lead = []
  · subst hnil
    exact (ends_shift (w := [percent]) (List.cons_ne_nil _ _) lexes_percent
      ⟨hkind, hshift⟩ hrest).mono (by omega)
  · rw [openValues, if_pos hnil] at hrest
    rw [show decide (lead ≠ []) = true from decide_eq_true hnil] at hrest
    refine ends_shift hnil (lexes_whitespaces hnil hlead OptionText.stops_key) ⟨hkindWs, hshiftWs⟩ ?_
    have hentry : (entry 5 0).kind = .shift ∧ (entry 5 0).shift = some 22 := by decide
    exact ends_shift (w := [percent]) (List.cons_ne_nil _ _) lexes_percent hentry hrest

theorem entry_element : ∀ t < 8, entry 31 t = reduceBy 15 ∧ entry 39 t = reduceBy 16 ∧
    entry 10 t = reduceBy 13 ∧
    entry 20 t = reduceBy 14 := by decide

theorem ends_element {lead key gap v : ByteString} {st sk sg e sp' : SourcePoint}
    (hrest : optionParser.Ends b (parsing [3, 0] [.options (os.getD [] ++ [⟨key, v, st, e⟩])] sp' s) R) :
    optionParser.Ends (b + 2) (parsing
      (endState (lead ≠ []) :: valueState (lead ≠ []) :: valueStart (lead ≠ []) ::
        keyState (lead ≠ []) :: percentState (lead ≠ []) :: openCursors (lead ≠ []) os)
      (.term [semicolon] e :: .string v :: .term gap sg :: .term key sk :: .term [percent] st ::
        openValues lead sp os)
      sp' s) R := by
  have hoptions : optionParser.Ends (b + 1) (parsing ((if os.isSome then 20 else 10) :: top os :: below os)
      (.option ⟨key, v, st, e⟩ :: values os) sp' s) R := by
    cases os with
    | none => exact ends_reduce_any (fun t ht => (entry_element t ht).2.2.1) (r := 3) rfl rfl rfl rfl hrest
    | some l => exact ends_reduce_any (fun t ht => (entry_element t ht).2.2.2) (r := 4) rfl rfl rfl rfl hrest
  have hgoto : goto (top os) 3 = some (if os.isSome then 20 else 10) := by cases os <;> rfl
  by_cases hnil : lead = []
  · subst hnil
    exact ends_reduce_any (fun t ht => (entry_element t ht).1) (r := 5) rfl rfl hgoto rfl hoptions
  · rw [openValues, if_pos hnil, show decide (lead ≠ []) = true from decide_eq_true hnil]
    exact ends_reduce_any (fun t ht => (entry_element t ht).2.1) (r := 6) rfl rfl hgoto rfl hoptions

theorem ends_option (e : OptionText)
    (hrest : optionParser.Ends b
      (parsing [3, 0] [.options (os.getD [] ++ [e.option sp])] (sp.update e.text) s) R) :
    optionParser.Ends (b + 2 * e.text.length)
      (parsing (top os :: below os) (values os) sp (e.text ++ s)) R := by
  have hread := readValue_append e.value_read s
  have hkey : 0 < e.key.length := List.length_pos_iff.mpr e.key_ne
  have hgap : 0 < e.gap.length := List.length_pos_iff.mpr e.gap_ne
  rw [OptionText.text_append]
  refine (ends_open e.lead_ws (ends_key e.key_ne e.key_alphaNumeric OptionText.stops_gap
    (ends_gap e.gap_ne e.gap_ws OptionText.stops_value
    (ends_valueStart e.value_ne e.value_head hread (ends_shift (w := [semicolon]) (List.cons_ne_nil _ _)
      lexes_semicolon (entry_end _) (ends_element (b := b) ?_)))))).mono ?_
  · have hbody : e.body = [percent] ++ (e.key ++ (e.gap ++ e.value)) := rfl
    simp only [OptionText.option, OptionText.text, hbody, SourcePoint.update_append] at hrest
    exact hrest
  · simp only [OptionText.text, OptionText.body, List.length_append, List.length_cons, List.length_nil]
    omega

end

/-! ### Lines -/

def firstShift (t : Nat) : Nat := [0, 6, 7, 5, 8, 4, 9].getD t 0

def firstRule (t : Nat) : Nat := [0, 19, 20, 18, 21, 17, 22].getD t 0

section
variable {os : Option (List LineOption)} {sp : SourcePoint} {s lead : ByteString}

theorem entry_first : ∀ t < 7, t ≠ 0 → ∀ q ∈ [0, 3], (entry q t).kind = .shift ∧
    (entry q t).shift = some (firstShift t) := by
  decide

/-- Whitespace is the rest if no `%` follows. -/
theorem entry_firstShift : ∀ t < 7, t ≠ 0 → ∀ t' < 8, (t = 3 → t' ≠ 0) →
    entry (firstShift t) t' = reduceBy (firstRule t) := by decide

theorem ruleInfos_first : ∀ t < 7, t ≠ 0 → ruleInfos[firstRule t]? = some ⟨4, firstRule t, 1⟩ ∧
    17 ≤ firstRule t ∧ firstRule t < 30 := by decide

theorem ends_noOption (hno : NoOption s) (hs : os ≠ none ∨ s ≠ []) :
    optionParser.Ends (2 * s.length + 4) (parsing (top os :: below os) (values os) sp s)
      (· = .value (.options (os.getD []))) := by
  by_cases hnil : s = []
  · subst hnil
    obtain ⟨l, rfl⟩ := Option.ne_none_iff_exists'.mp (hs.resolve_right fun h => h rfl)
    exact (ends_reduce sees_nil (q := 3) (k := 2) (by decide) rfl rfl
      (by decide) rfl ends_accept).mono (by simp)
  -- the first term, which is no `%`, and what is seen behind it
  obtain ⟨w, s', t, rfl, hw, ht, hlexes, ht0, t', n, ht', hsees, h3⟩ : ∃ w s' t, s = w ++ s' ∧ w ≠ [] ∧ t < 7 ∧
      Lexes w s' t ∧ t ≠ 0 ∧ ∃ t' n, t' < 8 ∧ optionParser.Sees s' t' n ∧ (t = 3 → t' ≠ 0) := by
    obtain ⟨lead, s₁, rfl, hlead, hstops⟩ := exists_run whitespaceChars s
    have hs₁ : Stops [percent] s₁ := by
      rw [NoOption, dropWhile_run hlead hstops] at hno
      rintro c hc hmem
      rw [List.mem_singleton.mp hmem] at hc
      exact hno hc
    obtain ⟨t', n, ht', hne, hsees⟩ := exists_sees_ne (.inr (.inr ⟨rfl, rfl⟩)) hs₁
    by_cases hlead0 : lead = []
    · subst hlead0
      obtain ⟨w, s', t, hsplit, hw, ht, hlexes⟩ := exists_lexes (s := s₁) (by simpa using hnil)
      have hfirst := sees_of_lexes hw hlexes
      rw [← hsplit] at hfirst
      obtain ⟨t₃, n₃, -, hne₃, hsees₃⟩ := exists_sees_ne (.inl ⟨rfl, rfl⟩) hstops
      obtain ⟨t'', n'', ht'', hsees''⟩ := exists_sees s'
      refine ⟨w, s', t, hsplit, hw, ht, hlexes, fun h => ?_, t'', n'', ht'', hsees'', fun h => ?_⟩
      · exact absurd (h ▸ sees_unique hsees hfirst) hne
      · exact absurd (h ▸ sees_unique hsees₃ hfirst) hne₃
    · exact ⟨lead, s₁, 3, rfl, hlead0, by decide, lexes_whitespaces hlead0 hlead hstops, by decide,
        t', n, ht', hsees,
        fun _ => hne⟩
  have hpos : 0 < w.length := List.length_pos_iff.mpr hw
  obtain ⟨hrule, hle, hlt⟩ := ruleInfos_first t ht ht0
  rw [List.length_append]
  refine (ends_shift hw hlexes (entry_first t ht ht0 _ top_mem) ?_).mono (b := 2 * s'.length + 4) (by omega)
  exact ends_reduce hsees (entry_firstShift t ht ht0 t' ht' h3) hrule rfl goto_rest (reductor_rest hle hlt _)
    (ends_rest s')

theorem open_rejected {s₂ : ByteString} (hlead : ∀ c ∈ lead, c ∈ whitespaceChars)
    (hnone : ∀ (e : OptionText) s', lead ++ percent :: s₂ ≠ e.text ++ s') :
    optionParser.Ends (2 * (lead ++ percent :: s₂).length + 16)
      (parsing (top os :: below os) (values os) sp (lead ++ percent :: s₂)) Rejected := by
  have hopen : (openCursors (lead ≠ []) os).length ≤ 3 := by
    unfold openCursors
    split_ifs <;> cases os <;> simp [below]
  obtain ⟨key, s₃, rfl, hkey, hstops⟩ := exists_run alphaNumericChars s₂
  simp only [List.length_append, List.length_cons]
  by_cases hkey0 : key = []
  · subst hkey0
    exact (ends_open hlead (percent_rejected hstops)).mono (by omega)
  have hkeyPos : 0 < key.length := List.length_pos_iff.mpr hkey0
  obtain ⟨gap, s₄, rfl, hgap, hstopsValue⟩ := exists_run whitespaceChars s₃
  simp only [List.length_append]
  by_cases hgap0 : gap = []
  · subst hgap0
    refine (ends_open hlead (ends_key hkey0 hkey hstops (key_rejected hstopsValue))).mono ?_
    simp only [List.length_cons]
    omega
  refine (ends_open hlead (ends_key hkey0 hkey hstops (ends_gap hgap0 hgap hstopsValue
    (valueStart_rejected ?_ hstopsValue)))).mono ?_
  · rintro w ps r rfl hne hhead hread
    obtain ⟨v, heq, hv⟩ := readValue_eq_some _ hread
    obtain rfl : w = v := List.append_cancel_right heq
    set e : OptionText := {
      lead := lead
      key := key
      gap := gap
      value := w
      pieces := ps
      lead_ws := hlead
      key_ne := hkey0
      key_alphaNumeric := hkey
      gap_ne := hgap0
      gap_ws := hgap
      value_ne := hne
      value_head := hhead
      value_read := hv [] }
    exact hnone e r (OptionText.text_append (e := e) (s := r)).symm
  · simp only [List.length_cons]
    omega

/-- A line with its options taken off. -/
def Splits (s : ByteString) (es : List OptionText) (rest : ByteString) : Prop :=
  s = texts es ++ rest ∧ NoOption rest

/-- What the options of a line are, or that it is no line of the grammar. -/
theorem line_cases (s : ByteString) (hs : os ≠ none ∨ s ≠ []) :
    (∃ es rest, Splits s es rest ∧
      optionParser.Ends (2 * s.length + 16) (parsing (top os :: below os) (values os) sp s)
        (· = .value (.options (os.getD [] ++ optionsOf sp es)))) ∨
    ((∀ es rest, ¬Splits s es rest) ∧
      optionParser.Ends (2 * s.length + 16) (parsing (top os :: below os) (values os) sp s) Rejected) := by
  induction hn : s.length using Nat.strong_induction_on generalizing s os sp with
  | _ n ih =>
    by_cases hno : NoOption s
    · refine .inl ⟨[], s, ⟨rfl, hno⟩, ?_⟩
      rw [optionsOf, List.append_nil]
      exact (ends_noOption hno hs).mono (by omega)
    by_cases hsome : ∃ (e : OptionText) (s' : ByteString), s = e.text ++ s'
    · obtain ⟨e, s', rfl⟩ := hsome
      have hpos : 0 < e.text.length := by simp [OptionText.text]
      rw [List.length_append] at hn
      rcases @ih s'.length (by omega) (some (os.getD [] ++ [e.option sp])) (sp.update e.text) s'
        (.inl (Option.some_ne_none _)) rfl with ⟨es, rest, ⟨hsplit, hrest⟩, hends⟩ | ⟨hnone, hends⟩
      · refine .inl ⟨e :: es, rest, ⟨?_, hrest⟩,
          (ends_option e (b := 2 * s'.length + 16) ?_).mono (by omega)⟩
        · rw [hsplit, texts_cons, List.append_assoc]
        · rw [Option.getD_some, List.append_assoc, List.singleton_append] at hends
          exact hends
      · refine .inr ⟨?_, (ends_option e hends).mono (by omega)⟩
        rintro (_ | ⟨e', es⟩) rest ⟨hsplit, hrest⟩
        · exact hno (hsplit ▸ hrest)
        · rw [texts_cons, List.append_assoc] at hsplit
          obtain ⟨rfl, rfl⟩ := OptionText.unique hsplit
          exact hnone es rest ⟨rfl, hrest⟩
    · have hnone : ∀ (e : OptionText) s', s ≠ e.text ++ s' := fun e s' heq => hsome ⟨e, s', heq⟩
      obtain ⟨lead, s₁, rfl, hlead, hstops⟩ := exists_run whitespaceChars s
      have hpercent : s₁.head? = some percent := by
        by_contra hne
        refine hno ?_
        rwa [NoOption, dropWhile_run hlead hstops]
      obtain ⟨s₂, rfl⟩ := List.head?_eq_some_iff.mp hpercent
      subst hn
      refine .inr ⟨?_, open_rejected hlead hnone⟩
      rintro (_ | ⟨e, es⟩) rest ⟨hsplit, hrest⟩
      · exact hno (hsplit ▸ hrest)
      · rw [texts_cons, List.append_assoc] at hsplit
        exact hnone e _ hsplit

end

theorem texts_unique {es es' : List OptionText} {rest rest' : ByteString}
    (heq : texts es ++ rest = texts es' ++ rest')
    (hrest : NoOption rest) (hrest' : NoOption rest') : es = es' ∧ rest = rest' := by
  have hsome : ∀ {e : OptionText} {s : ByteString}, ¬NoOption (e.text ++ s) := by
    intro e s
    rw [NoOption, OptionText.text_append, dropWhile_run e.lead_ws OptionText.stops_key]
    exact fun h => h rfl
  induction es generalizing es' with
  | nil =>
    cases es' with
    | nil => exact ⟨rfl, heq⟩
    | cons e' es' =>
      rw [texts_cons, List.append_assoc] at heq
      exact absurd (show NoOption (e'.text ++ (texts es' ++ rest')) from heq ▸ hrest) hsome
  | cons e es ih =>
    cases es' with
    | nil =>
      rw [texts_cons, List.append_assoc] at heq
      exact absurd (show NoOption (e.text ++ (texts es ++ rest)) from heq ▸ hrest') hsome
    | cons e' es' =>
      simp only [texts_cons, List.append_assoc] at heq
      obtain ⟨rfl, hafter⟩ := OptionText.unique heq
      obtain ⟨rfl, rfl⟩ := ih hafter
      exact ⟨rfl, rfl⟩

theorem Splits.unique {s : ByteString} {es es' : List OptionText} {rest rest' : ByteString}
    (h : Splits s es rest)
    (h' : Splits s es' rest') : es = es' ∧ rest = rest' :=
  texts_unique (h.1.symm.trans h'.1) h.2 h'.2

/-- A line that splits has its options as the result, any other is an error. -/
theorem parse_splits (line : ByteString) (hne : line ≠ []) :
    (∃ es rest, Splits line es rest ∧ parse line = some (.ok (optionsOf {} es))) ∨
    ((∀ es rest, ¬Splits line es rest) ∧ ∃ errorStream, parse line = some (.error errorStream)) := by
  have hrun : ∀ {R}, optionParser.Ends (2 * line.length + 16) (parsing [0] [] {} line) R →
      ∃ r, R r ∧ optionParser.parse (4 * line.length + 16) line = some r := by
    rintro R ⟨r, hr, hends⟩
    exact ⟨r, hr, hends _ (by omega)⟩
  rcases @line_cases none {} line (.inr hne) with ⟨es, rest, hsplits, hends⟩ | ⟨hnone, hends⟩
  · obtain ⟨r, rfl, hparse⟩ := hrun hends
    exact .inl ⟨es, rest, hsplits, by rw [parse, hparse]; rfl⟩
  · obtain ⟨r, ⟨errorStream, rfl⟩, hparse⟩ := hrun hends
    exact .inr ⟨hnone, errorStream, by rw [parse, hparse]⟩

end OptionParser

open OptionParser

/-- The grammar accepts exactly the option syntax. -/
theorem parse_accepts_iff (line : ByteString) (hne : line ≠ []) :
    ((∃ os, parse line = some (.ok os)) ↔ NoOption line ∨
      ∃ es rest, es ≠ [] ∧ line = texts es ++ rest ∧ NoOption rest) ∧
    (NoOption line → parse line = some (.ok [])) ∧
    (∀ es rest, line = texts es ++ rest → NoOption rest → parse line = some (.ok (optionsOf {} es))) ∧
    ((¬∃ os, parse line = some (.ok os)) → ∃ errorStream, parse line = some (.error errorStream)) := by
  have hresult : ∀ es rest, line = texts es ++ rest → NoOption rest →
      parse line = some (.ok (optionsOf {} es)) := by
    intro es rest heq hrest
    rcases parse_splits line hne with ⟨es', rest', hsplits, hparse⟩ | ⟨hnone, -⟩
    · rwa [(hsplits.unique ⟨heq, hrest⟩).1] at hparse
    · exact absurd ⟨heq, hrest⟩ (hnone es rest)
  refine ⟨⟨?_, ?_⟩, fun hno => hresult [] line rfl hno, hresult, fun hfail => ?_⟩
  · rintro ⟨os, hparse⟩
    rcases parse_splits line hne with ⟨es, rest, hsplits, -⟩ | ⟨-, errorStream, herror⟩
    · by_cases hes : es = []
      · subst hes
        exact .inl (hsplits.1 ▸ hsplits.2)
      · exact .inr ⟨es, rest, hes, hsplits⟩
    · cases hparse.symm.trans herror
  · rintro (hno | ⟨es, rest, -, heq, hrest⟩)
    · exact ⟨_, hresult [] line rfl hno⟩
    · exact ⟨_, hresult es rest heq hrest⟩
  · rcases parse_splits line hne with ⟨es, rest, -, hparse⟩ | ⟨-, herror⟩
    · exact absurd ⟨_, hparse⟩ hfail
    · exact herror

theorem parse_accepts_iff_comment : parse (str "x %k v;") = some (.ok []) :=
  (parse_accepts_iff (str "x %k v;") (by decide)).2.1 (by decide)

end UdfRunner
