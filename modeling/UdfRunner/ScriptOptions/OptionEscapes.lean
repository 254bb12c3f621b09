import UdfRunner.ScriptOptions.OptionFold

/-!
# Writing option values

How a value is written with escapes so that the parser reads it back, and which values cannot be written.
-/

namespace UdfRunner
namespace OptionParser
open Ctpg StringSearch CtpgParser

/-! ### Escapes -/

def Piece.text : Piece → ByteString
  | .char c => [c]
  | .pair d => [backslash, d]

/-- `;`, LF, CR and the backslash are escaped everywhere. -/
def escapeLater (c : UInt8) : Piece :=
  if c = semicolon then .pair semicolon else if c = 10 then .pair 110 else if c = 13 then .pair 114
  else if c = backslash then .pair backslash else .char c

/-- Whitespace is escaped at the beginning. -/
def escapeFirst (c : UInt8) : Piece :=
  if c = 32 then .pair 32 else if c = 9 then .pair 116 else if c = 12 then .pair 102
  else if c = 11 then .pair 118 else escapeLater c

def escape : ByteString → List Piece
  | [] => []
  | c :: v => escapeFirst c :: v.map escapeLater

def escapeText (v : ByteString) : ByteString := (escape v).flatMap Piece.text

/-- An option with the value `v`. -/
def optionCode (k v : ByteString) : ByteString := percent :: (k ++ 32 :: (escapeText v ++ [semicolon]))

section
variable {c : UInt8} {k v s : ByteString} {p : Piece}

def Written (p : Piece) : Prop :=
  match p with
  | .char c => c ≠ semicolon ∧ c ≠ backslash ∧ c ∉ lineBreaks
  | .pair d => d ∈ escapeChars ∨ d ∈ whitespaceEscapeChars

theorem readValue_written (h : Written p) :
    readValue (p.text ++ s) = (readValue s).map fun r => (p :: r.1, r.2) := by
  cases p with
  | char c => exact readValue_char ⟨h.1, fun hb => absurd hb h.2.1⟩
  | pair d => exact readValue_pair ⟨rfl, h⟩

theorem readValue_writtens {ps : List Piece} (h : ∀ p ∈ ps, Written p) :
    readValue (ps.flatMap Piece.text ++ semicolon :: s) = some (ps, s) := by
  induction ps with
  | nil => exact readValue_semicolon
  | cons p ps ih =>
    obtain ⟨hp, hps⟩ := List.forall_mem_cons.mp h
    rw [List.flatMap_cons, List.append_assoc, readValue_written hp, ih hps]
    rfl

theorem written_later : Written (escapeLater c) := by
  unfold escapeLater
  split_ifs with hsemi hlf hcr hback
  · exact .inl (by decide)
  · exact .inl (by decide)
  · exact .inl (by decide)
  · exact .inl (by decide)
  · exact ⟨hsemi, hback, by simp [lineBreaks, hlf, hcr]⟩

theorem written_first : Written (escapeFirst c) := by
  unfold escapeFirst
  split_ifs
  · exact .inr (by decide)
  · exact .inr (by decide)
  · exact .inr (by decide)
  · exact .inr (by decide)
  · exact written_later

theorem written_escape : ∀ p ∈ escape v, Written p := by
  cases v with
  | nil => exact nofun
  | cons c v => exact List.forall_mem_cons.mpr ⟨written_first, List.forall_mem_map.mpr fun c _ => written_later⟩

theorem decodeLater_escape : (escapeLater c).decodeLater = [c] := by
  unfold escapeLater
  split_ifs with hsemi hlf hcr hback
  · subst hsemi; rfl
  · subst hlf; rfl
  · subst hcr; rfl
  · subst hback; rfl
  · rfl

theorem decodeFirst_escape : (escapeFirst c).decodeFirst = [c] := by
  unfold escapeFirst escapeLater
  split_ifs <;> first | rfl | (subst_vars; rfl)

theorem decode_escape : decode (escape v) = v := by
  cases v with
  | nil => rfl
  | cons c v =>
    rw [escape, decode, decodeFirst_escape, List.flatMap_map]
    simp [decodeLater_escape]

theorem plain_escapeText : Plain isBreak (escapeText v) := by
  intro c hc
  obtain ⟨p, hp, hc⟩ := List.mem_flatMap.mp hc
  have hwritten := written_escape p hp
  cases p with
  | char d =>
    rw [List.mem_singleton.mp hc]
    exact decide_eq_false hwritten.2.2
  | pair d =>
    have hpair : ∀ d ∈ escapeChars ++ whitespaceEscapeChars, ∀ c ∈ [backslash, d],
        isBreak c = false := by decide
    exact hpair d (List.mem_append.mpr hwritten) c hc

theorem escapeText_ne (hv : v ≠ []) : escapeText v ≠ [] := by
  obtain ⟨c, v, rfl⟩ := List.exists_cons_of_ne_nil hv
  rw [escapeText, escape, List.flatMap_cons]
  cases escapeFirst c <;> exact List.cons_ne_nil _ _

theorem escapeFirst_stops (hc : c ≠ percent) :
    Stops (percent :: whitespaceChars) ((escapeFirst c).text ++ s) := by
  have hback : ∀ d, Stops (percent :: whitespaceChars) ((Piece.pair d).text ++ s) := fun d =>
    stops_cons (by decide)
  unfold escapeFirst escapeLater
  split_ifs with hspace htab hff hvt
  all_goals first | exact hback _ | refine stops_cons ?_
  simp [whitespaceChars, hc, hspace, htab, hff, hvt]

theorem escapeText_stops (hv : v ≠ []) (hhead : v.head? ≠ some percent) :
    Stops (percent :: whitespaceChars) (escapeText v) := by
  obtain ⟨c, v, rfl⟩ := List.exists_cons_of_ne_nil hv
  rw [escapeText, escape, List.flatMap_cons]
  exact escapeFirst_stops fun heq => hhead (heq ▸ rfl)

theorem escapeText_percent (hhead : v.head? = some percent) : (escapeText v).head? = some percent := by
  obtain ⟨v, rfl⟩ := List.head?_eq_some_iff.mp hhead
  rfl

end

/-! ### The option -/

/-- What is written as an option with a key and a value. -/
structure IsKey (k : ByteString) : Prop where
  ne : k ≠ []
  alphaNumeric : ∀ c ∈ k, c ∈ alphaNumericChars

section
variable {k v : ByteString}

theorem optionCode_plain (hk : IsKey k) : Plain isBreak (optionCode k v) := by
  have halpha : ∀ c ∈ alphaNumericChars, isBreak c = false := by decide
  intro c hc
  simp only [optionCode, List.mem_cons, List.mem_append, List.not_mem_nil, or_false] at hc
  rcases hc with rfl | hc | rfl | hc | rfl
  · rfl
  · exact halpha c (hk.alphaNumeric c hc)
  · rfl
  · exact plain_escapeText c hc
  · rfl

theorem percent_mem_optionCode : percent ∈ optionCode k v := List.mem_cons_self ..

theorem splits_optionCode (hk : IsKey k) (hv : v ≠ []) (hhead : v.head? ≠ some percent) :
    ∃ e : OptionText, e.key = k ∧ decode e.pieces = v ∧ Splits (optionCode k v) [e] [] := by
  refine ⟨{
    lead := []
    key := k
    gap := [32]
    value := escapeText v
    pieces := escape v
    lead_ws := by simp
    key_ne := hk.ne
    key_alphaNumeric := hk.alphaNumeric
    gap_ne := List.cons_ne_nil _ _
    gap_ws := by decide
    value_ne := escapeText_ne hv
    value_head := escapeText_stops hv hhead
    value_read := readValue_writtens written_escape }, rfl, decode_escape, ?_, by decide⟩
  rw [texts_cons]
  simp [OptionText.text, OptionText.body, optionCode, texts]

theorem not_splits_optionCode (hk : IsKey k) (hhead : v.head? = some percent) (es : List OptionText)
    (rest : ByteString) : ¬Splits (optionCode k v) es rest := by
  rintro ⟨heq, hrest⟩
  obtain ⟨w, hw⟩ := List.head?_eq_some_iff.mp (escapeText_percent hhead)
  rcases es with _ | ⟨e, es⟩
  · have hcode : optionCode k v = rest := heq
    refine absurd hrest ?_
    rw [← hcode]
    exact fun h => h rfl
  · have hcode : [] ++ percent :: (k ++ ([32] ++ percent :: (w ++ [semicolon]))) = optionCode k v := by
      simp [optionCode, hw]
    rw [texts_cons, List.append_assoc, ← hcode, OptionText.text_append] at heq
    obtain ⟨-, hkey⟩ := run_unique heq (by simp) OptionText.stops_key e.lead_ws OptionText.stops_key
    obtain ⟨-, hgap⟩ := run_unique (List.cons.inj hkey).2 hk.alphaNumeric (stops_cons (by decide))
      e.key_alphaNumeric OptionText.stops_gap
    obtain ⟨-, hvalue⟩ := run_unique hgap (by decide) OptionText.stops_key e.gap_ws OptionText.stops_value
    have hfirst : percent ∈ e.value.head? := by
      rw [← List.head?_append_of_ne_nil _ e.value_ne, ← hvalue]
      rfl
    exact e.value_head percent hfirst (List.mem_cons_self ..)

/-- The one option that the code has is read back. -/
def ReadsBack (k v : ByteString) : Prop := ∃ o : ScriptOption, o.value = v ∧
  parseOptions (optionCode k v) (fun _ => none) = some ⟨Function.update (fun _ => none) k (some [o]), none⟩

theorem readsBack (hk : IsKey k) (hv : v ≠ []) (hhead : v.head? ≠ some percent) : ReadsBack k v := by
  obtain ⟨e, rfl, hdecode, hsplits⟩ := splits_optionCode hk hv hhead
  exact ⟨_, hdecode, parseOptions_single (optionCode_plain hk) percent_mem_optionCode hsplits⟩

theorem not_readsBack (hk : IsKey k) (hhead : v.head? = some percent) : ¬ReadsBack k v := by
  rintro ⟨o, -, hparsed⟩
  rw [parseOptions_eq, optionLines_single (optionCode_plain hk) percent_mem_optionCode] at hparsed
  rcases parse_splits (optionCode k v) (List.cons_ne_nil _ _) with ⟨es, rest, hsplits, -⟩ | ⟨-, what, herror⟩
  · exact not_splits_optionCode hk hhead es rest hsplits
  · rw [foldLines, herror] at hparsed
    exact Option.some_ne_none _ (congrArg Parsed.error (Option.some.inj hparsed))

end

end OptionParser

open OptionParser

/-- Every value can be written but those that begin with `%`. -/
theorem readsBack_iff (k v : ByteString) (hk : IsKey k) (hv : v ≠ []) :
    ReadsBack k v ↔ v.head? ≠ some percent :=
  ⟨fun hreads hhead => not_readsBack hk hhead hreads, readsBack hk hv⟩

theorem readsBack_iff_space : ReadsBack (str "k") (str " ;\\") :=
  (readsBack_iff (str "k") (str " ;\\") ⟨by decide, by decide⟩ (by decide)).mpr (by decide)

/-- `%k %;` is no option. -/
theorem readsBack_percent : ¬∀ k v : ByteString, IsKey k → v ≠ [] → ReadsBack k v :=
  fun h => not_readsBack ⟨by decide, by decide⟩ rfl (h (str "k") (str "%") ⟨by decide, by decide⟩ (by decide))

end UdfRunner
