import Mathlib.Data.List.TakeWhile
import UdfRunner.ScriptOptions.OptionLexer

/-!
# The option syntax

What an option of a line is, apart from any parser: `ws* % key ws+ value ;`, with escapes read from left to
right. `OptionText.unique`: a line begins with one option at most.
-/

namespace UdfRunner
namespace OptionParser
open Ctpg

/-! ### Values -/

/-- A character, or a backslash with the one it escapes. -/
inductive Piece
  | char (c : UInt8)
  | pair (d : UInt8)
deriving DecidableEq, Repr

def IsPair (c d : UInt8) : Prop := c = backslash ∧ (d ∈ escapeChars ∨ d ∈ whitespaceEscapeChars)

instance (c d : UInt8) : Decidable (IsPair c d) := inferInstanceAs (Decidable (_ ∧ _))

/-- What comes before the first `;` of no pair, and what follows it. -/
def readValue : ByteString → Option (List Piece × ByteString)
  | [] => none
  | c :: s =>
    if c = semicolon then some ([], s)
    else match s with
      | [] => none
      | d :: s' =>
        if IsPair c d then (readValue s').map fun r => (.pair d :: r.1, r.2)
        else (readValue (d :: s')).map fun r => (.char c :: r.1, r.2)

/-- The character an escape stands for. -/
def unescape (d : UInt8) : UInt8 :=
  if d = 110 then 10 else if d = 114 then 13 else if d = 116 then 9 else if d = 102 then 12
  else if d = 118 then 11 else d

namespace Piece

/-- At the beginning of a value. -/
def decodeFirst : Piece → ByteString
  | char c => [c]
  | pair d => [unescape d]

/-- Whitespace needs no escape further on, and has none. -/
def decodeLater : Piece → ByteString
  | char c => [c]
  | pair d => if d ∈ escapeChars then [unescape d] else [backslash, d]

end Piece

def decode : List Piece → ByteString
  | [] => []
  | p :: ps => p.decodeFirst ++ ps.flatMap Piece.decodeLater

/-! ### Options -/

/-- An option, with the whitespace around it. -/
@[ext]
structure OptionText where
  lead : ByteString
  key : ByteString
  gap : ByteString
  value : ByteString
  pieces : List Piece
  lead_ws : ∀ c ∈ lead, c ∈ whitespaceChars
  key_ne : key ≠ []
  key_alphaNumeric : ∀ c ∈ key, c ∈ alphaNumericChars
  gap_ne : gap ≠ []
  gap_ws : ∀ c ∈ gap, c ∈ whitespaceChars
  value_ne : value ≠ []
  value_head : Stops (percent :: whitespaceChars) value
  value_read : readValue (value ++ [semicolon]) = some (pieces, [])

namespace OptionText

def body (e : OptionText) : ByteString := percent :: (e.key ++ (e.gap ++ e.value))
def text (e : OptionText) : ByteString := e.lead ++ (e.body ++ [semicolon])

def option (e : OptionText) (sp : SourcePoint) : LineOption :=
  ⟨e.key, decode e.pieces, sp.update e.lead, sp.update (e.lead ++ e.body)⟩

end OptionText

def texts (es : List OptionText) : ByteString := es.flatMap OptionText.text

@[simp] theorem texts_cons (e : OptionText) (es : List OptionText) : texts (e :: es) = e.text ++ texts es :=
  List.flatMap_cons

def optionsOf : SourcePoint → List OptionText → List LineOption
  | _, [] => []
  | sp, e :: es => e.option sp :: optionsOf (sp.update e.text) es

/-- The first character that is no whitespace is no `%`. -/
def NoOption (s : ByteString) : Prop := (s.dropWhile (· ∈ whitespaceChars)).head? ≠ some percent

instance (s : ByteString) : Decidable (NoOption s) := inferInstanceAs (Decidable (_ ≠ _))

/-! ### Runs -/

section Runs
variable {l : List UInt8} {w s : ByteString}

theorem dropWhile_run (hw : ∀ c ∈ w, c ∈ l) (hs : Stops l s) : (w ++ s).dropWhile (· ∈ l) = s := by
  rw [List.dropWhile_append_of_pos (by simpa using hw)]
  cases s with
  | nil => rfl
  | cons c s => exact List.dropWhile_cons_of_neg (by simpa using hs c rfl)

theorem run_unique {w' s' : ByteString} (h : w ++ s = w' ++ s') (hw : ∀ c ∈ w, c ∈ l) (hs : Stops l s)
    (hw' : ∀ c ∈ w', c ∈ l) (hs' : Stops l s') : w = w' ∧ s = s' := by
  obtain rfl : s = s' := by rw [← dropWhile_run hw hs, h, dropWhile_run hw' hs']
  exact ⟨List.append_cancel_right h, rfl⟩

theorem exists_run (l : List UInt8) (s : ByteString) :
    ∃ w s', s = w ++ s' ∧ (∀ c ∈ w, c ∈ l) ∧ Stops l s' := by
  refine ⟨s.takeWhile (· ∈ l), s.dropWhile (· ∈ l), List.takeWhile_append_dropWhile.symm, ?_, ?_⟩
  · intro c hc
    simpa using List.mem_takeWhile_imp hc
  · intro c hc
    have := List.head?_dropWhile_not (fun c => decide (c ∈ l)) s
    rw [Option.mem_def] at hc
    simpa [hc] using this

theorem stops_cons {c : UInt8} (hc : c ∉ l) : Stops l (c :: s) := by
  rintro d ⟨⟩
  exact hc

theorem stops_append {w' : ByteString} (hne : w' ≠ []) (h : Stops l w') : Stops l (w' ++ s) := by
  obtain ⟨c, w', rfl⟩ := List.exists_cons_of_ne_nil hne
  exact h

end Runs

/-! ### Reading values -/

section ReadValue
variable {c d : UInt8} {v s t : ByteString} {ps : List Piece}

@[simp] theorem readValue_semicolon : readValue (semicolon :: s) = some ([], s) := by
  rw [readValue.eq_def]
  exact if_pos rfl

theorem readValue_pair (h : IsPair c d) :
    readValue (c :: d :: s) = (readValue s).map fun r => (.pair d :: r.1, r.2) := by
  have hc : c ≠ semicolon := by
    rw [h.1]
    decide
  rw [readValue.eq_def]
  dsimp only
  rw [if_neg hc, if_pos h]

/-- A character that is read by itself. -/
def Single (c : UInt8) (s : ByteString) : Prop :=
  c ≠ semicolon ∧ (c = backslash → Stops (escapeChars ++ whitespaceEscapeChars) s)

theorem readValue_char (h : Single c s) :
    readValue (c :: s) = (readValue s).map fun r => (.char c :: r.1, r.2) := by
  rw [readValue.eq_def]
  dsimp only
  rw [if_neg h.1]
  rcases s with _ | ⟨d, s⟩
  · rfl
  · have hp : ¬IsPair c d := fun hp => h.2 hp.1 d rfl (List.mem_append.mpr hp.2)
    exact if_neg hp

theorem readValue_induction {P : ByteString → Prop} (nil : P []) (semi : ∀ s, P (semicolon :: s))
    (pair : ∀ c d s, IsPair c d → P s → P (c :: d :: s)) (char : ∀ c s, Single c s → P s → P (c :: s)) :
    ∀ s, P s
  | [] => nil
  | [c] => if hc : c = semicolon then hc ▸ semi [] else char c [] ⟨hc, fun _ _ h => by cases h⟩ nil
  | c :: d :: s =>
    if hc : c = semicolon then hc ▸ semi (d :: s)
    else if hp : IsPair c d then pair c d s hp (readValue_induction nil semi pair char s)
    else char c (d :: s) ⟨hc, fun hb e he h => hp ⟨hb, by cases he; exact List.mem_append.mp h⟩⟩
      (readValue_induction nil semi pair char (d :: s))

/-- What follows a value does not matter to it. -/
theorem readValue_eq_some : ∀ s, ∀ {ps r}, readValue s = some (ps, r) →
    ∃ v, s = v ++ semicolon :: r ∧ ∀ t, readValue (v ++ semicolon :: t) = some (ps, t) := by
  refine readValue_induction ?_ ?_ ?_ ?_
  · simp [readValue]
  · rintro s ps r h
    rw [readValue_semicolon] at h
    cases h
    exact ⟨[], rfl, fun t => readValue_semicolon⟩
  · rintro c d s hp ih ps r h
    obtain ⟨⟨ps, r⟩, hs, heq⟩ := Option.map_eq_some_iff.mp (readValue_pair hp ▸ h)
    cases heq
    obtain ⟨v, rfl, hv⟩ := ih hs
    refine ⟨c :: d :: v, rfl, fun t => ?_⟩
    exact (readValue_pair hp).trans (congrArg _ (hv t))
  · rintro c s hc ih ps r h
    obtain ⟨⟨ps, r⟩, hs, heq⟩ := Option.map_eq_some_iff.mp (readValue_char hc ▸ h)
    cases heq
    obtain ⟨v, rfl, hv⟩ := ih hs
    refine ⟨c :: v, rfl, fun t => ?_⟩
    have ht : Single c (v ++ semicolon :: t) := by
      refine ⟨hc.1, fun hb => ?_⟩
      rcases v with _ | ⟨d, v⟩
      · exact absurd (hc.2 hb semicolon rfl) (by decide)
      · exact hc.2 hb
    exact (readValue_char ht).trans (congrArg _ (hv t))

theorem readValue_append (h : readValue (v ++ [semicolon]) = some (ps, [])) (t : ByteString) :
    readValue (v ++ semicolon :: t) = some (ps, t) := by
  obtain ⟨w, heq, hw⟩ := readValue_eq_some _ h
  rw [List.append_cancel_right heq]
  exact hw t

end ReadValue

/-! ### The first option of a line -/

namespace OptionText
variable {e : OptionText} {s : ByteString}

theorem text_append : e.text ++ s = e.lead ++ percent :: (e.key ++ (e.gap ++ (e.value ++ semicolon :: s))) := by
  simp [text, body]

theorem stops_key : Stops whitespaceChars (percent :: s) := stops_cons (by decide)

theorem stops_gap : Stops alphaNumericChars (e.gap ++ s) := by
  obtain ⟨c, gap, hc⟩ := List.exists_cons_of_ne_nil e.gap_ne
  refine stops_append e.gap_ne ?_
  rw [hc]
  exact stops_cons (not_alphaNumeric_of_whitespace (e.gap_ws c (by rw [hc]; exact List.mem_cons_self ..)))

theorem stops_value : Stops whitespaceChars (e.value ++ s) :=
  stops_append e.value_ne fun c hc hmem => e.value_head c hc (List.mem_cons_of_mem _ hmem)

theorem unique {e' : OptionText} {s' : ByteString} (h : e.text ++ s = e'.text ++ s') : e = e' ∧ s = s' := by
  rw [text_append, text_append] at h
  obtain ⟨hlead, h⟩ := run_unique h e.lead_ws stops_key e'.lead_ws stops_key
  obtain ⟨hkey, h⟩ := run_unique (List.cons.inj h).2 e.key_alphaNumeric stops_gap e'.key_alphaNumeric stops_gap
  obtain ⟨hgap, h⟩ := run_unique h e.gap_ws stops_value e'.gap_ws stops_value
  have hread := readValue_append e.value_read s
  rw [h, readValue_append e'.value_read s'] at hread
  obtain ⟨hpieces, rfl⟩ := Prod.mk.inj (Option.some.inj hread)
  have hvalue := List.append_cancel_right h
  exact ⟨OptionText.ext hlead hkey hgap hvalue hpieces.symm, rfl⟩

end OptionText

end OptionParser
end UdfRunner
