import UdfRunner.Ctpg.Regex
import UdfRunner.ScriptOptions.OptionLexer

/-!
# The automaton of the option parser

`lexerSm` is what the builder makes of the seven terms, the states that merging has left behind with it.
`optionLexer_built`: on every line the parser with this automaton does what the parser does whose lexer takes
the longest match.
-/

namespace UdfRunner
namespace OptionParser
open Ctpg

def termData : List TermData :=
  [.char percent, .regex (str "\\\\;|\\\\n|\\\\r|\\\\\\\\"), .regex (str "\\\\ |\\\\t|\\\\f|\\\\v"),
    .regex (str "[ \\x09\\x0c\\x0b]+"), .char semicolon, .regex (str "[0-9a-zA-Z_]+"), .regex (str "[^;]")]

def charsOf (l : List UInt8) : CharSubset := l.foldl (fun s c => s.set c.toNat) 0

/-- A transition over one character. -/
def onChar (c : Char) (target : Nat) : CharSubset × Nat := (charsOf [UInt8.ofNat c.toNat], target)

/-- A state in which terms end. -/
def recognizing (terms : List Nat) (transitions : List (CharSubset × Nat)) : DfaState :=
  { endState := true, conflictedRecognition := terms, transitions }

/-- A state that has been merged into another. -/
def merged (transitions : List (CharSubset × Nat)) : DfaState := { unreachable := true, transitions }

/-- What begins none of the other terms. -/
def otherChars : List UInt8 :=
  notSemicolonChars.filter fun c => c ≠ percent ∧ c ≠ backslash ∧ c ∉ whitespaceChars ∧ c ∉ alphaNumericChars

def lexerSm : Dfa := [
  { startState := true, transitions := [onChar '%' 1, onChar '\\' 3, (charsOf whitespaceChars, 35), onChar ';' 37,
    (charsOf alphaNumericChars, 39), (charsOf otherChars, 41)] },
  recognizing [0, 6] [],
  -- the escape sequences
  merged [onChar '\\' 3],
  recognizing [6] [onChar ';' 5, onChar '\\' 17, onChar 'n' 9, onChar 'r' 13, onChar ' ' 21, onChar 'f' 29,
    onChar 't' 25, onChar 'v' 33],
  merged [onChar ';' 5], recognizing [1] [],
  merged [onChar '\\' 7], merged [onChar 'n' 9, onChar '\\' 17, onChar 'r' 13],
  merged [onChar 'n' 9], recognizing [1] [],
  merged [onChar '\\' 11], merged [onChar 'r' 13, onChar '\\' 17],
  merged [onChar 'r' 13], recognizing [1] [],
  merged [onChar '\\' 15], merged [onChar '\\' 17],
  merged [onChar '\\' 17], recognizing [1] [],
  -- the escaped white space
  merged [onChar '\\' 19], merged [onChar ' ' 21, onChar 'f' 29, onChar 't' 25, onChar 'v' 33],
  merged [onChar ' ' 21], recognizing [2] [],
  merged [onChar '\\' 23], merged [onChar 't' 25, onChar 'f' 29, onChar 'v' 33],
  merged [onChar 't' 25], recognizing [2] [],
  merged [onChar '\\' 27], merged [onChar 'f' 29, onChar 'v' 33],
  merged [onChar 'f' 29], recognizing [2] [],
  merged [onChar '\\' 31], merged [onChar 'v' 33],
  merged [onChar 'v' 33], recognizing [2] [],
  -- the rest
  merged [(charsOf whitespaceChars, 35)], recognizing [3, 6, 6, 6] [(charsOf whitespaceChars, 35)],
  merged [onChar ';' 37], recognizing [4] [],
  merged [(charsOf alphaNumericChars, 39)], recognizing [5, 6, 6, 6] [(charsOf alphaNumericChars, 39)],
  merged [(charsOf notSemicolonChars, 41)], recognizing [6] []]

theorem createLexer_eq : createLexer termData = some lexerSm := by decide +kernel

/-! ### Its words -/

def firstState (c : UInt8) : Nat :=
  if c = percent then 1
  else if c = semicolon then 37
  else if c = backslash then 3
  else if c ∈ whitespaceChars then 35
  else if c ∈ alphaNumericChars then 39
  else 41

theorem testBit_charsOf (l : List UInt8) (c : UInt8) : (charsOf l).testBit c.toNat = decide (c ∈ l) := by
  have hset : ∀ (s : CharSubset) (d : UInt8),
      (s.set d.toNat).testBit c.toNat = (s.testBit c.toNat || decide (c = d)) := by
    intro s d
    rw [CharSubset.set, Nat.one_shiftLeft, Nat.testBit_or, Nat.testBit_two_pow]
    simp only [UInt8.toNat_inj, eq_comm]
  have hfold : ∀ s : CharSubset, (l.foldl (fun s d => s.set d.toNat) s).testBit c.toNat =
      (s.testBit c.toNat || decide (c ∈ l)) := by
    induction l with
    | nil => simp
    | cons d l ih =>
      intro s
      rw [List.foldl_cons, ih, hset]
      simp [Bool.or_assoc]
  simpa [charsOf] using hfold 0

theorem transition_first (c : UInt8) : (lexerSm.state 0).transition c.toNat = some (firstState c) := by
  have hother : c ∈ otherChars ↔
      c ≠ semicolon ∧ c ≠ percent ∧ c ≠ backslash ∧ c ∉ whitespaceChars ∧ c ∉ alphaNumericChars := by
    rw [otherChars, List.mem_filter, mem_notSemicolonChars]
    simp
  simp only [lexerSm, Dfa.state, List.getD_cons_zero, DfaState.transition, List.find?_cons, onChar, testBit_charsOf,
    List.mem_singleton, firstState, show UInt8.ofNat '%'.toNat = percent from rfl,
    show UInt8.ofNat '\\'.toNat = backslash from rfl, show UInt8.ofNat ';'.toNat = semicolon from rfl]
  by_cases hp : c = percent
  · simp [hp]
  by_cases hs : c = semicolon
  · subst hs
    rfl
  by_cases hb : c = backslash
  · subst hb
    rfl
  by_cases hw : c ∈ whitespaceChars
  · simp [hp, hs, hb, hw]
  by_cases ha : c ∈ alphaNumericChars
  · simp [hp, hs, hb, hw, ha]
  · simp [hp, hs, hb, hw, ha, hother]

theorem transition_whitespaces (c : UInt8) :
    (lexerSm.state 35).transition c.toNat = if c ∈ whitespaceChars then some 35 else none := by
  rw [show lexerSm.state 35 = recognizing [3, 6, 6, 6] [(charsOf whitespaceChars, 35)] from rfl]
  by_cases hc : c ∈ whitespaceChars <;> simp [recognizing, DfaState.transition, testBit_charsOf, hc]

theorem transition_alphaNumeric (c : UInt8) :
    (lexerSm.state 39).transition c.toNat = if c ∈ alphaNumericChars then some 39 else none := by
  rw [show lexerSm.state 39 = recognizing [5, 6, 6, 6] [(charsOf alphaNumericChars, 39)] from rfl]
  by_cases hc : c ∈ alphaNumericChars <;> simp [recognizing, DfaState.transition, testBit_charsOf, hc]

theorem transition_escapeChars : ∀ d ∈ escapeChars,
    ((lexerSm.state 3).transition d.toNat).map lexerSm.state = some (recognizing [1] []) := by decide

theorem transition_whitespaceEscapeChars : ∀ d ∈ whitespaceEscapeChars,
    ((lexerSm.state 3).transition d.toNat).map lexerSm.state = some (recognizing [2] []) := by decide

theorem transition_noPair {d : UInt8} (hd : d ∉ escapeChars) (hd' : d ∉ whitespaceEscapeChars) :
    (lexerSm.state 3).transition d.toNat = none := by
  have hchars : ∀ c ∈ str ";\\nr ftv", d ≠ c := by
    have hall : ∀ c ∈ str ";\\nr ftv", c ∈ escapeChars ∨ c ∈ whitespaceEscapeChars := by decide
    rintro c hc rfl
    exact (hall d hc).elim hd hd'
  have htransitions : (lexerSm.state 3).transitions.map Prod.fst = (str ";\\nr ftv").map fun c => charsOf [c] := by
    decide
  rw [DfaState.transition, Option.map_eq_none_iff, List.find?_eq_none]
  intro p hp htest
  have hfst := List.mem_map_of_mem (f := Prod.fst) hp
  rw [htransitions] at hfst
  obtain ⟨c, hc, hcp⟩ := List.mem_map.mp hfst
  rw [← hcp, testBit_charsOf] at htest
  exact hchars c hc (by simpa using htest)

theorem term_leaf {q : Nat} (h : (lexerSm.state q).transitions = []) (w : ByteString) :
    lexerSm.term q w = if w = [] then (lexerSm.state q).conflictedRecognition.head? else none := by
  cases w with
  | nil => rfl
  | cons c w =>
    rw [if_neg (List.cons_ne_nil c w)]
    refine Dfa.term_stuck ?_ w
    rw [DfaState.transition, h]
    rfl

theorem term_run {q t : Nat} {l : List UInt8} (hrec : (lexerSm.state q).conflictedRecognition.head? = some t)
    (h : ∀ c : UInt8, (lexerSm.state q).transition c.toNat = if c ∈ l then some q else none) (w : ByteString) :
    lexerSm.term q w = if ∀ c ∈ w, c ∈ l then some t else none := by
  induction w with
  | nil => simpa [Dfa.term] using hrec
  | cons c w ih =>
    by_cases hc : c ∈ l
    · rw [Dfa.term_cons (by rw [h, if_pos hc]), ih]
      simp [hc]
    · rw [Dfa.term_stuck (by rw [h, if_neg hc])]
      simp [hc]

theorem term_backslash (w : ByteString) : lexerSm.term 3 w =
    match w with
    | [] => some 6
    | [d] => if d ∈ escapeChars then some 1 else if d ∈ whitespaceEscapeChars then some 2 else none
    | _ => none := by
  rcases w with _ | ⟨d, w⟩
  · rfl
  have hpair : ∀ t, ((lexerSm.state 3).transition d.toNat).map lexerSm.state = some (recognizing [t] []) →
      lexerSm.term 3 (d :: w) = if w = [] then some t else none := by
    intro t ht
    obtain ⟨tr, htr, hstate⟩ := Option.map_eq_some_iff.mp ht
    rw [Dfa.term_cons htr, term_leaf (by rw [hstate]; rfl), hstate]
    rfl
  by_cases hd : d ∈ escapeChars
  · rw [hpair 1 (transition_escapeChars d hd)]
    cases w <;> simp [hd]
  by_cases hd' : d ∈ whitespaceEscapeChars
  · rw [hpair 2 (transition_whitespaceEscapeChars d hd')]
    cases w <;> simp [hd, hd']
  · rw [Dfa.term_stuck (transition_noPair hd hd')]
    cases w <;> simp [hd, hd']

/-- The words of the automaton are those of the terms, the first of several. -/
theorem term_eq (w : ByteString) : lexerSm.term 0 w = patterns.findIdx? (·.rmatch w) := by
  rcases w with _ | ⟨c, w⟩
  · have hrun : ∀ l : List UInt8, (Pattern.atLeastOnce (.charSubset l)).rmatch [] = false := by
      intro l
      rw [Bool.eq_false_iff, Ne, Pattern.atLeastOnce, RegularExpression.mul_rmatch_iff]
      rintro ⟨t, u, htu, ht, -⟩
      obtain ⟨d, -, rfl⟩ := Pattern.charSubset_rmatch.mp ht
      cases htu
    have hchar : (Pattern.charSubset notSemicolonChars).rmatch [] = false := by
      rw [Bool.eq_false_iff, Ne, Pattern.charSubset_rmatch]
      simp
    rw [findIdx_patterns, hrun, hrun, hchar]
    simp [mem_escapeSeqs, mem_whitespaceEscapeSeqs, Dfa.term, lexerSm, Dfa.state]
  have hpair : ∀ l : List UInt8, (∃ d ∈ l, c :: w = [backslash, d]) ↔ c = backslash ∧ ∃ d ∈ l, w = [d] := by
    intro l
    simp only [List.cons.injEq]
    tauto
  have hchar : (Pattern.charSubset notSemicolonChars).rmatch (c :: w) ↔ c ≠ semicolon ∧ w = [] := by
    rw [Pattern.charSubset_rmatch]
    simp only [mem_notSemicolonChars, List.cons.injEq]
    constructor
    · rintro ⟨d, hd, rfl, hw⟩
      exact ⟨hd, hw⟩
    · rintro ⟨hc, hw⟩
      exact ⟨c, hc, rfl, hw⟩
  have hother : ∀ d, c ≠ d → c :: w ≠ [d] := by
    rintro d hd ⟨⟩
    exact hd rfl
  simp only [findIdx_patterns, Dfa.term_cons (transition_first c), firstState, mem_escapeSeqs, mem_whitespaceEscapeSeqs,
    hpair, Pattern.atLeastOnce_rmatch, hchar]
  -- which class the first character is of
  by_cases hp : c = percent
  · subst hp
    rw [if_pos rfl, term_leaf rfl]
    have hclass :
        percent ≠ backslash ∧ percent ∉ whitespaceChars ∧ percent ≠ semicolon ∧ percent ∉ alphaNumericChars := by
      decide
    by_cases hw : w = [] <;> simp [hclass, hw, lexerSm, Dfa.state, recognizing]
  by_cases hs : c = semicolon
  · subst hs
    rw [if_neg hp, if_pos rfl, term_leaf rfl]
    have hclass : semicolon ≠ backslash ∧ semicolon ∉ whitespaceChars ∧ semicolon ∉ alphaNumericChars := by decide
    by_cases hw : w = [] <;> simp [hclass, hw, hp, lexerSm, Dfa.state, recognizing]
  by_cases hb : c = backslash
  · subst hb
    rw [if_neg hp, if_neg hs, if_pos rfl, term_backslash]
    have hclass : backslash ∉ whitespaceChars ∧ backslash ∉ alphaNumericChars := by decide
    rcases w with _ | ⟨d, _ | ⟨e, w⟩⟩ <;> simp [hclass, hp, hs]
  have hrest : ∀ l : List UInt8, ¬(c = backslash ∧ ∃ d ∈ l, w = [d]) := fun _ h => hb h.1
  rw [if_neg hp, if_neg hs, if_neg hb, if_neg (hother _ hp), if_neg (hrest _), if_neg (hrest _)]
  by_cases hws : c ∈ whitespaceChars
  · have han : c ∉ alphaNumericChars := not_alphaNumeric_of_whitespace hws
    rw [if_pos hws, term_run rfl transition_whitespaces]
    by_cases hw : ∀ d ∈ w, d ∈ whitespaceChars
    · rw [if_pos hw, if_pos ⟨hws, hw⟩]
    · have hne : w ≠ [] := by
        rintro rfl
        exact hw (by simp)
      rw [if_neg hw, if_neg fun h => hw h.2, if_neg (hother _ hs), if_neg fun h => han h.1, if_neg fun h => hne h.2]
  have hnws : ¬(c ∈ whitespaceChars ∧ ∀ d ∈ w, d ∈ whitespaceChars) := fun h => hws h.1
  rw [if_neg hws, if_neg hnws, if_neg (hother _ hs)]
  by_cases han : c ∈ alphaNumericChars
  · rw [if_pos han, term_run rfl transition_alphaNumeric]
    by_cases hw : ∀ d ∈ w, d ∈ alphaNumericChars
    · rw [if_pos hw, if_pos ⟨han, hw⟩]
    · have hne : w ≠ [] := by
        rintro rfl
        exact hw (by simp)
      rw [if_neg hw, if_neg fun h => hw h.2, if_neg fun h => hne h.2]
  have hnan : ¬(c ∈ alphaNumericChars ∧ ∀ d ∈ w, d ∈ alphaNumericChars) := fun h => han h.1
  rw [if_neg han, if_neg hnan, term_leaf rfl]
  by_cases hw : w = []
  · rw [if_pos hw, if_pos ⟨hs, hw⟩]
    rfl
  · rw [if_neg hw, if_neg fun h => hw h.2]

/-- The parser with the lexer that `createLexer` makes of the patterns. -/
theorem optionLexer_built : ∃ sm, createLexer termData = some sm ∧
    (∀ input, sm.dfaMatch 0 0 none input = dfaMatch patterns 0 none input) ∧
    ∀ fuel line, optionParser.parseWith (sm.dfaMatch 0 0 none) fuel line = optionParser.parse fuel line := by
  have hmatch : lexerSm.dfaMatch 0 0 none = dfaMatch patterns 0 none :=
    funext fun input => Dfa.dfaMatch_eq term_eq 0 none input
  refine ⟨lexerSm, createLexer_eq, congrFun hmatch, fun fuel line => ?_⟩
  rw [hmatch]
  rfl

end OptionParser
end UdfRunner
