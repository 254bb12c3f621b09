import UdfRunner.ScriptOptions.OptionText

/-!
# What the parser of a line does

The parse table written out, and what the parser does in each of its states. The numbers of states and rules
are those of `table` and `ruleInfos`.
-/

namespace UdfRunner
namespace OptionParser
open Ctpg

/-! ### The parse table -/

def shiftOver (n k : Nat) : TableEntry := { kind := .shift, shift := some n, reduce := some k }
def accept (n : Nat) : TableEntry := { kind := .success, reduce := some n }

def row (l : List (Nat × TableEntry)) : List TableEntry := (List.range 15).map fun i => (l.lookup i).getD error

/-- A state in which a rule ends, before any of the first terms. -/
def reducing (k terms : Nat) : List TableEntry := row ((List.range terms).map fun i => (i + 6, reduceBy k))

def table : ParseTable := [
  row [(0, shiftTo 1), (2, shiftTo 3), (3, shiftTo 10), (4, shiftTo 2), (6, shiftTo 19), (7, shiftTo 6),
    (8, shiftTo 7), (9, shiftTo 5), (10, shiftTo 8), (11, shiftTo 4), (12, shiftTo 9)],
  row [(13, accept 30)],
  row [(6, shiftTo 16), (7, shiftTo 17), (8, shiftTo 18), (9, shiftTo 14), (10, shiftTo 15),
    (11, shiftTo 12), (12, shiftTo 13), (13, reduceBy 0)],
  row [(3, shiftTo 20), (4, shiftTo 11), (6, shiftTo 19), (7, shiftTo 6), (8, shiftTo 7), (9, shiftTo 5),
    (10, shiftTo 8), (11, shiftTo 4), (12, shiftTo 9), (13, reduceBy 2)],
  reducing 17 8,
  row ((6, shiftOver 22 18) :: (List.range 7).map fun i => (i + 7, reduceBy 18)),
  reducing 19 8,
  reducing 20 8,
  reducing 21 8,
  reducing 22 8,
  reducing 13 8,
  row [(6, shiftTo 16), (7, shiftTo 17), (8, shiftTo 18), (9, shiftTo 14), (10, shiftTo 15),
    (11, shiftTo 12), (12, shiftTo 13), (13, reduceBy 1)],
  reducing 23 8,
  reducing 24 8,
  reducing 25 8,
  reducing 26 8,
  reducing 27 8,
  reducing 28 8,
  reducing 29 8,
  row [(11, shiftTo 21)],
  reducing 14 8,
  row [(9, shiftTo 23)],
  row [(11, shiftTo 24)],
  row [(1, shiftTo 25), (7, shiftTo 30), (8, shiftTo 29), (11, shiftTo 27), (12, shiftTo 28)],
  row [(9, shiftTo 26)],
  row [(6, shiftTo 36), (7, shiftTo 35), (8, shiftTo 34), (9, shiftTo 38), (10, shiftTo 31),
    (11, shiftTo 37), (12, shiftTo 33)],
  row [(1, shiftTo 32), (7, shiftTo 30), (8, shiftTo 29), (11, shiftTo 27), (12, shiftTo 28)],
  reducing 3 7,
  reducing 4 7,
  reducing 5 7,
  reducing 6 7,
  reducing 15 8,
  row [(6, shiftTo 36), (7, shiftTo 35), (8, shiftTo 34), (9, shiftTo 38), (10, shiftTo 39),
    (11, shiftTo 37), (12, shiftTo 33)],
  reducing 7 7,
  reducing 8 7,
  reducing 9 7,
  reducing 10 7,
  reducing 11 7,
  reducing 12 7,
  reducing 16 8]

def ruleInfos : List RuleInfo :=
  [⟨0, 0, 1⟩, ⟨0, 1, 2⟩, ⟨0, 2, 1⟩, ⟨1, 7, 1⟩, ⟨1, 8, 1⟩, ⟨1, 9, 1⟩, ⟨1, 10, 1⟩, ⟨1, 11, 2⟩,
    ⟨1, 12, 2⟩, ⟨1, 13, 2⟩,
    ⟨1, 14, 2⟩, ⟨1, 15, 2⟩, ⟨1, 16, 2⟩, ⟨2, 3, 1⟩, ⟨2, 4, 2⟩, ⟨3, 5, 5⟩, ⟨3, 6, 6⟩, ⟨4, 17, 1⟩,
    ⟨4, 18, 1⟩, ⟨4, 19, 1⟩,
    ⟨4, 20, 1⟩, ⟨4, 21, 1⟩, ⟨4, 22, 1⟩, ⟨4, 23, 2⟩, ⟨4, 24, 2⟩, ⟨4, 25, 2⟩, ⟨4, 26, 2⟩, ⟨4, 27, 2⟩,
    ⟨4, 28, 2⟩, ⟨4, 29, 2⟩,
    ⟨5, 30, 1⟩]

theorem parseTable_eq : grammar.parseTable = table := by decide +kernel

theorem ruleInfos_eq : grammar.ruleInfos = ruleInfos := by decide +kernel

def entry (q t : Nat) : TableEntry := (table.getD q []).getD (6 + t) {}
def goto (q nt : Nat) : Option Nat := ((table.getD q []).getD nt {}).shift

theorem entry_eq (q t : Nat) : optionParser.entry q t = entry q t := by
  rw [Parser.entry, show optionParser.grammar.parseTable = table from parseTable_eq]
  rfl

theorem goto_eq (q nt : Nat) : optionParser.goto q nt = goto q nt := by
  rw [Parser.goto, show optionParser.grammar.parseTable = table from parseTable_eq]
  rfl

theorem entry_recovery (q : Nat) :
    (optionParser.entry q optionParser.grammar.errorRecoveryTokenIdx).kind = .error := by
  rw [entry_eq, show optionParser.grammar.errorRecoveryTokenIdx = 8 from rfl]
  by_cases hq : q < 40
  · exact (show ∀ q < 40, (entry q 8).kind = .error by decide) q hq
  · have hrow : table.getD q [] = [] := by
      rw [List.getD_eq_getElem?_getD, List.getElem?_eq_none (show table.length ≤ q from Nat.le_of_not_lt hq)]
      rfl
    rw [entry, hrow]
    rfl

/-! ### Terms -/

theorem token_cases {P : ByteString → Prop} (nil : P [])
    (ws : ∀ w s, w ≠ [] → (∀ c ∈ w, c ∈ whitespaceChars) → Stops whitespaceChars s → P (w ++ s))
    (alnum : ∀ w s, w ≠ [] → (∀ c ∈ w, c ∈ alphaNumericChars) → Stops alphaNumericChars s → P (w ++ s))
    (esc : ∀ d s, d ∈ escapeChars → P ([backslash, d] ++ s))
    (wsesc : ∀ d s, d ∈ whitespaceEscapeChars → P ([backslash, d] ++ s))
    (char : ∀ c s, c ∉ whitespaceChars → c ∉ alphaNumericChars →
      (c = backslash → Stops (escapeChars ++ whitespaceEscapeChars) s) → P ([c] ++ s))
    (s : ByteString) : P s := by
  rcases s with _ | ⟨c, s⟩
  · exact nil
  by_cases hws : c ∈ whitespaceChars
  · obtain ⟨w, s', heq, hw, hs⟩ := exists_run whitespaceChars (c :: s)
    rw [heq]
    refine ws w s' (fun hnil => ?_) hw hs
    rw [hnil, List.nil_append] at heq
    exact hs c (by rw [← heq]; rfl) hws
  by_cases han : c ∈ alphaNumericChars
  · obtain ⟨w, s', heq, hw, hs⟩ := exists_run alphaNumericChars (c :: s)
    rw [heq]
    refine alnum w s' (fun hnil => ?_) hw hs
    rw [hnil, List.nil_append] at heq
    exact hs c (by rw [← heq]; rfl) han
  rcases s with _ | ⟨d, s⟩
  · exact char c [] hws han fun _ => nofun
  by_cases hb : c = backslash
  · subst hb
    by_cases hesc : d ∈ escapeChars
    · exact esc d s hesc
    by_cases hwsesc : d ∈ whitespaceEscapeChars
    · exact wsesc d s hwsesc
    · exact char _ (d :: s) hws han fun _ => stops_cons fun h => (List.mem_append.mp h).elim hesc hwsesc
  · exact char c (d :: s) hws han fun h => absurd h hb

section
variable {q q₀ q' t n m k l r b : Nat} {cs cs₀ : List Nat} {vs : List OptionNode} {v : OptionNode}
  {sp : SourcePoint} {w s : ByteString} {R : ParseResult OptionNode → Prop}

theorem sees_nil : optionParser.Sees [] 7 0 := rfl

theorem sees_of_lexes (hw : w ≠ []) (h : Lexes w s t) : optionParser.Sees (w ++ s) t w.length := by
  rw [Parser.Sees, if_neg (List.append_ne_nil_of_left_ne_nil hw s)]
  exact h

theorem exists_lexes (hs : s ≠ []) : ∃ w s' t, s = w ++ s' ∧ w ≠ [] ∧ t < 7 ∧ Lexes w s' t := by
  revert hs
  refine token_cases (P := fun s => s ≠ [] → ∃ w s' t, s = w ++ s' ∧ w ≠ [] ∧ t < 7 ∧ Lexes w s' t)
    (absurd rfl) ?_ ?_ ?_ ?_ ?_ s
  · exact fun w s hne hw hs _ => ⟨w, s, 3, rfl, hne, by decide, lexes_whitespaces hne hw hs⟩
  · exact fun w s hne hw hs _ => ⟨w, s, 5, rfl, hne, by decide, lexes_alphaNumeric hne hw hs⟩
  · exact fun d s hd _ => ⟨_, s, 1, rfl, List.cons_ne_nil _ _, by decide, lexes_escapeSeq s hd⟩
  · exact fun d s hd _ => ⟨_, s, 2, rfl, List.cons_ne_nil _ _, by decide, lexes_whitespaceEscapeSeq s hd⟩
  · intro c s hws han hb _
    exact ⟨_, s, _, rfl, List.cons_ne_nil _ _, by split_ifs <;> decide, lexes_char hws han hb⟩

theorem exists_sees (s : ByteString) : ∃ t n, t < 8 ∧ optionParser.Sees s t n := by
  by_cases hs : s = []
  · exact ⟨7, 0, by decide, hs ▸ sees_nil⟩
  · obtain ⟨w, s', t, rfl, hw, ht, h⟩ := exists_lexes hs
    exact ⟨t, w.length, by omega, sees_of_lexes hw h⟩

theorem sees_unique {t' n' : Nat} (h : optionParser.Sees s t n) (h' : optionParser.Sees s t' n') : t = t' :=
  congrArg Prod.fst (Option.some.inj (h.symm.trans h'))

theorem exists_sees_ne {l : List UInt8} {t₀ : Nat}
    (hl : l = whitespaceChars ∧ t₀ = 3 ∨ l = alphaNumericChars ∧ t₀ = 5 ∨ l = [percent] ∧ t₀ = 0)
    (hs : Stops l s) : ∃ t n, t < 8 ∧ t ≠ t₀ ∧ optionParser.Sees s t n := by
  have hrun : ∀ {w s : ByteString}, Stops l (w ++ s) → w ≠ [] → ¬∀ c ∈ w, c ∈ l := by
    intro w s hs hne hw
    obtain ⟨c, w, rfl⟩ := List.exists_cons_of_ne_nil hne
    exact hs c rfl (hw c (List.mem_cons_self ..))
  have hterm : ∀ t ∈ [1, 2, 4, 6, 7], t ≠ t₀ := by
    rcases hl with ⟨-, rfl⟩ | ⟨-, rfl⟩ | ⟨-, rfl⟩ <;> decide
  revert hs
  refine token_cases (P := fun s => Stops l s → ∃ t n, t < 8 ∧ t ≠ t₀ ∧
    optionParser.Sees s t n) ?_ ?_ ?_ ?_ ?_ ?_ s
  · exact fun _ => ⟨7, 0, by decide, hterm 7 (by decide), sees_nil⟩
  · intro w s hne hw hs hstops
    refine ⟨3, _, by decide, ?_, sees_of_lexes hne (lexes_whitespaces hne hw hs)⟩
    rcases hl with ⟨rfl, -⟩ | ⟨-, rfl⟩ | ⟨-, rfl⟩
    · exact absurd hw (hrun hstops hne)
    · decide
    · decide
  · intro w s hne hw hs hstops
    refine ⟨5, _, by decide, ?_, sees_of_lexes hne (lexes_alphaNumeric hne hw hs)⟩
    rcases hl with ⟨-, rfl⟩ | ⟨rfl, -⟩ | ⟨-, rfl⟩
    · decide
    · exact absurd hw (hrun hstops hne)
    · decide
  · exact fun d s hd _ => ⟨1, _, by decide, hterm 1 (by decide),
      sees_of_lexes (List.cons_ne_nil _ _) (lexes_escapeSeq s hd)⟩
  · exact fun d s hd _ => ⟨2, _, by decide, hterm 2 (by decide),
      sees_of_lexes (List.cons_ne_nil _ _) (lexes_whitespaceEscapeSeq s hd)⟩
  · intro c s hws han hb hstops
    refine ⟨_, _, ?_, ?_, sees_of_lexes (List.cons_ne_nil _ _) (lexes_char hws han hb)⟩
    · split_ifs <;> decide
    · split_ifs with hpercent
      · rcases hl with ⟨-, rfl⟩ | ⟨-, rfl⟩ | ⟨rfl, -⟩
        · decide
        · decide
        · exact absurd (by simp [hpercent]) (hstops c rfl)
      · exact hterm 4 (by decide)
      · exact hterm 6 (by decide)

/-! ### Rounds -/

abbrev parsing (cs : List Nat) (vs : List OptionNode) (sp : SourcePoint) (s : ByteString) :
    ParseState OptionNode := Parser.parsing cs vs sp s

theorem ends_shift (hw : w ≠ []) (h : Lexes w s t)
    (he : (entry q t).kind = .shift ∧ (entry q t).shift = some q')
    (hrest : optionParser.Ends b (parsing (q' :: q :: cs) (.term w sp :: vs) (sp.update w) s) R) :
    optionParser.Ends (b + 1) (parsing (q :: cs) vs sp (w ++ s)) R := by
  have hentry : optionParser.entry q t =
      { kind := .shift, shift := some q', reduce := (entry q t).reduce } := by
    rw [entry_eq, ← he.1, ← he.2]
  have ht : t ≠ optionParser.grammar.errorRecoveryTokenIdx := by
    rintro rfl
    have herror := entry_recovery q
    rw [hentry] at herror
    cases herror
  exact hrest.step (Parser.step_shift (sees_of_lexes hw h) ht hentry)

theorem ends_reduce (h : optionParser.Sees s t n) (he : entry q t = reduceBy k)
    (hk : ruleInfos[k]? = some ⟨l, r, m⟩) (hcs : (q :: cs).drop m = q₀ :: cs₀) (hgoto : goto q₀ l = some q')
    (hv : optionParser.reductor r (vs.take m).reverse = some v)
    (hrest : optionParser.Ends b (parsing (q' :: q₀ :: cs₀) (v :: vs.drop m) sp s) R) :
    optionParser.Ends (b + 1) (parsing (q :: cs) vs sp s) R := by
  refine hrest.step (Parser.step_reduce h (by rw [entry_eq, he]; rfl) ?_ hcs (by rw [goto_eq, hgoto]) hv)
  rw [show optionParser.grammar.ruleInfos = ruleInfos from ruleInfos_eq, hk]

theorem ends_reduce_any (he : ∀ t < 8, entry q t = reduceBy k) (hk : ruleInfos[k]? = some ⟨l, r, m⟩)
    (hcs : (q :: cs).drop m = q₀ :: cs₀) (hgoto : goto q₀ l = some q')
    (hv : optionParser.reductor r (vs.take m).reverse = some v)
    (hrest : optionParser.Ends b (parsing (q' :: q₀ :: cs₀) (v :: vs.drop m) sp s) R) :
    optionParser.Ends (b + 1) (parsing (q :: cs) vs sp s) R := by
  obtain ⟨t, n, ht, h⟩ := exists_sees s
  exact ends_reduce h (he t ht) hk hcs hgoto hv hrest

def Rejected (r : ParseResult OptionNode) : Prop := ∃ errorStream, r = .noValue errorStream

theorem ends_rejected (h : optionParser.Sees s t n) (he : (entry q t).kind = .error) :
    optionParser.Ends (cs.length + 2) (parsing (q :: cs) vs sp s) Rejected :=
  Parser.ends_error entry_recovery h (by rw [entry_eq, he])

end

end OptionParser
end UdfRunner
