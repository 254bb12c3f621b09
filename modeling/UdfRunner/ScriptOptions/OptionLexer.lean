import UdfRunner.Ctpg.ParserLaws
import UdfRunner.ScriptOptions.OptionGrammar

/-!
# The terms of a line

What the lexer takes from the front of a line, by what the line begins with.
-/

namespace UdfRunner
namespace OptionParser
open Ctpg

/-! ### Characters -/

def escapeChars : List UInt8 := str ";nr\\"
def whitespaceEscapeChars : List UInt8 := str " tfv"

theorem mem_notSemicolonChars {c : UInt8} : c ∈ notSemicolonChars ↔ c ≠ semicolon := by
  have hc : c ∈ (List.range 256).map UInt8.ofNat :=
    List.mem_map.mpr ⟨c.toNat, List.mem_range.mpr c.toNat_lt, UInt8.ofNat_toNat⟩
  simp [notSemicolonChars, List.mem_filter, hc]

theorem mem_escapeSeqs {w : ByteString} : w ∈ escapeSeqs ↔ ∃ d ∈ escapeChars, w = [backslash, d] := by
  rw [show escapeSeqs = escapeChars.map fun d => [backslash, d] by decide, List.mem_map]
  simp only [eq_comm]

theorem mem_whitespaceEscapeSeqs {w : ByteString} :
    w ∈ whitespaceEscapeSeqs ↔ ∃ d ∈ whitespaceEscapeChars, w = [backslash, d] := by
  rw [show whitespaceEscapeSeqs = whitespaceEscapeChars.map fun d => [backslash, d] by decide, List.mem_map]
  simp only [eq_comm]

theorem not_alphaNumeric_of_whitespace {c : UInt8} : c ∈ whitespaceChars → c ∉ alphaNumericChars := by
  have h : ∀ c ∈ whitespaceChars, c ∉ alphaNumericChars := by decide
  exact h c

theorem ne_of_whitespace {c : UInt8} :
    c ∈ whitespaceChars → c ≠ percent ∧ c ≠ semicolon ∧ c ≠ backslash := by
  have h : ∀ c ∈ whitespaceChars, c ≠ percent ∧ c ≠ semicolon ∧ c ≠ backslash := by decide
  exact h c

theorem ne_of_alphaNumeric {c : UInt8} :
    c ∈ alphaNumericChars → c ≠ percent ∧ c ≠ semicolon ∧ c ≠ backslash := by
  have h : ∀ c ∈ alphaNumericChars, c ≠ percent ∧ c ≠ semicolon ∧ c ≠ backslash := by decide
  exact h c

/-! ### What a term recognizes -/

/-- No term but a pair or a run goes beyond its first character. -/
theorem not_recognized {c d : UInt8} {u : ByteString}
    (hpair : c = backslash → d ∈ escapeChars ∨ d ∈ whitespaceEscapeChars → u ≠ [])
    (hws : ¬∀ x ∈ c :: d :: u, x ∈ whitespaceChars) (han : ¬∀ x ∈ c :: d :: u, x ∈ alphaNumericChars) :
    ∀ p ∈ patterns, p.rmatch (c :: d :: u) = false := by
  simp only [patterns, List.forall_mem_cons, List.not_mem_nil, false_implies, implies_true, and_true,
    Bool.eq_false_iff, Ne, Pattern.literal_rmatch, Pattern.alternatives_rmatch, Pattern.charSubset_rmatch,
    Pattern.atLeastOnce_rmatch, mem_escapeSeqs, mem_whitespaceEscapeSeqs]
  have hpairs : ∀ e, e ∈ escapeChars ∨ e ∈ whitespaceEscapeChars → ¬c :: d :: u = [backslash, e] := by
    rintro e he heq
    obtain ⟨rfl, rfl, rfl⟩ : c = backslash ∧ d = e ∧ u = [] := by simpa using heq
    exact hpair rfl he rfl
  simp only [List.forall_mem_cons] at hws han
  refine ⟨by simp, fun ⟨e, he, heq⟩ => hpairs e (.inl he) heq, fun ⟨e, he, heq⟩ => hpairs e (.inr he) heq,
    hws, by simp, han, by simp⟩

theorem findIdx_patterns (w : ByteString) :
    patterns.findIdx? (·.rmatch w) =
      if w = [percent] then some 0
      else if w ∈ escapeSeqs then some 1
      else if w ∈ whitespaceEscapeSeqs then some 2
      else if (Pattern.atLeastOnce (.charSubset whitespaceChars)).rmatch w then some 3
      else if w = [semicolon] then some 4
      else if (Pattern.atLeastOnce (.charSubset alphaNumericChars)).rmatch w then some 5
      else if (Pattern.charSubset notSemicolonChars).rmatch w then some 6
      else none := by
  simp only [patterns, List.findIdx?_cons, List.findIdx?_nil, Pattern.literal_rmatch,
    Pattern.alternatives_rmatch]
  split_ifs <;> rfl

/-- Which term takes the whole of `w` when no longer prefix of `w ++ s` is one. -/
theorem dfaMatch_append {w s : ByteString} {t : Nat} (ht : patterns.findIdx? (·.rmatch w) = some t)
    (hlast : ∀ d u, d :: u <+: s → ∀ p ∈ patterns, p.rmatch (w ++ d :: u) = false) :
    dfaMatch patterns 0 none (w ++ s) = some (t, w.length) := by
  rw [dfaMatch_eq (k := w.length) (t := t) (by simp) (by rwa [List.take_left])]
  · rw [Nat.zero_add]
  · intro j hwj hj p hp
    obtain ⟨i, rfl⟩ := Nat.exists_eq_add_of_lt hwj
    rw [List.length_append] at hj
    obtain ⟨d, s, rfl⟩ := List.exists_cons_of_length_pos (l := s) (by omega)
    rw [Nat.add_assoc, List.take_length_add_append, List.take_succ_cons]
    exact hlast d _ (List.cons_prefix_cons.mpr ⟨rfl, List.take_prefix i s⟩) p hp

/-! ### Lexing -/

/-- The lexer at `w ++ s` takes `w` as the term `t`. -/
def Lexes (w s : ByteString) (t : Nat) : Prop := dfaMatch patterns 0 none (w ++ s) = some (t, w.length)

/-- No character of the class follows. -/
def Stops (l : List UInt8) (s : ByteString) : Prop := ∀ c ∈ s.head?, c ∉ l

theorem lexes_whitespaces {w s : ByteString} (hne : w ≠ []) (hw : ∀ c ∈ w, c ∈ whitespaceChars)
    (hs : Stops whitespaceChars s) : Lexes w s 3 := by
  obtain ⟨c, w, rfl⟩ := List.exists_cons_of_ne_nil hne
  have hc := hw c (List.mem_cons_self ..)
  apply dfaMatch_append
  · have hp : c :: w ≠ [percent] := by
      rintro ⟨⟩
      exact (ne_of_whitespace hc).1 rfl
    have hesc : ∀ d, c :: w ≠ [backslash, d] := by
      rintro d ⟨⟩
      exact (ne_of_whitespace hc).2.2 rfl
    rw [findIdx_patterns, if_neg hp, if_neg (by simp [mem_escapeSeqs, hesc]),
      if_neg (by simp [mem_whitespaceEscapeSeqs, hesc]),
      if_pos (Pattern.atLeastOnce_rmatch.mpr (List.forall_mem_cons.mp hw))]
  · rintro d u ⟨s', rfl⟩
    have hd : d ∉ whitespaceChars := hs d rfl
    rcases w with _ | ⟨e, w⟩
    all_goals
      refine not_recognized (fun hb => absurd hb (ne_of_whitespace hc).2.2) (fun h => hd (h d (by simp)))
        fun h => not_alphaNumeric_of_whitespace hc (h c (by simp))

theorem lexes_alphaNumeric {w s : ByteString} (hne : w ≠ []) (hw : ∀ c ∈ w, c ∈ alphaNumericChars)
    (hs : Stops alphaNumericChars s) : Lexes w s 5 := by
  obtain ⟨c, w, rfl⟩ := List.exists_cons_of_ne_nil hne
  have hc := hw c (List.mem_cons_self ..)
  have hcw : c ∉ whitespaceChars := fun h => not_alphaNumeric_of_whitespace h hc
  apply dfaMatch_append
  · have hp : c :: w ≠ [percent] := by
      rintro ⟨⟩
      exact (ne_of_alphaNumeric hc).1 rfl
    have hsemi : c :: w ≠ [semicolon] := by
      rintro ⟨⟩
      exact (ne_of_alphaNumeric hc).2.1 rfl
    have hesc : ∀ d, c :: w ≠ [backslash, d] := by
      rintro d ⟨⟩
      exact (ne_of_alphaNumeric hc).2.2 rfl
    rw [findIdx_patterns, if_neg hp, if_neg (by simp [mem_escapeSeqs, hesc]),
      if_neg (by simp [mem_whitespaceEscapeSeqs, hesc]),
      if_neg (fun h => hcw (Pattern.atLeastOnce_rmatch.mp h).1), if_neg hsemi,
      if_pos (Pattern.atLeastOnce_rmatch.mpr (List.forall_mem_cons.mp hw))]
  · rintro d u ⟨s', rfl⟩
    have hd : d ∉ alphaNumericChars := hs d rfl
    rcases w with _ | ⟨e, w⟩
    all_goals
      refine not_recognized (fun hb => absurd hb (ne_of_alphaNumeric hc).2.2) (fun h => hcw (h c (by simp)))
        fun h => hd (h d (by simp))

theorem not_recognized_backslash {d e : UInt8} {u : ByteString} :
    ∀ p ∈ patterns, p.rmatch (backslash :: d :: e :: u) = false :=
  not_recognized (fun _ _ => List.cons_ne_nil e u) (fun h => absurd (h backslash (by simp)) (by decide))
    fun h => absurd (h backslash (by simp)) (by decide)

theorem lexes_escapeSeq {d : UInt8} (s : ByteString) (hd : d ∈ escapeChars) : Lexes [backslash, d] s 1 := by
  apply dfaMatch_append
  · rw [findIdx_patterns, if_neg (by simp), if_pos (mem_escapeSeqs.mpr ⟨d, hd, rfl⟩)]
  · exact fun e u _ => not_recognized_backslash

theorem lexes_whitespaceEscapeSeq {d : UInt8} (s : ByteString) (hd : d ∈ whitespaceEscapeChars) :
    Lexes [backslash, d] s 2 := by
  have hne : d ∉ escapeChars := by
    have h : ∀ d ∈ whitespaceEscapeChars, d ∉ escapeChars := by decide
    exact h d hd
  apply dfaMatch_append
  · rw [findIdx_patterns, if_neg (by simp), if_neg (by simp [mem_escapeSeqs, hne]),
      if_pos (mem_whitespaceEscapeSeqs.mpr ⟨d, hd, rfl⟩)]
  · exact fun e u _ => not_recognized_backslash

/-- A character of no run, which begins no pair with what follows. -/
theorem lexes_char {c : UInt8} {s : ByteString} (hws : c ∉ whitespaceChars) (han : c ∉ alphaNumericChars)
    (hs : c = backslash → Stops (escapeChars ++ whitespaceEscapeChars) s) :
    Lexes [c] s (if c = percent then 0 else if c = semicolon then 4 else 6) := by
  apply dfaMatch_append
  · rw [findIdx_patterns]
    by_cases hp : c = percent
    · rw [if_pos (by rw [hp]), if_pos hp]
    · rw [if_neg (by simpa using hp), if_neg (by simp [mem_escapeSeqs]),
        if_neg (by simp [mem_whitespaceEscapeSeqs]), if_neg (fun h => hws (Pattern.atLeastOnce_rmatch.mp h).1),
        if_neg hp]
      by_cases hc : c = semicolon
      · rw [if_pos (by rw [hc]), if_pos hc]
      · rw [if_neg (by simpa using hc), if_neg (fun h => han (Pattern.atLeastOnce_rmatch.mp h).1),
          if_pos (Pattern.charSubset_rmatch.mpr ⟨c, mem_notSemicolonChars.mpr hc, rfl⟩), if_neg hc]
  · rintro d u ⟨s', rfl⟩
    refine not_recognized (fun hb hd => ?_) (fun h => hws (h c (by simp))) fun h => han (h c (by simp))
    exact absurd (List.mem_append.mpr hd) (hs hb d rfl)

end OptionParser
end UdfRunner
