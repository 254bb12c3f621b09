import UdfRunner.Ctpg.RegexBuilding

/-!
# Lexers of unambiguous terms

`createLexer_longestMatch`: for terms whose expressions are unambiguous and begin with different characters, and
whose states can be numbered, `create_lexer` comes to an end, within the states that were counted, and its
automaton takes the longest match. Beyond that it need not be right: the states of the first alternative of
`(ab)*|ac` are its second's too.
-/

namespace UdfRunner
namespace Ctpg

/-- What a term is, as an expression. -/
def TermData.expression : TermData → Option Regex
  | char c => some (.primary (CharSubset.set 0 c.toNat))
  | string str =>
    let primary := fun c : UInt8 => Regex.primary (CharSubset.set 0 c.toNat)
    some ((str.drop 1).foldl (fun e c => .cat e (primary c)) (primary (str.headD 0)))
  | regex pattern => parseRegex pattern

def TermData.dfaSize : TermData → Nat
  | char _ => 2
  | string s => s.length * 2
  | regex pattern => (parseRegex pattern).elim 0 Regex.size

/-- Its automaton has two states, and its `dfa_size` is 0. -/
def TermData.isEmptyString : TermData → Bool
  | string [] => true
  | _ => false

theorem TermData.size_expression {t : TermData} {e : Regex} (h : t.expression = some e) :
    e.size = t.dfaSize + if t.isEmptyString then 2 else 0 := by
  have hchars : ∀ (l : ByteString) (e : Regex),
      (l.foldl (fun e c => Regex.cat e (.primary (CharSubset.set 0 c.toNat))) e).size = e.size + l.length * 2 := by
    intro l
    induction l with
    | nil => exact fun e => (Nat.add_zero _).symm
    | cons c l ih =>
      intro e
      rw [List.foldl_cons, ih, Regex.size, Regex.size, List.length_cons]
      omega
  cases t with
  | char c =>
    obtain rfl := Option.some.inj h
    rfl
  | string s =>
    obtain rfl := Option.some.inj h
    rw [hchars, Regex.size]
    cases s with
    | nil => rfl
    | cons c s =>
      have hne : (TermData.string (c :: s)).isEmptyString = false := rfl
      rw [hne, TermData.dfaSize, List.drop_succ_cons, List.drop_zero, List.length_cons, if_neg (by simp)]
      omega
  | regex pattern =>
    have hparse : parseRegex pattern = some e := h
    rw [TermData.dfaSize, hparse]
    rfl

/-- `lexer_dfa_size`, the slots of the array the automaton is built in. -/
def lexerDfaSize (terms : List TermData) : Nat := (terms.map TermData.dfaSize).sum

theorem lexerDfaSize_eq {terms : List TermData} {es : List Regex} (hes : terms.map TermData.expression = es.map some)
    (hempty : ∀ t ∈ terms, t.isEmptyString = false) : lexerDfaSize terms = (es.map Regex.size).sum := by
  induction terms generalizing es with
  | nil =>
    obtain rfl : es = [] := by simpa using hes.symm
    rfl
  | cons t terms ih =>
    cases es with
    | nil => exact absurd hes (by simp)
    | cons e es =>
      obtain ⟨he, hes⟩ := List.cons.inj hes
      obtain ⟨ht, hempty⟩ := List.forall_mem_cons.mp hempty
      have hsize := TermData.size_expression he
      rw [ht, if_neg (by simp), Nat.add_zero] at hsize
      rw [lexerDfaSize, List.map_cons, List.sum_cons, List.map_cons, List.sum_cons, hsize]
      exact congrArg _ (ih hes hempty)

namespace Dfa
variable {sm sm' : Dfa} {q : Nat}

theorem addTerm_eq (prev idx : Nat) (s : Slice) (sm : Dfa) :
    addTerm prev idx s sm = mergeAt 0 s.start true true (markEndStates s idx sm) := by
  simp only [addTerm, alt, Option.bind_eq_bind]
  cases mergeAt 0 s.start true true (markEndStates s idx sm) <;> rfl

theorem foldl_markEndState {l : List Nat} (hnodup : l.Nodup) (hlt : ∀ i ∈ l, i < sm.length) (idx : Nat) :
    (l.foldl (fun sm i => sm.modify i (·.markEndState idx)) sm).length = sm.length ∧
      ∀ q, row (l.foldl (fun sm i => sm.modify i (·.markEndState idx)) sm) q =
        if q ∈ l then (sm.row q).mark idx else sm.row q := by
  induction l generalizing sm with
  | nil => exact ⟨rfl, fun q => by simp⟩
  | cons i l ih =>
    obtain ⟨hi, hnodup⟩ := List.nodup_cons.mp hnodup
    have hlength : (sm.modify i (·.markEndState idx)).length = sm.length := List.length_modify _ _ _
    obtain ⟨hlength', hrow⟩ := @ih (sm.modify i (·.markEndState idx)) hnodup
      fun j hj => hlength ▸ hlt j (List.mem_cons_of_mem i hj)
    refine ⟨hlength'.trans hlength, fun q => ?_⟩
    rw [List.foldl_cons, hrow]
    by_cases hq : q = i
    · subst hq
      rw [if_neg hi, if_pos (by simp), row_modify_self (hlt q (by simp)), DfaState.row_markEndState]
      rfl
    · rw [row_modify_ne hq]
      exact if_congr (by simp [hq]) rfl rfl

theorem row_markEndStates (s : Slice) (hs : s.start + s.n ≤ sm.length) (idx : Nat) :
    (markEndStates s idx sm).length = sm.length ∧ ∀ q, (markEndStates s idx sm).row q =
      if s.start ≤ q ∧ q < s.start + s.n then (sm.row q).mark idx else sm.row q := by
  have hnodup : s.range.Nodup := List.nodup_range.map fun _ _ => Nat.add_left_cancel
  obtain ⟨hlength, hrow⟩ := foldl_markEndState hnodup (fun i hi => lt_of_lt_of_le (mem_range.mp hi).2 hs) idx
  exact ⟨hlength, fun q => (hrow q).trans (if_congr mem_range rfl rfl)⟩

theorem term_congr {S : Nat → Prop} (hclosed : ∀ q i t, S q → (sm.row q).next i = some t → S t)
    (hrow : ∀ q, S q → sm'.row q = sm.row q) (hq : S q) (w : ByteString) : sm'.term q w = sm.term q w := by
  induction w generalizing q with
  | nil => exact congrArg (fun r => r.terms.head?) (hrow q hq)
  | cons c w ih =>
    have hnext : (sm'.state q).transition c.toNat = (sm.state q).transition c.toNat :=
      congrFun (congrArg DfaRow.next (hrow q hq)) c.toNat
    cases h : (sm.state q).transition c.toNat with
    | none => rw [term_stuck (hnext.trans h), term_stuck h]
    | some t =>
      rw [term_cons (hnext.trans h), term_cons h]
      exact ih (hclosed q c.toNat t hq h)

theorem term_eq_some_iff {S : Nat → Prop} {idx : Nat} (hclosed : sm.automaton.Closed S)
    (hterms : ∀ q, S q → (sm.row q).terms = if (sm.row q).endState then [idx] else []) (hq : S q) (w : ByteString)
    (i : Nat) : sm.term q w = some i ↔ i = idx ∧ sm.automaton.accepts q w := by
  induction w generalizing q with
  | nil =>
    have hterm : sm.term q [] = (if (sm.row q).endState then [idx] else []).head? :=
      congrArg List.head? (hterms q hq)
    have haccepts : sm.automaton.accepts q [] ↔ (sm.row q).endState = true := Iff.rfl
    rw [hterm, haccepts]
    cases (sm.row q).endState with
    | false => simp
    | true => simp [eq_comm]
  | cons c w ih =>
    cases h : (sm.state q).transition c.toNat with
    | none =>
      rw [term_stuck h]
      exact iff_of_false (by simp) fun hn => PartialDfa.not_accepts_none (M := sm.automaton) h hn.2
    | some t =>
      rw [term_cons h, PartialDfa.accepts_some (M := sm.automaton) h]
      exact ih (hclosed q c t hq h)

end Dfa

namespace Fragment
variable {e : Regex} {lo : Nat} {sm : Dfa}

theorem rmatch_iff (h : Fragment e lo sm) (w : ByteString) :
    e.pattern.rmatch w = true ↔ sm.automaton.accepts lo w := by
  rw [RegularExpression.rmatch_iff_matches', ← h.lang, PartialDfa.mem_lang]

theorem marked (h : Fragment e lo sm) (idx : Nat) : ∃ sm' : Dfa, sm' = Dfa.markEndStates ⟨lo, e.size⟩ idx sm ∧
    sm'.length = sm.length ∧ (∀ q, ¬(lo ≤ q ∧ q < lo + e.size) → sm'.row q = sm.row q) ∧
    ∀ q, lo ≤ q → q < lo + e.size → sm'.row q =
      { sm.row q with terms := if (sm.row q).endState then [idx] else [] } := by
  obtain ⟨hlength, hrow⟩ := @Dfa.row_markEndStates sm ⟨lo, e.size⟩ h.le idx
  refine ⟨_, rfl, hlength, fun q hq => (hrow q).trans (if_neg hq), fun q hq hq' => ?_⟩
  rw [hrow, if_pos ⟨hq, hq'⟩, DfaRow.mark, h.terms q hq hq']
  cases hend : (sm.row q).endState with
  | false => exact (if_neg (by simp)).trans (DfaRow.ext rfl (h.terms q hq hq') rfl)
  | true => exact (if_pos (by simp)).trans (DfaRow.ext hend.symm rfl rfl)

end Fragment

/-- The automaton of the expressions added so far. -/
structure Lexes (es : List Regex) (sm : Dfa) : Prop where
  length : sm.length = (es.map Regex.size).sum
  targets : ∀ q i t, (sm.row q).next i = some t → 0 < t ∧ t < sm.length
  first : ∀ i, (sm.row 0).next i ≠ none → ∃ e ∈ es, e.first.testBit i = true
  term : ∀ w, sm.term 0 w = es.findIdx? fun e => e.pattern.rmatch w

namespace Lexes
variable {es : List Regex} {e : Regex} {sm : Dfa}

theorem nil : Lexes [] [] where
  length := rfl
  targets q i t h := by
    have hnone : (Dfa.row [] q).next i = none := rfl
    rw [hnone] at h
    exact absurd h (by simp)
  first i h := absurd rfl h
  term w := by
    cases w with
    | nil => rfl
    | cons c w => exact Dfa.term_stuck rfl w

theorem length_pos (h : Lexes es sm) (hne : es ≠ []) : 0 < sm.length := by
  obtain ⟨e, es, rfl⟩ := List.exists_cons_of_ne_nil hne
  rw [h.length, List.map_cons, List.sum_cons]
  exact Nat.add_pos_left e.size_pos _

end Lexes

/-- The new states with their term, before they are merged into the first one. -/
structure Added (e : Regex) (idx : Nat) (sm sm' : Dfa) : Prop where
  length : sm'.length = sm.length + e.size
  old : ∀ q < sm.length, sm'.row q = sm.row q
  outside : ∀ q i, sm.length + e.size ≤ q → (sm'.row q).next i = none
  targets : ∀ q i t, sm.length ≤ q → q < sm.length + e.size → (sm'.row q).next i = some t →
    sm.length < t ∧ t < sm.length + e.size
  first : ∀ i, (sm'.row sm.length).next i ≠ none → e.first.testBit i = true
  terms : (sm'.row sm.length).terms = if (sm'.row sm.length).endState then [idx] else []
  term : ∀ q w i, sm.length ≤ q → q < sm.length + e.size →
    (sm'.term q w = some i ↔ i = idx ∧ sm'.automaton.accepts q w)
  rmatch : ∀ w, e.pattern.rmatch w = true ↔ sm'.automaton.accepts sm.length w

theorem Regex.build_added {e : Regex} (he : e.unambiguous = true) (idx : Nat) (sm : Dfa) : ∃ sm₁ : Dfa,
    e.build sm = some (⟨sm.length, e.size⟩, sm₁) ∧
      Added e idx sm (Dfa.markEndStates ⟨sm.length, e.size⟩ idx sm₁) := by
  obtain ⟨sm₁, hbuild, hlength₁, hfragment, hrow₁⟩ := Regex.build_fragment he sm
  obtain ⟨sm₂, hsm₂, hlength₂, houter, hinner⟩ := hfragment.marked idx
  refine ⟨sm₁, hbuild, ?_⟩
  rw [← hsm₂]
  have hstart := hfragment.mem_start.2
  have hnext : ∀ q, sm.length ≤ q → q < sm.length + e.size → (sm₂.row q).next = (sm₁.row q).next := by
    intro q hq hq'
    rw [hinner q hq hq']
  have hend : ∀ q, sm.length ≤ q → q < sm.length + e.size → (sm₂.row q).endState = (sm₁.row q).endState :=
    fun q hq hq' => by rw [hinner q hq hq']
  have hclosed : sm₂.automaton.Closed fun q => sm.length ≤ q ∧ q < sm.length + e.size := fun q c t hq ht =>
    hfragment.closed q c t hq ((congrFun (hnext q hq.1 hq.2) c.toNat).symm.trans ht)
  have hsame : ∀ q w, sm.length ≤ q → q < sm.length + e.size →
      (sm₂.automaton.accepts q w ↔ sm₁.automaton.accepts q w) := fun q w hq hq' =>
    PartialDfa.accepts_congr hfragment.closed (fun q c hq => congrFun (hnext q hq.1 hq.2) c.toNat)
      (fun q hq => hend q hq.1 hq.2) ⟨hq, hq'⟩ w
  have hterms : ∀ q, sm.length ≤ q ∧ q < sm.length + e.size →
      (sm₂.row q).terms = if (sm₂.row q).endState then [idx] else [] := by
    intro q hq
    rw [hinner q hq.1 hq.2]
  refine ⟨hlength₂.trans hlength₁, fun q hq => ?_, fun q i hq => ?_, fun q i t hq hq' ht => ?_, fun i hi => ?_,
    hterms _ ⟨le_rfl, hstart⟩, fun q w i hq hq' => ?_, fun w => ?_⟩
  · rw [houter q (by omega), hrow₁ q hq]
  · exact Dfa.next_of_le (by omega) i
  · rw [hnext q hq hq'] at ht
    exact hfragment.targets q i t hq hq' ht
  · rw [hnext _ le_rfl hstart] at hi
    exact hfragment.first i hi
  · exact Dfa.term_eq_some_iff hclosed hterms ⟨hq, hq'⟩ w i
  · rw [hfragment.rmatch_iff, hsame _ w le_rfl hstart]

namespace Added
variable {es : List Regex} {e : Regex} {idx : Nat} {sm sm₂ : Dfa}

theorem rmatch_cons {c : UInt8} (h : Added e idx sm sm₂) {w : ByteString}
    (hw : e.pattern.rmatch (c :: w) = true) : e.first.testBit c.toNat = true := by
  obtain ⟨t, ht, -⟩ := (h.rmatch _).mp hw
  refine h.first c.toNat fun hnone => ?_
  have hstuck : sm₂.automaton.step sm.length c = none := hnone
  rw [hstuck] at ht
  exact absurd ht (by simp)

theorem start_lt (_ : Added e idx sm sm₂) : sm.length < sm.length + e.size := Nat.lt_add_of_pos_right e.size_pos

theorem single (h : Added e 0 [] sm₂) : Lexes [e] sm₂ := by
  have hstart : 0 < 0 + e.size := h.start_lt
  refine ⟨by simpa using h.length, fun q i t ht => ?_, fun i hi => ⟨e, by simp, h.first i hi⟩, fun w => ?_⟩
  · have hlength : sm₂.length = 0 + e.size := h.length
    by_cases hq : q < 0 + e.size
    · have hlt : 0 < t ∧ t < 0 + e.size := h.targets q i t (Nat.zero_le q) hq ht
      omega
    · rw [h.outside q i (not_lt.mp hq)] at ht
      exact absurd ht (by simp)
  · refine Option.ext fun i => ?_
    have hterm : sm₂.term 0 w = some i ↔ i = 0 ∧ sm₂.automaton.accepts 0 w := h.term 0 w i le_rfl hstart
    have hrmatch : e.pattern.rmatch w = true ↔ sm₂.automaton.accepts 0 w := h.rmatch w
    rw [hterm, ← hrmatch, List.findIdx?_singleton, Option.ite_none_right_eq_some, Option.some.injEq, eq_comm, and_comm]

theorem merge (hes : Lexes es sm) (hne : es ≠ []) (h : Added e es.length sm sm₂)
    (hdisjoint : ∀ e' ∈ es, e'.first &&& e.first = 0) :
    ∃ sm', Dfa.mergeAt 0 sm.length true true sm₂ = some sm' ∧ Lexes (es ++ [e]) sm' := by
  have hpos := hes.length_pos hne
  have hrow0 : sm₂.row 0 = sm.row 0 := h.old 0 hpos
  have hmasks : ∀ i, (sm.row 0).next i ≠ none → e.first.testBit i = false := by
    intro i hi
    obtain ⟨e', he', hbit⟩ := hes.first i hi
    by_contra hbit'
    have hboth : Nat.testBit (e'.first &&& e.first) i = true := by
      rw [Nat.testBit_and, hbit, Bool.true_and]
      simpa using hbit'
    rw [hdisjoint e' he', Nat.zero_testBit] at hboth
    exact absurd hboth (by simp)
  have hclash : ¬ (sm₂.row 0).Clashes (sm₂.row sm.length) := by
    rintro ⟨i, hi, hi'⟩
    rw [hrow0] at hi
    exact absurd (h.first i hi') (by simp [hmasks i hi])
  obtain ⟨sm', hmerge, hlength, hrow⟩ := Dfa.mergeAt_joins hpos.ne (by rw [h.length]; omega) hclash true true
  have hothers : ∀ q, q ≠ 0 → sm'.row q = sm₂.row q := fun q hq => (hrow q).trans (if_neg hq)
  have hstart : sm'.row 0 = (sm₂.row sm.length).terms.foldl DfaRow.mark
      (DfaRow.joined true (sm.row 0) (sm₂.row sm.length)) := by rw [hrow, if_pos rfl, hrow0]
  -- one mark at most
  have hmark : (sm'.row 0).next = (DfaRow.joined true (sm.row 0) (sm₂.row sm.length)).next ∧
      (sm'.row 0).terms.head? = ((sm.row 0).terms.head?).or
        (if (sm₂.row sm.length).endState then some es.length else none) := by
    rw [hstart, h.terms]
    cases hend : (sm₂.row sm.length).endState with
    | false => exact ⟨rfl, (Option.or_none).symm⟩
    | true =>
      rw [if_pos rfl, if_pos rfl, List.foldl_cons, List.foldl_nil, DfaRow.mark]
      split_ifs with hroom
      · exact ⟨rfl, List.head?_append⟩
      · refine ⟨rfl, ?_⟩
        have hmany : ¬ (sm.row 0).terms.length < 4 := fun hlt => hroom ⟨by simp [DfaRow.joined, hend], hlt⟩
        cases hterms : (sm.row 0).terms with
        | nil => exact absurd (by simp [hterms]) hmany
        | cons t ts => simp [DfaRow.joined, hterms]
  refine ⟨sm', hmerge, ⟨?_, fun q i t ht => ?_, fun i hi => ?_, fun w => ?_⟩⟩
  · rw [hlength, h.length, hes.length]
    simp
  · have hlength' : sm'.length = sm.length + e.size := hlength.trans h.length
    by_cases hq : q = 0
    · subst hq
      rw [hmark.1] at ht
      rcases DfaRow.joined_next ht with ht | ht
      · have hlt := hes.targets 0 i t ht
        omega
      · have hlt := h.targets _ i t le_rfl h.start_lt ht
        omega
    · rw [hothers q hq] at ht
      by_cases hold : q < sm.length
      · rw [h.old q hold] at ht
        have hlt := hes.targets q i t ht
        omega
      · by_cases hnew : q < sm.length + e.size
        · have hlt := h.targets q i t (not_lt.mp hold) hnew ht
          omega
        · rw [h.outside q i (not_lt.mp hnew)] at ht
          exact absurd ht (by simp)
  · rw [hmark.1] at hi
    rcases DfaRow.joined_ne_none hi with hi | hi
    · obtain ⟨e', he', hbit⟩ := hes.first i hi
      exact ⟨e', List.mem_append_left _ he', hbit⟩
    · exact ⟨e, by simp, h.first i hi⟩
  · rw [List.findIdx?_append, ← hes.term, List.findIdx?_singleton]
    cases w with
    | nil =>
      have hnil : e.pattern.rmatch [] = (sm₂.row sm.length).endState := Bool.eq_iff_iff.mpr (h.rmatch [])
      have hterm : sm'.term 0 [] = (sm'.row 0).terms.head? := rfl
      have hold : sm.term 0 [] = (sm.row 0).terms.head? := rfl
      rw [hterm, hmark.2, hold, hnil]
      cases (sm₂.row sm.length).endState <;> simp
    | cons c w =>
      have hnext : (sm'.state 0).transition c.toNat =
          ((sm.row 0).next c.toNat).or ((sm₂.row sm.length).next c.toNat) :=
        (congrFun hmark.1 c.toNat).trans (if_pos c.toNat_lt)
      cases hold : (sm.row 0).next c.toNat with
      | some t =>
        -- one of the earlier terms
        rw [hold, Option.some_or] at hnext
        have hnot : ¬ e.pattern.rmatch (c :: w) = true := by
          intro hw
          have hbit := h.rmatch_cons hw
          rw [hmasks c.toNat (by simp [hold])] at hbit
          exact absurd hbit (by simp)
        have hterm : sm.term 0 (c :: w) = sm.term t w := Dfa.term_cons hold w
        rw [if_neg hnot, Option.map_none, Option.or_none, Dfa.term_cons hnext, hterm]
        refine Dfa.term_congr (S := fun q => 0 < q ∧ q < sm.length) (fun q i t _ ht => hes.targets q i t ht)
          (fun q hq => ?_) (hes.targets 0 c.toNat t hold) w
        rw [hothers q hq.1.ne', h.old q hq.2]
      | none =>
        rw [hold, Option.none_or] at hnext
        have hterm : sm.term 0 (c :: w) = none := Dfa.term_stuck hold w
        rw [hterm, Option.none_or]
        have haccepts := h.rmatch (c :: w)
        cases hnew : (sm₂.row sm.length).next c.toNat with
        | none =>
          have hnot : ¬ e.pattern.rmatch (c :: w) = true := fun hw =>
            PartialDfa.not_accepts_none (M := sm₂.automaton) hnew (haccepts.mp hw)
          rw [Dfa.term_stuck (hnext.trans hnew), if_neg hnot]
          rfl
        | some t =>
          have ht := h.targets _ c.toNat t le_rfl h.start_lt hnew
          rw [PartialDfa.accepts_some (M := sm₂.automaton) hnew] at haccepts
          rw [Dfa.term_cons (hnext.trans hnew)]
          have hsame : sm'.term t w = sm₂.term t w :=
            Dfa.term_congr (S := fun q => sm.length < q ∧ q < sm.length + e.size)
              (fun q i t hq ht => h.targets q i t hq.1.le hq.2 ht) (fun q hq => hothers q (by omega)) ht w
          rw [hsame]
          refine Option.ext fun i => ?_
          rw [h.term t w i ht.1.le ht.2, ← haccepts]
          by_cases hw : e.pattern.rmatch (c :: w) = true
          · simp [hw, eq_comm]
          · simp [hw]

end Added

theorem TermData.addToDfa_eq {t : TermData} {e : Regex} (ht : t.expression = some e) {idx : Nat} {sm sm₁ : Dfa}
    (hbuild : e.build sm = some (⟨sm.length, e.size⟩, sm₁)) :
    t.addToDfa idx sm = Dfa.mergeAt 0 sm.length true true (Dfa.markEndStates ⟨sm.length, e.size⟩ idx sm₁) := by
  cases t with
  | char c =>
    obtain rfl := Option.some.inj ht
    have hprimary : some (sm.primarySubset (CharSubset.set 0 c.toNat)) = some (⟨sm.length, 2⟩, sm₁) := hbuild
    rw [TermData.addToDfa, Option.some.inj hprimary]
    exact Dfa.addTerm_eq _ _ _ _
  | string s =>
    obtain rfl := Option.some.inj ht
    simp only [TermData.addToDfa, Option.bind_eq_bind]
    rw [hbuild]
    exact Dfa.addTerm_eq _ _ _ _
  | regex pattern =>
    have hparse : parseRegex pattern = some e := ht
    simp only [TermData.addToDfa, Option.bind_eq_bind, hparse, Option.bind_some, hbuild]
    exact Dfa.addTerm_eq _ _ _ _

namespace Lexes
variable {es : List Regex} {e : Regex} {sm : Dfa}

theorem add (h : Lexes es sm) {t : TermData} (ht : t.expression = some e) (he : e.unambiguous = true)
    (hdisjoint : ∀ e' ∈ es, e'.first &&& e.first = 0) :
    ∃ sm', t.addToDfa es.length sm = some sm' ∧ Lexes (es ++ [e]) sm' := by
  obtain ⟨sm₁, hbuild, hadded⟩ := Regex.build_added he es.length sm
  rw [TermData.addToDfa_eq ht hbuild]
  by_cases hne : es = []
  · subst hne
    obtain rfl : sm = [] := List.length_eq_zero_iff.mp h.length
    exact ⟨_, Dfa.mergeAt_self true true, hadded.single⟩
  · exact hadded.merge h hne hdisjoint

theorem addAll {ts : List TermData} {es' : List Regex} (h : Lexes es sm)
    (hts : ts.map TermData.expression = es'.map some) (hunambiguous : ∀ e ∈ es', e.unambiguous = true)
    (hdisjoint : (es ++ es').Pairwise fun e e' => e.first &&& e'.first = 0) :
    ∃ sm' : Dfa, (ts.zipIdx es.length).foldlM (fun sm t => t.1.addToDfa t.2 sm) sm = some sm' ∧
      Lexes (es ++ es') sm' := by
  induction ts generalizing es es' sm with
  | nil =>
    obtain rfl : es' = [] := by simpa using hts.symm
    exact ⟨sm, rfl, by rwa [List.append_nil]⟩
  | cons t ts ih =>
    obtain ⟨e, es', rfl⟩ : ∃ e l, es' = e :: l := by
      cases es' with
      | nil => exact absurd hts (by simp)
      | cons e l => exact ⟨e, l, rfl⟩
    obtain ⟨ht, hts⟩ := List.cons.inj hts
    have happend : es ++ e :: es' = es ++ [e] ++ es' := by simp
    obtain ⟨sm₁, hadd, hlexes⟩ := h.add ht (hunambiguous e (by simp)) fun e' he' =>
      (List.pairwise_append.mp hdisjoint).2.2 e' he' e (by simp)
    obtain ⟨sm', hfold, hlexes'⟩ := ih hlexes hts (fun e' he' => hunambiguous e' (by simp [he']))
      (happend ▸ hdisjoint)
    refine ⟨sm', ?_, happend ▸ hlexes'⟩
    rw [List.length_append, List.length_singleton] at hfold
    rw [List.zipIdx_cons, List.foldlM_cons, hadd]
    exact hfold

end Lexes

/-- Unambiguous terms that begin with different characters: the lexer is built in the slots counted for it,
every transition leads to one of them and is not mistaken for none, and it takes the longest match, as the first
term that has it. -/
theorem createLexer_longestMatch (terms : List TermData) (es : List Regex)
    (hes : terms.map TermData.expression = es.map some) (hempty : ∀ t ∈ terms, t.isEmptyString = false)
    (hsize : lexerDfaSize terms ≤ uninitialized16) (hunambiguous : ∀ e ∈ es, e.unambiguous = true)
    (hfirst : es.Pairwise fun e e' => e.first &&& e'.first = 0) :
    ∃ sm : Dfa, createLexer terms = some sm ∧ sm.length = lexerDfaSize terms ∧
      (∀ q i t, (sm.state q).transition i = some t → t < sm.length ∧ t < uninitialized16) ∧
      ∀ input, sm.dfaMatch 0 0 none input = dfaMatch (es.map Regex.pattern) 0 none input := by
  obtain ⟨sm, hfold, hlexes⟩ := Lexes.nil.addAll hes hunambiguous hfirst
  have hlength : sm.length = lexerDfaSize terms := hlexes.length.trans (lexerDfaSize_eq hes hempty).symm
  refine ⟨sm, hfold, hlength, fun q i t ht => ?_, fun input => ?_⟩
  · have hlt := (hlexes.targets q i t ht).2
    exact ⟨hlt, hlt.trans_le (hlength.trans_le hsize)⟩
  · refine Dfa.dfaMatch_eq (fun w => ?_) 0 none input
    rw [hlexes.term, List.findIdx?_map]
    rfl

theorem createLexer_longestMatch_dashed :
    let terms := [.char 59, .regex (str "[a-z]+(-[a-z]+)*"), .string (str "==")]
    ∃ sm : Dfa, createLexer terms = some sm ∧ sm.length = 12 ∧
      ∀ input, sm.dfaMatch 0 0 none input =
        dfaMatch ((terms.filterMap TermData.expression).map Regex.pattern) 0 none input := by
  intro terms
  have hterms : terms.map TermData.expression = (terms.filterMap TermData.expression).map some ∧
      (∀ t ∈ terms, t.isEmptyString = false) ∧ lexerDfaSize terms = 12 ∧
      (∀ e ∈ terms.filterMap TermData.expression, e.unambiguous = true) ∧
      (terms.filterMap TermData.expression).Pairwise (fun e e' => e.first &&& e'.first = 0) := by decide +kernel
  obtain ⟨hes, hempty, hsize, hunambiguous, hfirst⟩ := hterms
  obtain ⟨sm, hlexer, hlength, -, hmatch⟩ :=
    createLexer_longestMatch terms _ hes hempty (by rw [hsize]; decide) hunambiguous hfirst
  exact ⟨sm, hlexer, hlength.trans hsize, hmatch⟩

-- both alternatives begin with `a`
example : (createLexer [.regex (str "(ab)*|ac")]).map (·.dfaMatch 0 0 none (str "abac")) = some (some (0, 4)) ∧
    (parseRegex (str "(ab)*|ac")).map (dfaMatch [·.pattern] 0 none (str "abac")) = some (some (0, 2)) := by
  decide +kernel

end Ctpg
end UdfRunner
