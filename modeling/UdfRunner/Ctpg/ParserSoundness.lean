import UdfRunner.Ctpg.ParserLaws
import UdfRunner.Ctpg.TableBounds
import UdfRunner.Lib.LrParsing

/-!
# `ctpg.hpp`: what a generated parser accepts

A state is found by any one of its situations, so a move may enter a state with situations that do not
come from the state it left. Of a grammar where none does (`Unmerged`), whatever the parser accepts derives
from the root.
-/

namespace UdfRunner
namespace Ctpg

/-! ### The automaton -/

/-- The situations with the mark after a symbol. -/
def Grammar.advanced (g : Grammar) : Nat :=
  ((List.range g.situationAddressSpaceSize).filter fun i =>
    i / g.termCount % (g.maxRuleElementCount + 1) ≠ 0).foldl (fun state i => state ||| 1 <<< i) 0

/-- Every advanced situation of a state entered is in the state that was left, with the mark before the
symbol. -/
def StateAnalysis.unmerged (g : Grammar) (sai : StateAnalysis) : Bool :=
  sai.parseTable.zipIdx.all fun (row, q) => row.all fun e =>
    match e.shift with
    | none => true
    | some q' =>
      let before := (sai.states.getD q' 0 &&& g.advanced) >>> g.termCount
      before &&& sai.states.getD q 0 = before

def Grammar.Unmerged (g : Grammar) : Prop :=
  (analyzeStates g.info g.maxSituations).all (StateAnalysis.unmerged g) = true

instance (g : Grammar) : Decidable g.Unmerged := inferInstanceAs (Decidable (_ = true))

namespace StateAnalysis

/-- Rules by their place in the source, the root rule last. -/
def automaton (g : Grammar) (sai : StateAnalysis) :
    Lr.Automaton Symbol (Fin g.allRules.length) Nat Nat where
  start := 0
  root := ⟨g.rootRuleIdx, by rw [Grammar.length_allRules]; exact Nat.lt_succ_self _⟩
  next q s := if s.Declared g then (sai.entry q (g.info.tableIdx s)).shift else none
  Item q r k t := ∃ j ri, g.Marked j ri k t ∧ ri.rIdx = r ∧ sai.Holds q (g.info.makeSituationIdx j k t)

variable {g : Grammar} {sai : StateAnalysis} {acc : Nat → Option Symbol} {q q' c i j k t : Nat} {ri : RuleInfo}
    {s : Symbol}

theorem next_eq (hs : s.Declared g) : (sai.automaton g).next q s = (sai.entry q (g.info.tableIdx s)).shift :=
  if_pos hs

theorem next_some (h : (sai.automaton g).next q s = some q') :
    s.Declared g ∧ (sai.entry q (g.info.tableIdx s)).shift = some q' := by
  by_cases hs : s.Declared g
  · exact ⟨hs, by rwa [next_eq hs] at h⟩
  · have hnone : (sai.automaton g).next q s = none := if_neg hs
    rw [hnone] at h
    cases h

theorem testBit_foldl (l : List Nat) (state : Nat) :
    (l.foldl (fun state i => state ||| 1 <<< i) state).testBit i = true ↔ state.testBit i = true ∨ i ∈ l := by
  induction l generalizing state with
  | nil => simp
  | cons i' l ih =>
    rw [List.foldl_cons, ih, Nat.testBit_or, Nat.one_shiftLeft, Nat.testBit_two_pow, Bool.or_eq_true,
      decide_eq_true_iff, List.mem_cons, or_assoc, eq_comm (b := i)]

/-- What `unmerged` checks, of the situations it is about. -/
theorem unmerged_holds (h : sai.unmerged g = true)
    (hshift : (sai.entry q c).shift = some q') (hm : g.Marked j ri (k + 1) t)
    (hold : sai.Holds q' (g.info.makeSituationIdx j (k + 1) t)) :
    sai.Holds q (g.info.makeSituationIdx j k t) := by
  have hi := g.info_describes
  have hrow : q < sai.parseTable.length := by
    by_contra hq
    rw [entry, List.getD_eq_default _ _ (not_lt.mp hq)] at hshift
    cases hshift
  have hcol : c < (sai.parseTable[q]).length := by
    by_contra hc
    rw [entry, List.getD_eq_getElem _ _ hrow, List.getD_eq_default _ _ (not_lt.mp hc)] at hshift
    cases hshift
  rw [entry, List.getD_eq_getElem _ _ hrow, List.getD_eq_getElem _ _ hcol] at hshift
  have hrows := List.all_eq_true.mp h (sai.parseTable[q], q) (List.mem_zipIdx_iff_getElem?.mpr
    (List.getElem?_eq_getElem hrow))
  have hentry := List.all_eq_true.mp hrows _ (List.getElem_mem hcol)
  simp only [hshift] at hentry
  have hafter : g.info.makeSituationIdx j (k + 1) t / g.termCount % (g.maxRuleElementCount + 1) = k + 1 := by
    rw [hi.div_make hm.term, Nat.add_comm, Nat.add_mul_mod_self_right, Nat.mod_eq_of_lt hm.lt_situationSize]
  have hadd : g.termCount + g.info.makeSituationIdx j k t = g.info.makeSituationIdx j (k + 1) t := by
    rw [hi.makeSituationIdx, hi.makeSituationIdx, ← Nat.add_assoc _ k 1, Nat.add_mul _ 1, Nat.one_mul]
    omega
  have hadvanced : g.advanced.testBit (g.info.makeSituationIdx j (k + 1) t) = true := by
    refine (testBit_foldl _ 0).mpr (.inr (List.mem_filter.mpr ⟨List.mem_range.mpr (hi.make_lt hm), ?_⟩))
    rw [hafter]
    rfl
  have hbit := congrArg (Nat.testBit · (g.info.makeSituationIdx j k t)) (of_decide_eq_true hentry)
  rw [Holds] at hold
  simp only [Nat.testBit_and, Nat.testBit_shiftRight, hadd, hold, hadvanced, Bool.true_and] at hbit
  exact hbit

end StateAnalysis

/-- What the parser reads of its buffer: a term, with its text and where it begins. -/
structure Token where
  term : Nat
  text : ByteString
  sp : SourcePoint
deriving DecidableEq

/-- The rules of the grammar with their functors. -/
def Parser.attributed {V : Type} (p : Parser V) :
    Lr.Attributed Symbol (Fin p.grammar.allRules.length) Token V where
  left r := .nterm (p.grammar.allRules.get r).left
  right r := (p.grammar.allRules.get r).right
  symbol t := .term t.term
  leaf t := p.termValue t.term t.text t.sp
  act r := p.reductor r

namespace StateAnalysis
variable {V : Type} {p : Parser V} {sai : StateAnalysis} {acc : Nat → Option Symbol} {q q' j k t : Nat}
    {r : Fin p.grammar.allRules.length} {ri : RuleInfo} {s : Symbol}

theorem rule_eq (hm : p.grammar.Marked j ri k t) (hr : ri.rIdx = r) :
    p.attributed.right r = p.grammar.right ri ∧ p.attributed.left r = .nterm ri.lIdx ∧
      ri.rElements = (p.attributed.right r).length := by
  obtain ⟨rule, hrule, hl, hright, hn⟩ := hm.right
  rw [hr] at hrule
  have hget : p.grammar.allRules.get r = rule :=
    Option.some.inj ((List.getElem?_eq_getElem r.isLt).symm.trans hrule)
  have hright' : p.attributed.right r = p.grammar.right ri := by rw [hright, ← hget]; rfl
  exact ⟨hright', by rw [hl, ← hget]; rfl, by rw [hn, hright']⟩

/-- The automaton of a finished analysis without merged states. -/
theorem Sane.justified (hg : p.grammar.WellFormed) (h : sai.Sane p.grammar p.grammar.info acc none)
    (hqueue : sai.queue = []) (hunmerged : sai.unmerged p.grammar = true) :
    (sai.automaton p.grammar).Justified p.attributed where
  fresh {q x} hnext := by
    obtain ⟨-, hshift⟩ := next_some hnext
    obtain ⟨-, s, -, -, hacc⟩ := h.shift hshift
    have hstart : acc 0 = none := h.start
    rw [show (sai.automaton p.grammar).start = 0 from rfl, hstart] at hacc
    cases hacc
  start {r k t} hitem := by
    obtain ⟨j, ri, hm, hr, hold⟩ := hitem
    obtain ⟨-, -, -, -, hn⟩ := hm.right
    have hmark := hm.mark
    have hentered := h.entered hm hold
    have hnone : (p.grammar.right ri).length ≤ k :=
      List.getElem?_eq_none_iff.mp (hentered.symm.trans h.start)
    omega
  advanced {q q' x r k t} hnext hitem := by
    obtain ⟨hx, hshift⟩ := next_some hnext
    obtain ⟨j, ri, hm, hr, hold⟩ := hitem
    obtain ⟨-, s, hs, heq, hacc⟩ := h.shift hshift
    obtain rfl := p.grammar.info_describes.tableIdx_inj hx.inTable hs.inTable heq
    refine ⟨?_, j, ri, ⟨hm.rule, Nat.le_of_succ_le hm.mark, hm.term⟩, hr,
      unmerged_holds hunmerged hshift hm hold⟩
    rw [(rule_eq hm hr).1, ← h.entered hm hold, hacc]
  root {q t} hitem := by
    obtain ⟨j, ri, hm, hr, hold⟩ := hitem
    rcases h.origin hm hold with ⟨-, rfl⟩ | ⟨j', ri', k', t', hm', -, hs⟩
    · rfl
    · obtain ⟨rule, hrule, hl, -⟩ := hm.right
      rw [hr, show ((sai.automaton p.grammar).root : Nat) = p.grammar.rootRuleIdx from rfl,
        Grammar.allRules_root] at hrule
      cases hrule
      have hlt : ri.lIdx < p.grammar.ntermCount := hm'.declared hg hs
      rw [hl] at hlt
      exact absurd hlt (lt_irrefl _)
  origin {q r t} hitem hroot := by
    obtain ⟨j, ri, hm, hr, hold⟩ := hitem
    rcases h.origin hm hold with ⟨hroot', -⟩ | ⟨j', ri', k', t', hm', hold', hs⟩
    · exact absurd (Fin.ext (hr.symm.trans hroot')) hroot
    · obtain ⟨rule, hrule, -⟩ := hm'.right
      have hlt : ri'.rIdx < p.grammar.allRules.length := (List.getElem?_eq_some_iff.mp hrule).1
      refine ⟨⟨ri'.rIdx, hlt⟩, k', t', ⟨j', ri', hm', rfl, hold'⟩, ?_⟩
      rw [(rule_eq hm' rfl).1, (rule_eq hm hr).2.1, hs]
  moves {q r k t x} hitem hx := by
    obtain ⟨j, ri, hm, hr, hold⟩ := hitem
    rw [(rule_eq hm hr).1] at hx
    rcases h.done hold with hmem | hpending | hdone
    · rw [hqueue] at hmem
      cases hmem
    · cases hpending
    · obtain ⟨q', hshift, -⟩ := hdone.moved hm rfl hx
      exact ⟨q', by rw [next_eq (hm.declared hg hx), hshift]⟩

end StateAnalysis

/-! ### Tokens -/

theorem dfaMatch_cases {state : List Pattern} {input : ByteString} {rt : Option (Nat × Nat)} {n t m : Nat}
    (h : dfaMatch state n rt input = some (t, m)) :
    rt = some (t, m) ∨ (t < state.length ∧ m ≤ n + input.length) := by
  have hrecognized : ∀ {state : List Pattern} {n : Nat} {rt : Option (Nat × Nat)},
      dfaMatch.recognized state n rt = some (t, m) → rt = some (t, m) ∨ (t < state.length ∧ m = n) := by
    intro state n rt h
    unfold dfaMatch.recognized at h
    split at h
    next t' ht' =>
      cases h
      exact .inr ⟨(List.findIdx?_eq_some_iff_getElem.mp ht').1, rfl⟩
    next => exact .inl h
  induction input generalizing state n rt with
  | nil =>
    refine (hrecognized h).imp_right fun hr => ⟨hr.1, ?_⟩
    rw [hr.2]
    exact Nat.le_add_right _ _
  | cons c input ih =>
    rcases ih h with hrt | ⟨ht, hm⟩
    · refine (hrecognized hrt).imp_right fun hr => ⟨hr.1, ?_⟩
      rw [hr.2]
      exact Nat.le_add_right _ _
    · rw [List.length_map] at ht
      refine .inr ⟨ht, hm.trans ?_⟩
      rw [List.length_cons]
      omega

namespace Parser
variable {V : Type} {p : Parser V} {buffer c c' u w : ByteString} {toks toks' : List Token} {tok : Token}
    {ps : ParseState V}

/-- The tokens of a part of the buffer. Where the parser recovers it drops tokens and skips text: the error
token stands for these. -/
inductive Reads (p : Parser V) (buffer : ByteString) : List Token → ByteString → Prop
  | nil : Reads p buffer [] []
  | term {toks : List Token} {c w s : ByteString} {t : Nat} (h : Reads p buffer toks c)
      (hbuffer : c ++ (w ++ s) = buffer) (hterm : dfaMatch p.patterns 0 none (w ++ s) = some (t, w.length)) :
      Reads p buffer (toks ++ [⟨t, w, ({} : SourcePoint).update c⟩]) (c ++ w)
  | recover {toks : List Token} {c : ByteString} (u : ByteString) (h : Reads p buffer toks c) :
      Reads p buffer
        (toks ++ [⟨p.grammar.errorRecoveryTokenIdx, [], ({} : SourcePoint).update (c ++ u)⟩]) (c ++ u)
  | skip {toks : List Token} {tok : Token} {c : ByteString} (w : ByteString)
      (h : Reads p buffer (toks ++ [tok]) c) (htok : tok.term = p.grammar.errorRecoveryTokenIdx) :
      Reads p buffer (toks ++ [tok]) (c ++ w)

theorem Reads.dropLast {l : List Token} (h : p.Reads buffer l c) (hl : l = toks ++ [tok]) :
    ∃ c', p.Reads buffer toks c' ∧ c' <+: c := by
  induction h with
  | nil => simp at hl
  | term h _ _ _ =>
    obtain ⟨rfl, -⟩ := List.append_inj' hl rfl
    exact ⟨_, h, List.prefix_append _ _⟩
  | recover u h _ =>
    obtain ⟨rfl, -⟩ := List.append_inj' hl rfl
    exact ⟨_, h, List.prefix_append _ _⟩
  | skip w _ _ ih =>
    obtain ⟨c', hc', hprefix⟩ := ih hl
    exact ⟨c', hc', hprefix.trans (List.prefix_append _ _)⟩

theorem Reads.take (h : p.Reads buffer (toks ++ toks') c) : ∃ c', p.Reads buffer toks c' ∧ c' <+: c := by
  induction toks' using List.reverseRecOn generalizing c with
  | nil => exact ⟨c, by rwa [List.append_nil] at h, List.prefix_rfl⟩
  | append_singleton toks' tok ih =>
    obtain ⟨c₁, h₁, hprefix₁⟩ := h.dropLast (List.append_assoc ..).symm
    obtain ⟨c₂, h₂, hprefix₂⟩ := ih h₁
    exact ⟨c₂, h₂, hprefix₂.trans hprefix₁⟩

theorem Reads.text (h : p.Reads buffer toks c) (hno : ∀ tok ∈ toks, tok.term ≠ p.grammar.errorRecoveryTokenIdx) :
    toks.flatMap Token.text = c := by
  induction h with
  | nil => rfl
  | term h _ _ ih =>
    rw [List.flatMap_append, ih fun tok htok => hno tok (List.mem_append_left _ htok)]
    simp
  | recover u h _ => exact absurd rfl (hno _ (List.mem_append_right _ List.mem_cons_self))
  | skip w h htok _ => exact absurd htok (hno _ (List.mem_append_right _ List.mem_cons_self))

theorem getCurrentTerm_cases (hp : p.patterns.length = p.grammar.terms.length) {t n : Nat}
    (h : p.getCurrentTerm ps = some (t, n)) :
    (ps.recoveryMode = true ∧ t = p.grammar.errorRecoveryTokenIdx ∧ n = 0) ∨
    (ps.recoveryMode = false ∧ ps.current = [] ∧ t = p.grammar.eofIdx) ∨
    (ps.recoveryMode = false ∧ t < p.grammar.terms.length ∧ n ≤ ps.current.length ∧
      dfaMatch p.patterns 0 none ps.current = some (t, n)) := by
  unfold getCurrentTerm getTermWith at h
  split at h
  next hmode =>
    cases h
    exact .inl ⟨hmode, rfl, rfl⟩
  next hmode =>
    have hmode : ps.recoveryMode = false := Bool.eq_false_iff.mpr hmode
    split at h
    next hcurrent =>
      cases h
      exact .inr (.inl ⟨hmode, hcurrent, rfl⟩)
    next =>
      rcases dfaMatch_cases h with hnone | ⟨ht, hn⟩
      · cases hnone
      · exact .inr (.inr ⟨hmode, hp ▸ ht, by simpa using hn, h⟩)

theorem derives_token (tok : Token) :
    p.attributed.Derives [.term tok.term] [tok] [p.termValue tok.term tok.text tok.sp] := .token tok

/-! ### The invariant of the parser's loop -/

/-- `c` has been read as the tokens of the stacks, `u` dropped and not yet accounted for by an error token. -/
structure Kept (p : Parser V) (sai : StateAnalysis) (buffer : ByteString) (ps : ParseState V)
    (toks : List Token) (c u : ByteString) : Prop where
  stacked : Lr.Stacked p.attributed (sai.automaton p.grammar) ps.cursorStack toks ps.valueStack
  reads : p.Reads buffer toks c
  buffer : c ++ u ++ ps.current = buffer
  sp : ps.currentSp = ({} : SourcePoint).update (c ++ u)
  pending : ps.recoveryMode = false → u = []
  consume : ps.consumeMode = true → ps.recoveryMode = false ∧
    ∃ toks₀ tok, toks = toks₀ ++ [tok] ∧ tok.term = p.grammar.errorRecoveryTokenIdx

def Keeps (p : Parser V) (sai : StateAnalysis) (buffer : ByteString) (ps : ParseState V) : Prop :=
  ∃ toks c u, p.Kept sai buffer ps toks c u

/-- What a value and an exception come from. -/
def Explains (p : Parser V) (buffer : ByteString) : ParseResult V → Prop
  | .value v => ∃ toks, p.Reads buffer toks buffer ∧ p.attributed.Derives [.nterm p.grammar.root] toks [v]
  | .noValue _ | .undefined => True
  | .thrown => ∃ r toks vs, p.attributed.Derives (p.attributed.right r) toks vs ∧ p.attributed.act r vs = none

section
variable {sai : StateAnalysis} (h : p.Kept sai buffer ps toks c u)
include h

theorem Kept.skip (hconsume : ps.consumeMode = true) {n : Nat} :
    p.Keeps sai buffer (consumeTerm ps n) := by
  obtain ⟨hmode, toks₀, tok, rfl, htok⟩ := h.consume hconsume
  obtain rfl := h.pending hmode
  refine ⟨_, c ++ ps.current.take n, [], h.stacked, h.reads.skip _ htok, ?_, ?_, fun _ => rfl,
    fun _ => ⟨hmode, toks₀, tok, rfl, htok⟩⟩
  · have hbuffer := h.buffer
    simpa [consumeTerm] using hbuffer
  · rw [List.append_nil, SourcePoint.update_append]
    have hsp := h.sp
    rw [List.append_nil] at hsp
    rw [consumeTerm, hsp]

theorem Kept.pop (hmode : ps.recoveryMode = true) (hconsume : ps.consumeMode = false) {q : Nat} {cs : List Nat}
    (hcs : ps.cursorStack.tail = q :: cs) :
    p.Keeps sai buffer { ps with cursorStack := q :: cs, valueStack := ps.valueStack.tail } := by
  obtain ⟨q', hcursors⟩ : ∃ q', ps.cursorStack = q' :: q :: cs := by
    cases hstack : ps.cursorStack with
    | nil =>
      rw [hstack] at hcs
      cases hcs
    | cons q' cs' =>
      rw [hstack] at hcs
      exact ⟨q', congrArg _ hcs⟩
  have hstacked := h.stacked
  rw [hcursors] at hstacked
  obtain ⟨toks₀, toks₁, rfl, hpopped⟩ := hstacked.pop
  obtain ⟨c', hreads, u', rfl⟩ := h.reads.take
  refine ⟨toks₀, c', u' ++ u, hpopped, hreads, ?_, ?_, ?_, ?_⟩
  · rw [← h.buffer, List.append_assoc c' u' u]
  · rw [← List.append_assoc]
    exact h.sp
  · intro hfalse
    rw [show ps.recoveryMode = false from hfalse] at hmode
    cases hmode
  · intro htrue
    rw [show ps.consumeMode = true from htrue] at hconsume
    cases hconsume

/-- An error token stands for what was dropped. -/
theorem Kept.pushError {q q' : Nat} {cs : List Nat} (hcs : ps.cursorStack = q :: cs)
    (hnext : (sai.automaton p.grammar).next q (.term p.grammar.errorRecoveryTokenIdx) = some q')
    (recovery consume : Bool) (hmodes : consume = true → recovery = false) :
    p.Keeps sai buffer { ps with
      cursorStack := q' :: ps.cursorStack
      valueStack := p.termValue p.grammar.errorRecoveryTokenIdx [] ps.currentSp :: ps.valueStack
      recoveryMode := recovery
      consumeMode := consume } := by
  refine ⟨_, c ++ u, [], ?_, h.reads.recover u, ?_, ?_, fun _ => rfl, fun hconsume => ⟨hmodes hconsume, _, _, rfl, rfl⟩⟩
  · have hstacked := h.stacked
    rw [hcs] at hstacked ⊢
    rw [h.sp]
    exact hstacked.push hnext (derives_token ⟨p.grammar.errorRecoveryTokenIdx, [], _⟩)
  · rw [List.append_nil]
    exact h.buffer
  · rw [List.append_nil]
    exact h.sp

theorem Kept.pushTerm {q q' t n : Nat} {cs : List Nat} (hcs : ps.cursorStack = q :: cs)
    (hnext : (sai.automaton p.grammar).next q (.term t) = some q') (hmode : ps.recoveryMode = false)
    (hconsume : ps.consumeMode = false) (hn : n ≤ ps.current.length)
    (hterm : dfaMatch p.patterns 0 none ps.current = some (t, n)) :
    p.Keeps sai buffer (p.shift ps t n q') := by
  obtain rfl := h.pending hmode
  have hbuffer := h.buffer
  have hsp := h.sp
  rw [List.append_nil] at hbuffer hsp
  have hsplit : ps.current.take n ++ ps.current.drop n = ps.current := List.take_append_drop n ps.current
  have hlength : (ps.current.take n).length = n := List.length_take_of_le hn
  have hreads : p.Reads buffer (toks ++ [⟨t, ps.current.take n, ({} : SourcePoint).update c⟩])
      (c ++ ps.current.take n) :=
    h.reads.term (s := ps.current.drop n) (by rw [hsplit, hbuffer]) (by rw [hsplit, hterm, hlength])
  refine ⟨_, _, [], ?_, hreads, ?_, ?_, fun _ => rfl, ?_⟩
  · have hstacked := h.stacked
    rw [hcs] at hstacked
    have hpush := hstacked.push hnext (derives_token ⟨t, ps.current.take n, ({} : SourcePoint).update c⟩)
    rw [← hcs, ← hsp] at hpush
    rw [← hsp]
    exact hpush
  · rw [List.append_nil, List.append_assoc]
    exact hsplit.symm ▸ hbuffer
  · rw [List.append_nil, SourcePoint.update_append, ← hsp]
    rfl
  · intro htrue
    rw [show ps.consumeMode = true from htrue] at hconsume
    cases hconsume

variable {acc : Nat → Option Symbol}
    (hsai : analyzeStates p.grammar.info p.grammar.maxSituations = some sai)
    (hsane : sai.Sane p.grammar p.grammar.info acc none)
    (hA : (sai.automaton p.grammar).Justified p.attributed)

omit h in
include hsai in
theorem parseTable_eq : p.grammar.parseTable = sai.parseTable := by
  rw [Grammar.parseTable, hsai]
  rfl

omit h in
include hsai in
theorem entry_eq (q t : Nat) : p.entry q t = sai.entry q (p.grammar.info.tableIdx (.term t)) := by
  rw [entry, parseTable_eq hsai]
  rfl

omit h in
include hsai in
theorem goto_eq (q n : Nat) : p.goto q n = (sai.entry q (p.grammar.info.tableIdx (.nterm n))).shift := by
  rw [goto, parseTable_eq hsai]
  rfl

include hsai hA in
/-- A reduction finds its right side on the stacks and a state for what it leaves. -/
theorem Kept.reduce (hconsume : ps.consumeMode = false) {q j t : Nat} {cs : List Nat} {ri : RuleInfo}
    (hcs : ps.cursorStack = q :: cs) (hm : p.grammar.Marked j ri ri.rElements t)
    (hold : sai.Holds q (p.grammar.info.makeSituationIdx j ri.rElements t)) (hroot : ¬ p.grammar.RootAt j) :
    Sum.elim (p.Keeps sai buffer) (p.Explains buffer) ((p.reduce ps j).elim (.inr .thrown) .inl) := by
  obtain ⟨rule, hrule, -⟩ := hm.right
  have hlt : ri.rIdx < p.grammar.allRules.length := (List.getElem?_eq_some_iff.mp hrule).1
  obtain ⟨-, hleft, hlength⟩ := StateAnalysis.rule_eq (r := ⟨ri.rIdx, hlt⟩) hm rfl
  have hstacked := h.stacked
  rw [hcs] at hstacked
  have hitem : (sai.automaton p.grammar).Item q ⟨ri.rIdx, hlt⟩
      (p.attributed.right ⟨ri.rIdx, hlt⟩).length t := ⟨j, ri, hlength ▸ hm, rfl, hlength ▸ hold⟩
  have hne : (⟨ri.rIdx, hlt⟩ : Fin _) ≠ (sai.automaton p.grammar).root := by
    intro heq
    exact hroot ⟨ri, hm.rule, congrArg Fin.val heq⟩
  obtain ⟨q₀, cs₀, q', toks₁, hdrop, hnext, hderives, hpush⟩ := hstacked.reduce hA hitem hne
  rw [← hlength] at hdrop hderives hpush
  obtain ⟨-, hshift⟩ := StateAnalysis.next_some hnext
  rw [hleft, ← goto_eq hsai] at hshift
  have hreduce : p.reduce ps j = (p.reductor ri.rIdx (ps.valueStack.take ri.rElements).reverse).map fun v =>
      { ps with cursorStack := q' :: q₀ :: cs₀, valueStack := v :: ps.valueStack.drop ri.rElements } := by
    have hri : p.grammar.info.ruleInfos[j]? = some ri := hm.rule
    simp only [Parser.reduce, hri, hcs, hdrop, hshift, Option.bind_eq_bind, Option.bind_some,
      List.head?_cons, Option.pure_def]
    cases p.reductor ri.rIdx (ps.valueStack.take ri.rElements).reverse <;> rfl
  rw [hreduce]
  cases hv : p.reductor ri.rIdx (ps.valueStack.take ri.rElements).reverse with
  | none => exact ⟨⟨ri.rIdx, hlt⟩, toks₁, _, hderives, hv⟩
  | some v =>
    refine ⟨toks, c, u, hpush v hv, h.reads, h.buffer, h.sp, h.pending, ?_⟩
    intro htrue
    rw [show ps.consumeMode = true from htrue] at hconsume
    cases hconsume

include hA in
theorem Kept.success {q j : Nat} {cs : List Nat} {ri : RuleInfo} (hcs : ps.cursorStack = q :: cs)
    (hm : p.grammar.Marked j ri ri.rElements p.grammar.eofIdx)
    (hold : sai.Holds q (p.grammar.info.makeSituationIdx j ri.rElements p.grammar.eofIdx))
    (hroot : ri.rIdx = p.grammar.rootRuleIdx) (hmode : ps.recoveryMode = false) (hcurrent : ps.current = []) :
    p.Explains buffer (ps.valueStack.getLast?.elim .thrown .value) := by
  obtain rfl := h.pending hmode
  have hbuffer := h.buffer
  rw [hcurrent, List.append_nil, List.append_nil] at hbuffer
  subst hbuffer
  obtain ⟨hright, -, hlength⟩ := StateAnalysis.rule_eq (r := (sai.automaton p.grammar).root) hm hroot
  have hget : p.attributed.right (sai.automaton p.grammar).root = [.nterm p.grammar.root] := by
    have hrule := Grammar.allRules_root (g := p.grammar)
    obtain ⟨hlt, hrule⟩ := List.getElem?_eq_some_iff.mp hrule
    exact congrArg Rule.right hrule
  rw [hget] at hlength
  have hstacked := h.stacked
  rw [hcs] at hstacked
  have hone : ri.rElements = 1 := hlength
  rw [hone] at hm hold
  obtain ⟨v, hvs, hderives⟩ := hstacked.accept hA hget ⟨j, ri, hm, hroot, hold⟩
  rw [hvs]
  exact ⟨toks, h.reads, hderives⟩

omit h in
theorem Keeps.recovering (h : p.Keeps sai buffer ps) (hconsume : ps.consumeMode = false) (errorStream : ByteString) :
    p.Keeps sai buffer { ps with errorStream := errorStream, recoveryMode := true } := by
  obtain ⟨toks, c, u, h⟩ := h
  refine ⟨toks, c, u, h.stacked, h.reads, h.buffer, h.sp, (fun hfalse => nomatch hfalse), fun htrue => ?_⟩
  rw [show ps.consumeMode = true from htrue] at hconsume
  cases hconsume

theorem Kept.consumed : p.Kept sai buffer { ps with consumeMode := false } toks c u :=
  ⟨h.stacked, h.reads, h.buffer, h.sp, h.pending, fun htrue => nomatch htrue⟩

theorem Kept.top : ∃ q cs, ps.cursorStack = q :: cs := by
  have hstacked := h.stacked
  cases hcs : ps.cursorStack with
  | nil =>
    rw [hcs] at hstacked
    cases hstacked
  | cons q cs => exact ⟨q, cs, rfl⟩

end

section
variable {sai : StateAnalysis} {acc : Nat → Option Symbol}
    (hsai : analyzeStates p.grammar.info p.grammar.maxSituations = some sai)
    (hsane : sai.Sane p.grammar p.grammar.info acc none)
include hsai hsane

theorem shift_entry {q t : Nat} (ht : t < p.grammar.termCount)
    (hkind : (p.entry q t).kind = .shift ∨ (p.entry q t).kind = .shiftErrorRecoveryToken) :
    ∃ q', (p.entry q t).shift = some q' ∧ (Symbol.term t).Declared p.grammar ∧
      (sai.automaton p.grammar).next q (.term t) = some q' := by
  rw [entry_eq hsai] at hkind ⊢
  obtain ⟨q', hq'⟩ := (hsane.coherent q _).shift hkind
  obtain ⟨-, s, hs, heq, -⟩ := hsane.shift hq'
  obtain rfl := p.grammar.info_describes.tableIdx_inj (s := .term t) ht hs.inTable heq
  exact ⟨q', hq', hs, by rw [StateAnalysis.next_eq hs, hq']⟩

theorem recovery_entry {q t : Nat} (ht : t < p.grammar.termCount)
    (hkind : (p.entry q t).kind = .shiftErrorRecoveryToken) : t = p.grammar.errorRecoveryTokenIdx := by
  rw [entry_eq hsai] at hkind
  obtain ⟨s, hs, heq, hs'⟩ := hsane.recovery hkind
  obtain rfl := p.grammar.info_describes.tableIdx_inj (s := .term t) ht hs.inTable heq
  rcases hs' with hs' | hs' <;> cases hs'
  rfl

theorem reduce_entry {q t j : Nat} (ht : t < p.grammar.termCount) (he : (p.entry q t).reduce = some j) :
    ∃ ri, p.grammar.Marked j ri ri.rElements t ∧
      sai.Holds q (p.grammar.info.makeSituationIdx j ri.rElements t) := by
  rw [entry_eq hsai] at he
  obtain ⟨ri, t', hm, heq, hold⟩ := hsane.reduce he
  have hterm : Symbol.term t = .term t' := p.grammar.info_describes.tableIdx_inj ht hm.term heq
  obtain rfl : t = t' := by cases hterm; rfl
  exact ⟨ri, hm, hold⟩

variable (hp : p.patterns.length = p.grammar.terms.length)
    (hA : (sai.automaton p.grammar).Justified p.attributed)
include hp hA

theorem Keeps.step (h : p.Keeps sai buffer ps) :
    Sum.elim (p.Keeps sai buffer) (p.Explains buffer) (p.step ps) := by
  obtain ⟨toks, c, u, h⟩ := h
  obtain ⟨q, cs, hcs⟩ := h.top
  show Sum.elim _ _ (p.stepWith _ ps)
  unfold Parser.stepWith
  cases hterm : p.getTermWith (dfaMatch p.patterns 0 none) ps with
  | none => trivial
  | some x =>
    obtain ⟨t, n⟩ := x
    have hcases := getCurrentTerm_cases hp hterm
    have ht : t < p.grammar.termCount := by
      simp only [Grammar.errorRecoveryTokenIdx, Grammar.eofIdx] at hcases
      rw [Grammar.termCount]
      omega
    have hhead : ps.cursorStack.headD 0 = q := by rw [hcs, List.headD_cons]
    dsimp only
    rw [hhead]
    by_cases he : (p.entry q t).kind = .error
    · rw [if_pos he]
      by_cases hconsume : ps.consumeMode = true
      · rw [if_pos hconsume]
        split
        · trivial
        · exact h.skip hconsume
      · rw [if_neg hconsume]
        have hconsume : ps.consumeMode = false := Bool.eq_false_iff.mpr hconsume
        by_cases hmode : ps.recoveryMode = true
        · rw [if_pos hmode]
          cases htail : ps.cursorStack.tail with
          | nil => trivial
          | cons q' cs' => exact h.pop hmode hconsume htail
        · rw [if_neg hmode]
          obtain ⟨toks, c, u, h⟩ := Keeps.recovering ⟨toks, c, u, h⟩ hconsume (p.syntaxError ps t)
          cases htail : ps.cursorStack.tail with
          | nil => trivial
          | cons q' cs' => exact h.pop rfl hconsume htail
    · rw [if_neg he]
      have h' := h.consumed
      have hroot : ∀ {j ri}, p.grammar.RootAt j → p.grammar.Marked j ri ri.rElements t →
          ri.rIdx = p.grammar.rootRuleIdx := by
        rintro j ri ⟨ri', hri', hr⟩ hm
        cases hri'.symm.trans hm.rule
        exact hr
      have hcoherent := hsane.coherent q (p.grammar.info.tableIdx (.term t))
      rw [← entry_eq hsai] at hcoherent
      cases hkind : (p.entry q t).kind with
      | error => exact absurd hkind he
      | shift =>
        obtain ⟨q', hq', hdeclared, hnext⟩ := shift_entry hsai hsane ht (.inl hkind)
        dsimp only
        rw [hq', Option.getD_some]
        split_ifs with herror
        · trivial
        rcases hcases with ⟨-, hterror, -⟩ | ⟨-, -, rfl⟩ | ⟨hmode, -, hn, hmatch⟩
        · exact absurd hterror herror
        · exact absurd rfl hdeclared.ne_eof
        · exact h'.pushTerm hcs hnext hmode rfl hn hmatch
      | shiftErrorRecoveryToken =>
        obtain ⟨q', hq', hdeclared, hnext⟩ := shift_entry hsai hsane ht (.inr hkind)
        obtain rfl := recovery_entry hsai hsane ht hkind
        dsimp only
        rw [hq', Option.getD_some]
        exact h'.pushError hcs hnext false true fun _ => rfl
      | success =>
        obtain ⟨j, hj, hrootAt⟩ := hcoherent.success hkind
        obtain ⟨ri, hm, hold⟩ := reduce_entry hsai hsane ht hj
        have hr := hroot hrootAt hm
        obtain rfl := hsane.eof hm hold hr
        rcases hcases with ⟨-, heof, -⟩ | ⟨hmode, hcurrent, -⟩ | ⟨-, hlt, -⟩
        · simp [Grammar.eofIdx, Grammar.errorRecoveryTokenIdx] at heof
        · exact h'.success hA hcs hm hold hr hmode hcurrent
        · exact absurd hlt (lt_irrefl _)
      | reduce =>
        obtain ⟨j, hj, hnot⟩ := hcoherent.reduce (.inl hkind)
        obtain ⟨ri, hm, hold⟩ := reduce_entry hsai hsane ht hj
        dsimp only
        rw [hj, Option.getD_some]
        exact h'.reduce hsai hA rfl hcs hm hold hnot
      | rrConflict =>
        obtain ⟨j, hj, hnot⟩ := hcoherent.reduce (.inr hkind)
        obtain ⟨ri, hm, hold⟩ := reduce_entry hsai hsane ht hj
        dsimp only
        rw [hj, Option.getD_some]
        exact h'.reduce hsai hA rfl hcs hm hold hnot

theorem Keeps.run (h : p.Keeps sai buffer ps) {n : Nat} {r : ParseResult V} (hrun : p.run n ps = some r) :
    p.Explains buffer r := by
  induction n generalizing ps with
  | zero => cases hrun
  | succ n ih =>
    have hstep := h.step hsai hsane hp hA
    rw [run_succ] at hrun
    cases hps : p.step ps with
    | inl ps' =>
      rw [hps] at hrun hstep
      exact ih hstep hrun
    | inr r' =>
      rw [hps] at hrun hstep
      cases hrun
      exact hstep

end

theorem explains_parse (hg : p.grammar.WellFormed) (hp : p.patterns.length = p.grammar.terms.length)
    (hunmerged : p.grammar.Unmerged) {n : Nat} {r : ParseResult V} (h : p.parse n buffer = some r) :
    p.Explains buffer r := by
  have hi := p.grammar.info_describes
  obtain ⟨sai, hsai, hreached, hqueue⟩ := StateAnalysis.analyzeStates_ends hi hg
  obtain ⟨acc, hsane⟩ := hreached.sane hi hg
  have hunmerged' : sai.unmerged p.grammar = true := by
    rw [Grammar.Unmerged, hsai] at hunmerged
    exact hunmerged
  have hstart : p.Keeps sai buffer { current := buffer } :=
    ⟨[], [], [], .bottom, .nil, rfl, rfl, fun _ => rfl, fun htrue => nomatch htrue⟩
  exact hstart.run hsai hsane hp (hsane.justified hg hqueue hunmerged') h

-- Of `S -> X Y`, `Z -> z`, `X -> x`, `Y -> W Z` and `W -> w`: nothing follows `Y`, and the slot of that is the one
-- of what `Z` begins with. So `W` is never looked for, and `xwz` is not accepted.
example :
    let g : Grammar := ⟨List.replicate 3 (0, .noAssoc), 5, [⟨0, [.nterm 1, .nterm 2], 0⟩, ⟨3, [.term 0], 0⟩,
      ⟨1, [.term 1], 0⟩, ⟨2, [.nterm 4, .nterm 3], 0⟩, ⟨4, [.term 2], 0⟩], 0⟩
    let p : Parser ByteString := ⟨g, [.literal (str "z"), .literal (str "x"), .literal (str "w")],
      [str "z", str "x", str "w"], fun _ text _ => text, fun _ args => some args.flatten⟩
    p.parse 40 (str "xwz") = some (.noValue (str "[1:2] PARSE: Syntax error: Unexpected 'w'\n")) := by
  decide +kernel

-- The words of this grammar are `as`, `bs` and `bsd`. The state behind `a` and `s` is found again behind
-- `b` and `s`, and takes in the mark of the last rule: the parser accepts `asd`.
example :
    let g : Grammar := ⟨List.replicate 4 (0, .noAssoc), 6, [⟨0, [.term 0, .nterm 1], 0⟩,
      ⟨0, [.term 1, .nterm 1], 0⟩, ⟨0, [.nterm 2], 0⟩, ⟨1, [.term 2], 0⟩, ⟨2, [.nterm 3], 0⟩,
      ⟨3, [.nterm 4], 0⟩, ⟨4, [.nterm 5], 0⟩, ⟨5, [.term 1, .term 2, .term 3], 0⟩], 0⟩
    let p : Parser ByteString := ⟨g, [.literal (str "a"), .literal (str "b"), .literal (str "s"),
      .literal (str "d")], [], fun _ text _ => text, fun _ args => some args.flatten⟩
    ¬ g.Unmerged ∧ p.parse 40 (str "asd") = some (.value (str "asd")) := by
  decide +kernel

end Parser

end Ctpg
end UdfRunner
