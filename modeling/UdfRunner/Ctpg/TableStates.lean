import UdfRunner.Ctpg.ParseTable
import Mathlib.Data.Nat.Bitwise
import Mathlib.Tactic

/-!
# `ctpg.hpp`: the states of a parse table

Situations, states and the entries of the table, and what the operations on them do.
-/

namespace UdfRunner
namespace Ctpg

/-! ### Grammars -/

/-- The parser's constructor finds the symbols of a rule by their names. -/
def Symbol.Declared (g : Grammar) : Symbol → Prop
  | .nterm idx => idx < g.ntermCount
  | .term idx => idx < g.terms.length ∨ idx = g.errorRecoveryTokenIdx

instance (g : Grammar) : DecidablePred (Symbol.Declared g)
  | .nterm idx => inferInstanceAs (Decidable (idx < g.ntermCount))
  | .term idx => inferInstanceAs (Decidable (idx < g.terms.length ∨ idx = g.errorRecoveryTokenIdx))

namespace Grammar

def WellFormed (g : Grammar) : Prop :=
  g.root < g.ntermCount ∧ ∀ r ∈ g.rules, r.left < g.ntermCount ∧ ∀ s ∈ r.right, s.Declared g

instance : DecidablePred WellFormed := fun g =>
  inferInstanceAs (Decidable (g.root < g.ntermCount ∧
    ∀ r ∈ g.rules, r.left < g.ntermCount ∧ ∀ s ∈ r.right, s.Declared g))

variable {g : Grammar} {r : Rule} {ri : RuleInfo}

theorem mem_allRules : r ∈ g.allRules ↔ r ∈ g.rules ∨ r = ⟨g.ntermCount, [.nterm g.root], 0⟩ := by
  simp [allRules]

theorem length_allRules : g.allRules.length = g.ruleCount := by
  simp [allRules, ruleCount]

theorem allRules_root : g.allRules[g.rootRuleIdx]? = some ⟨g.ntermCount, [.nterm g.root], 0⟩ := by
  simp [allRules, rootRuleIdx]

/-- Only the root rule has the fake root on its left. -/
theorem WellFormed.left_lt (hg : g.WellFormed) {i : Nat} (hr : g.allRules[i]? = some r)
    (hi : i ≠ g.rootRuleIdx) : r.left < g.ntermCount := by
  have hlt : i < g.rules.length := by
    have hbound := (List.getElem?_eq_some_iff.mp hr).1
    rw [length_allRules, ruleCount] at hbound
    rw [rootRuleIdx] at hi
    omega
  rw [allRules, List.getElem?_append_left hlt] at hr
  exact (hg.2 r (List.mem_of_getElem? hr)).1

theorem WellFormed.declared (hg : g.WellFormed) (hr : r ∈ g.allRules) {s : Symbol} (hs : s ∈ r.right) :
    s.Declared g := by
  rcases mem_allRules.mp hr with hr | rfl
  · exact (hg.2 r hr).2 s hs
  · obtain rfl := List.mem_singleton.mp hs
    exact hg.1

theorem le_foldl_max (l : List Nat) (m : Nat) : m ≤ l.foldl max m ∧ ∀ n ∈ l, n ≤ l.foldl max m := by
  induction l generalizing m with
  | nil => simp
  | cons a l ih =>
    obtain ⟨hm, hl⟩ := ih (max m a)
    refine ⟨(le_max_left m a).trans hm, ?_⟩
    intro n hn
    rcases List.mem_cons.mp hn with rfl | hn
    · exact (le_max_right m n).trans hm
    · exact hl n hn

theorem length_right_le (hr : r ∈ g.allRules) : r.right.length ≤ g.maxRuleElementCount := by
  obtain ⟨hone, hmem⟩ := le_foldl_max (g.rules.map fun r => r.right.length) 1
  rcases mem_allRules.mp hr with hr | rfl
  · exact hmem _ (List.mem_map_of_mem hr)
  · exact hone

theorem mem_ruleInfos : ri ∈ g.ruleInfos ↔
    ∃ r, g.allRules[ri.rIdx]? = some r ∧ ri.lIdx = r.left ∧ ri.rElements = r.right.length := by
  rw [ruleInfos, List.mem_insertionSort, List.mem_map]
  constructor
  · rintro ⟨⟨r, i⟩, hr, rfl⟩
    exact ⟨r, List.mem_zipIdx_iff_getElem?.mp hr, rfl, rfl⟩
  · rintro ⟨r, hr, hl, he⟩
    refine ⟨(r, ri.rIdx), List.mem_zipIdx_iff_getElem?.mpr hr, ?_⟩
    obtain ⟨l, i, n⟩ := ri
    simp_all

theorem length_ruleInfos : g.ruleInfos.length = g.ruleCount := by
  rw [ruleInfos, List.length_insertionSort, List.length_map, List.length_zipIdx, length_allRules]

theorem termCount_pos : 0 < g.termCount := Nat.succ_pos _

end Grammar

/-! ### Situations -/

structure GrammarInfo.Describes (info : GrammarInfo) (g : Grammar) : Prop where
  ruleInfos : info.ruleInfos = g.ruleInfos
  rightSides : info.rightSides = g.rightSides
  termCount : info.termCount = g.termCount
  ntermCount : info.ntermCount = g.ntermTotal
  rootRuleIdx : info.rootRuleIdx = g.rootRuleIdx
  situationSize : info.situationSize = g.maxRuleElementCount + 1

theorem Grammar.info_describes (g : Grammar) : g.info.Describes g := ⟨rfl, rfl, rfl, rfl, rfl, rfl⟩

/-- The rule at `j` with the mark after `k` symbols, and a lookahead. -/
structure Grammar.Marked (g : Grammar) (j : Nat) (ri : RuleInfo) (k t : Nat) : Prop where
  rule : g.ruleInfos[j]? = some ri
  mark : k ≤ ri.rElements
  term : t < g.termCount

def Grammar.right (g : Grammar) (ri : RuleInfo) : List Symbol := g.rightSides.getD ri.rIdx []

section
variable {g : Grammar} {info : GrammarInfo} {j j' k k' t t' i : Nat} {ri ri' : RuleInfo}

namespace Grammar.Marked

theorem mem (h : g.Marked j ri k t) : ri ∈ g.ruleInfos := List.mem_of_getElem? h.rule

theorem right (h : g.Marked j ri k t) :
    ∃ r, g.allRules[ri.rIdx]? = some r ∧ ri.lIdx = r.left ∧ g.right ri = r.right ∧
      ri.rElements = (g.right ri).length := by
  obtain ⟨r, hr, hl, hn⟩ := mem_ruleInfos.mp h.mem
  have hright : g.right ri = r.right := by
    rw [Grammar.right, rightSides, List.getD_eq_getElem?_getD, List.getElem?_map, hr]
    rfl
  exact ⟨r, hr, hl, hright, hn.trans (congrArg List.length hright).symm⟩

theorem lt_situationSize (h : g.Marked j ri k t) : k < g.maxRuleElementCount + 1 := by
  obtain ⟨r, hr, -, hright, hn⟩ := h.right
  have hle := length_right_le (List.mem_of_getElem? hr)
  have hk := h.mark
  rw [hn, hright] at hk
  omega

theorem lt_ruleCount (h : g.Marked j ri k t) : j < g.ruleCount := by
  rw [← length_ruleInfos]
  exact (List.getElem?_eq_some_iff.mp h.rule).1

theorem declared (h : g.Marked j ri k t) (hg : g.WellFormed) {s : Symbol} (hs : (g.right ri)[i]? = some s) :
    s.Declared g := by
  obtain ⟨r, hr, -, hright, -⟩ := h.right
  rw [hright] at hs
  exact hg.declared (List.mem_of_getElem? hr) (List.mem_of_getElem? hs)

theorem advance (h : g.Marked j ri k t) {s : Symbol} (hs : (g.right ri)[k]? = some s) :
    g.Marked j ri (k + 1) t := by
  obtain ⟨-, -, -, -, hn⟩ := h.right
  have hlt := (List.getElem?_eq_some_iff.mp hs).1
  exact ⟨h.rule, by omega, h.term⟩

theorem complete (h : g.Marked j ri k t) (hs : (g.right ri)[k]? = none) : k = ri.rElements := by
  obtain ⟨-, -, -, -, hn⟩ := h.right
  have hle := List.getElem?_eq_none_iff.mp hs
  have hk := h.mark
  omega

end Grammar.Marked

namespace GrammarInfo.Describes
variable (hi : info.Describes g)
include hi

theorem makeSituationIdx : info.makeSituationIdx j k t =
    (j * (g.maxRuleElementCount + 1) + k) * g.termCount + t := by
  rw [GrammarInfo.makeSituationIdx, hi.situationSize, hi.termCount]
  ring

theorem div_make (ht : t < g.termCount) :
    info.makeSituationIdx j k t / g.termCount = j * (g.maxRuleElementCount + 1) + k := by
  rw [hi.makeSituationIdx, Nat.add_comm, Nat.add_mul_div_right _ _ Grammar.termCount_pos,
    Nat.div_eq_of_lt ht, Nat.zero_add]

theorem mod_make (ht : t < g.termCount) : info.makeSituationIdx j k t % g.termCount = t := by
  rw [hi.makeSituationIdx, Nat.add_comm, Nat.add_mul_mod_self_right, Nat.mod_eq_of_lt ht]

theorem make_inj (h : g.Marked j ri k t) (h' : g.Marked j' ri' k' t')
    (he : info.makeSituationIdx j k t = info.makeSituationIdx j' k' t') :
    j = j' ∧ ri = ri' ∧ k = k' ∧ t = t' := by
  have ht : t = t' := by rw [← hi.mod_make h.term, he, hi.mod_make h'.term]
  have hdiv := congrArg (· / g.termCount) he
  simp only [hi.div_make h.term, hi.div_make h'.term] at hdiv
  have hk : k = k' := by
    have hmod := congrArg (· % (g.maxRuleElementCount + 1)) hdiv
    simpa [Nat.add_comm _ k, Nat.add_comm _ k', Nat.mod_eq_of_lt h.lt_situationSize,
      Nat.mod_eq_of_lt h'.lt_situationSize] using hmod
  have hj : j = j' := by
    subst hk
    exact Nat.eq_of_mul_eq_mul_right (Nat.succ_pos _) (Nat.add_right_cancel hdiv)
  subst hj
  exact ⟨rfl, Option.some.inj (h.rule.symm.trans h'.rule), hk, ht⟩

theorem situation (h : g.Marked j ri k t) :
    info.situation (info.makeSituationIdx j k t) = some (j, ri, k, (g.right ri).drop k, t) := by
  have hmod : (j * (g.maxRuleElementCount + 1) + k) % (g.maxRuleElementCount + 1) = k := by
    rw [Nat.add_comm, Nat.add_mul_mod_self_right, Nat.mod_eq_of_lt h.lt_situationSize]
  have hdiv : (j * (g.maxRuleElementCount + 1) + k) / (g.maxRuleElementCount + 1) = j := by
    rw [Nat.add_comm, Nat.add_mul_div_right _ _ (Nat.succ_pos _), Nat.div_eq_of_lt h.lt_situationSize,
      Nat.zero_add]
  simp only [GrammarInfo.situation, hi.termCount, hi.situationSize, hi.ruleInfos, hi.rightSides,
    hi.div_make h.term, hi.mod_make h.term, hmod, hdiv, h.rule, Option.map_some]
  rfl

theorem make_lt (h : g.Marked j ri k t) : info.makeSituationIdx j k t <
    g.ruleCount * (g.maxRuleElementCount + 1) * g.termCount := by
  rw [hi.makeSituationIdx]
  have hj := h.lt_ruleCount
  have hk := h.lt_situationSize
  have ht := h.term
  calc (j * (g.maxRuleElementCount + 1) + k) * g.termCount + t
      < (j * (g.maxRuleElementCount + 1) + k + 1) * g.termCount := by
        rw [Nat.add_mul _ 1, Nat.one_mul]
        exact Nat.add_lt_add_left ht _
    _ ≤ ((j + 1) * (g.maxRuleElementCount + 1)) * g.termCount := by
        refine Nat.mul_le_mul_right _ ?_
        rw [Nat.add_mul, Nat.one_mul]
        omega
    _ ≤ _ := Nat.mul_le_mul_right _ (Nat.mul_le_mul_right _ hj)

end GrammarInfo.Describes
end

/-! ### The operations -/

namespace StateAnalysis

def Holds (sai : StateAnalysis) (q i : Nat) : Prop := (sai.states.getD q 0).testBit i = true

def queue (sai : StateAnalysis) : List (Nat × Nat) := sai.front ++ sai.back.reverse

/-- A row of the table for each state, of the table's width. -/
structure Shaped (g : Grammar) (sai : StateAnalysis) : Prop where
  rows : sai.parseTable.length = sai.states.length
  widths : ∀ row ∈ sai.parseTable, row.length = g.ntermTotal + g.termCount

variable {g : Grammar} {info : GrammarInfo} {sai : StateAnalysis} {q q' i i' c c' : Nat} {e : TableEntry}

theorem Holds.lt (h : sai.Holds q i) : q < sai.states.length := by
  by_contra hq
  rw [Holds, List.getD_eq_default _ _ (by omega)] at h
  simp at h

theorem add_of_holds (h : sai.Holds q i) : sai.addSituationToState q i = sai := if_pos h

theorem add_of_not_holds (h : ¬ sai.Holds q i) : sai.addSituationToState q i = { sai with
    states := sai.states.set q (sai.states.getD q 0 ||| 1 <<< i)
    back := (q, i) :: sai.back } := if_neg h

theorem holds_add (hq : q < sai.states.length) :
    (sai.addSituationToState q i).Holds q' i' ↔ sai.Holds q' i' ∨ (q' = q ∧ i' = i) := by
  by_cases hi : sai.Holds q i
  · rw [add_of_holds hi]
    refine ⟨Or.inl, fun h => h.elim id ?_⟩
    rintro ⟨rfl, rfl⟩
    exact hi
  · rw [add_of_not_holds hi, Holds, Holds, List.getD_eq_getElem?_getD, List.getElem?_set]
    by_cases hqq : q = q'
    · subst hqq
      rw [if_pos rfl, if_pos hq, Option.getD_some, Nat.testBit_or, Nat.one_shiftLeft, Nat.testBit_two_pow,
        Bool.or_eq_true, decide_eq_true_iff]
      exact or_congr_right ⟨fun h => ⟨rfl, h.symm⟩, fun h => h.2.symm⟩
    · rw [if_neg hqq, ← List.getD_eq_getElem?_getD]
      refine ⟨Or.inl, fun h => h.elim id ?_⟩
      rintro ⟨rfl, -⟩
      exact absurd rfl hqq

theorem mem_queue_add {x : Nat × Nat} :
    x ∈ (sai.addSituationToState q i).queue ↔ x ∈ sai.queue ∨ (x = (q, i) ∧ ¬ sai.Holds q i) := by
  by_cases hi : sai.Holds q i
  · simp [add_of_holds hi, hi]
  · rw [add_of_not_holds hi]
    simp [queue, hi, or_assoc]

@[simp] theorem parseTable_add : (sai.addSituationToState q i).parseTable = sai.parseTable := by
  unfold addSituationToState
  dsimp only
  split <;> rfl

@[simp] theorem firstSets_add : (sai.addSituationToState q i).firstSets = sai.firstSets := by
  unfold addSituationToState
  dsimp only
  split <;> rfl

@[simp] theorem length_add : (sai.addSituationToState q i).states.length = sai.states.length := by
  unfold addSituationToState
  dsimp only
  split
  · rfl
  · exact List.length_set ..

@[simp] theorem entry_add : (sai.addSituationToState q i).entry q' c = sai.entry q' c := by
  rw [entry, parseTable_add, entry]

theorem Shaped.add (h : sai.Shaped g) : (sai.addSituationToState q i).Shaped g where
  rows := by rw [parseTable_add, length_add, h.rows]
  widths := by
    rw [parseTable_add]
    exact h.widths

/-! A new state holds nothing. -/

def grow (g : GrammarInfo) (sai : StateAnalysis) : StateAnalysis :=
  { sai with
    states := sai.states ++ [0]
    parseTable := sai.parseTable ++ [List.replicate (g.ntermCount + g.termCount) {}] }

@[simp] theorem holds_grow (info : GrammarInfo) : (sai.grow info).Holds q i ↔ sai.Holds q i := by
  by_cases hq : q < sai.states.length
  · simp [Holds, grow, List.getD_eq_getElem?_getD, List.getElem?_append_left hq]
  · obtain ⟨n, rfl⟩ := Nat.exists_eq_add_of_le (not_lt.mp hq)
    cases n <;> simp [Holds, grow, List.getD_eq_getElem?_getD]

@[simp] theorem queue_grow : (sai.grow info).queue = sai.queue := rfl

@[simp] theorem length_grow : (sai.grow info).states.length = sai.states.length + 1 := by
  simp [grow]

@[simp] theorem entry_grow (info : GrammarInfo) : (sai.grow info).entry q c = sai.entry q c := by
  by_cases hq : q < sai.parseTable.length
  · simp [entry, grow, List.getD_eq_getElem?_getD, List.getElem?_append_left hq]
  · obtain ⟨n, rfl⟩ := Nat.exists_eq_add_of_le (not_lt.mp hq)
    cases n with
    | zero =>
      by_cases hc : c < info.ntermCount + info.termCount <;>
        simp [entry, grow, List.getD_eq_getElem?_getD, hc]
    | succ n => simp [entry, grow, List.getD_eq_getElem?_getD]

theorem Shaped.grow (hi : info.Describes g) (h : sai.Shaped g) : (sai.grow info).Shaped g where
  rows := by simp [StateAnalysis.grow, h.rows]
  widths := by
    intro row hrow
    rcases List.mem_append.mp hrow with hrow | hrow
    · exact h.widths row hrow
    · rw [List.mem_singleton.mp hrow, List.length_replicate, hi.ntermCount, hi.termCount]

/-- The state found holds the situation, or it is new and no state does. -/
theorem findState_cases (info : GrammarInfo) (sai : StateAnalysis) (i : Nat) :
    (∃ q, sai.findState info i = (q, sai) ∧ sai.Holds q i) ∨
    (sai.findState info i = (sai.states.length, sai.grow info) ∧ ∀ q, ¬ sai.Holds q i) := by
  unfold findState
  cases hq : sai.states.findIdx? (·.testBit i) with
  | some q =>
    refine .inl ⟨q, rfl, ?_⟩
    obtain ⟨hlt, htest, -⟩ := List.findIdx?_eq_some_iff_getElem.mp hq
    rw [Holds, List.getD_eq_getElem _ _ hlt]
    exact htest
  | none =>
    refine .inr ⟨rfl, fun q h => ?_⟩
    have hlt := h.lt
    have hnone := List.findIdx?_eq_none_iff.mp hq _ (List.getElem_mem hlt)
    rw [Holds, List.getD_eq_getElem _ _ hlt, hnone] at h
    cases h

@[simp] theorem holds_setEntry : (sai.setEntry q c e).Holds q' i ↔ sai.Holds q' i := Iff.rfl
@[simp] theorem queue_setEntry : (sai.setEntry q c e).queue = sai.queue := rfl
@[simp] theorem states_setEntry : (sai.setEntry q c e).states = sai.states := rfl

theorem entry_setEntry (h : sai.Shaped g) (hq : q < sai.states.length) (hc : c < g.ntermTotal + g.termCount) :
    (sai.setEntry q c e).entry q' c' = if q' = q ∧ c' = c then e else sai.entry q' c' := by
  have hrow : q < sai.parseTable.length := h.rows.symm ▸ hq
  have hwidth : (sai.parseTable[q]).length = g.ntermTotal + g.termCount := h.widths _ (List.getElem_mem hrow)
  simp only [entry, setEntry, List.getD_eq_getElem?_getD, List.getElem?_modify]
  by_cases hqq : q' = q
  · subst hqq
    by_cases hcc : c' = c
    · subst hcc
      simp [hrow, hwidth, hc]
    · simp [hrow, hcc, Ne.symm hcc]
  · simp [hqq, Ne.symm hqq]

theorem Shaped.setEntry (h : sai.Shaped g) : (sai.setEntry q c e).Shaped g where
  rows := by simp [StateAnalysis.setEntry, h.rows]
  widths := by
    intro row hrow
    obtain ⟨n, hn, rfl⟩ := List.mem_iff_getElem.mp hrow
    simp only [StateAnalysis.setEntry, List.length_modify] at hn
    simp only [StateAnalysis.setEntry, List.getElem_modify]
    have hlen := h.widths _ (List.getElem_mem hn)
    split
    · rw [List.length_set, hlen]
    · exact hlen

end StateAnalysis

end Ctpg
end UdfRunner
