import UdfRunner.Ctpg.TableRounds

/-!
# `ctpg.hpp`: the analysis fits its arrays

The parser is an object of fixed size: `max_states` states and rows, and a queue of the square of that.
A new state is made for a situation that no state holds, so there are no more states than situations; a
situation enters the queue when it joins a state, so it is worked off once.
-/

namespace UdfRunner
namespace Ctpg

namespace Grammar
variable (g : Grammar)

def maxStates : Nat := (g.allRules.map fun r => r.right.length + 1).sum * g.termCount

def situationAddressSpaceSize : Nat := g.ruleCount * (g.maxRuleElementCount + 1) * g.termCount

def situations (info : GrammarInfo) : List Nat :=
  g.ruleInfos.zipIdx.flatMap fun (ri, j) =>
    (List.range (ri.rElements + 1)).flatMap fun k =>
      (List.range g.termCount).map fun t => info.makeSituationIdx j k t

variable {g} {info : GrammarInfo}

theorem mem_situations {i : Nat} : i ∈ g.situations info ↔
    ∃ j ri k t, g.Marked j ri k t ∧ i = info.makeSituationIdx j k t := by
  simp only [situations, List.mem_flatMap, List.mem_map, List.mem_range]
  constructor
  · rintro ⟨⟨ri, j⟩, hrule, k, hk, t, ht, rfl⟩
    exact ⟨j, ri, k, t, ⟨List.mem_zipIdx_iff_getElem?.mp hrule, Nat.le_of_lt_succ hk, ht⟩, rfl⟩
  · rintro ⟨j, ri, k, t, hm, rfl⟩
    exact ⟨(ri, j), List.mem_zipIdx_iff_getElem?.mpr hm.rule, k, Nat.lt_succ_of_le hm.mark, t, hm.term, rfl⟩

theorem length_situations (g : Grammar) (info : GrammarInfo) : (g.situations info).length = g.maxStates := by
  have hperm : (g.ruleInfos.map fun ri => ri.rElements + 1).Perm
      (g.allRules.map fun r => r.right.length + 1) := by
    refine ((List.perm_insertionSort _ _).map _).trans (List.Perm.of_eq ?_)
    rw [List.map_map, ← congrArg (List.map fun r => r.right.length + 1) (List.zipIdx_map_fst 0 g.allRules),
      List.map_map]
    rfl
  have hlength : (g.situations info).length =
      ((g.ruleInfos.zipIdx.map Prod.fst).map fun ri => (ri.rElements + 1) * g.termCount).sum := by
    rw [List.map_map]
    simp [situations, List.length_flatMap, Function.comp_def]
  rw [hlength, List.zipIdx_map_fst, List.sum_map_mul_right, hperm.sum_eq, maxStates]

end Grammar

namespace StateAnalysis

instance (sai : StateAnalysis) (q i : Nat) : Decidable (sai.Holds q i) :=
  inferInstanceAs (Decidable (_ = true))

/-- The situations of all states. -/
def held (g : Grammar) (sai : StateAnalysis) : Finset (Nat × Nat) :=
  (Finset.range sai.states.length ×ˢ Finset.range g.situationAddressSpaceSize).filter fun x =>
    sai.Holds x.1 x.2

/-- A situation of its own for each state. -/
def Founded (sai : StateAnalysis) : Prop :=
  ∃ fs : List Nat, fs.length = sai.states.length ∧ fs.Nodup ∧ ∀ q i, fs[q]? = some i → sai.Holds q i

/-- Inside a round a situation joins a state and the back of the queue. -/
structure Balanced (g : Grammar) (sai sai' : StateAnalysis) : Prop where
  front : sai'.front = sai.front
  count : (held g sai).card + sai'.back.length = (held g sai').card + sai.back.length

variable {g : Grammar} {info : GrammarInfo} {acc : Nat → Option Symbol} {pending : Option (Nat × Nat)}
    {sai sai' sai'' : StateAnalysis} {q q' i j k t n : Nat} {ri : RuleInfo} {e : TableEntry}

theorem Balanced.refl : Balanced g sai sai := ⟨rfl, rfl⟩

theorem Balanced.trans (h : Balanced g sai sai') (h' : Balanced g sai' sai'') : Balanced g sai sai'' where
  front := h'.front.trans h.front
  count := by
    have hc := h.count
    have hc' := h'.count
    omega

theorem balanced_add (hq : q < sai.states.length) (hi : i < g.situationAddressSpaceSize) :
    Balanced g sai (sai.addSituationToState q i) := by
  by_cases hold : sai.Holds q i
  · rw [add_of_holds hold]
    exact .refl
  · have hheld : held g (sai.addSituationToState q i) = insert (q, i) (held g sai) := by
      ext ⟨q', i'⟩
      simp only [held, Finset.mem_insert, Finset.mem_filter, Finset.mem_product, Finset.mem_range, length_add,
        holds_add hq, Prod.mk.injEq]
      constructor
      · rintro ⟨hlt, hold' | heq⟩
        · exact .inr ⟨hlt, hold'⟩
        · exact .inl heq
      · rintro (⟨rfl, rfl⟩ | ⟨hlt, hold'⟩)
        · exact ⟨⟨hq, hi⟩, .inr ⟨rfl, rfl⟩⟩
        · exact ⟨hlt, .inl hold'⟩
    have hnot : (q, i) ∉ held g sai := fun hmem => hold (Finset.mem_filter.mp hmem).2
    refine ⟨?_, ?_⟩
    · rw [add_of_not_holds hold]
    · rw [hheld, Finset.card_insert_of_notMem hnot, add_of_not_holds hold]
      simp only [List.length_cons]
      omega

theorem balanced_setEntry {c : Nat} : Balanced g sai (sai.setEntry q c e) := ⟨rfl, rfl⟩

theorem balanced_grow : Balanced g sai (sai.grow info) := by
  refine ⟨rfl, ?_⟩
  have hheld : held g (sai.grow info) = held g sai := by
    ext ⟨q', i'⟩
    simp only [held, Finset.mem_filter, Finset.mem_product, Finset.mem_range, length_grow, holds_grow]
    constructor
    · rintro ⟨⟨-, hi'⟩, hold⟩
      exact ⟨⟨hold.lt, hi'⟩, hold⟩
    · rintro ⟨⟨hq', hi'⟩, hold⟩
      exact ⟨⟨hq'.trans (Nat.lt_succ_self _), hi'⟩, hold⟩
  rw [hheld]
  rfl

theorem Founded.mono (h : sai.Founded) (hlen : sai'.states.length = sai.states.length)
    (hgrows : ∀ {q i}, sai.Holds q i → sai'.Holds q i) : sai'.Founded := by
  obtain ⟨fs, hfs, hnodup, hholds⟩ := h
  exact ⟨fs, hfs.trans hlen.symm, hnodup, fun q i hqi => hgrows (hholds q i hqi)⟩

theorem Founded.concat (h : sai.Founded) (hnew : ∀ q, ¬ sai.Holds q i)
    (hlen : sai'.states.length = sai.states.length + 1) (hgrows : ∀ {q i}, sai.Holds q i → sai'.Holds q i)
    (hold : sai'.Holds sai.states.length i) : sai'.Founded := by
  obtain ⟨fs, hfs, hnodup, hholds⟩ := h
  refine ⟨fs ++ [i], by rw [List.length_append, hfs, hlen]; rfl, ?_, ?_⟩
  · refine hnodup.append (List.nodup_singleton i) ?_
    intro i' hi' heq
    obtain rfl := List.mem_singleton.mp heq
    obtain ⟨q, hq⟩ := List.getElem?_of_mem hi'
    exact hnew q (hholds q i' hq)
  · intro q i' hqi
    rcases Nat.lt_or_ge q fs.length with hlt | hge
    · rw [List.getElem?_append_left hlt] at hqi
      exact hgrows (hholds q i' hqi)
    · rw [List.getElem?_append_right hge, List.getElem?_singleton] at hqi
      split at hqi
      next h0 =>
        cases hqi
        rwa [show q = sai.states.length by omega]
      next => cases hqi

theorem Founded.length_le (h : sai.Founded)
    (hvalid : ∀ {q i}, sai.Holds q i → ∃ j ri k t, g.Marked j ri k t ∧ i = info.makeSituationIdx j k t) :
    sai.states.length ≤ g.maxStates := by
  obtain ⟨fs, hfs, hnodup, hholds⟩ := h
  rw [← hfs, ← Grammar.length_situations g info]
  refine (hnodup.subperm ?_).length_le
  intro i hi
  obtain ⟨q, hq⟩ := List.getElem?_of_mem hi
  exact Grammar.mem_situations.mpr (hvalid (hholds q i hq))

section
variable (hi : info.Describes g)
include hi

theorem balanced_close (hm : g.Marked j ri k t) (hq : q < sai.states.length) {l : List Nat}
    (hl : ∀ i' ∈ l, info.Brings g (info.makeSituationIdx j k t) i') :
    Balanced g sai (l.foldl (fun sai i => sai.addSituationToState q i) sai) ∧
      (l.foldl (fun sai i => sai.addSituationToState q i) sai).states.length = sai.states.length := by
  induction l generalizing sai with
  | nil => exact ⟨.refl, rfl⟩
  | cons i' l ih =>
    obtain ⟨j', ri', t', -, hm', rfl⟩ := hl i' (by simp) hm rfl
    have hq' : q < (sai.addSituationToState q (info.makeSituationIdx j' 0 t')).states.length := by
      rwa [length_add]
    obtain ⟨hbalanced, hlen⟩ := ih hq' fun i'' hi'' => hl i'' (by simp [hi''])
    exact ⟨(balanced_add hq (hi.make_lt hm')).trans hbalanced, hlen.trans length_add⟩

theorem Sane.transition_counts (h : sai.Sane g info acc pending) (hm : g.Marked j ri k t) :
    Balanced g sai (sai.situationTransition info q (info.makeSituationIdx j k t)) ∧
      (sai.Founded → (sai.situationTransition info q (info.makeSituationIdx j k t)).Founded) := by
  cases hs : (g.right ri)[k]? with
  | none =>
    obtain ⟨kind, heq, -⟩ := transition_complete hi sai q hm hs
    rw [heq]
    exact ⟨balanced_setEntry, fun hf => hf.mono rfl id⟩
  | some s =>
    have hlt := hi.make_lt (hm.advance hs)
    cases hshift : (sai.entry q (info.tableIdx s)).shift with
    | some target =>
      have htarget := (h.shift hshift).1
      rw [transition_known hi hm hs hshift]
      exact ⟨balanced_add htarget hlt, fun hf => hf.mono length_add fun hq => (holds_add htarget).mpr (.inl hq)⟩
    | none =>
      obtain ⟨kind, -, heq⟩ := transition_new hi hm hs hshift
      rw [heq]
      rcases findState_cases info sai (info.makeSituationIdx j (k + 1) t) with ⟨q', heq, hq'⟩ | ⟨heq, hnew⟩
      · rw [heq]
        have hlt' : q' < (sai.setEntry q (info.tableIdx s)
            { sai.entry q (info.tableIdx s) with kind := kind, shift := some q' }).states.length := hq'.lt
        exact ⟨balanced_setEntry.trans (balanced_add hlt' hlt), fun hf => hf.mono length_add fun hold =>
          (holds_add hlt').mpr (.inl hold)⟩
      · rw [heq]
        have hlt' : sai.states.length < ((sai.grow info).setEntry q (info.tableIdx s)
            { sai.entry q (info.tableIdx s) with
              kind := kind, shift := some sai.states.length }).states.length := by
          rw [states_setEntry, length_grow]
          exact Nat.lt_succ_self _
        refine ⟨(balanced_grow.trans balanced_setEntry).trans (balanced_add hlt' hlt), fun hf => ?_⟩
        refine hf.concat hnew ?_ ?_ ((holds_add hlt').mpr (.inr ⟨rfl, rfl⟩))
        · rw [length_add, states_setEntry, length_grow]
        · exact fun hold => (holds_add hlt').mpr (.inl ((holds_grow info).mpr hold))

variable (hg : g.WellFormed)
include hg

theorem Sane.work_counts (h : sai.Sane g info acc (some (q, i))) (hold : sai.Holds q i) {closure : List Nat}
    (hclosure : ∀ i' ∈ closure, info.Brings g i i') :
    Balanced g sai (sai.work info q i closure) ∧ (sai.Founded → (sai.work info q i closure).Founded) := by
  obtain ⟨j, ri, k, t, hm, rfl⟩ := h.valid hold
  obtain ⟨hclose, hgrows⟩ := h.close hi hg hm hold hclosure
  obtain ⟨hbalanced, hlen⟩ := balanced_close hi hm hold.lt hclosure
  obtain ⟨hbalanced', hfounded⟩ := hclose.transition_counts hi hm
  exact ⟨hbalanced.trans hbalanced', fun hf => hfounded (hf.mono hlen hgrows.holds)⟩

/-- `n` situations have been worked off, and each of the others waits in the queue. -/
structure Counted (g : Grammar) (info : GrammarInfo) (sai : StateAnalysis) (n : Nat) : Prop where
  sane : ∃ acc, sai.Sane g info acc none
  founded : sai.Founded
  count : (held g sai).card = n + sai.queue.length

theorem counted_start : Counted g info (start info) 0 := by
  obtain ⟨ri, -, hm⟩ := marked_start hg
  have hpos : 0 < (blank info).states.length := Nat.one_pos
  have hbalanced : Balanced g (blank info) _ := balanced_add hpos (hi.make_lt hm)
  refine ⟨⟨_, sane_start hi hg⟩, ?_, ?_⟩
  · rw [start_eq hi]
    have hnone : (⟨[], [], [], [], {}⟩ : StateAnalysis).Founded := ⟨[], rfl, List.nodup_nil, by simp⟩
    refine hnone.concat ?_ length_add ?_ ((holds_add hpos).mpr (.inr ⟨rfl, rfl⟩))
    · simp [Holds]
    · simp [Holds]
  · have hempty : held g (blank info) = ∅ :=
      Finset.filter_eq_empty_iff.mpr fun x _ => not_holds_blank
    have hcount := hbalanced.count
    have hfront := hbalanced.front
    rw [hempty, Finset.card_empty, ← start_eq hi] at hcount
    rw [← start_eq hi] at hfront
    have hblank : (blank info).front.length = 0 ∧ (blank info).back.length = 0 := ⟨rfl, rfl⟩
    rw [queue, hfront, List.length_append, List.length_reverse]
    omega

theorem Counted.work (h : Counted g info sai n) {front : List (Nat × Nat)} (hfront : sai.front = (q, i) :: front)
    {closure : List Nat} {firstSets : FirstSets}
    (hclosure : info.situationClosure i sai.firstSets = (.ok closure, firstSets)) :
    Counted g info (({ sai with front := front, firstSets := firstSets } : StateAnalysis).work info q i closure)
      (n + 1) := by
  obtain ⟨acc, hsane⟩ := h.sane
  obtain ⟨hold, hpop, hbrings⟩ := hsane.front hi hg hfront hclosure
  obtain ⟨hbalanced, hfounded⟩ := hpop.work_counts hi hg hold hbrings
  refine ⟨hpop.work hi hg hold hbrings, hfounded (h.founded.mono rfl id), ?_⟩
  have hcount := h.count
  have hcount' := hbalanced.count
  have hheld : held g { sai with front := front, firstSets := firstSets } = held g sai := rfl
  rw [hheld] at hcount'
  simp only [queue, hfront, hbalanced.front, List.length_append, List.length_cons, List.length_reverse]
    at hcount hcount' ⊢
  omega

omit hi hg in
theorem Counted.turn (h : Counted g info sai n) (hfront : sai.front = []) :
    Counted g info { sai with front := sai.back.reverse, back := [] } n := by
  obtain ⟨acc, hsane⟩ := h.sane
  refine ⟨⟨acc, hsane.turn hfront⟩, h.founded.mono rfl id, ?_⟩
  have hqueue : ({ sai with front := sai.back.reverse, back := [] } : StateAnalysis).queue = sai.queue := by
    simp [queue, hfront]
  rw [hqueue]
  exact h.count

theorem Counted.round (h : Counted g info sai n) (hround : Round info sai sai') :
    ∃ n', Counted g info sai' n' := by
  cases hround with
  | work hfront hclosure => exact ⟨_, h.work hi hg hfront hclosure⟩
  | turn hfront _ => exact ⟨_, h.turn hfront⟩

theorem Reached.counted (h : Reached info sai) : ∃ n, Counted g info sai n := by
  induction h with
  | refl => exact ⟨0, counted_start hi hg⟩
  | tail _ hround ih =>
    obtain ⟨n, hcounted⟩ := ih
    exact hcounted.round hi hg hround

end

/-! ### Bounds -/

theorem Founded.card_held_le (h : sai.Founded) (hsane : sai.Sane g info acc pending) :
    (held g sai).card ≤ g.maxStates * g.maxStates := by
  have hsub : held g sai ⊆ Finset.range g.maxStates ×ˢ (g.situations info).toFinset := by
    rintro ⟨q, i⟩ hmem
    have hold : sai.Holds q i := (Finset.mem_filter.mp hmem).2
    refine Finset.mem_product.mpr ⟨Finset.mem_range.mpr (hold.lt.trans_le (h.length_le hsane.valid)), ?_⟩
    exact List.mem_toFinset.mpr (Grammar.mem_situations.mpr (hsane.valid hold))
  calc (held g sai).card ≤ _ := Finset.card_le_card hsub
    _ = g.maxStates * (g.situations info).toFinset.card := by rw [Finset.card_product, Finset.card_range]
    _ ≤ g.maxStates * g.maxStates := by
      refine Nat.mul_le_mul_left _ ?_
      rw [← Grammar.length_situations g info]
      exact List.toFinset_card_le _

theorem Founded.card_held_le_maxSituations (h : sai.Founded) (hsane : sai.Sane g info acc pending) :
    (held g sai).card ≤ g.maxSituations := by
  calc (held g sai).card
      ≤ (Finset.range sai.states.length ×ˢ Finset.range g.situationAddressSpaceSize).card :=
        Finset.card_filter_le _ _
    _ = sai.states.length * g.situationAddressSpaceSize := by
      rw [Finset.card_product, Finset.card_range, Finset.card_range]
    _ ≤ g.maxStates * g.situationAddressSpaceSize := Nat.mul_le_mul_right _ (h.length_le hsane.valid)

/-- What the analysis writes is inside its arrays. -/
structure Fits (g : Grammar) (sai : StateAnalysis) : Prop where
  states : sai.states.length ≤ g.maxStates
  rows : sai.parseTable.length = sai.states.length
  widths : ∀ row ∈ sai.parseTable, row.length = g.ntermTotal + g.termCount
  queue : sai.queue.length ≤ g.maxStates * g.maxStates
  situations : ∀ {q i}, sai.Holds q i → i < g.situationAddressSpaceSize
  moves : ∀ {q c q'}, (sai.entry q c).shift = some q' → q' < sai.states.length
  rules : ∀ {q c j}, (sai.entry q c).reduce = some j → j < g.ruleCount

variable (hi : info.Describes g)
include hi

theorem Counted.fits (h : Counted g info sai n) : sai.Fits g := by
  obtain ⟨⟨acc, hsane⟩, hfounded, hcount⟩ := h
  have hle := hfounded.card_held_le hsane
  constructor
  case states => exact hfounded.length_le hsane.valid
  case rows => exact hsane.shaped.rows
  case widths => exact hsane.shaped.widths
  case queue => omega
  case situations =>
    intro q i hold
    obtain ⟨j, ri, k, t, hm, rfl⟩ := hsane.valid hold
    exact hi.make_lt hm
  case moves => exact fun he => (hsane.shift he).1
  case rules =>
    intro q c j he
    obtain ⟨ri, t, hm, -⟩ := hsane.reduce he
    exact hm.lt_ruleCount

variable (hg : g.WellFormed)
include hg

theorem Counted.analyzeLoop (h : Counted g info sai n) {fuel : Nat}
    (hfuel : 2 * (g.maxSituations - n) + (if sai.front = [] then 1 else 0) ≤ fuel) :
    ∃ sai', StateAnalysis.analyzeLoop info fuel sai = some sai' ∧
      Relation.ReflTransGen (Round info) sai sai' ∧ sai'.queue = [] := by
  induction fuel generalizing sai n with
  | zero =>
    obtain ⟨⟨acc, hsane⟩, hfounded, hcount⟩ := h
    have hle := hfounded.card_held_le_maxSituations hsane
    cases hfront : sai.front with
    | nil => simp [hfront] at hfuel
    | cons x front =>
      simp only [queue, hfront, List.length_append, List.length_cons] at hcount
      omega
  | succ fuel ih =>
    cases hfront : sai.front with
    | nil =>
      rw [hfront, if_pos rfl] at hfuel
      by_cases hback : sai.back = []
      · refine ⟨sai, ?_, .refl, by simp [queue, hfront, hback]⟩
        rw [StateAnalysis.analyzeLoop, hfront]
        simp [hback]
      · have hne : sai.back.reverse ≠ [] := by simpa using hback
        obtain ⟨sai', hloop, hpath, hqueue⟩ := ih (h.turn hfront) (by
          rw [if_neg hne]
          omega)
        refine ⟨sai', ?_, .head (.turn hfront hback) hpath, hqueue⟩
        rw [StateAnalysis.analyzeLoop, hfront]
        simpa [hback] using hloop
    | cons x front =>
      obtain ⟨q, i⟩ := x
      obtain ⟨closure, firstSets, hclosure⟩ : ∃ closure firstSets,
          info.situationClosure i sai.firstSets = (.ok closure, firstSets) := by
        obtain ⟨acc, hsane⟩ := h.sane
        have hold : sai.Holds q i := hsane.queued (by simp [queue, hfront])
        obtain ⟨closure, firstSets, hclosure, -⟩ := hsane.closure hi hg hold
        exact ⟨closure, firstSets, hclosure⟩
      have hwork := h.work hi hg hfront hclosure
      have hn : n + 1 ≤ g.maxSituations := by
        obtain ⟨⟨acc, hsane⟩, hfounded, hcount⟩ := h
        have hle := hfounded.card_held_le_maxSituations hsane
        simp only [queue, hfront, List.length_append, List.length_cons] at hcount
        omega
      obtain ⟨sai', hloop, hpath, hqueue⟩ := ih hwork (by
        rw [if_neg (by simp [hfront])] at hfuel
        split <;> omega)
      refine ⟨sai', ?_, .head (.work hfront hclosure) hpath, hqueue⟩
      simp only [StateAnalysis.analyzeLoop, hfront, hclosure]
      exact hloop

theorem analyzeStates_ends :
    ∃ sai, analyzeStates info g.maxSituations = some sai ∧ Reached info sai ∧ sai.queue = [] := by
  refine (counted_start hi hg).analyzeLoop hi hg ?_
  split <;> omega

/-- Of every grammar whose rules name its symbols the analysis comes to an end inside its arrays. -/
theorem analyzeStates_fits : (∀ sai, Reached info sai → sai.Fits g) ∧
    ∃ sai, analyzeStates info g.maxSituations = some sai ∧ Reached info sai ∧ sai.queue = [] := by
  refine ⟨fun sai h => ?_, analyzeStates_ends hi hg⟩
  obtain ⟨n, hcounted⟩ := h.counted hi hg
  exact hcounted.fits hi

end StateAnalysis

theorem analyzeStates_fits_list :
    let g : Grammar := ⟨[(0, .noAssoc)], 1, [⟨0, [], 0⟩, ⟨0, [.nterm 0, .term 0], 0⟩], 0⟩
    (∀ sai, StateAnalysis.Reached g.info sai → sai.Fits g) ∧
      ∃ sai, analyzeStates g.info g.maxSituations = some sai ∧ StateAnalysis.Reached g.info sai ∧
        sai.queue = [] :=
  StateAnalysis.analyzeStates_fits (Grammar.info_describes _) (by decide)

end Ctpg
end UdfRunner
