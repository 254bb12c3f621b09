import UdfRunner.Ctpg.FirstSets

/-!
# `ctpg.hpp`: the rounds of the analysis

`Sane` holds of the states and the table after every round: what the table says is in the states, and what is
in the states and not in the queue has been worked off.
-/

namespace UdfRunner
namespace Ctpg
open Proc

/-! ### The root rule -/

def Grammar.RootAt (g : Grammar) (j : Nat) : Prop := ∃ ri, g.ruleInfos[j]? = some ri ∧ ri.rIdx = g.rootRuleIdx

/-- The fake root is the greatest left side, so its rule is sorted to the end. -/
theorem Grammar.WellFormed.rootAt {g : Grammar} (hg : g.WellFormed) : g.RootAt g.rootRuleIdx := by
  have hlt : g.rootRuleIdx < g.ruleInfos.length := by
    rw [length_ruleInfos]
    exact Nat.lt_succ_self _
  refine ⟨g.ruleInfos[g.rootRuleIdx], List.getElem?_eq_getElem hlt, ?_⟩
  obtain ⟨n, hn, hroot⟩ := List.mem_iff_getElem.mp (mem_ruleInfos.mpr
    (show ∃ r, g.allRules[(⟨g.ntermCount, g.rootRuleIdx, 1⟩ : RuleInfo).rIdx]? = some r ∧ _ from
      ⟨_, allRules_root, rfl, rfl⟩))
  have hle : g.ntermCount ≤ g.ruleInfos[g.rootRuleIdx].lIdx := by
    rcases Nat.lt_or_ge n g.rootRuleIdx with h | h
    · have hsorted := List.pairwise_iff_getElem.mp
        (List.pairwise_insertionSort (fun a b : RuleInfo => a.lIdx ≤ b.lIdx) _) n g.rootRuleIdx hn hlt h
      calc g.ntermCount = (g.ruleInfos[n]).lIdx := by rw [hroot]
        _ ≤ _ := hsorted
    · have hlen := length_ruleInfos (g := g)
      obtain rfl : n = g.rootRuleIdx := by
        rw [hlen, ruleCount] at hn
        rw [rootRuleIdx] at h ⊢
        omega
      exact (congrArg RuleInfo.lIdx hroot).ge
  by_contra hne
  obtain ⟨r, hr, hl, -⟩ := mem_ruleInfos.mp (List.getElem_mem hlt)
  have hlt' := hg.left_lt hr hne
  omega

/-! ### Columns -/

def Symbol.InTable (g : Grammar) : Symbol → Prop
  | .nterm idx => idx < g.ntermTotal
  | .term idx => idx < g.termCount

section
variable {g : Grammar} {info : GrammarInfo} {s s' : Symbol}

theorem Symbol.Declared.inTable (h : s.Declared g) : s.InTable g := by
  cases s with
  | nterm idx => exact Nat.lt_succ_of_lt h
  | term idx =>
    simp only [Declared, Grammar.errorRecoveryTokenIdx] at h
    simp only [InTable, Grammar.termCount]
    omega

theorem Symbol.Declared.ne_eof (h : s.Declared g) : s ≠ .term g.eofIdx := by
  rintro rfl
  simp only [Declared, Grammar.errorRecoveryTokenIdx, Grammar.eofIdx] at h
  omega

variable (hi : info.Describes g)
include hi

theorem GrammarInfo.Describes.tableIdx_lt (hs : s.InTable g) :
    info.tableIdx s < g.ntermTotal + g.termCount := by
  cases s with
  | nterm idx => exact Nat.lt_add_right _ hs
  | term idx =>
    simp only [GrammarInfo.tableIdx, hi.ntermCount]
    exact Nat.add_lt_add_left hs _

theorem GrammarInfo.Describes.tableIdx_inj (hs : s.InTable g) (hs' : s'.InTable g)
    (h : info.tableIdx s = info.tableIdx s') : s = s' := by
  cases s <;> cases s' <;>
    simp only [GrammarInfo.tableIdx, hi.ntermCount, Symbol.InTable] at h hs hs' <;>
    simp only [Symbol.nterm.injEq, Symbol.term.injEq, reduceCtorEq] <;> omega

end

/-! ### The invariant -/

/-- What the kind of an entry says of its shift and its reduction. -/
structure TableEntry.Coherent (e : TableEntry) (isRoot : Nat → Prop) : Prop where
  error : e.kind = .error → e.shift = none ∧ e.reduce = none
  success : e.kind = .success → ∃ j, e.reduce = some j ∧ isRoot j
  shift : e.kind = .shift ∨ e.kind = .shiftErrorRecoveryToken → ∃ q, e.shift = some q
  reduce : e.kind = .reduce ∨ e.kind = .rrConflict → ∃ j, e.reduce = some j ∧ ¬ isRoot j

namespace StateAnalysis

/-- A situation of a state that has been worked off. -/
structure Done (g : Grammar) (info : GrammarInfo) (sai : StateAnalysis) (q i : Nat) : Prop where
  moved : ∀ {j ri k t s}, g.Marked j ri k t → i = info.makeSituationIdx j k t → (g.right ri)[k]? = some s →
    ∃ q', (sai.entry q (info.tableIdx s)).shift = some q' ∧ sai.Holds q' (info.makeSituationIdx j (k + 1) t)
  complete : ∀ {j ri k t}, g.Marked j ri k t → i = info.makeSituationIdx j k t → (g.right ri)[k]? = none →
    ∃ j', (sai.entry q (info.tableIdx (.term t))).reduce = some j'

/-- `acc` is the symbol by which a state is entered, `pending` the situation taken from the queue. -/
structure Sane (g : Grammar) (info : GrammarInfo) (acc : Nat → Option Symbol) (pending : Option (Nat × Nat))
    (sai : StateAnalysis) : Prop where
  shaped : sai.Shaped g
  start : acc 0 = none
  valid : ∀ {q i}, sai.Holds q i → ∃ j ri k t, g.Marked j ri k t ∧ i = info.makeSituationIdx j k t
  queued : ∀ {q i}, (q, i) ∈ sai.queue → sai.Holds q i
  done : ∀ {q i}, sai.Holds q i → (q, i) ∈ sai.queue ∨ pending = some (q, i) ∨ sai.Done g info q i
  eof : ∀ {q j ri k t}, g.Marked j ri k t → sai.Holds q (info.makeSituationIdx j k t) →
    ri.rIdx = g.rootRuleIdx → t = g.eofIdx
  origin : ∀ {q j ri t}, g.Marked j ri 0 t → sai.Holds q (info.makeSituationIdx j 0 t) →
    (ri.rIdx = g.rootRuleIdx ∧ q = 0) ∨ ∃ j' ri' k' t', g.Marked j' ri' k' t' ∧
      sai.Holds q (info.makeSituationIdx j' k' t') ∧ (g.right ri')[k']? = some (.nterm ri.lIdx)
  entered : ∀ {q j ri k t}, g.Marked j ri (k + 1) t → sai.Holds q (info.makeSituationIdx j (k + 1) t) →
    acc q = (g.right ri)[k]?
  coherent : ∀ q c, (sai.entry q c).Coherent g.RootAt
  shift : ∀ {q c q'}, (sai.entry q c).shift = some q' → q' < sai.states.length ∧
    ∃ s, s.Declared g ∧ c = info.tableIdx s ∧ acc q' = some s
  reduce : ∀ {q c j}, (sai.entry q c).reduce = some j → ∃ ri t, g.Marked j ri ri.rElements t ∧
    c = info.tableIdx (.term t) ∧ sai.Holds q (info.makeSituationIdx j ri.rElements t)
  recovery : ∀ {q c}, (sai.entry q c).kind = .shiftErrorRecoveryToken → ∃ s, s.Declared g ∧
    c = info.tableIdx s ∧ (s = .term g.errorRecoveryTokenIdx ∨ s = .nterm g.errorRecoveryTokenIdx)
  remembers : info.Remembers g sai.firstSets

variable {g : Grammar} {info : GrammarInfo} {acc : Nat → Option Symbol} {pending : Option (Nat × Nat)}
    {sai sai' : StateAnalysis} {q q' i i' c j k t : Nat} {ri : RuleInfo} {s : Symbol}

/-- States and tables only grow. -/
structure Grows (sai sai' : StateAnalysis) : Prop where
  holds : ∀ {q i}, sai.Holds q i → sai'.Holds q i
  shift : ∀ {q c q'}, (sai.entry q c).shift = some q' → (sai'.entry q c).shift = some q'
  reduce : ∀ {q c j}, (sai.entry q c).reduce = some j → ∃ j', (sai'.entry q c).reduce = some j'

theorem Done.mono (h : sai.Done g info q i) (hgrows : sai.Grows sai') : sai'.Done g info q i where
  moved hm hi hs := by
    obtain ⟨q', hshift, hq'⟩ := h.moved hm hi hs
    exact ⟨q', hgrows.shift hshift, hgrows.holds hq'⟩
  complete hm hi hs := by
    obtain ⟨j', hj'⟩ := h.complete hm hi hs
    exact hgrows.reduce hj'

theorem Grows.refl : sai.Grows sai := ⟨id, id, fun h => ⟨_, h⟩⟩

theorem grows_add (hq : q < sai.states.length) : sai.Grows (sai.addSituationToState q i) where
  holds h := (holds_add hq).mpr (.inl h)
  shift h := by rwa [entry_add]
  reduce h := ⟨_, by rwa [entry_add]⟩

theorem Sane.add (hi : info.Describes g) (h : sai.Sane g info acc pending) (hq : q < sai.states.length)
    (hm : g.Marked j ri k t) (heof : ri.rIdx = g.rootRuleIdx → t = g.eofIdx)
    (horigin : k = 0 → (ri.rIdx = g.rootRuleIdx ∧ q = 0) ∨ ∃ j' ri' k' t', g.Marked j' ri' k' t' ∧
      sai.Holds q (info.makeSituationIdx j' k' t') ∧ (g.right ri')[k']? = some (.nterm ri.lIdx))
    (hacc : ∀ k', k = k' + 1 → acc q = (g.right ri)[k']?) :
    (sai.addSituationToState q (info.makeSituationIdx j k t)).Sane g info acc pending where
  shaped := h.shaped.add
  start := h.start
  valid {q' i'} hold := by
    rcases (holds_add hq).mp hold with hold | ⟨-, rfl⟩
    · exact h.valid hold
    · exact ⟨j, ri, k, t, hm, rfl⟩
  queued {q' i'} hmem := by
    rcases mem_queue_add.mp hmem with hmem | ⟨heq, -⟩
    · exact (holds_add hq).mpr (.inl (h.queued hmem))
    · obtain ⟨rfl, rfl⟩ := Prod.mk.inj heq
      exact (holds_add hq).mpr (.inr ⟨rfl, rfl⟩)
  done {q' i'} hold := by
    by_cases hold' : sai.Holds q' i'
    · rcases h.done hold' with hmem | hpending | hdone
      · exact .inl (mem_queue_add.mpr (.inl hmem))
      · exact .inr (.inl hpending)
      · exact .inr (.inr (hdone.mono (grows_add hq)))
    · obtain ⟨rfl, rfl⟩ := ((holds_add hq).mp hold).resolve_left hold'
      exact .inl (mem_queue_add.mpr (.inr ⟨rfl, hold'⟩))
  eof {q' j' ri' k' t'} hm' hold hroot := by
    rcases (holds_add hq).mp hold with hold | ⟨-, heq⟩
    · exact h.eof hm' hold hroot
    · obtain ⟨-, rfl, -, rfl⟩ := hi.make_inj hm' hm heq
      exact heof hroot
  origin {q' j' ri' t'} hm' hold := by
    have hgrows := grows_add (i := info.makeSituationIdx j k t) hq
    have hor : (ri'.rIdx = g.rootRuleIdx ∧ q' = 0) ∨ ∃ j' ri'' k' t', g.Marked j' ri'' k' t' ∧
        sai.Holds q' (info.makeSituationIdx j' k' t') ∧ (g.right ri'')[k']? = some (.nterm ri'.lIdx) := by
      rcases (holds_add hq).mp hold with hold | ⟨rfl, heq⟩
      · exact h.origin hm' hold
      · obtain ⟨-, rfl, hk, -⟩ := hi.make_inj hm' hm heq
        exact horigin hk.symm
    refine hor.imp_right ?_
    rintro ⟨j', ri'', k', t', hm'', hold', hright⟩
    exact ⟨j', ri'', k', t', hm'', hgrows.holds hold', hright⟩
  entered {q' j' ri' k' t'} hm' hold := by
    rcases (holds_add hq).mp hold with hold | ⟨rfl, heq⟩
    · exact h.entered hm' hold
    · obtain ⟨-, rfl, hk, -⟩ := hi.make_inj hm' hm heq
      exact hacc k' hk.symm
  coherent q' c := by
    rw [entry_add]
    exact h.coherent q' c
  shift {q' c q''} he := by
    rw [entry_add] at he
    rw [length_add]
    exact h.shift he
  reduce {q' c j'} he := by
    rw [entry_add] at he
    obtain ⟨ri', t', hm', hc, hold⟩ := h.reduce he
    exact ⟨ri', t', hm', hc, (holds_add hq).mpr (.inl hold)⟩
  recovery {q' c} he := by
    rw [entry_add] at he
    exact h.recovery he
  remembers := by
    rw [firstSets_add]
    exact h.remembers

theorem Sane.grow (hi : info.Describes g) (h : sai.Sane g info acc pending) (hpos : 0 < sai.states.length)
    (s : Symbol) :
    (sai.grow info).Sane g info (Function.update acc sai.states.length (some s)) pending where
  shaped := h.shaped.grow hi
  start := by rw [Function.update_of_ne hpos.ne, h.start]
  valid hold := h.valid ((holds_grow info).mp hold)
  queued hmem := (holds_grow info).mpr (h.queued hmem)
  done hold := by
    refine (h.done ((holds_grow info).mp hold)).imp_right (Or.imp_right fun hdone => hdone.mono ?_)
    exact ⟨(holds_grow info).mpr, fun h => by rwa [entry_grow], fun h => ⟨_, by rwa [entry_grow]⟩⟩
  eof hm hold hroot := h.eof hm ((holds_grow info).mp hold) hroot
  origin hm hold := by simpa only [holds_grow] using h.origin hm ((holds_grow info).mp hold)
  entered hm hold := by
    have hold := (holds_grow info).mp hold
    rw [Function.update_of_ne hold.lt.ne, h.entered hm hold]
  coherent q c := by
    rw [entry_grow]
    exact h.coherent q c
  shift he := by
    rw [entry_grow] at he
    obtain ⟨hlt, s', hs', hc, hacc⟩ := h.shift he
    rw [length_grow, Function.update_of_ne hlt.ne]
    exact ⟨hlt.trans (Nat.lt_succ_self _), s', hs', hc, hacc⟩
  reduce he := by
    rw [entry_grow] at he
    simpa only [holds_grow] using h.reduce he
  recovery he := by
    rw [entry_grow] at he
    exact h.recovery he
  remembers := h.remembers

section
variable {e : TableEntry} (h : sai.Sane g info acc pending) (hq : q < sai.states.length)
    (hc : c < g.ntermTotal + g.termCount)
    (hshift : ∀ {q'}, (sai.entry q c).shift = some q' → e.shift = some q')
    (hreduce : ∀ {j}, (sai.entry q c).reduce = some j → ∃ j', e.reduce = some j')
include h hq hc hshift hreduce

theorem Sane.grows_setEntry : sai.Grows (sai.setEntry q c e) where
  holds := id
  shift {q' c' _} he := by
    rw [entry_setEntry h.shaped hq hc]
    split
    next heq =>
      obtain ⟨rfl, rfl⟩ := heq
      exact hshift he
    next => exact he
  reduce {q' c' _} he := by
    rw [entry_setEntry h.shaped hq hc]
    split
    next heq =>
      obtain ⟨rfl, rfl⟩ := heq
      exact hreduce he
    next => exact ⟨_, he⟩

/-- An entry may be replaced by one that says no less and that the states bear out. -/
theorem Sane.setEntry (hcoherent : e.Coherent g.RootAt)
    (htarget : ∀ {q'}, e.shift = some q' → q' < sai.states.length ∧
      ∃ s, s.Declared g ∧ c = info.tableIdx s ∧ acc q' = some s)
    (hrule : ∀ {j}, e.reduce = some j → ∃ ri t, g.Marked j ri ri.rElements t ∧
      c = info.tableIdx (.term t) ∧ sai.Holds q (info.makeSituationIdx j ri.rElements t))
    (hrecovery : e.kind = .shiftErrorRecoveryToken → ∃ s, s.Declared g ∧ c = info.tableIdx s ∧
      (s = .term g.errorRecoveryTokenIdx ∨ s = .nterm g.errorRecoveryTokenIdx)) :
    (sai.setEntry q c e).Sane g info acc pending where
  shaped := h.shaped.setEntry
  start := h.start
  valid := h.valid
  queued := h.queued
  done hold := (h.done hold).imp_right
    (Or.imp_right fun hdone => hdone.mono (h.grows_setEntry hq hc hshift hreduce))
  eof := h.eof
  origin := h.origin
  entered := h.entered
  coherent q' c' := by
    rw [entry_setEntry h.shaped hq hc]
    split
    next => exact hcoherent
    next => exact h.coherent q' c'
  shift {q' c' _} he := by
    rw [entry_setEntry h.shaped hq hc] at he
    split at he
    next heq =>
      obtain ⟨rfl, rfl⟩ := heq
      exact htarget he
    next => exact h.shift he
  reduce {q' c' _} he := by
    rw [entry_setEntry h.shaped hq hc] at he
    split at he
    next heq =>
      obtain ⟨rfl, rfl⟩ := heq
      exact hrule he
    next => exact h.reduce he
  recovery {q' c'} he := by
    rw [entry_setEntry h.shaped hq hc] at he
    split at he
    next heq =>
      obtain ⟨rfl, rfl⟩ := heq
      exact hrecovery he
    next => exact h.recovery he
  remembers := h.remembers

end

theorem Sane.finish (h : sai.Sane g info acc (some (q, i))) (hdone : sai.Done g info q i) :
    sai.Sane g info acc none where
  shaped := h.shaped
  start := h.start
  valid := h.valid
  queued := h.queued
  done hold := by
    rcases h.done hold with hmem | heq | hdone
    · exact .inl hmem
    · obtain ⟨rfl, rfl⟩ := Prod.mk.inj (Option.some.inj heq)
      exact .inr (.inr hdone)
    · exact .inr (.inr hdone)
  eof := h.eof
  origin := h.origin
  entered := h.entered
  coherent := h.coherent
  shift := h.shift
  reduce := h.reduce
  recovery := h.recovery
  remembers := h.remembers

/-! ### A round -/

/-- What a new move makes of its entry. -/
theorem coherent_enter {e : TableEntry} {kind : EntryKind} {isRoot : Nat → Prop}
    (hroot : ∀ {r}, e.reduce = some r → ¬ isRoot r)
    (hkind : kind = .shift ∨ (kind = .reduce ∧ ∃ r, e.reduce = some r) ∨ kind = .shiftErrorRecoveryToken) :
    ({ e with kind := kind, shift := some q' } : TableEntry).Coherent isRoot where
  error he := by rcases hkind with rfl | ⟨rfl, -⟩ | rfl <;> cases he
  success he := by rcases hkind with rfl | ⟨rfl, -⟩ | rfl <;> cases he
  shift _ := ⟨q', rfl⟩
  reduce he := by
    rcases hkind with rfl | ⟨rfl, r, hr⟩ | rfl
    · rcases he with he | he <;> cases he
    · exact ⟨r, hr, hroot hr⟩
    · rcases he with he | he <;> cases he

section
variable (hi : info.Describes g)
include hi

theorem Sane.close (hg : g.WellFormed) (h : sai.Sane g info acc pending) (hm : g.Marked j ri k t)
    (hold : sai.Holds q (info.makeSituationIdx j k t)) {l : List Nat}
    (hl : ∀ i' ∈ l, info.Brings g (info.makeSituationIdx j k t) i') :
    (l.foldl (fun sai i => sai.addSituationToState q i) sai).Sane g info acc pending ∧
      sai.Grows (l.foldl (fun sai i => sai.addSituationToState q i) sai) := by
  induction l generalizing sai with
  | nil => exact ⟨h, .refl⟩
  | cons i' l ih =>
    obtain ⟨j', ri', t', hs, hm', rfl⟩ := hl i' (by simp) hm rfl
    have hq := hold.lt
    have hadd : (sai.addSituationToState q (info.makeSituationIdx j' 0 t')).Sane g info acc pending := by
      refine h.add hi hq hm' ?_ (fun _ => .inr ⟨j, ri, k, t, hm, hold, hs⟩) (fun k' hk => by omega)
      intro hroot
      obtain ⟨r, hr, hl, -⟩ := hm'.right
      rw [hroot, Grammar.allRules_root] at hr
      cases hr
      have hlt : ri'.lIdx < g.ntermCount := hm.declared hg hs
      rw [hl] at hlt
      exact absurd hlt (lt_irrefl _)
    have hgrows := grows_add (i := info.makeSituationIdx j' 0 t') hq
    obtain ⟨hsane, hgrows'⟩ := ih hadd (hgrows.holds hold) fun i'' hi'' => hl i'' (by simp [hi''])
    refine ⟨hsane, fun h => hgrows'.holds (hgrows.holds h), fun h => hgrows'.shift (hgrows.shift h), fun h => ?_⟩
    obtain ⟨j'', hj''⟩ := hgrows.reduce h
    exact hgrows'.reduce hj''

omit hi in
theorem solveConflict_cases (info : GrammarInfo) (j t : Nat) :
    info.solveConflict j t = .reduce ∨ info.solveConflict j t = .shift := by
  unfold GrammarInfo.solveConflict
  dsimp only
  split
  · exact .inl rfl
  · split
    · exact .inl rfl
    · exact .inr rfl

theorem transition_complete (sai : StateAnalysis) (q : Nat) (hm : g.Marked j ri k t) (hs : (g.right ri)[k]? = none) :
    ∃ kind, sai.situationTransition info q (info.makeSituationIdx j k t) =
        sai.setEntry q (info.tableIdx (.term t))
          { sai.entry q (info.tableIdx (.term t)) with kind := kind, reduce := some j } ∧
      (kind = .success ∧ ri.rIdx = g.rootRuleIdx ∨
        ri.rIdx ≠ g.rootRuleIdx ∧ (kind = .reduce ∨ kind = .rrConflict ∨
          kind = .shift ∧ ∃ q', (sai.entry q (info.tableIdx (.term t))).shift = some q')) := by
  have hdrop : (g.right ri).drop k = [] := List.drop_eq_nil_of_le (List.getElem?_eq_none_iff.mp hs)
  unfold situationTransition
  rw [hi.situation hm, hdrop]
  dsimp only
  refine ⟨_, rfl, ?_⟩
  rw [hi.rootRuleIdx]
  by_cases hroot : ri.rIdx = g.rootRuleIdx
  · exact .inl ⟨if_pos hroot, hroot⟩
  · rw [if_neg hroot]
    refine .inr ⟨hroot, ?_⟩
    split
    next hshift =>
      rcases solveConflict_cases info j t with hkind | hkind
      · exact .inl hkind
      · exact .inr (.inr ⟨hkind, Option.isSome_iff_exists.mp hshift⟩)
    next =>
      split
      · exact .inr (.inl rfl)
      · exact .inl rfl

theorem Sane.complete (h : sai.Sane g info acc (some (q, info.makeSituationIdx j k t)))
    (hm : g.Marked j ri k t) (hold : sai.Holds q (info.makeSituationIdx j k t))
    (hs : (g.right ri)[k]? = none) :
    (sai.situationTransition info q (info.makeSituationIdx j k t)).Sane g info acc none := by
  obtain ⟨kind, heq, hkind⟩ := transition_complete hi sai q hm hs
  rw [heq]
  obtain rfl := hm.complete hs
  have hc := hi.tableIdx_lt (s := .term t) hm.term
  have hroot : ri.rIdx ≠ g.rootRuleIdx → ¬ g.RootAt j := by
    rintro hne ⟨ri', hri', heq'⟩
    cases hri'.symm.trans hm.rule
    exact hne heq'
  refine (h.setEntry hold.lt hc ?_ ?_ ?_ ?_ ?_ ?_).finish ?_
  · exact id
  · exact fun _ => ⟨j, rfl⟩
  · constructor
    · rcases hkind with ⟨rfl, -⟩ | ⟨-, rfl | rfl | ⟨rfl, -⟩⟩ <;> simp
    · rcases hkind with ⟨rfl, hr⟩ | ⟨-, rfl | rfl | ⟨rfl, -⟩⟩ <;> simp
      exact ⟨ri, hm.rule, hr⟩
    · rcases hkind with ⟨rfl, -⟩ | ⟨-, rfl | rfl | ⟨rfl, hshift⟩⟩ <;> simp
      exact hshift
    · rcases hkind with ⟨rfl, -⟩ | ⟨hr, rfl | rfl | ⟨rfl, -⟩⟩ <;> simp
      · exact hroot hr
      · exact hroot hr
  · exact fun he => h.shift he
  · rintro j' hj'
    cases hj'
    exact ⟨ri, t, hm, rfl, hold⟩
  · rcases hkind with ⟨rfl, -⟩ | ⟨-, rfl | rfl | ⟨rfl, -⟩⟩ <;> simp
  · refine ⟨?_, ?_⟩
    · intro j' ri' k' t' s' hm' heq' hs'
      obtain ⟨-, rfl, rfl, -⟩ := hi.make_inj hm hm' heq'
      rw [hs] at hs'
      cases hs'
    · intro j' ri' k' t' hm' heq' hs'
      obtain ⟨-, -, -, rfl⟩ := hi.make_inj hm hm' heq'
      refine ⟨j, ?_⟩
      rw [entry_setEntry h.shaped hold.lt hc, if_pos ⟨rfl, rfl⟩]

/-- The root rule is reduced at the end of the input, which no rule names. -/
theorem Sane.not_root (h : sai.Sane g info acc pending) (hs : s.Declared g)
    (he : (sai.entry q (info.tableIdx s)).reduce = some j) : ¬ g.RootAt j := by
  rintro ⟨ri, hri, hroot⟩
  obtain ⟨ri', t, hm, heq, hold⟩ := h.reduce he
  cases hri.symm.trans hm.rule
  obtain rfl := h.eof hm hold hroot
  exact hs.ne_eof (hi.tableIdx_inj hs.inTable hm.term heq)

theorem Sane.setShift (h : sai.Sane g info acc pending) (hq : q < sai.states.length) (hs : s.Declared g)
    (hnone : (sai.entry q (info.tableIdx s)).shift = none) (hq' : q' < sai.states.length)
    (hacc : acc q' = some s) {kind : EntryKind}
    (hkind : kind = .shift ∨ (kind = .reduce ∧ ∃ r, (sai.entry q (info.tableIdx s)).reduce = some r) ∨
      kind = .shiftErrorRecoveryToken)
    (hrecovery : kind = .shiftErrorRecoveryToken →
      s = .term g.errorRecoveryTokenIdx ∨ s = .nterm g.errorRecoveryTokenIdx) :
    (sai.setEntry q (info.tableIdx s)
      { sai.entry q (info.tableIdx s) with kind := kind, shift := some q' }).Sane g info acc pending := by
  refine h.setEntry hq (hi.tableIdx_lt hs.inTable) ?_ ?_ 
    (coherent_enter (fun he => h.not_root hi hs he) hkind) ?_ ?_ ?_
  · intro q'' he
    rw [hnone] at he
    cases he
  · exact fun he => ⟨_, he⟩
  · intro q'' he
    cases he
    exact ⟨hq', s, hs, rfl, hacc⟩
  · exact fun he => h.reduce he
  · exact fun he => ⟨s, hs, rfl, hrecovery he⟩

/-- The situation behind the symbol joins the state entered by it. -/
theorem Sane.enter (h : sai.Sane g info acc (some (q, info.makeSituationIdx j k t)))
    (hm : g.Marked j ri k t) (hold : sai.Holds q (info.makeSituationIdx j k t))
    (hs : (g.right ri)[k]? = some s) (hshift : (sai.entry q (info.tableIdx s)).shift = some q')
    (hacc : acc q' = some s) :
    (sai.addSituationToState q' (info.makeSituationIdx j (k + 1) t)).Sane g info acc none := by
  obtain ⟨hq', -⟩ := h.shift hshift
  have hadd := h.add (q := q') hi hq' (hm.advance hs) (h.eof hm hold) (fun hk => absurd hk (Nat.succ_ne_zero k))
    fun k' hk => by
      obtain rfl := Nat.succ.inj hk
      rw [hacc, hs]
  refine hadd.finish ⟨?_, ?_⟩
  · intro j' ri' k' t' s' hm'' heq hs'
    obtain ⟨rfl, rfl, rfl, rfl⟩ := hi.make_inj hm hm'' heq
    cases hs.symm.trans hs'
    exact ⟨q', by rwa [entry_add], (holds_add hq').mpr (.inr ⟨rfl, rfl⟩)⟩
  · intro j' ri' k' t' hm'' heq hs'
    obtain ⟨-, rfl, rfl, -⟩ := hi.make_inj hm hm'' heq
    rw [hs] at hs'
    cases hs'

omit hi in
/-- The kind of a new move, which a conflict may turn into a reduction. -/
theorem moveKind_cases (info : GrammarInfo) (e : TableEntry) (n m : Nat) {kind kind' : EntryKind}
    (hkind : kind = match e.reduce with
      | some r => info.solveConflict r n
      | none => .shift)
    (hkind' : kind' = if kind = .shift ∧ n = m then .shiftErrorRecoveryToken else kind) :
    (kind' = .shift ∨ (kind' = .reduce ∧ ∃ r, e.reduce = some r) ∨ kind' = .shiftErrorRecoveryToken) ∧
      (kind' = .shiftErrorRecoveryToken → n = m) := by
  have hcases : kind = .shift ∨ kind = .reduce ∧ ∃ r, e.reduce = some r := by
    cases hr : e.reduce with
    | none =>
      rw [hr] at hkind
      exact .inl hkind
    | some r =>
      rw [hr] at hkind
      rcases solveConflict_cases info r n with hsolve | hsolve
      · exact .inr ⟨hkind.trans hsolve, r, rfl⟩
      · exact .inl (hkind.trans hsolve)
  by_cases hn : kind = .shift ∧ n = m
  · rw [if_pos hn] at hkind'
    exact ⟨.inr (.inr hkind'), fun _ => hn.2⟩
  · rw [if_neg hn] at hkind'
    rw [hkind']
    rcases hcases with rfl | ⟨rfl, hr⟩
    · exact ⟨.inl rfl, fun h => nomatch h⟩
    · exact ⟨.inr (.inl ⟨rfl, hr⟩), fun h => nomatch h⟩

omit hi in
theorem drop_right (hs : (g.right ri)[k]? = some s) :
    (g.right ri).drop k = s :: (g.right ri).drop (k + 1) := by
  obtain ⟨hlt, rfl⟩ := List.getElem?_eq_some_iff.mp hs
  exact List.drop_eq_getElem_cons hlt

theorem transition_known (hm : g.Marked j ri k t) (hs : (g.right ri)[k]? = some s)
    (hshift : (sai.entry q (info.tableIdx s)).shift = some q') :
    sai.situationTransition info q (info.makeSituationIdx j k t) =
      sai.addSituationToState q' (info.makeSituationIdx j (k + 1) t) := by
  unfold situationTransition
  rw [hi.situation hm, drop_right hs]
  dsimp only
  rw [hshift]

theorem transition_new (hm : g.Marked j ri k t) (hs : (g.right ri)[k]? = some s)
    (hshift : (sai.entry q (info.tableIdx s)).shift = none) :
    ∃ kind, ((kind = .shift ∨ (kind = .reduce ∧ ∃ r, (sai.entry q (info.tableIdx s)).reduce = some r) ∨
        kind = .shiftErrorRecoveryToken) ∧
      (kind = .shiftErrorRecoveryToken →
        s = .term g.errorRecoveryTokenIdx ∨ s = .nterm g.errorRecoveryTokenIdx)) ∧
      sai.situationTransition info q (info.makeSituationIdx j k t) =
        let found := sai.findState info (info.makeSituationIdx j (k + 1) t)
        (found.2.setEntry q (info.tableIdx s)
          { sai.entry q (info.tableIdx s) with kind := kind, shift := some found.1 }).addSituationToState
            found.1 (info.makeSituationIdx j (k + 1) t) := by
  unfold situationTransition
  rw [hi.situation hm, drop_right hs]
  dsimp only
  rw [hshift]
  cases s with
  | nterm n =>
    refine ⟨_, ?_, rfl⟩
    obtain ⟨hkind, hrecovery⟩ := moveKind_cases info (sai.entry q (info.tableIdx (.nterm n))) n
      (info.termCount - 1) rfl rfl
    refine ⟨hkind, fun he => .inr (congrArg Symbol.nterm ((hrecovery he).trans ?_))⟩
    rw [hi.termCount]
    rfl
  | term n =>
    refine ⟨_, ?_, rfl⟩
    obtain ⟨hkind, hrecovery⟩ := moveKind_cases info (sai.entry q (info.tableIdx (.term n))) n
      (info.termCount - 1) rfl rfl
    refine ⟨hkind, fun he => .inl (congrArg Symbol.term ((hrecovery he).trans ?_))⟩
    rw [hi.termCount]
    rfl

theorem Sane.transition (hg : g.WellFormed) (h : sai.Sane g info acc (some (q, info.makeSituationIdx j k t)))
    (hm : g.Marked j ri k t) (hold : sai.Holds q (info.makeSituationIdx j k t)) :
    ∃ acc', (sai.situationTransition info q (info.makeSituationIdx j k t)).Sane g info acc' none := by
  cases hs : (g.right ri)[k]? with
  | none => exact ⟨acc, h.complete hi hm hold hs⟩
  | some s =>
    have hdeclared := hm.declared hg hs
    cases hshift : (sai.entry q (info.tableIdx s)).shift with
    | some target =>
      obtain ⟨-, s', hs', heq, hacc⟩ := h.shift hshift
      obtain rfl := hi.tableIdx_inj hdeclared.inTable hs'.inTable heq
      rw [transition_known hi hm hs hshift]
      exact ⟨acc, h.enter hi hm hold hs hshift hacc⟩
    | none =>
      obtain ⟨kind, ⟨hkind, hrecovery⟩, heq⟩ := transition_new hi hm hs hshift
      rw [heq]
      rcases findState_cases info sai (info.makeSituationIdx j (k + 1) t) with ⟨q', heq, hq'⟩ | ⟨heq, -⟩
      · have hacc : acc q' = some s := by rw [h.entered (hm.advance hs) hq', hs]
        have hset := h.setShift hi hold.lt hdeclared hshift hq'.lt hacc hkind hrecovery
        rw [heq]
        refine ⟨acc, hset.enter hi hm hold hs ?_ hacc⟩
        rw [entry_setEntry h.shaped hold.lt (hi.tableIdx_lt hdeclared.inTable), if_pos ⟨rfl, rfl⟩]
      · have hgrow := h.grow hi (Nat.zero_lt_of_lt hold.lt) s
        have hq : q < (sai.grow info).states.length := by
          rw [length_grow]
          exact hold.lt.trans (Nat.lt_succ_self _)
        rw [← entry_grow info] at hshift hkind
        have hlt : sai.states.length < (sai.grow info).states.length := by simp
        have hset := hgrow.setShift hi hq hdeclared hshift hlt (Function.update_self ..) hkind hrecovery
        rw [entry_grow] at hset
        rw [heq]
        refine ⟨_, hset.enter hi hm ((holds_grow info).mpr hold) hs ?_ (Function.update_self ..)⟩
        rw [entry_setEntry hgrow.shaped hq (hi.tableIdx_lt hdeclared.inTable), if_pos ⟨rfl, rfl⟩]

end

/-! ### Rounds -/

/-- What a round makes of a situation taken from the queue, and of its closure. -/
def work (info : GrammarInfo) (sai : StateAnalysis) (q i : Nat) (closure : List Nat) : StateAnalysis :=
  (closure.foldl (fun sai i => sai.addSituationToState q i) sai).situationTransition info q i

/-- A round of `analyzeLoop`. -/
inductive Round (info : GrammarInfo) : StateAnalysis → StateAnalysis → Prop
  | work {sai : StateAnalysis} {q i : Nat} {front : List (Nat × Nat)} {closure : List Nat} {firstSets : FirstSets}
      (h : sai.front = (q, i) :: front) (hclosure : info.situationClosure i sai.firstSets = (.ok closure, firstSets)) :
      Round info sai (({ sai with front := front, firstSets := firstSets } : StateAnalysis).work info q i closure)
  | turn {sai : StateAnalysis} (hfront : sai.front = []) (hback : sai.back ≠ []) :
      Round info sai { sai with front := sai.back.reverse, back := [] }

def blank (info : GrammarInfo) : StateAnalysis where
  states := [0]
  parseTable := [List.replicate (info.ntermCount + info.termCount) {}]

def start (info : GrammarInfo) : StateAnalysis :=
  (blank info).addSituationToState 0 (info.makeSituationIdx info.rootRuleIdx 0 (info.termCount - 2))

theorem not_holds_blank : ¬ (blank info).Holds q i := by
  cases q <;> simp [blank, Holds]

theorem entry_blank : (blank info).entry q c = {} := by
  rcases q with _ | q
  · by_cases hc : c < info.ntermCount + info.termCount <;> simp [blank, entry, hc]
  · simp [blank, entry]

def Reached (info : GrammarInfo) : StateAnalysis → Prop := Relation.ReflTransGen (Round info) (start info)

theorem Sane.pop {front : List (Nat × Nat)} {firstSets : FirstSets} (h : sai.Sane g info acc none)
    (hfront : sai.front = (q, i) :: front) (hmem : info.Remembers g firstSets) :
    ({ sai with front := front, firstSets := firstSets } : StateAnalysis).Sane g info acc (some (q, i)) where
  shaped := ⟨h.shaped.rows, h.shaped.widths⟩
  start := h.start
  valid := h.valid
  queued {q' i'} hq := by
    refine h.queued ?_
    rw [queue, hfront]
    exact List.mem_cons_of_mem _ hq
  done {q' i'} hold := by
    rcases h.done hold with hmem | hpending | hdone
    · rw [queue, hfront, List.cons_append, List.mem_cons] at hmem
      rcases hmem with heq | hmem
      · exact .inr (.inl (congrArg some heq.symm))
      · exact .inl hmem
    · cases hpending
    · exact .inr (.inr ⟨hdone.moved, hdone.complete⟩)
  eof := h.eof
  origin := h.origin
  entered := h.entered
  coherent := h.coherent
  shift := h.shift
  reduce := h.reduce
  recovery := h.recovery
  remembers := hmem

theorem Sane.turn (h : sai.Sane g info acc none) (hfront : sai.front = []) :
    ({ sai with front := sai.back.reverse, back := [] } : StateAnalysis).Sane g info acc none where
  shaped := ⟨h.shaped.rows, h.shaped.widths⟩
  start := h.start
  valid := h.valid
  queued {q' i'} hmem := h.queued (by simpa [queue, hfront] using hmem)
  done {q' i'} hold := by
    rcases h.done hold with hmem | hpending | hdone
    · exact .inl (by simpa [queue, hfront] using hmem)
    · cases hpending
    · exact .inr (.inr ⟨hdone.moved, hdone.complete⟩)
  eof := h.eof
  origin := h.origin
  entered := h.entered
  coherent := h.coherent
  shift := h.shift
  reduce := h.reduce
  recovery := h.recovery
  remembers := h.remembers

section
variable (hi : info.Describes g) (hg : g.WellFormed)
include hi hg

omit hg in
theorem start_eq : start info =
    (blank info).addSituationToState 0 (info.makeSituationIdx g.rootRuleIdx 0 g.eofIdx) := by
  rw [start, hi.rootRuleIdx, hi.termCount]
  rfl

omit hi in
theorem marked_start : ∃ ri, ri.rIdx = g.rootRuleIdx ∧ g.Marked g.rootRuleIdx ri 0 g.eofIdx := by
  obtain ⟨ri, hri, hroot⟩ := hg.rootAt
  refine ⟨ri, hroot, hri, Nat.zero_le _, ?_⟩
  rw [Grammar.eofIdx, Grammar.termCount]
  omega

omit hg in
theorem sane_blank : (blank info).Sane g info (fun _ => none) none where
  shaped := ⟨rfl, by simp [blank, hi.ntermCount, hi.termCount]⟩
  start := rfl
  valid h := absurd h not_holds_blank
  queued h := nomatch h
  done h := absurd h not_holds_blank
  eof _ h := absurd h not_holds_blank
  origin _ h := absurd h not_holds_blank
  entered _ h := absurd h not_holds_blank
  coherent q c := by
    rw [entry_blank]
    constructor <;> simp
  shift he := by
    rw [entry_blank] at he
    cases he
  reduce he := by
    rw [entry_blank] at he
    cases he
  recovery he := by
    rw [entry_blank] at he
    cases he
  remembers h := nomatch h

theorem sane_start : (start info).Sane g info (fun _ => none) none := by
  obtain ⟨ri, hroot, hm⟩ := marked_start hg
  rw [start_eq hi]
  exact (sane_blank hi).add hi Nat.one_pos hm (fun _ => rfl) (fun _ => .inl ⟨hroot, rfl⟩) fun k' hk => by
    omega

theorem Sane.work (h : sai.Sane g info acc (some (q, i))) (hold : sai.Holds q i) {closure : List Nat}
    (hclosure : ∀ i' ∈ closure, info.Brings g i i') : ∃ acc', (sai.work info q i closure).Sane g info acc' none := by
  obtain ⟨j, ri, k, t, hm, rfl⟩ := h.valid hold
  obtain ⟨hclose, hgrows⟩ := h.close hi hg hm hold hclosure
  exact hclose.transition hi hg hm (hgrows.holds hold)

theorem Sane.closure (h : sai.Sane g info acc pending) (hold : sai.Holds q i) :
    ∃ closure firstSets, info.situationClosure i sai.firstSets = (.ok closure, firstSets) ∧
      info.Remembers g firstSets ∧ ∀ i' ∈ closure, info.Brings g i i' := by
  obtain ⟨j, ri, k, t, hm, rfl⟩ := h.valid hold
  have hwp := GrammarInfo.wp_situationClosure hi hg hm h.remembers
  unfold wp at hwp
  rcases hrun : info.situationClosure (info.makeSituationIdx j k t) sai.firstSets with ⟨closure | e | r, firstSets⟩ <;>
    rw [hrun] at hwp
  · exact ⟨closure, firstSets, rfl, hwp⟩
  · exact hwp.elim
  · exact hwp.elim

theorem Sane.front (h : sai.Sane g info acc none) {front : List (Nat × Nat)} (hfront : sai.front = (q, i) :: front)
    {closure : List Nat} {firstSets : FirstSets}
    (hclosure : info.situationClosure i sai.firstSets = (.ok closure, firstSets)) :
    sai.Holds q i ∧ ({ sai with front := front, firstSets := firstSets } : StateAnalysis).Sane g info acc
      (some (q, i)) ∧ ∀ i' ∈ closure, info.Brings g i i' := by
  have hold : sai.Holds q i := by
    refine h.queued ?_
    rw [queue, hfront]
    exact List.mem_cons_self
  obtain ⟨closure', firstSets', hclosure', hmem, hbrings⟩ := h.closure hi hg hold
  obtain ⟨hsame, rfl⟩ := Prod.mk.inj (hclosure.symm.trans hclosure')
  obtain rfl := Outcome.ok.inj hsame
  exact ⟨hold, h.pop hfront hmem, hbrings⟩

theorem Sane.round (h : sai.Sane g info acc none) (hround : Round info sai sai') :
    ∃ acc', sai'.Sane g info acc' none := by
  cases hround with
  | @work q i front closure firstSets hfront hclosure =>
    obtain ⟨hold, hpop, hbrings⟩ := h.front hi hg hfront hclosure
    exact hpop.work hi hg hold hbrings
  | turn hfront _ => exact ⟨acc, h.turn hfront⟩

theorem Reached.sane (h : Reached info sai) : ∃ acc, sai.Sane g info acc none := by
  induction h with
  | refl => exact ⟨_, sane_start hi hg⟩
  | tail _ hround ih =>
    obtain ⟨acc, hsane⟩ := ih
    exact hsane.round hi hg hround

end

end StateAnalysis

end Ctpg
end UdfRunner
