import UdfRunner.Ctpg.TableStates

/-!
# `ctpg.hpp`: the first sets of a grammar

Each nonterminal is marked when it is first asked for. So the computation of first sets comes to an end,
whatever has been computed before, and a closure is made of situations in front of which nothing is read
(`wp_situationClosure`).
-/

namespace UdfRunner
namespace Ctpg
open Proc

/-- However a computation of first sets goes, it comes to an end in `R`. -/
def Ends {α : Type} (R : FirstSets → Prop) : Outcome Empty α → FirstSets → Prop :=
  Yields (fun _ => R) (fun _ => False) fun _ => False

section
variable {α β : Type} {R R' : FirstSets → Prop} {m : FirstSets}

theorem Ends.bind {p : Analyzing α} {f : α → Analyzing β} (hp : wp p (Ends R) m)
    (hf : ∀ a m', R m' → wp (f a) (Ends R') m') : wp (p >>= f) (Ends R') m := Yields.bind hp hf

theorem Ends.mono {p : Analyzing α} (hp : wp p (Ends R) m) (h : ∀ m', R m' → R' m') : wp p (Ends R') m :=
  Yields.mono hp (fun _ => h) (fun _ => id) fun _ => id

theorem ends_ite {c : Prop} [Decidable c] {p p' : Analyzing α} (hp : c → wp p (Ends R) m)
    (hp' : ¬ c → wp p' (Ends R) m) : wp (if c then p else p') (Ends R) m := by
  split_ifs with hc
  · exact hp hc
  · exact hp' hc

end

/-! ### Marks -/

/-- How many of the first `n` are not marked. -/
def unmarked (n marks : Nat) : Nat := ((Finset.range n).filter fun i => marks.testBit i = false).card

theorem unmarked_le (n marks : Nat) : unmarked n marks ≤ n := by
  calc unmarked n marks ≤ (Finset.range n).card := Finset.card_filter_le _ _
    _ = n := Finset.card_range n

theorem unmarked_mark_lt {n marks i : Nat} (hi : i < n) (hmark : ¬ marks.testBit i = true) :
    unmarked n (marks ||| 1 <<< i) < unmarked n marks := by
  refine Finset.card_lt_card ⟨fun j hj => ?_, fun hsub => ?_⟩
  · obtain ⟨hlt, hbit⟩ := Finset.mem_filter.mp hj
    rw [Nat.testBit_or, Bool.or_eq_false_iff] at hbit
    exact Finset.mem_filter.mpr ⟨hlt, hbit.1⟩
  · have hmem := hsub (Finset.mem_filter.mpr ⟨Finset.mem_range.mpr hi, Bool.eq_false_iff.mpr hmark⟩)
    have hbit := (Finset.mem_filter.mp hmem).2
    rw [Nat.testBit_or, Nat.one_shiftLeft, Nat.testBit_two_pow_self, Bool.or_true] at hbit
    cases hbit

/-! ### Empty nonterminals -/

section
variable {R : FirstSets → Prop} {m : FirstSets} {n : Nat}

/-- No nonterminal beyond the first `n`. -/
def NtermsBelow (n : Nat) (slice : List Symbol) : Prop := ∀ nt, .nterm nt ∈ slice → nt < n

theorem NtermsBelow.tail {s : Symbol} {slice : List Symbol} (h : NtermsBelow n (s :: slice)) : NtermsBelow n slice :=
  fun nt hnt => h nt (List.mem_cons_of_mem _ hnt)

theorem NtermsBelow.drop {slice : List Symbol} (h : NtermsBelow n slice) (k : Nat) : NtermsBelow n (slice.drop k) :=
  fun nt hnt => h nt (List.mem_of_mem_drop hnt)

theorem ends_isSliceEmpty {empty : Nat → Analyzing Bool} (hempty : ∀ nt < n, ∀ m, R m → wp (empty nt) (Ends R) m)
    {slice : List Symbol} (hslice : NtermsBelow n slice) (hm : R m) : wp (isSliceEmpty empty slice) (Ends R) m := by
  induction slice generalizing m with
  | nil => exact hm
  | cons s slice ih =>
    cases s with
    | term t => exact hm
    | nterm nt =>
      refine Ends.bind (hempty nt (hslice nt (by simp)) m hm) fun e m' hm' => ?_
      exact ends_ite (fun _ => ih hslice.tail hm') fun _ => hm'

theorem ends_anyM {p : RuleInfo → Analyzing Bool} (hp : ∀ ri m, R m → wp (p ri) (Ends R) m) (rules : List RuleInfo)
    (hm : R m) : wp (rules.anyM p) (Ends R) m := by
  induction rules generalizing m with
  | nil => exact hm
  | cons ri rules ih =>
    refine Ends.bind (hp ri m hm) fun e m' hm' => ?_
    cases e with
    | true => exact hm'
    | false => exact ih hm'

end

namespace GrammarInfo
variable {g : Grammar} {info : GrammarInfo} {m : FirstSets} {n b nt : Nat} {closures : Nat → Option (List Nat)}

theorem Describes.ntermsBelow (hi : info.Describes g) (hg : g.WellFormed) (ri : RuleInfo) :
    NtermsBelow info.ntermCount (info.rightSide ri) := by
  intro nt hnt
  rw [rightSide, hi.rightSides, Grammar.rightSides, List.getD_eq_getElem?_getD, List.getElem?_map] at hnt
  cases hr : g.allRules[ri.rIdx]? with
  | none => simp [hr] at hnt
  | some r =>
    rw [hr] at hnt
    have hdeclared : nt < g.ntermCount := hg.declared (List.mem_of_getElem? hr) (s := .nterm nt) hnt
    rw [hi.ntermCount, Grammar.ntermTotal]
    omega

/-- At most `b` nonterminals have not been asked whether they are empty, and the rest is as it was. -/
structure AsksEmpty (info : GrammarInfo) (b marks : Nat) (closures : Nat → Option (List Nat)) (m : FirstSets) :
    Prop where
  unmarked : unmarked info.ntermCount m.ntermEmptyAnalyzed ≤ b
  marks : m.ntermFirstAnalyzed = marks
  closures : m.closures = closures

/-- At most `b` nonterminals have not been asked for their first terms, and the closures are as they were. -/
structure AsksFirst (info : GrammarInfo) (b : Nat) (closures : Nat → Option (List Nat)) (m : FirstSets) :
    Prop where
  unmarked : unmarked info.ntermCount m.ntermFirstAnalyzed ≤ b
  closures : m.closures = closures

variable (hi : info.Describes g) (hg : g.WellFormed)
include hi hg

theorem ends_makeNtermEmpty {marks : Nat} (hnt : nt < info.ntermCount) (hb : b < n)
    (hm : AsksEmpty info b marks closures m) :
    wp (info.makeNtermEmpty n nt) (Ends (AsksEmpty info b marks closures)) m := by
  induction n generalizing b nt m with
  | zero => exact absurd hb (Nat.not_lt_zero b)
  | succ n ih =>
    rw [makeNtermEmpty, wp_bind, wp_get, Outcome.andThen_ok]
    refine ends_ite (fun _ => hm) fun hmark => ?_
    have hlt := unmarked_mark_lt hnt hmark
    have hle := hm.unmarked
    obtain ⟨b', rfl⟩ : ∃ b', b = b' + 1 := ⟨b - 1, by omega⟩
    have hrest : ∀ m', AsksEmpty info b' marks closures m' → AsksEmpty info (b' + 1) marks closures m' :=
      fun m' h => ⟨h.unmarked.trans (Nat.le_succ b'), h.marks, h.closures⟩
    rw [wp_bind, wp_modify, Outcome.andThen_ok]
    refine Ends.bind (R := AsksEmpty info b' marks closures) (ends_anyM (fun ri m' hm' => ?_) _ ?_) fun e m' hm' => ?_
    · exact ends_isSliceEmpty (fun nt hnt m hm => ih hnt (by omega) hm) (hi.ntermsBelow hg ri) hm'
    · exact ⟨Nat.le_of_lt_succ (hlt.trans_le hle), hm.marks, hm.closures⟩
    · exact ends_ite (fun _ => hrest _ ⟨hm'.unmarked, hm'.marks, hm'.closures⟩) fun _ => hrest _ hm'

/-- Every nonterminal fits in. -/
theorem ends_isNtermEmpty (hnt : nt < info.ntermCount) (hm : AsksFirst info b closures m) :
    wp (info.isNtermEmpty nt) (Ends (AsksFirst info b closures)) m := by
  refine Ends.mono (ends_makeNtermEmpty hi hg hnt (Nat.lt_succ_self _)
    ⟨unmarked_le info.ntermCount m.ntermEmptyAnalyzed, rfl, rfl⟩) fun m' hm' => ?_
  exact ⟨hm'.marks ▸ hm.unmarked, hm'.closures.trans hm.closures⟩

/-! ### First terms -/

section
variable {first : Nat → Analyzing Nat}
    (hfirst : ∀ nt < info.ntermCount, ∀ m, AsksFirst info b closures m →
      wp (first nt) (Ends (AsksFirst info b closures)) m)
include hfirst

theorem ends_addSlice (slot : Nat) {slice : List Symbol} (hslice : NtermsBelow info.ntermCount slice)
    (hm : AsksFirst info b closures m) :
    wp (info.addSlice first slot slice) (Ends (AsksFirst info b closures)) m := by
  induction slice generalizing m with
  | nil => exact hm
  | cons s slice ih =>
    cases s with
    | term t => exact ⟨hm.unmarked, hm.closures⟩
    | nterm nt =>
      have hnt := hslice nt (by simp)
      refine Ends.bind (hfirst nt hnt m hm) fun terms m₁ hm₁ => ?_
      rw [wp_bind, wp_modify, Outcome.andThen_ok]
      refine Ends.bind (ends_isNtermEmpty hi hg hnt ⟨hm₁.unmarked, hm₁.closures⟩) fun e m₂ hm₂ => ?_
      exact ends_ite (fun _ => ih hslice.tail hm₂) fun _ => hm₂

theorem ends_makeRightSideSliceFirst (ri : RuleInfo) (start : Nat) (hm : AsksFirst info b closures m) :
    wp (info.makeRightSideSliceFirst first ri start) (Ends (AsksFirst info b closures)) m := by
  rw [makeRightSideSliceFirst, wp_bind, wp_get, Outcome.andThen_ok]
  refine ends_ite (fun _ => hm) fun _ => ?_
  rw [wp_bind, wp_modify, Outcome.andThen_ok]
  exact Ends.bind (ends_addSlice hi hg hfirst _ ((hi.ntermsBelow hg ri).drop start) ⟨hm.unmarked, hm.closures⟩)
    fun _ m' hm' => hm'

end

omit hi hg in
theorem ends_addRules {sliceFirst : RuleInfo → Analyzing Nat}
    (hfirst : ∀ ri m, AsksFirst info b closures m → wp (sliceFirst ri) (Ends (AsksFirst info b closures)) m)
    (rules : List RuleInfo) (hm : AsksFirst info b closures m) :
    wp (addRules sliceFirst nt rules) (Ends (AsksFirst info b closures)) m := by
  induction rules generalizing m with
  | nil => exact hm
  | cons ri rules ih =>
    refine Ends.bind (hfirst ri m hm) fun terms m' hm' => ?_
    rw [wp_bind, wp_modify, Outcome.andThen_ok]
    exact ih ⟨hm'.unmarked, hm'.closures⟩

theorem ends_makeNtermFirst (hnt : nt < info.ntermCount) (hb : b < n) (hm : AsksFirst info b closures m) :
    wp (info.makeNtermFirst n nt) (Ends (AsksFirst info b closures)) m := by
  induction n generalizing b nt m with
  | zero => exact absurd hb (Nat.not_lt_zero b)
  | succ n ih =>
    rw [makeNtermFirst, wp_bind, wp_get, Outcome.andThen_ok]
    refine ends_ite (fun _ => hm) fun hmark => ?_
    have hlt := unmarked_mark_lt hnt hmark
    have hle := hm.unmarked
    obtain ⟨b', rfl⟩ : ∃ b', b = b' + 1 := ⟨b - 1, by omega⟩
    rw [wp_bind, wp_modify, Outcome.andThen_ok]
    refine Ends.bind (ends_addRules (b := b') (fun ri m' hm' => ?_) _
      ⟨Nat.le_of_lt_succ (hlt.trans_le hle), hm.closures⟩) fun _ m' hm' => ?_
    · exact ends_makeRightSideSliceFirst hi hg (fun nt hnt m hm => ih hnt (by omega) hm) ri 0 hm'
    · exact ⟨hm'.unmarked.trans (Nat.le_succ b'), hm'.closures⟩

theorem ends_makeSituationFirstAfter (ri : RuleInfo) (after t : Nat) :
    wp (info.makeSituationFirstAfter ri after t) (Ends fun m' => m'.closures = m.closures) m := by
  have hm : AsksFirst info info.ntermCount m.closures m := ⟨unmarked_le _ _, rfl⟩
  refine Ends.bind (ends_makeRightSideSliceFirst hi hg
    (fun nt hnt m hm => ends_makeNtermFirst hi hg hnt (Nat.lt_succ_self _) hm) ri _ hm) fun first m₁ hm₁ => ?_
  refine Ends.bind (ends_isSliceEmpty (fun nt hnt m hm => ends_isNtermEmpty hi hg hnt hm)
    ((hi.ntermsBelow hg ri).drop (after + 1)) hm₁) fun e m₂ hm₂ => ?_
  exact ends_ite (fun _ => hm₂.closures) fun _ => hm₂.closures

end GrammarInfo

/-! ### Closures -/

namespace GrammarInfo
variable {g : Grammar} {info : GrammarInfo} {m : FirstSets} {j k t i' : Nat} {ri : RuleInfo}

/-- A situation in front of a nonterminal brings rules of it, with nothing read. -/
def Brings (info : GrammarInfo) (g : Grammar) (i i' : Nat) : Prop :=
  ∀ {j ri k t}, g.Marked j ri k t → i = info.makeSituationIdx j k t →
    ∃ j' ri' t', (g.right ri)[k]? = some (.nterm ri'.lIdx) ∧ g.Marked j' ri' 0 t' ∧
      i' = info.makeSituationIdx j' 0 t'

/-- The closures that are remembered. -/
def Remembers (info : GrammarInfo) (g : Grammar) (m : FirstSets) : Prop :=
  ∀ {i closure}, m.closures i = some closure → ∀ i' ∈ closure, info.Brings g i i'

variable (hi : info.Describes g)
include hi

theorem brings_ntermSituations {nt terms : Nat} (hm : g.Marked j ri k t) (hs : (g.right ri)[k]? = some (.nterm nt))
    (h : i' ∈ info.ntermSituations nt terms) : info.Brings g (info.makeSituationIdx j k t) i' := by
  intro j₁ ri₁ k₁ t₁ hm₁ heq
  obtain ⟨-, rfl, rfl, -⟩ := hi.make_inj hm hm₁ heq
  simp only [ntermSituations, List.mem_flatMap, List.mem_map, List.mem_filter, List.mem_range, hi.ruleInfos] at h
  obtain ⟨⟨ri', j'⟩, ⟨hrule, hnt⟩, t', ⟨ht', -⟩, rfl⟩ := h
  refine ⟨j', ri', t', ?_, ⟨List.mem_zipIdx_iff_getElem?.mp hrule, Nat.zero_le _, hi.termCount ▸ ht'⟩, rfl⟩
  rw [hs, of_decide_eq_true hnt]

variable (hg : g.WellFormed)
include hg

theorem wp_newClosure (hm : g.Marked j ri k t) : wp (info.newClosure (info.makeSituationIdx j k t))
    (Yields (fun closure m' => m'.closures = m.closures ∧
      ∀ i' ∈ closure, info.Brings g (info.makeSituationIdx j k t) i') (fun _ => False) fun _ => False) m := by
  unfold newClosure
  rw [hi.situation hm]
  cases hright : (g.right ri).drop k with
  | nil => exact ⟨rfl, by simp⟩
  | cons s rest =>
    cases s with
    | term idx => exact ⟨rfl, by simp⟩
    | nterm nt =>
      refine Yields.bind (ends_makeSituationFirstAfter hi hg ri k t) fun first m' hm' => ?_
      refine ⟨hm', fun i' hi' => brings_ntermSituations hi hm ?_ hi'⟩
      rw [← List.head?_drop, hright, List.head?_cons]

/-- The closure of a situation, made or remembered. -/
theorem wp_situationClosure (hm : g.Marked j ri k t) (hmem : info.Remembers g m) :
    wp (info.situationClosure (info.makeSituationIdx j k t)) (Yields (fun closure m' => info.Remembers g m' ∧
      ∀ i' ∈ closure, info.Brings g (info.makeSituationIdx j k t) i') (fun _ => False) fun _ => False) m := by
  rw [situationClosure, wp_bind, wp_get, Outcome.andThen_ok]
  cases hclosure : m.closures (info.makeSituationIdx j k t) with
  | some closure => exact ⟨hmem, hmem hclosure⟩
  | none =>
    refine Yields.bind (wp_newClosure hi hg hm) fun closure m' hm' => ?_
    obtain ⟨hclosures, hbrings⟩ := hm'
    rw [wp_bind, wp_modify, Outcome.andThen_ok]
    rw [wp_pure]
    refine ⟨fun {i closure'} hi' => ?_, hbrings⟩
    dsimp only at hi'
    by_cases heq : i = info.makeSituationIdx j k t
    · subst heq
      rw [Function.update_self] at hi'
      exact Option.some.inj hi' ▸ hbrings
    · rw [Function.update_of_ne heq, hclosures] at hi'
      exact hmem hi'

end GrammarInfo

end Ctpg
end UdfRunner
