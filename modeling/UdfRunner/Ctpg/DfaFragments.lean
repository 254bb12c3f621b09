import UdfRunner.Ctpg.DfaMerging

/-!
# The automata of unambiguous expressions

An expression is unambiguous if no character can both go on with what was read and begin what comes next.
Merging then never runs into a clash: `Fragment e lo sm` says that the states from `lo` on are those of `e`,
and each operation of the builder makes the fragment of an expression from those of its parts.
-/

namespace UdfRunner
namespace Ctpg

namespace Regex

/-- `dfa_size_analyzer`. -/
def size : Regex → Nat
  | primary _ => 2
  | star e | plus e | opt e => e.size
  | rep e n => if n = 0 then e.size else e.size * n
  | cat e1 e2 | alt e1 e2 => e1.size + e2.size

def nullable : Regex → Bool
  | primary _ => false
  | star _ | opt _ => true
  | plus e => e.nullable
  | rep e n => n = 0 || e.nullable
  | cat e1 e2 => e1.nullable && e2.nullable
  | alt e1 e2 => e1.nullable || e2.nullable

/-- The characters that words begin with. -/
def first : Regex → CharSubset
  | primary s => s
  | star e | plus e | opt e | rep e _ => e.first
  | cat e1 e2 => if e1.nullable then e1.first ||| e2.first else e1.first
  | alt e1 e2 => e1.first ||| e2.first

/-- The characters that go on after a word, other than after the empty one. -/
def followLast : Regex → CharSubset
  | primary _ => 0
  | star e | plus e => e.followLast ||| e.first
  | opt e | rep e _ => e.followLast
  | cat e1 e2 => if e2.nullable then e2.followLast ||| (e1.followLast ||| e2.first) else e2.followLast
  | alt e1 e2 => (e1.followLast ||| e2.followLast) ||| if e2.nullable then e2.first else 0

/-- The characters that go on after a word. -/
def ends (e : Regex) : CharSubset := if e.nullable then e.followLast ||| e.first else e.followLast

def unambiguous : Regex → Bool
  | primary _ => true
  | star e | plus e => e.unambiguous && e.followLast &&& e.first == 0
  | opt e => e.unambiguous
  | rep e n => e.unambiguous && (n == 1 || (1 < n && !e.nullable && e.followLast &&& e.first == 0))
  | cat e1 e2 => e1.unambiguous && e2.unambiguous && e1.ends &&& e2.first == 0
  | alt e1 e2 => e1.unambiguous && e2.unambiguous && e1.first &&& e2.first == 0

/-- The expression as the lexer by derivatives takes it. -/
def pattern : Regex → Pattern
  | primary s => Pattern.charSubset (((List.range 256).map UInt8.ofNat).filter (s.testBit ·.toNat))
  | star e => e.pattern.star
  | plus e => Pattern.atLeastOnce e.pattern
  | opt e => 1 + e.pattern
  | rep e n => e.pattern ^ n
  | cat e1 e2 => e1.pattern * e2.pattern
  | alt e1 e2 => e1.pattern + e2.pattern

theorem size_pos (e : Regex) : 0 < e.size := by
  induction e with
  | primary s => exact Nat.zero_lt_two
  | star e ih | plus e ih | opt e ih => exact ih
  | rep e n ih =>
    rw [size]
    split_ifs with hn
    · exact ih
    · exact Nat.mul_pos ih (Nat.pos_of_ne_zero hn)
  | cat e1 e2 ih1 ih2 | alt e1 e2 ih1 ih2 => exact Nat.add_pos_left ih1 _

end Regex

/-- The states from `lo` on are those of `e`. -/
structure Fragment (e : Regex) (lo : Nat) (sm : Dfa) : Prop where
  le : lo + e.size ≤ sm.length
  targets : ∀ q i t, lo ≤ q → q < lo + e.size → (sm.row q).next i = some t → lo < t ∧ t < lo + e.size
  first : ∀ i, (sm.row lo).next i ≠ none → e.first.testBit i = true
  last : ∀ q i, lo < q → q < lo + e.size → (sm.row q).endState = true → (sm.row q).next i ≠ none →
    e.followLast.testBit i = true
  start : (sm.row lo).endState = e.nullable
  terms : ∀ q, lo ≤ q → q < lo + e.size → (sm.row q).terms = []
  lang : sm.automaton.lang lo = e.pattern.matches'

/-- Only the states of a slice have changed. -/
structure Frames (lo n : Nat) (sm sm' : Dfa) : Prop where
  length : sm'.length = sm.length
  row : ∀ q, ¬(lo ≤ q ∧ q < lo + n) → sm'.row q = sm.row q

theorem DfaRow.not_clashes_of_masks {r r' : DfaRow} {m m' : CharSubset} (h : ∀ i, r.next i ≠ none → m.testBit i = true)
    (h' : ∀ i, r'.next i ≠ none → m'.testBit i = true) (hm : m &&& m' = 0) : ¬ r.Clashes r' := by
  rintro ⟨i, hi, hi'⟩
  have hbit : Nat.testBit (m &&& m') i = true := by rw [Nat.testBit_and, h i hi, h' i hi', Bool.and_true]
  rw [hm, Nat.zero_testBit] at hbit
  exact absurd hbit (by simp)

theorem DfaRow.joined_next {keep : Bool} {r r' : DfaRow} {i t : Nat} (h : (joined keep r r').next i = some t) :
    r.next i = some t ∨ r'.next i = some t := by
  simp only [joined] at h
  split_ifs at h
  · rcases Option.or_eq_some_iff.mp h with h | ⟨-, h⟩
    · exact .inl h
    · exact .inr h
  · exact .inl h

theorem DfaRow.joined_ne_none {keep : Bool} {r r' : DfaRow} {i : Nat} (h : (joined keep r r').next i ≠ none) :
    r.next i ≠ none ∨ r'.next i ≠ none := by
  obtain ⟨t, ht⟩ := Option.ne_none_iff_exists'.mp h
  rcases joined_next ht with ht | ht
  · exact .inl (by simp [ht])
  · exact .inr (by simp [ht])

namespace Dfa
variable {sm sm' : Dfa} {b q lo n : Nat}

theorem mem_range {s : Slice} : q ∈ s.range ↔ s.start ≤ q ∧ q < s.start + s.n := by
  rw [Slice.range, List.mem_map]
  constructor
  · rintro ⟨i, hi, rfl⟩
    have hlt := List.mem_range.mp hi
    omega
  · rintro ⟨hle, hlt⟩
    exact ⟨q - s.start, List.mem_range.mpr (by omega), by omega⟩

theorem onEndStates_joins (s : Slice) (hs : s.start + s.n ≤ sm.length) (hb : (sm.row b).terms = [])
    (hclash : ∀ i, s.start ≤ i → i < s.start + s.n → (sm.row i).endState = true → i ≠ b →
      ¬ (sm.row i).Clashes (sm.row b)) (keep mark : Bool) :
    ∃ sm' : Dfa, onEndStates (fun i => mergeAt i b keep mark) s sm = some sm' ∧ sm'.length = sm.length ∧
      ∀ q, sm'.row q = if (s.start ≤ q ∧ q < s.start + s.n) ∧ (sm.row q).endState = true ∧ q ≠ b then
        DfaRow.joined keep (sm.row q) (sm.row b) else sm.row q := by
  have hnodup : s.range.Nodup := List.nodup_range.map fun _ _ => Nat.add_left_cancel
  obtain ⟨sm', hfold, hlength, hrow⟩ := foldlM_mergeAt hnodup
    (fun i hi => lt_of_lt_of_le (mem_range.mp hi).2 hs) hb
    (fun i hi => hclash i (mem_range.mp hi).1 (mem_range.mp hi).2) keep mark
  exact ⟨sm', hfold, hlength, fun q => (hrow q).trans (if_congr (and_congr_left' mem_range) rfl rfl)⟩

theorem joins_of_joined {keep : Bool} (h : sm'.row q = DfaRow.joined keep (sm.row q) (sm.row b)) :
    sm.automaton.Joins sm'.automaton q b := by
  intro c
  show (sm'.row q).next c.toNat = _
  rw [h]
  exact if_pos c.toNat_lt

theorem disjoint_of_not_clashes (h : ¬ (sm.row q).Clashes (sm.row b)) : sm.automaton.Disjoint q b := by
  intro c hc
  exact DfaRow.next_of_not_clashes h hc

theorem step_congr (h : sm'.row q = sm.row q) (c : UInt8) : sm'.automaton.step q c = sm.automaton.step q c :=
  congrFun (congrArg DfaRow.next h) c.toNat

theorem final_congr (h : sm'.row q = sm.row q) : sm'.automaton.final q = sm.automaton.final q :=
  congrArg DfaRow.endState h

end Dfa

namespace Fragment
variable {e e' e1 e2 : Regex} {lo : Nat} {sm sm' : Dfa}

theorem closed (h : Fragment e lo sm) : sm.automaton.Closed fun q => lo ≤ q ∧ q < lo + e.size := fun q c t hq ht =>
  have hlt := h.targets q c.toNat t hq.1 hq.2 ht
  ⟨hlt.1.le, hlt.2⟩

theorem mem_start (_ : Fragment e lo sm) : lo ≤ lo ∧ lo < lo + e.size := ⟨le_rfl, Nat.lt_add_of_pos_right e.size_pos⟩

theorem congr (h : Fragment e lo sm) (hle : lo + e.size ≤ sm'.length)
    (hrow : ∀ q, lo ≤ q → q < lo + e.size → sm'.row q = sm.row q) : Fragment e lo sm' := by
  have hlo := hrow lo h.mem_start.1 h.mem_start.2
  refine ⟨hle, fun q i t hq hq' ht => ?_, fun i hi => ?_, fun q i hq hq' hend hi => ?_, ?_, fun q hq hq' => ?_, ?_⟩
  · exact h.targets q i t hq hq' (by rwa [hrow q hq hq'] at ht)
  · exact h.first i (by rwa [hlo] at hi)
  · rw [hrow q hq.le hq'] at hend hi
    exact h.last q i hq hq' hend hi
  · rw [hlo, h.start]
  · rw [hrow q hq hq', h.terms q hq hq']
  · rw [← h.lang]
    exact PartialDfa.lang_congr h.closed (fun q c hq => Dfa.step_congr (hrow q hq.1 hq.2) c)
      (fun q hq => Dfa.final_congr (hrow q hq.1 hq.2)) h.mem_start

theorem of_eq (h : Fragment e lo sm) (hsize : e'.size = e.size) (hfirst : e'.first = e.first)
    (hfollow : e'.followLast = e.followLast) (hnull : e'.nullable = e.nullable)
    (hlang : e'.pattern.matches' = e.pattern.matches') : Fragment e' lo sm := by
  refine ⟨hsize ▸ h.le, ?_, ?_, ?_, hnull ▸ h.start, ?_, hlang ▸ h.lang⟩
  · rw [hsize]
    exact h.targets
  · rw [hfirst]
    exact h.first
  · rw [hsize, hfollow]
    exact h.last
  · rw [hsize]
    exact h.terms

theorem not_clashes (h : Fragment e lo sm) (hdisjoint : e.followLast &&& e.first = 0) {q : Nat} (hq : lo ≤ q)
    (hq' : q < lo + e.size) (hend : (sm.row q).endState = true) (hne : q ≠ lo) :
    ¬ (sm.row q).Clashes (sm.row lo) :=
  DfaRow.not_clashes_of_masks (fun i => h.last q i (lt_of_le_of_ne hq (Ne.symm hne)) hq' hend) h.first hdisjoint

/-! ### Iteration -/

/-- The end states have the transitions of the start, which may have become one of them. -/
theorem iterate (h : Fragment e lo sm) (hdisjoint : e.followLast &&& e.first = 0) (hlength : sm'.length = sm.length)
    {b : Bool} (hstart : sm'.row lo = { sm.row lo with endState := b })
    (hrow : ∀ q, q ≠ lo → sm'.row q = if (lo ≤ q ∧ q < lo + e.size) ∧ (sm.row q).endState = true then
      DfaRow.joined true (sm.row q) (sm.row lo) else sm.row q)
    (hsize : e'.size = e.size) (hfirst : e'.first = e.first) (hfollow : e'.followLast = e.followLast ||| e.first)
    (hnull : e'.nullable = b)
    (hlang : 1 + sm'.automaton.lang lo = KStar.kstar (sm.automaton.lang lo) →
      sm'.automaton.lang lo = e'.pattern.matches') : Fragment e' lo sm' := by
  have hjoined : ∀ q, q ≠ lo → lo ≤ q ∧ q < lo + e.size → (sm.row q).endState = true →
      sm'.row q = DfaRow.joined true (sm.row q) (sm.row lo) := fun q hne hq hend =>
    (hrow q hne).trans (if_pos ⟨hq, hend⟩)
  have hsame : ∀ q, q ≠ lo → (sm.row q).endState = false → sm'.row q = sm.row q := fun q hne hend =>
    (hrow q hne).trans (if_neg fun h => by rw [hend] at h; exact absurd h.2 (by simp))
  -- a transition is an old one, or one of the start
  have hnext : ∀ q i t, lo ≤ q → q < lo + e.size → (sm'.row q).next i = some t →
      (sm.row q).next i = some t ∨ (sm.row lo).next i = some t := by
    intro q i t hq hq' ht
    by_cases hne : q = lo
    · subst hne
      rw [hstart] at ht
      exact .inl ht
    · cases hend : (sm.row q).endState with
      | false => exact .inl (by rwa [hsame q hne hend] at ht)
      | true =>
        rw [hjoined q hne ⟨hq, hq'⟩ hend] at ht
        exact DfaRow.joined_next ht
  refine ⟨by rw [hsize, hlength]; exact h.le, fun q i t hq hq' ht => ?_, fun i hi => ?_,
    fun q i hq hq' hend hi => ?_, ?_, fun q hq hq' => ?_, hlang ?_⟩
  · rw [hsize] at hq' ⊢
    rcases hnext q i t hq hq' ht with ht | ht
    · exact h.targets q i t hq hq' ht
    · exact h.targets lo i t le_rfl h.mem_start.2 ht
  · rw [hfirst]
    rw [hstart] at hi
    exact h.first i hi
  · rw [hsize] at hq'
    rw [hfollow, Nat.testBit_or, Bool.or_eq_true]
    have hend' : (sm.row q).endState = true := by
      by_contra hfalse
      rw [hsame q hq.ne' (by simpa using hfalse)] at hend
      exact hfalse hend
    obtain ⟨t, ht⟩ := Option.ne_none_iff_exists'.mp hi
    rcases hnext q i t hq.le hq' ht with ht | ht
    · exact .inl (h.last q i hq hq' hend' (by simp [ht]))
    · exact .inr (h.first i (by simp [ht]))
  · rw [hstart, hnull]
  · rw [hsize] at hq'
    by_cases hne : q = lo
    · subst hne
      rw [hstart]
      exact h.terms q hq hq'
    · cases hend : (sm.row q).endState with
      | false => rw [hsame q hne hend, h.terms q hq hq']
      | true =>
        rw [hjoined q hne ⟨hq, hq'⟩ hend]
        exact h.terms q hq hq'
  · refine PartialDfa.lang_loop h.closed h.mem_start (fun q c t hq ht => ?_) (fun q c hq hend => ?_)
      (fun q hq hend hne => Dfa.joins_of_joined (hjoined q hne hq hend)) (fun c => ?_)
      (fun q hq hend hne => Dfa.disjoint_of_not_clashes (h.not_clashes hdisjoint hq.1 hq.2 hend hne))
      (fun q hq hne => ?_)
    · exact (h.targets q c.toNat t hq.1 hq.2 ht).1.ne'
    · by_cases hne : q = lo
      · subst hne
        show (sm'.row q).next c.toNat = _
        rw [hstart]
        rfl
      · exact Dfa.step_congr (hsame q hne hend) c
    · show (sm'.row lo).next c.toNat = _
      rw [hstart]
      rfl
    · cases hend : (sm.row q).endState with
      | false => exact Dfa.final_congr (hsame q hne hend)
      | true =>
        show (sm'.row q).endState = (sm.row q).endState
        rw [hjoined q hne hq hend]
        simp [DfaRow.joined, hend]

theorem star (h : Fragment e lo sm) (hdisjoint : e.followLast &&& e.first = 0) :
    ∃ sm', sm.star ⟨lo, e.size⟩ = some (⟨lo, e.size⟩, sm') ∧ Fragment (.star e) lo sm' ∧ Frames lo e.size sm sm' := by
  have hlo : lo < sm.length := lt_of_lt_of_le h.mem_start.2 h.le
  let sm₁ : Dfa := sm.modify lo fun st => { st with endState := true }
  have hlength₁ : sm₁.length = sm.length := List.length_modify _ _ _
  have hstart₁ : sm₁.row lo = { sm.row lo with endState := true } := Dfa.row_modify_self hlo _
  have hrow₁ : ∀ q, q ≠ lo → sm₁.row q = sm.row q := fun q hq => Dfa.row_modify_ne hq _
  obtain ⟨sm', hloop, hlength, hrow⟩ := @Dfa.onEndStates_joins sm₁ lo ⟨lo, e.size⟩
    (hlength₁ ▸ h.le) (by rw [hstart₁]; exact h.terms lo le_rfl h.mem_start.2)
    (fun q hq hq' hend hne => by
      rw [hrow₁ q hne] at hend ⊢
      rw [hstart₁]
      exact h.not_clashes hdisjoint hq hq' hend hne) false false
  have hstart : sm'.row lo = { sm.row lo with endState := true } := by
    rw [hrow, if_neg (by simp), hstart₁]
  refine ⟨sm', ?_, h.iterate (b := true) hdisjoint (hlength.trans hlength₁) hstart (fun q hne => ?_) rfl rfl rfl rfl
    (fun hstar => ?_), hlength.trans hlength₁, fun q hq => ?_⟩
  · simp only [Dfa.star, Option.bind_eq_bind]
    rw [hloop]
    rfl
  · rw [hrow, hrow₁ q hne, hstart₁]
    refine if_ctx_congr (by simp [hne]) (fun hend => DfaRow.ext ?_ rfl rfl) fun _ => rfl
    simp [DfaRow.joined, hend.2]
  · have hfinal : sm'.automaton.final lo = true := congrArg DfaRow.endState hstart
    rw [PartialDfa.lang_star hstar hfinal, h.lang]
    rfl
  · have hne : q ≠ lo := fun heq => hq (heq ▸ h.mem_start)
    rw [hrow, if_neg fun hin => hq hin.1, hrow₁ q hne]

theorem plus (h : Fragment e lo sm) (hdisjoint : e.followLast &&& e.first = 0) :
    ∃ sm', sm.plus ⟨lo, e.size⟩ = some (⟨lo, e.size⟩, sm') ∧ Fragment (.plus e) lo sm' ∧ Frames lo e.size sm sm' := by
  obtain ⟨sm', hloop, hlength, hrow⟩ := Dfa.onEndStates_joins (b := lo) ⟨lo, e.size⟩ h.le
    (h.terms lo le_rfl h.mem_start.2) (fun q => h.not_clashes hdisjoint) true false
  have hstart : sm'.row lo = sm.row lo := by rw [hrow, if_neg (by simp)]
  refine ⟨sm', ?_, h.iterate (b := e.nullable) hdisjoint hlength ?_ (fun q hne => ?_) rfl rfl rfl rfl
    (fun hstar => ?_), hlength, fun q hq => ?_⟩
  · simp only [Dfa.plus, Option.bind_eq_bind]
    rw [hloop]
    rfl
  · rw [hstart, ← h.start]
  · rw [hrow]
    exact if_congr (by simp [hne]) rfl rfl
  · rw [PartialDfa.lang_plus hstar (Dfa.final_congr hstart), h.lang]
    rfl
  · rw [hrow, if_neg fun hin => hq hin.1]

theorem opt (h : Fragment e lo sm) :
    ∃ sm', sm.opt ⟨lo, e.size⟩ = some (⟨lo, e.size⟩, sm') ∧ Fragment (.opt e) lo sm' ∧ Frames lo e.size sm sm' := by
  have hlo : lo < sm.length := lt_of_lt_of_le h.mem_start.2 h.le
  let sm' : Dfa := sm.modify lo fun st => { st with endState := true }
  have hlength : sm'.length = sm.length := List.length_modify _ _ _
  have hstart : sm'.row lo = { sm.row lo with endState := true } := Dfa.row_modify_self hlo _
  have hrow : ∀ q, q ≠ lo → sm'.row q = sm.row q := fun q hq => Dfa.row_modify_ne hq _
  have hnext : ∀ q, (sm'.row q).next = (sm.row q).next := by
    intro q
    by_cases hq : q = lo
    · rw [hq, hstart]
    · rw [hrow q hq]
  refine ⟨sm', rfl, ⟨hlength ▸ h.le, fun q i t hq hq' ht => ?_, fun i hi => ?_, fun q i hq hq' hend hi => ?_, ?_,
    fun q hq hq' => ?_, ?_⟩, hlength, fun q hq => hrow q fun heq => hq (heq ▸ h.mem_start)⟩
  · exact h.targets q i t hq hq' (hnext q ▸ ht)
  · exact h.first i (hnext lo ▸ hi)
  · rw [hrow q hq.ne'] at hend hi
    exact h.last q i hq hq' hend hi
  · rw [hstart]
    rfl
  · by_cases hne : q = lo
    · rw [hne, hstart]
      exact h.terms lo le_rfl h.mem_start.2
    · rw [hrow q hne]
      exact h.terms q hq hq'
  · have hafter : sm.automaton.Closed fun q => lo < q ∧ q < lo + e.size := fun q c t hq ht =>
      h.targets q c.toNat t hq.1.le hq.2 ht
    ext w
    rw [Regex.pattern, RegularExpression.matches'_add, RegularExpression.matches'_epsilon, ← h.lang]
    cases w with
    | nil =>
      have hfinal : sm'.automaton.accepts lo [] := congrArg DfaRow.endState hstart
      exact iff_of_true hfinal (.inl rfl)
    | cons c w =>
      rw [PartialDfa.cons_mem_one_add, PartialDfa.mem_lang, PartialDfa.mem_lang, PartialDfa.accepts,
        PartialDfa.accepts]
      have hstep : sm'.automaton.step lo c = sm.automaton.step lo c := congrFun (hnext lo) c.toNat
      rw [hstep]
      refine exists_congr fun t => and_congr_right fun ht => ?_
      exact PartialDfa.accepts_congr hafter (fun q c hq => Dfa.step_congr (hrow q hq.1.ne') c)
        (fun q hq => Dfa.final_congr (hrow q hq.1.ne')) (h.targets lo c.toNat t le_rfl h.mem_start.2 ht) w

/-! ### Concatenation and union -/

theorem not_clashes_cat (h1 : Fragment e1 lo sm) (h2 : Fragment e2 (lo + e1.size) sm)
    (hdisjoint : e1.ends &&& e2.first = 0) {q : Nat} (hq : lo ≤ q) (hq' : q < lo + e1.size)
    (hend : (sm.row q).endState = true) : ¬ (sm.row q).Clashes (sm.row (lo + e1.size)) := by
  refine DfaRow.not_clashes_of_masks (fun i hi => ?_) h2.first hdisjoint
  rw [Regex.ends]
  by_cases hne : q = lo
  · subst hne
    rw [← h1.start, hend, if_pos rfl, Nat.testBit_or, h1.first i hi, Bool.or_true]
  · have hlast := h1.last q i (lt_of_le_of_ne hq (Ne.symm hne)) hq' hend hi
    split_ifs
    · rw [Nat.testBit_or, hlast, Bool.true_or]
    · exact hlast

theorem cat (h1 : Fragment e1 lo sm) (h2 : Fragment e2 (lo + e1.size) sm) (hdisjoint : e1.ends &&& e2.first = 0) :
    ∃ sm', sm.cat ⟨lo, e1.size⟩ ⟨lo + e1.size, e2.size⟩ = some (⟨lo, e1.size + e2.size⟩, sm') ∧
      Fragment (.cat e1 e2) lo sm' ∧ Frames lo e1.size sm sm' := by
  obtain ⟨sm', hloop, hlength, hrow⟩ := Dfa.onEndStates_joins (b := lo + e1.size) ⟨lo, e1.size⟩ h1.le
    (h2.terms _ le_rfl h2.mem_start.2) (fun q hq hq' hend _ => h1.not_clashes_cat h2 hdisjoint hq hq' hend) false true
  have hpos := e1.size_pos
  have hpos2 := e2.size_pos
  have hjoined : ∀ q, lo ≤ q → q < lo + e1.size → (sm.row q).endState = true →
      sm'.row q = DfaRow.joined false (sm.row q) (sm.row (lo + e1.size)) := fun q hq hq' hend =>
    (hrow q).trans (if_pos ⟨⟨hq, hq'⟩, hend, hq'.ne⟩)
  have hopen : ∀ q, (sm.row q).endState = false → sm'.row q = sm.row q := by
    intro q hend
    rw [hrow, if_neg]
    simp [hend]
  have houter : ∀ q, ¬(lo ≤ q ∧ q < lo + e1.size) → sm'.row q = sm.row q := by
    intro q hq
    rw [hrow, if_neg fun h => hq h.1]
  -- a transition in the first part is an old one, or one of the start of the second
  have hnext : ∀ q i t, (sm'.row q).next i = some t → (sm.row q).next i = some t ∨
      (lo ≤ q ∧ q < lo + e1.size ∧ (sm.row q).endState = true ∧ (sm.row (lo + e1.size)).next i = some t) := by
    intro q i t ht
    by_cases hq : lo ≤ q ∧ q < lo + e1.size
    · cases hend : (sm.row q).endState with
      | false => exact .inl (by rwa [hopen q hend] at ht)
      | true =>
        rw [hjoined q hq.1 hq.2 hend] at ht
        rcases DfaRow.joined_next ht with ht | ht
        · exact .inl ht
        · exact .inr ⟨hq.1, hq.2, rfl, ht⟩
    · exact .inl (by rwa [houter q hq] at ht)
  have hend' : ∀ q, lo ≤ q → q < lo + e1.size → (sm'.row q).endState = ((sm.row q).endState && e2.nullable) := by
    intro q hq hq'
    cases hend : (sm.row q).endState with
    | false => rw [hopen q hend, hend, Bool.false_and]
    | true =>
      rw [hjoined q hq hq' hend, Bool.true_and, ← h2.start]
      rfl
  refine ⟨sm', ?_, ⟨?_, fun q i t hq hq' ht => ?_, fun i hi => ?_, fun q i hq hq' hend hi => ?_, ?_,
    fun q hq hq' => ?_, ?_⟩, hlength, houter⟩
  · simp only [Dfa.cat, Option.bind_eq_bind]
    rw [hloop]
    rfl
  · rw [Regex.size, hlength, ← Nat.add_assoc]
    exact h2.le
  · rw [Regex.size] at hq' ⊢
    rcases hnext q i t ht with ht | ⟨-, -, -, ht⟩
    · by_cases hq2 : q < lo + e1.size
      · have hlt := h1.targets q i t hq hq2 ht
        omega
      · have hlt := h2.targets q i t (by omega) (by omega) ht
        omega
    · have hlt := h2.targets _ i t le_rfl h2.mem_start.2 ht
      omega
  · obtain ⟨t, ht⟩ := Option.ne_none_iff_exists'.mp hi
    rw [Regex.first]
    rcases hnext lo i t ht with ht | ⟨-, -, hend, ht⟩
    · have hfirst := h1.first i (by simp [ht])
      split_ifs
      · rw [Nat.testBit_or, hfirst, Bool.true_or]
      · exact hfirst
    · rw [← h1.start, hend, if_pos rfl, Nat.testBit_or, h2.first i (by simp [ht]), Bool.or_true]
  · rw [Regex.size] at hq'
    rw [Regex.followLast]
    obtain ⟨t, ht⟩ := Option.ne_none_iff_exists'.mp hi
    by_cases hq2 : q < lo + e1.size
    · rw [hend' q hq.le hq2, Bool.and_eq_true] at hend
      rw [hend.2, if_pos rfl, Nat.testBit_or, Nat.testBit_or]
      rcases hnext q i t ht with ht | ⟨-, -, -, ht⟩
      · rw [h1.last q i hq hq2 hend.1 (by simp [ht]), Bool.true_or, Bool.or_true]
      · rw [h2.first i (by simp [ht]), Bool.or_true, Bool.or_true]
    · rw [houter q fun h => hq2 h.2] at hend hi
      by_cases hb : q = lo + e1.size
      · subst hb
        rw [← h2.start, hend, if_pos rfl, Nat.testBit_or, Nat.testBit_or, h2.first i hi, Bool.or_true, Bool.or_true]
      · have hlast := h2.last q i (by omega) (by omega) hend hi
        split_ifs
        · rw [Nat.testBit_or, hlast, Bool.true_or]
        · exact hlast
  · rw [hend' lo le_rfl h1.mem_start.2, h1.start]
    rfl
  · rw [Regex.size] at hq'
    by_cases hq2 : q < lo + e1.size
    · cases hend : (sm.row q).endState with
      | false => rw [hopen q hend, h1.terms q hq hq2]
      | true =>
        rw [hjoined q hq hq2 hend]
        exact h1.terms q hq hq2
    · rw [houter q fun h => hq2 h.2]
      exact h2.terms q (by omega) (by omega)
  · have houter2 : ∀ q, lo + e1.size ≤ q ∧ q < lo + e1.size + e2.size → sm'.row q = sm.row q := fun q hq =>
      houter q fun h => absurd h.2 (not_lt.mpr hq.1)
    have hcat := PartialDfa.lang_cat (N := sm'.automaton) h1.closed h2.closed h2.mem_start
      (fun q c _ hend => Dfa.step_congr (hopen q hend) c)
      (fun q hq hend => Dfa.joins_of_joined (hjoined q hq.1 hq.2 hend))
      (fun q hq hend => Dfa.disjoint_of_not_clashes (h1.not_clashes_cat h2 hdisjoint hq.1 hq.2 hend))
      (fun q hq => (hend' q hq.1 hq.2).trans (congrArg _ h2.start.symm))
      (fun q c hq => Dfa.step_congr (houter2 q hq) c) (fun q hq => Dfa.final_congr (houter2 q hq)) h1.mem_start
    rw [hcat, h1.lang, h2.lang, Regex.pattern, RegularExpression.matches'_mul]

theorem alt (h1 : Fragment e1 lo sm) (h2 : Fragment e2 (lo + e1.size) sm) (hdisjoint : e1.first &&& e2.first = 0) :
    ∃ sm', sm.alt ⟨lo, e1.size⟩ ⟨lo + e1.size, e2.size⟩ = some (⟨lo, e1.size + e2.size⟩, sm') ∧
      Fragment (.alt e1 e2) lo sm' ∧ Frames lo e1.size sm sm' := by
  have hpos := e1.size_pos
  have hne : lo ≠ lo + e1.size := by omega
  have hclash : ¬ (sm.row lo).Clashes (sm.row (lo + e1.size)) :=
    DfaRow.not_clashes_of_masks h1.first h2.first hdisjoint
  obtain ⟨sm', hmerge, hlength, hrow⟩ :=
    Dfa.mergeAt_joins hne (lt_of_lt_of_le h1.mem_start.2 h1.le) hclash true true
  have hstart : sm'.row lo = DfaRow.joined true (sm.row lo) (sm.row (lo + e1.size)) := by
    rw [hrow, if_pos rfl, h2.terms _ le_rfl h2.mem_start.2, List.foldl_nil]
  have hsame : ∀ q, q ≠ lo → sm'.row q = sm.row q := fun q hq => (hrow q).trans (if_neg hq)
  refine ⟨sm', ?_, ⟨?_, fun q i t hq hq' ht => ?_, fun i hi => ?_, fun q i hq hq' hend hi => ?_, ?_,
    fun q hq hq' => ?_, ?_⟩, hlength, fun q hq => hsame q fun heq => hq (heq ▸ h1.mem_start)⟩
  · simp only [Dfa.alt, Option.bind_eq_bind]
    rw [hmerge]
    rfl
  · rw [Regex.size, hlength, ← Nat.add_assoc]
    exact h2.le
  · rw [Regex.size] at hq' ⊢
    by_cases hlo : q = lo
    · subst hlo
      rw [hstart] at ht
      rcases DfaRow.joined_next ht with ht | ht
      · have hlt := h1.targets q i t le_rfl h1.mem_start.2 ht
        omega
      · have hlt := h2.targets _ i t le_rfl h2.mem_start.2 ht
        omega
    · rw [hsame q hlo] at ht
      by_cases hq2 : q < lo + e1.size
      · have hlt := h1.targets q i t hq hq2 ht
        omega
      · have hlt := h2.targets q i t (by omega) (by omega) ht
        omega
  · rw [hstart] at hi
    rw [Regex.first, Nat.testBit_or, Bool.or_eq_true]
    exact (DfaRow.joined_ne_none hi).imp (h1.first i) (h2.first i)
  · rw [Regex.size] at hq'
    rw [hsame q hq.ne'] at hend hi
    rw [Regex.followLast, Nat.testBit_or, Nat.testBit_or]
    by_cases hq2 : q < lo + e1.size
    · rw [h1.last q i hq hq2 hend hi, Bool.true_or, Bool.true_or]
    · by_cases hb : q = lo + e1.size
      · subst hb
        rw [← h2.start, hend, if_pos rfl, h2.first i hi, Bool.or_true]
      · rw [h2.last q i (by omega) (by omega) hend hi, Bool.or_true, Bool.true_or]
  · rw [hstart, Regex.nullable, ← h1.start, ← h2.start]
    rfl
  · rw [Regex.size] at hq'
    by_cases hlo : q = lo
    · subst hlo
      rw [hstart]
      exact h1.terms q le_rfl h1.mem_start.2
    · rw [hsame q hlo]
      by_cases hq2 : q < lo + e1.size
      · exact h1.terms q hq hq2
      · exact h2.terms q (by omega) (by omega)
  · have hfresh : ∀ q' c t, lo ≤ q' ∧ q' < lo + e1.size → sm.automaton.step q' c = some t → t ≠ lo :=
      fun q' c t hq ht => (h1.targets q' c.toNat t hq.1 hq.2 ht).1.ne'
    have hsame2 : ∀ q', lo + e1.size ≤ q' ∧ q' < lo + e1.size + e2.size → sm'.row q' = sm.row q' := fun q' hq =>
      hsame q' (by omega)
    have hunion := PartialDfa.lang_union (N := sm'.automaton) h1.closed h2.closed h2.mem_start hfresh h1.mem_start
      (fun q' c _ hq => Dfa.step_congr (hsame q' hq) c) (fun q' c hq => Dfa.step_congr (hsame2 q' hq) c)
      (fun q' _ hq => Dfa.final_congr (hsame q' hq)) (fun q' hq => Dfa.final_congr (hsame2 q' hq))
      (Dfa.joins_of_joined hstart) (congrArg DfaRow.endState hstart) (Dfa.disjoint_of_not_clashes hclash)
    rw [hunion, h1.lang, h2.lang, Regex.pattern, RegularExpression.matches'_add]

end Fragment

end Ctpg
end UdfRunner
