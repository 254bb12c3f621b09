import UdfRunner.Ctpg.Regex
import UdfRunner.Lib.PartialDfa

/-!
# What merging does where nothing clashes

`DfaRow` is what a state means to `dfa_match`. Two states no character leads anywhere from both of are merged
in one round: the target gets the transitions of the source, and every other row stays as it is.
-/

namespace UdfRunner
namespace Ctpg

/-- The flags that only the builder reads are left out. -/
@[ext]
structure DfaRow where
  endState : Bool
  terms : List Nat
  next : Nat → Option Nat

namespace DfaRow

def mark (r : DfaRow) (t : Nat) : DfaRow :=
  if r.endState ∧ r.terms.length < 4 then { r with terms := r.terms ++ [t] } else r

/-- The target `r` and the source `r'` in one row. -/
def joined (keepEndState : Bool) (r r' : DfaRow) : DfaRow where
  endState := if keepEndState then r.endState || r'.endState else r'.endState
  terms := r.terms
  next := fun i => if i < 256 then (r.next i).or (r'.next i) else r.next i

def Clashes (r r' : DfaRow) : Prop := ∃ i, r.next i ≠ none ∧ r'.next i ≠ none

theorem next_of_not_clashes {r r' : DfaRow} (h : ¬ Clashes r r') {i : Nat} (hi : r.next i ≠ none) :
    r'.next i = none := by
  by_contra hi'
  exact h ⟨i, hi, hi'⟩

end DfaRow

namespace CharSubset

theorem testBit_set (s : CharSubset) (i j : Nat) : (s.set i).testBit j = (s.testBit j || decide (i = j)) := by
  rw [set, Nat.one_shiftLeft, Nat.testBit_or, Nat.testBit_two_pow]

end CharSubset

namespace DfaState

def row (s : DfaState) : DfaRow := ⟨s.endState, s.conflictedRecognition, s.transition⟩

theorem row_markEndState (s : DfaState) (t : Nat) : (s.markEndState t).row = s.row.mark t := by
  rw [markEndState, DfaRow.mark]
  cases hend : s.endState with
  | false => rw [if_neg (by simp), if_neg (by simp [row, hend])]
  | true =>
    rw [if_pos rfl, addConflictedTerm]
    by_cases hlt : s.conflictedRecognition.length < 4
    · rw [if_pos hlt, if_pos ⟨hend, hlt⟩]
      rfl
    · rw [if_neg hlt, if_neg fun h => hlt h.2]

theorem row_foldl_markEndState (ts : List Nat) (s : DfaState) :
    (ts.foldl markEndState s).row = ts.foldl DfaRow.mark s.row := by
  induction ts generalizing s with
  | nil => rfl
  | cons t ts ih => rw [List.foldl_cons, List.foldl_cons, ih, row_markEndState]

theorem find_add {l : List (CharSubset × Nat)} {idx : Nat} (t : Nat)
    (h : l.find? (·.1.testBit idx) = none) (j : Nat) :
    ((setTransition.add idx t l).find? (·.1.testBit j)).map Prod.snd =
      if j = idx then some t else (l.find? (·.1.testBit j)).map Prod.snd := by
  induction l with
  | nil =>
    rw [setTransition.add, List.find?_cons, CharSubset.testBit_set]
    by_cases hj : j = idx
    · simp [hj]
    · simp [hj, Ne.symm hj]
  | cons p rest ih =>
    obtain ⟨chars, t'⟩ := p
    rw [List.find?_cons] at h
    cases hidx : chars.testBit idx with
    | true => simp [hidx] at h
    | false =>
      rw [hidx] at h
      rw [setTransition.add]
      split_ifs with ht hj hj
      · subst hj
        rw [List.find?_cons, CharSubset.testBit_set]
        simp [ht]
      · rw [List.find?_cons, List.find?_cons, CharSubset.testBit_set, decide_eq_false (Ne.symm hj), Bool.or_false]
        cases chars.testBit j <;> rfl
      · subst hj
        rw [List.find?_cons, hidx]
        exact (ih h).trans (if_pos rfl)
      · rw [List.find?_cons, List.find?_cons]
        cases chars.testBit j with
        | true => rfl
        | false => exact (ih h).trans (if_neg hj)

theorem transition_setTransition {s : DfaState} {idx : Nat} (h : s.transition idx = none) (t j : Nat) :
    (s.setTransition idx t).transition j = if j = idx then some t else s.transition j :=
  find_add t (Option.map_eq_none_iff.mp h) j

end DfaState

namespace Dfa
variable {sm : Dfa} {target source b : Nat}

def row (sm : Dfa) (q : Nat) : DfaRow := (sm.state q).row

/-- The automaton over bytes. -/
def automaton (sm : Dfa) : PartialDfa Nat UInt8 where
  step q c := (sm.row q).next c.toNat
  final q := (sm.row q).endState

theorem state_modify_self {i : Nat} (h : i < sm.length) (f : DfaState → DfaState) :
    state (sm.modify i f) i = f (sm.state i) := by
  simp [state, List.getD_eq_getElem?_getD, h]

theorem state_modify_ne {i q : Nat} (h : q ≠ i) (f : DfaState → DfaState) :
    state (sm.modify i f) q = sm.state q := by
  simp [state, List.getD_eq_getElem?_getD, Ne.symm h]

/-- Only the flags of a state are written. -/
theorem row_modify_flags (i : Nat) {f : DfaState → DfaState} (hf : ∀ s, (f s).row = s.row) (q : Nat) :
    row (sm.modify i f) q = sm.row q := by
  by_cases hq : q = i
  · subst hq
    by_cases hlt : q < sm.length
    · rw [row, state_modify_self hlt, hf]
      rfl
    · rw [List.modify_eq_self (by omega)]
  · rw [row, state_modify_ne hq]
    rfl

theorem row_modify_self {i : Nat} (h : i < sm.length) (f : DfaState → DfaState) :
    row (sm.modify i f) i = (f (sm.state i)).row := by
  rw [row, state_modify_self h]

theorem row_modify_ne {i q : Nat} (h : q ≠ i) (f : DfaState → DfaState) : row (sm.modify i f) q = sm.row q := by
  rw [row, state_modify_ne h]
  rfl

/-- What the first `n` characters make of the target, if they do not clash. -/
def taken (n : Nat) (r r' : DfaRow) : DfaRow :=
  { r with next := fun i => if i < n then (r.next i).or (r'.next i) else r.next i }

theorem foldlM_mergeChar (f : Nat → Nat → Dfa → Option Dfa) (hne : target ≠ source) (htarget : target < sm.length)
    (hclash : ¬ (sm.row target).Clashes (sm.row source)) (n : Nat) :
    ∃ sm' : Dfa, (List.range n).foldlM (mergeChar f target source) sm = some sm' ∧ sm'.length = sm.length ∧
      ∀ q, sm'.row q = if q = target then taken n (sm.row target) (sm.row source) else sm.row q := by
  induction n with
  | zero =>
    refine ⟨sm, rfl, rfl, fun q => ?_⟩
    split_ifs with hq
    · subst hq
      rfl
    · rfl
  | succ n ih =>
    obtain ⟨sm', hfold, hlength, hrow⟩ := ih
    have hsource : (sm'.state source).transition n = (sm.row source).next n := by
      have h := hrow source
      rw [if_neg hne.symm] at h
      exact congrFun (congrArg DfaRow.next h) n
    have hown : (sm'.state target).transition n = (sm.row target).next n := by
      have h := hrow target
      rw [if_pos rfl] at h
      exact (congrFun (congrArg DfaRow.next h) n).trans (if_neg (lt_irrefl n))
    rw [List.range_succ, List.foldlM_append, hfold]
    show ∃ sm'', mergeChar f target source sm' n >>= some = some sm'' ∧ _
    rw [mergeChar, hsource]
    cases hfrom : (sm.row source).next n with
    | none =>
      refine ⟨sm', rfl, hlength, fun q => ?_⟩
      rw [hrow]
      refine if_congr Iff.rfl (DfaRow.ext rfl rfl (funext fun i => ?_)) rfl
      rcases lt_trichotomy i n with hi | rfl | hi
      · exact (if_pos hi).trans (if_pos (Nat.lt_succ_of_lt hi)).symm
      · simp [taken, hfrom]
      · exact (if_neg hi.not_gt).trans (if_neg (by omega)).symm
    | some trFrom =>
      have hnone : (sm.row target).next n = none := by
        by_contra h
        exact hclash ⟨n, h, by simp [hfrom]⟩
      rw [hown, hnone]
      refine ⟨_, rfl, by simp [hlength], fun q => ?_⟩
      have hflags := @row_modify_flags (sm'.modify target (·.setTransition n trFrom)) trFrom
        (fun s => { s with unreachable := false }) (fun _ => rfl) q
      rw [hflags]
      split_ifs with hq
      · subst hq
        rw [row_modify_self (by omega)]
        have h := hrow q
        rw [if_pos rfl] at h
        refine DfaRow.ext ?_ ?_ (funext fun i => ?_)
        · exact (congrArg DfaRow.endState h :)
        · exact (congrArg DfaRow.terms h :)
        · show ((sm'.state q).setTransition n trFrom).transition i = _
          rw [DfaState.transition_setTransition (hown.trans hnone)]
          have hnext : (sm'.state q).transition i = _ := congrFun (congrArg DfaRow.next h) i
          rw [hnext]
          rcases lt_trichotomy i n with hi | rfl | hi
          · rw [if_neg hi.ne]
            exact (if_pos hi).trans (if_pos (Nat.lt_succ_of_lt hi)).symm
          · simp [taken, hfrom, hnone]
          · rw [if_neg hi.ne']
            exact (if_neg hi.not_gt).trans (if_neg (by omega)).symm
      · rw [row_modify_ne hq, hrow, if_neg hq]

/-- A merge of two states that do not clash ends, and changes the row of the target alone. -/
theorem mergeAt_joins (hne : target ≠ source) (htarget : target < sm.length)
    (hclash : ¬ (sm.row target).Clashes (sm.row source)) (keep mark : Bool) :
    ∃ sm' : Dfa, mergeAt target source keep mark sm = some sm' ∧ sm'.length = sm.length ∧
      ∀ q, sm'.row q = if q = target then
        (sm.row source).terms.foldl DfaRow.mark (DfaRow.joined keep (sm.row target) (sm.row source))
      else sm.row q := by
  rw [mergeAt, merge, if_neg hne]
  let sm₁ : Dfa := sm.modify source fun s => { s with startState := false, unreachable := mark }
  let sm₂ : Dfa := sm₁.modify target fun s =>
    { s with endState := if keep then s.endState || (sm.state source).endState else (sm.state source).endState }
  have hlength₁ : sm₁.length = sm.length := List.length_modify _ _ _
  have hrow₁ : ∀ q, sm₁.row q = sm.row q := row_modify_flags source fun _ => rfl
  have hrow₂ : ∀ q, sm₂.row q = if q = target then
      { sm.row target with endState := (DfaRow.joined keep (sm.row target) (sm.row source)).endState }
      else sm.row q := by
    intro q
    split_ifs with hq
    · subst hq
      rw [row_modify_self (by omega), ← hrow₁]
      rfl
    · rw [row_modify_ne hq, hrow₁]
  have hclash₂ : ¬ (sm₂.row target).Clashes (sm₂.row source) := by
    rw [hrow₂, hrow₂, if_pos rfl, if_neg hne.symm]
    exact hclash
  obtain ⟨sm₃, hfold, hlength₃, hrow₃⟩ :=
    foldlM_mergeChar (merge keep mark (sm.length ^ 2)) hne (by simpa [sm₂, hlength₁] using htarget) hclash₂ 256
  have hlength : sm₃.length = sm.length := by simpa [sm₂, hlength₁] using hlength₃
  refine ⟨_, by simp only [Option.bind_eq_bind]; rw [hfold]; rfl, by simp [hlength], fun q => ?_⟩
  have hsource : (sm₃.state source).conflictedRecognition = (sm.row source).terms := by
    have h := hrow₃ source
    rw [if_neg hne.symm, hrow₂, if_neg hne.symm] at h
    exact congrArg DfaRow.terms h
  split_ifs with hq
  · subst hq
    rw [row_modify_self (by omega), DfaState.row_foldl_markEndState, hsource]
    have h := hrow₃ q
    rw [if_pos rfl, hrow₂, hrow₂, if_pos rfl, if_neg hne.symm] at h
    exact congrArg (fun r => (sm.row source).terms.foldl DfaRow.mark r) h
  · rw [row_modify_ne hq, hrow₃, if_neg hq, hrow₂, if_neg hq]

theorem mergeAt_self (keep mark : Bool) : mergeAt target target keep mark sm = some sm := by
  rw [mergeAt, merge, if_pos rfl]

/-- The loops of `star`, `plus` and `cat`: every end state is joined with `b`. -/
theorem foldlM_mergeAt {l : List Nat} (hnodup : l.Nodup) (hlt : ∀ i ∈ l, i < sm.length) (hb : (sm.row b).terms = [])
    (hclash : ∀ i ∈ l, (sm.row i).endState = true → i ≠ b → ¬ (sm.row i).Clashes (sm.row b)) (keep mark : Bool) :
    ∃ sm' : Dfa, l.foldlM (fun sm i => if (sm.state i).endState then mergeAt i b keep mark sm else some sm) sm =
      some sm' ∧ sm'.length = sm.length ∧ ∀ q, sm'.row q =
        if q ∈ l ∧ (sm.row q).endState = true ∧ q ≠ b then DfaRow.joined keep (sm.row q) (sm.row b) else sm.row q := by
  induction l generalizing sm with
  | nil => exact ⟨sm, rfl, rfl, fun q => by simp⟩
  | cons i l ih =>
    obtain ⟨hi, hnodup⟩ := List.nodup_cons.mp hnodup
    -- the first state of the list
    have hfirst : ∃ sm₁ : Dfa, (if (sm.state i).endState then mergeAt i b keep mark sm else some sm) = some sm₁ ∧
        sm₁.length = sm.length ∧ ∀ q, sm₁.row q =
          if q = i ∧ (sm.row q).endState = true ∧ q ≠ b then DfaRow.joined keep (sm.row q) (sm.row b)
          else sm.row q := by
      cases hend : (sm.state i).endState with
      | false =>
        refine ⟨sm, rfl, rfl, fun q => (if_neg ?_).symm⟩
        rintro ⟨rfl, h, -⟩
        exact absurd (hend.symm.trans h) (by simp)
      | true =>
        by_cases hib : i = b
        · subst hib
          refine ⟨sm, mergeAt_self keep mark, rfl, fun q => (if_neg ?_).symm⟩
          rintro ⟨h, -, h'⟩
          exact h' h
        · obtain ⟨sm₁, hmerge, hlength, hrow⟩ :=
            mergeAt_joins hib (hlt i (by simp)) (hclash i (by simp) hend hib) keep mark
          refine ⟨sm₁, hmerge, hlength, fun q => ?_⟩
          rw [hrow, hb, List.foldl_nil]
          by_cases hq : q = i
          · subst hq
            rw [if_pos rfl, if_pos ⟨rfl, hend, hib⟩]
          · rw [if_neg hq, if_neg fun h => hq h.1]
    obtain ⟨sm₁, hround, hlength₁, hrow₁⟩ := hfirst
    have hb₁ : sm₁.row b = sm.row b := (hrow₁ b).trans (if_neg fun h => h.2.2 rfl)
    have hrest : ∀ j ∈ l, sm₁.row j = sm.row j := by
      intro j hj
      have hne : j ≠ i := fun h => hi (h ▸ hj)
      rw [hrow₁, if_neg fun h => hne h.1]
    obtain ⟨sm', hfold, hlength, hrow⟩ := @ih sm₁ hnodup
      (fun j hj => hlength₁ ▸ hlt j (List.mem_cons_of_mem i hj)) (hb₁ ▸ hb)
      (fun j hj hend hjb => by
        rw [hrest j hj, hb₁]
        exact hclash j (List.mem_cons_of_mem i hj) (hrest j hj ▸ hend) hjb)
    refine ⟨sm', by rw [List.foldlM_cons, hround]; exact hfold, hlength.trans hlength₁, fun q => ?_⟩
    rw [hrow, hb₁]
    by_cases hq : q ∈ l
    · rw [hrest q hq]
      exact if_congr (by simp [hq]) rfl rfl
    · have hnot : ¬(q ∈ l ∧ (sm₁.row q).endState = true ∧ q ≠ b) := fun h => hq h.1
      rw [if_neg hnot, hrow₁]
      exact if_congr (by simp [hq]) rfl rfl

end Dfa

end Ctpg
end UdfRunner
