import Mathlib.Data.List.GetD
import UdfRunner.Ctpg.DfaFragments

/-!
# The builder on unambiguous expressions

`Regex.build_fragment`: the building of an unambiguous expression ends, with as many states as
`dfa_size_analyzer` counts, and what they accept are the words of the expression.
-/

namespace UdfRunner
namespace Ctpg

/-- The row of a copy, `d` states further. -/
def DfaRow.pushed (r : DfaRow) (d : Nat) : DfaRow := { r with next := fun i => (r.next i).map (· + d) }

namespace Dfa
variable {sm : Dfa}

theorem row_append_left {q : Nat} (h : q < sm.length) (l : Dfa) : row (sm ++ l) q = sm.row q := by
  rw [row, state, List.getD_append _ _ _ _ h]
  rfl

theorem next_of_le {q : Nat} (h : sm.length ≤ q) (i : Nat) : (sm.row q).next i = none := by
  have hdefault : sm.row q = DfaState.row {} := by rw [row, state, List.getD_eq_default _ _ h]
  rw [hdefault]
  rfl

theorem row_append_right (j : Nat) (l : Dfa) : row (sm ++ l) (sm.length + j) = (l.getD j {}).row := by
  rw [row, state, List.getD_append_right _ _ _ _ (Nat.le_add_right _ _), Nat.add_sub_cancel_left]

end Dfa

namespace Fragment
variable {e : Regex} {lo : Nat} {sm sm' : Dfa}

theorem primary (s : CharSubset) (sm : Dfa) : Fragment (.primary s) sm.length (sm.primarySubset s).2 := by
  obtain ⟨sm', hsm'⟩ : ∃ sm', sm' = (sm.primarySubset s).2 := ⟨_, rfl⟩
  have hstart : sm'.row sm.length = ⟨false, [], fun i => if s.testBit i then some (sm.length + 1) else none⟩ := by
    rw [hsm']
    refine (Dfa.row_append_right 0 _).trans (DfaRow.ext rfl rfl (funext fun i => ?_))
    show ((List.find? _ [(s, sm.length + 1)]).map Prod.snd) = if s.testBit i then some (sm.length + 1) else none
    rw [List.find?_cons]
    cases s.testBit i <;> rfl
  have hend : sm'.row (sm.length + 1) = ⟨true, [], fun _ => none⟩ := by
    rw [hsm']
    exact Dfa.row_append_right 1 _
  have hrow : ∀ q, sm.length ≤ q → q < sm.length + 2 → q = sm.length ∨ q = sm.length + 1 := by omega
  rw [← hsm']
  refine ⟨?_, fun q i t hq hq' ht => ?_, fun i hi => ?_, fun q i hq hq' _ hi => ?_, ?_, fun q hq hq' => ?_, ?_⟩
  · rw [hsm']
    simp [Dfa.primarySubset, Regex.size]
  · rcases hrow q hq hq' with rfl | rfl
    · rw [hstart] at ht
      simp only [Option.ite_none_right_eq_some, Option.some.injEq] at ht
      rw [Regex.size]
      omega
    · rw [hend] at ht
      exact absurd ht (by simp)
  · rw [hstart] at hi
    rw [Regex.first]
    simpa using hi
  · rcases hrow q hq.le hq' with rfl | rfl
    · exact absurd rfl hq.ne
    · rw [hend] at hi
      exact absurd rfl hi
  · rw [hstart]
    rfl
  · rcases hrow q hq hq' with rfl | rfl
    · rw [hstart]
    · rw [hend]
  · have hafter : ∀ w, sm'.automaton.accepts (sm.length + 1) w ↔ w = [] := by
      intro w
      cases w with
      | nil => exact iff_of_true (congrArg DfaRow.endState hend) rfl
      | cons c w =>
        have hnone : sm'.automaton.step (sm.length + 1) c = none := congrFun (congrArg DfaRow.next hend) c.toNat
        exact iff_of_false (PartialDfa.not_accepts_none hnone) (List.cons_ne_nil c w)
    have hstep : ∀ c : UInt8, sm'.automaton.step sm.length c =
        if s.testBit c.toNat then some (sm.length + 1) else none := fun c =>
      congrFun (congrArg DfaRow.next hstart) c.toNat
    have hchars : ∀ c : UInt8, c ∈ ((List.range 256).map UInt8.ofNat).filter (s.testBit ·.toNat) ↔
        s.testBit c.toNat = true := by
      intro c
      rw [List.mem_filter, and_iff_right_iff_imp]
      exact fun _ => List.mem_map.mpr ⟨c.toNat, List.mem_range.mpr c.toNat_lt, UInt8.ofNat_toNat⟩
    ext w
    rw [Regex.pattern, ← RegularExpression.rmatch_iff_matches', Pattern.charSubset_rmatch, PartialDfa.mem_lang]
    cases w with
    | nil =>
      have hnot : ¬ sm'.automaton.accepts sm.length [] := by
        show ¬((sm'.row sm.length).endState = true)
        rw [hstart]
        simp
      exact iff_of_false hnot (by simp)
    | cons c w =>
      rw [PartialDfa.accepts, hstep]
      constructor
      · rintro ⟨t, ht, haccepts⟩
        simp only [Option.ite_none_right_eq_some, Option.some.injEq] at ht
        obtain ⟨hc, rfl⟩ := ht
        exact ⟨c, (hchars c).mpr hc, by rw [(hafter w).mp haccepts]⟩
      · rintro ⟨d, hd, hcd⟩
        obtain ⟨rfl, rfl⟩ := List.cons.inj hcd
        exact ⟨sm.length + 1, if_pos ((hchars c).mp hd), (hafter []).mpr rfl⟩

/-! ### Copies -/

theorem shift (h : Fragment e lo sm) (d : Nat) (hle : lo + d + e.size ≤ sm'.length)
    (hrow : ∀ q, lo ≤ q → q < lo + e.size →
      sm'.row (q + d) = (sm.row q).pushed d) :
    Fragment e (lo + d) sm' := by
  have hback : ∀ q, lo + d ≤ q → q < lo + d + e.size → ∃ q', q = q' + d ∧ lo ≤ q' ∧ q' < lo + e.size := fun q hq hq' =>
    ⟨q - d, by omega, by omega, by omega⟩
  have hlo := hrow lo le_rfl h.mem_start.2
  refine ⟨hle, fun q i t hq hq' ht => ?_, fun i hi => ?_, fun q i hq hq' hend hi => ?_, ?_, fun q hq hq' => ?_, ?_⟩
  · obtain ⟨q, rfl, hq, hq'⟩ := hback q hq hq'
    rw [hrow q hq hq'] at ht
    obtain ⟨t', ht', rfl⟩ := Option.map_eq_some_iff.mp ht
    have hlt := h.targets q i t' hq hq' ht'
    omega
  · rw [hlo] at hi
    exact h.first i fun hnone => hi (by simp [DfaRow.pushed, hnone])
  · obtain ⟨q, rfl, hle', hq'⟩ := hback q hq.le hq'
    rw [hrow q hle' hq'] at hend hi
    exact h.last q i (by omega) hq' hend fun hnone => hi (by simp [DfaRow.pushed, hnone])
  · rw [hlo]
    exact h.start
  · obtain ⟨q, rfl, hq, hq'⟩ := hback q hq hq'
    rw [hrow q hq hq']
    exact h.terms q hq hq'
  · rw [← h.lang]
    refine Set.ext fun w => PartialDfa.accepts_map (M := sm.automaton) (· + d) h.closed (fun q c hq => ?_)
      (fun q hq => ?_) h.mem_start w
    · exact congrFun (congrArg DfaRow.next (hrow q hq.1 hq.2)) c.toNat
    · exact (congrArg DfaRow.endState (hrow q hq.1 hq.2) :)

end Fragment

namespace Dfa
variable {sm : Dfa}

/-- A state that is pushed back once more. -/
def pushed (d : Nat) (st : DfaState) : DfaState := { st with transitions := st.transitions.map fun t => (t.1, t.2 + d) }

theorem row_pushed (d : Nat) (st : DfaState) :
    (pushed d st).row = st.row.pushed d := by
  refine DfaRow.ext rfl rfl (funext fun i => ?_)
  show ((st.transitions.map fun t => (t.1, t.2 + d)).find? (·.1.testBit i)).map Prod.snd = (st.transition i).map (· + d)
  rw [List.find?_map, Option.map_map, DfaState.transition, Option.map_map]
  rfl

/-- The copies that `rep` makes first. -/
def copies (s : Slice) (sm : Dfa) (m : Nat) : Dfa :=
  (List.range m).flatMap fun i => s.range.map fun j => pushed (s.n * (i + 1)) (sm.state j)

theorem copies_succ (s : Slice) (sm : Dfa) (m : Nat) :
    copies s sm (m + 1) = copies s sm m ++ s.range.map fun j => pushed (s.n * (m + 1)) (sm.state j) := by
  rw [copies, List.range_succ, List.flatMap_append, List.flatMap_singleton]
  rfl

theorem length_copies (s : Slice) (sm : Dfa) (m : Nat) : (copies s sm m).length = s.n * m := by
  induction m with
  | zero => rfl
  | succ m ih =>
    rw [copies_succ, List.length_append, ih, List.length_map, Slice.range, List.length_map, List.length_range]
    exact (Nat.mul_succ _ _).symm

end Dfa

namespace Fragment
variable {e : Regex} {lo : Nat} {sm sm' : Dfa}

theorem copies (h : Fragment e lo sm) (hlength : sm.length = lo + e.size) (m : Nat) :
    ∀ k ≤ m, Fragment e (lo + e.size * k) (sm ++ Dfa.copies ⟨lo, e.size⟩ sm m) := by
  induction m with
  | zero =>
    intro k hk
    obtain rfl : k = 0 := by omega
    simpa [Dfa.copies] using h
  | succ m ih =>
    have hm : (sm ++ Dfa.copies ⟨lo, e.size⟩ sm m).length = lo + e.size * (m + 1) := by
      rw [List.length_append, Dfa.length_copies, hlength, Nat.add_assoc, Nat.add_comm e.size]
      rfl
    rw [Dfa.copies_succ, ← List.append_assoc]
    obtain ⟨sm₁, hsm₁⟩ : ∃ sm₁, sm₁ = sm ++ Dfa.copies ⟨lo, e.size⟩ sm m := ⟨_, rfl⟩
    rw [← hsm₁] at hm ih ⊢
    intro k hk
    have hblock : ((Slice.range ⟨lo, e.size⟩).map fun j => Dfa.pushed (e.size * (m + 1)) (sm.state j)).length =
        e.size := by simp [Slice.range]
    rcases Nat.lt_or_eq_of_le hk with hk | rfl
    · -- a copy made before
      have hold := ih k (by omega)
      refine hold.congr ?_ fun q _ hq => Dfa.row_append_left (lt_of_lt_of_le hq hold.le) _
      rw [List.length_append]
      exact hold.le.trans (Nat.le_add_right _ _)
    · refine h.shift (e.size * (m + 1)) (by rw [List.length_append, hm, hblock]) fun q hq hq' => ?_
      obtain ⟨j, rfl⟩ := Nat.exists_eq_add_of_le hq
      have hplace : lo + j + e.size * (m + 1) = sm₁.length + j := by omega
      have hj : j < e.size := by omega
      rw [hplace, Dfa.row_append_right, Dfa.row, ← Dfa.row_pushed]
      simp [Slice.range, List.getD_eq_getElem?_getD, hj]

end Fragment

/-! ### Repetition -/

namespace Regex

/-- The expression `m` more times after itself. -/
def power (e : Regex) : Nat → Regex
  | 0 => e
  | m + 1 => cat (power e m) e

variable {e : Regex} (hnull : e.nullable = false) (m : Nat)

theorem size_power : (e.power m).size = e.size * (m + 1) := by
  induction m with
  | zero => simp [power]
  | succ m ih =>
    rw [power, size, ih]
    exact (Nat.mul_succ _ _).symm

include hnull

theorem nullable_power : (e.power m).nullable = false := by
  cases m with
  | zero => exact hnull
  | succ m => rw [power, nullable, hnull, Bool.and_false]

theorem first_power : (e.power m).first = e.first := by
  induction m with
  | zero => rfl
  | succ m ih => rw [power, first, nullable_power hnull, if_neg (by simp), ih]

theorem followLast_power : (e.power m).followLast = e.followLast := by
  cases m with
  | zero => rfl
  | succ m => rw [power, followLast, hnull, if_neg (by simp)]

theorem ends_power : (e.power m).ends = e.followLast := by
  rw [ends, nullable_power hnull, if_neg (by simp), followLast_power hnull]

omit hnull

theorem matches_power : (e.power m).pattern.matches' = (e.pattern ^ (m + 1)).matches' := by
  induction m with
  | zero => rw [power, zero_add, RegularExpression.matches'_pow, pow_one]
  | succ m ih =>
    rw [power, pattern, RegularExpression.matches'_mul, ih, RegularExpression.matches'_pow,
      RegularExpression.matches'_pow, pow_succ _ (m + 1)]

end Regex

namespace Fragment
variable {e : Regex} {lo : Nat} {sm : Dfa}

/-- The first `j` of the concatenations of `rep`. -/
theorem powers (hnull : e.nullable = false) (hdisjoint : e.followLast &&& e.first = 0) {m : Nat}
    (h : ∀ k ≤ m, Fragment e (lo + e.size * k) sm) (j : Nat) (hj : j ≤ m) :
    ∃ sm' : Dfa, (List.range j).foldlM
        (fun (w : Slice × Dfa) _ => Dfa.cat w.1 ⟨w.1.start + w.1.n, e.size⟩ w.2) (⟨lo, e.size⟩, sm) =
        some (⟨lo, (e.power j).size⟩, sm') ∧
      Fragment (e.power j) lo sm' ∧ (∀ k, j < k → k ≤ m → Fragment e (lo + e.size * k) sm') ∧
      sm'.length = sm.length ∧ ∀ q < lo, sm'.row q = sm.row q := by
  induction j with
  | zero =>
    have h0 := h 0 (Nat.zero_le m)
    rw [Nat.mul_zero, Nat.add_zero] at h0
    exact ⟨sm, rfl, h0, fun k _ hk => h k hk, rfl, fun q _ => rfl⟩
  | succ j ih =>
    obtain ⟨sm₁, hfold, hpower, hrest, hlength, hrow⟩ := ih (by omega)
    have hsize := e.size_power j
    have hnext : Fragment e (lo + (e.power j).size) sm₁ := by
      rw [hsize]
      exact hrest (j + 1) (by omega) hj
    obtain ⟨sm', hcat, hfragment, hframes⟩ := hpower.cat hnext (by rw [Regex.ends_power hnull, hdisjoint])
    refine ⟨sm', ?_, hfragment, fun k hk hkm => ?_, hframes.length.trans hlength, fun q hq => ?_⟩
    · rw [List.range_succ, List.foldlM_append, hfold]
      show Dfa.cat ⟨lo, (e.power j).size⟩ ⟨lo + (e.power j).size, e.size⟩ sm₁ >>= some = _
      rw [hcat]
      rfl
    · have hold := hrest k (by omega) hkm
      have hfar : e.size * (j + 1) ≤ e.size * k := Nat.mul_le_mul_left _ (by omega)
      exact hold.congr (hframes.length ▸ hold.le) fun q hq _ => hframes.row q (by omega)
    · rw [hframes.row q (by omega), hrow q hq]

theorem rep (h : Fragment e lo sm) (hlength : sm.length = lo + e.size) {n : Nat} (hn : 0 < n)
    (hnull : 1 < n → e.nullable = false) (hdisjoint : 1 < n → e.followLast &&& e.first = 0) :
    ∃ sm', sm.rep ⟨lo, e.size⟩ n = some (⟨lo, (Regex.rep e n).size⟩, sm') ∧ Fragment (.rep e n) lo sm' ∧
      sm'.length = lo + (Regex.rep e n).size ∧ ∀ q < lo, sm'.row q = sm.row q := by
  obtain ⟨m, rfl⟩ : ∃ m, n = m + 1 := ⟨n - 1, by omega⟩
  have hsize : (Regex.rep e (m + 1)).size = (e.power m).size := by
    rw [Regex.size, if_neg (by omega), Regex.size_power]
  have hcopies := h.copies hlength m
  have hpowers : ∃ sm' : Dfa, (List.range m).foldlM
        (fun (w : Slice × Dfa) _ => Dfa.cat w.1 ⟨w.1.start + w.1.n, e.size⟩ w.2)
        (⟨lo, e.size⟩, sm ++ Dfa.copies ⟨lo, e.size⟩ sm m) = some (⟨lo, (e.power m).size⟩, sm') ∧
      Fragment (.rep e (m + 1)) lo sm' ∧ sm'.length = (sm ++ Dfa.copies ⟨lo, e.size⟩ sm m).length ∧
      ∀ q < lo, sm'.row q = (sm ++ Dfa.copies ⟨lo, e.size⟩ sm m).row q := by
    cases m with
    | zero =>
      have h0 := hcopies 0 le_rfl
      rw [Nat.mul_zero, Nat.add_zero] at h0
      exact ⟨_, rfl, h0.of_eq hsize rfl rfl (by simp [Regex.nullable]) (Regex.matches_power 0).symm, rfl,
        fun q _ => rfl⟩
    | succ m =>
      have hnull := hnull (by omega)
      obtain ⟨sm', hfold, hpower, -, hlength', hrow⟩ :=
        powers hnull (hdisjoint (by omega)) hcopies (m + 1) le_rfl
      refine ⟨sm', hfold, hpower.of_eq hsize ?_ ?_ ?_ (Regex.matches_power (m + 1)).symm, hlength', hrow⟩
      · rw [Regex.first_power hnull, Regex.first]
      · rw [Regex.followLast_power hnull, Regex.followLast]
      · rw [Regex.nullable_power hnull, Regex.nullable, hnull]
        simp
  obtain ⟨sm', hfold, hfragment, hlength', hrow⟩ := hpowers
  refine ⟨sm', ?_, hfragment, ?_, fun q hq => ?_⟩
  · rw [hsize]
    exact hfold
  · rw [hlength', List.length_append, Dfa.length_copies, hlength, hsize, Regex.size_power, Nat.add_assoc,
      Nat.add_comm e.size]
    rfl
  · rw [hrow q hq, Dfa.row_append_left (by omega)]

end Fragment

/-- The building ends, and the states that were there stay as they are. -/
theorem Regex.build_fragment {e : Regex} (he : e.unambiguous = true) (sm : Dfa) :
    ∃ sm' : Dfa, e.build sm = some (⟨sm.length, e.size⟩, sm') ∧ sm'.length = sm.length + e.size ∧
      Fragment e sm.length sm' ∧ ∀ q < sm.length, sm'.row q = sm.row q := by
  induction e generalizing sm with
  | primary s =>
    exact ⟨_, rfl, by simp [Regex.size], .primary s sm, fun q hq => Dfa.row_append_left hq _⟩
  | star e ih =>
    rw [Regex.unambiguous, Bool.and_eq_true, beq_iff_eq] at he
    obtain ⟨sm₁, hbuild, hlength, hfragment, hrow⟩ := ih he.1 sm
    obtain ⟨sm', hstar, hfragment', hframes⟩ := hfragment.star he.2
    refine ⟨sm', ?_, hframes.length.trans hlength, hfragment', fun q hq => ?_⟩
    · simp only [Regex.build, Option.bind_eq_bind, hbuild, Option.bind_some]
      exact hstar
    · rw [hframes.row q (by omega), hrow q hq]
  | plus e ih =>
    rw [Regex.unambiguous, Bool.and_eq_true, beq_iff_eq] at he
    obtain ⟨sm₁, hbuild, hlength, hfragment, hrow⟩ := ih he.1 sm
    obtain ⟨sm', hplus, hfragment', hframes⟩ := hfragment.plus he.2
    refine ⟨sm', ?_, hframes.length.trans hlength, hfragment', fun q hq => ?_⟩
    · simp only [Regex.build, Option.bind_eq_bind, hbuild, Option.bind_some]
      exact hplus
    · rw [hframes.row q (by omega), hrow q hq]
  | opt e ih =>
    obtain ⟨sm₁, hbuild, hlength, hfragment, hrow⟩ := ih he sm
    obtain ⟨sm', hopt, hfragment', hframes⟩ := hfragment.opt
    refine ⟨sm', ?_, hframes.length.trans hlength, hfragment', fun q hq => ?_⟩
    · simp only [Regex.build, Option.bind_eq_bind, hbuild, Option.bind_some]
      exact hopt
    · rw [hframes.row q (by omega), hrow q hq]
  | rep e n ih =>
    simp only [Regex.unambiguous, Bool.and_eq_true, Bool.or_eq_true, beq_iff_eq, decide_eq_true_eq,
      Bool.not_eq_true'] at he
    obtain ⟨he, hn⟩ := he
    obtain ⟨sm₁, hbuild, hlength, hfragment, hrow⟩ := ih he sm
    obtain ⟨sm', hrep, hfragment', hlength', hrow'⟩ := hfragment.rep hlength (n := n) (by omega)
      (fun h1 => (hn.resolve_left h1.ne').1.2) (fun h1 => (hn.resolve_left h1.ne').2)
    refine ⟨sm', ?_, hlength', hfragment', fun q hq => ?_⟩
    · simp only [Regex.build, Option.bind_eq_bind, hbuild, Option.bind_some]
      exact hrep
    · rw [hrow' q hq, hrow q hq]
  | cat e1 e2 ih1 ih2 =>
    simp only [Regex.unambiguous, Bool.and_eq_true, beq_iff_eq] at he
    obtain ⟨⟨he1, he2⟩, hdisjoint⟩ := he
    obtain ⟨sm₁, hbuild1, hlength1, hfragment1, hrow1⟩ := ih1 he1 sm
    obtain ⟨sm₂, hbuild2, hlength2, hfragment2, hrow2⟩ := ih2 he2 sm₁
    have hpart1 : Fragment e1 sm.length sm₂ := hfragment1.congr (by omega) fun q _ hq => hrow2 q (by omega)
    rw [hlength1] at hfragment2
    obtain ⟨sm', hcat, hfragment, hframes⟩ := hpart1.cat hfragment2 hdisjoint
    refine ⟨sm', ?_, ?_, hfragment, fun q hq => ?_⟩
    · simp only [Regex.build, Option.bind_eq_bind, hbuild1, hbuild2, Option.bind_some, hlength1]
      exact hcat
    · rw [hframes.length, hlength2, hlength1, Regex.size, Nat.add_assoc]
    · rw [hframes.row q (by omega), hrow2 q (by omega), hrow1 q hq]
  | alt e1 e2 ih1 ih2 =>
    simp only [Regex.unambiguous, Bool.and_eq_true, beq_iff_eq] at he
    obtain ⟨⟨he1, he2⟩, hdisjoint⟩ := he
    obtain ⟨sm₁, hbuild1, hlength1, hfragment1, hrow1⟩ := ih1 he1 sm
    obtain ⟨sm₂, hbuild2, hlength2, hfragment2, hrow2⟩ := ih2 he2 sm₁
    have hpart1 : Fragment e1 sm.length sm₂ := hfragment1.congr (by omega) fun q _ hq => hrow2 q (by omega)
    rw [hlength1] at hfragment2
    obtain ⟨sm', halt, hfragment, hframes⟩ := hpart1.alt hfragment2 hdisjoint
    refine ⟨sm', ?_, ?_, hfragment, fun q hq => ?_⟩
    · simp only [Regex.build, Option.bind_eq_bind, hbuild1, hbuild2, Option.bind_some, hlength1]
      exact halt
    · rw [hframes.length, hlength2, hlength1, Regex.size, Nat.add_assoc]
    · rw [hframes.row q (by omega), hrow2 q (by omega), hrow1 q hq]

end Ctpg
end UdfRunner
