import UdfRunner.Ctpg.LexerBuilding

/-!
# What the builder needs room for

`createLexer_fits`: whatever the terms are, ambiguous or not, if the building ends it has made the states that
`dfa_size` counts, and no transition leads past them. The one term counted wrong is the empty string.
-/

namespace UdfRunner
namespace Ctpg

namespace Dfa
variable {α : Type} {sm sm' sm'' : Dfa}

def InRange (sm : Dfa) : Prop := ∀ q i t, (sm.row q).next i = some t → t < sm.length

/-- No state is added, and none leads further than before. -/
structure Keeps (sm sm' : Dfa) : Prop where
  length : sm'.length = sm.length
  inRange : sm.InRange → sm'.InRange

theorem Keeps.refl (sm : Dfa) : Keeps sm sm := ⟨rfl, id⟩

theorem Keeps.trans (h : Keeps sm sm') (h' : Keeps sm' sm'') : Keeps sm sm'' :=
  ⟨h'.length.trans h.length, fun hr => h'.inRange (h.inRange hr)⟩

theorem keeps_modify (i : Nat) {f : DfaState → DfaState}
    (hf : ∀ s j t, (f s).row.next j = some t → s.row.next j = some t) : Keeps sm (sm.modify i f) := by
  refine ⟨List.length_modify _ _ _, fun hr q j t ht => ?_⟩
  rw [List.length_modify]
  refine hr q j t ?_
  by_cases hq : q = i
  · subst hq
    by_cases hlt : q < sm.length
    · rw [row_modify_self hlt] at ht
      exact hf _ j t ht
    · rwa [List.modify_eq_self (by omega)] at ht
  · rwa [row_modify_ne hq] at ht

theorem keeps_foldlM {f : Dfa → α → Option Dfa} (hf : ∀ a sm sm', f sm a = some sm' → Keeps sm sm') (l : List α)
    (h : l.foldlM f sm = some sm') : Keeps sm sm' := by
  induction l generalizing sm with
  | nil =>
    obtain rfl := Option.some.inj h
    exact .refl sm
  | cons a l ih =>
    rw [List.foldlM_cons] at h
    obtain ⟨sm₁, hfirst, hrest⟩ := Option.bind_eq_some_iff.mp h
    exact (hf a sm sm₁ hfirst).trans (ih hrest)

theorem keeps_mergeChar {merge : Nat → Nat → Dfa → Option Dfa}
    (hmerge : ∀ target source sm sm', merge target source sm = some sm' → Keeps sm sm') {target source i : Nat}
    (h : mergeChar merge target source sm i = some sm') : Keeps sm sm' := by
  rw [mergeChar] at h
  split at h
  · obtain rfl := Option.some.inj h
    exact .refl sm
  · rename_i trFrom hfrom
    split at h
    · rename_i hto
      obtain rfl := Option.some.inj h
      refine .trans ⟨List.length_modify _ _ _, fun hr q j t ht => ?_⟩ (keeps_modify trFrom fun _ _ _ ht => ht)
      rw [List.length_modify]
      by_cases hq : q = target
      · subst hq
        by_cases hlt : q < sm.length
        · rw [row_modify_self hlt] at ht
          have hnext : ((sm.state q).setTransition i trFrom).transition j = some t := ht
          rw [DfaState.transition_setTransition hto] at hnext
          split_ifs at hnext
          · exact Option.some.inj hnext ▸ hr source i trFrom hfrom
          · exact hr q j t hnext
        · rw [List.modify_eq_self (by omega)] at ht
          exact hr q j t ht
      · rw [row_modify_ne hq] at ht
        exact hr q j t ht
    · exact hmerge _ _ _ _ h

theorem keeps_merge (keep mark : Bool) {fuel target source : Nat}
    (h : merge keep mark fuel target source sm = some sm') : Keeps sm sm' := by
  induction fuel generalizing target source sm sm' with
  | zero => exact absurd h (by simp [merge])
  | succ fuel ih =>
    rw [merge] at h
    by_cases hself : target = source
    · rw [if_pos hself] at h
      obtain rfl := Option.some.inj h
      exact .refl sm
    · rw [if_neg hself] at h
      obtain ⟨sm₁, hfold, hmark⟩ := Option.bind_eq_some_iff.mp h
      obtain rfl := Option.some.inj hmark
      have hflags := (@keeps_modify sm source
          (fun s => { s with startState := false, unreachable := mark }) fun _ _ _ ht => ht).trans
        (keeps_modify target (f := fun s => { s with
          endState := if keep then s.endState || (sm.state source).endState else (sm.state source).endState })
          fun _ _ _ ht => ht)
      refine hflags.trans ((keeps_foldlM (fun _ _ _ => keeps_mergeChar fun _ _ _ _ => ih) _ hfold).trans
        (keeps_modify target fun s j t ht => ?_))
      rw [DfaState.row_foldl_markEndState] at ht
      have hnext : ∀ (ts : List Nat) (r : DfaRow), (ts.foldl DfaRow.mark r).next = r.next := by
        intro ts
        induction ts with
        | nil => exact fun _ => rfl
        | cons t ts ih =>
          intro r
          rw [List.foldl_cons, ih, DfaRow.mark]
          split_ifs <;> rfl
      rwa [hnext] at ht

theorem keeps_onEndStates {b : Nat} {keep mark : Bool} {s : Slice}
    (h : onEndStates (fun i => mergeAt i b keep mark) s sm = some sm') : Keeps sm sm' := by
  refine keeps_foldlM (fun i sm sm' hround => ?_) _ h
  split_ifs at hround
  · exact keeps_merge keep mark hround
  · obtain rfl := Option.some.inj hround
    exact .refl sm

theorem keeps_cat {s1 s2 s : Slice} (h : sm.cat s1 s2 = some (s, sm')) :
    s = ⟨s1.start, s1.n + s2.n⟩ ∧ Keeps sm sm' := by
  obtain ⟨sm₁, hloop, hslice⟩ := Option.bind_eq_some_iff.mp h
  obtain ⟨rfl, rfl⟩ := Prod.mk.inj (Option.some.inj hslice)
  exact ⟨rfl, keeps_onEndStates hloop⟩

theorem keeps_drop (l : List Nat) : Keeps sm (l.foldl drop sm) := by
  induction l generalizing sm with
  | nil => exact .refl sm
  | cons i l ih =>
    refine .trans (keeps_modify i fun s j t ht => ?_) ih
    split_ifs at ht
    · exact absurd ht (by simp [DfaState.row, DfaState.transition])
    · exact ht

end Dfa

namespace Dfa
variable {sm sm' : Dfa}

theorem keeps_markEndStates (s : Slice) (idx : Nat) (sm : Dfa) : Keeps sm (markEndStates s idx sm) := by
  rw [markEndStates]
  induction s.range generalizing sm with
  | nil => exact .refl sm
  | cons i l ih =>
    refine .trans (keeps_modify i fun s j t ht => ?_) (ih _)
    rw [DfaState.row_markEndState, DfaRow.mark] at ht
    split_ifs at ht
    · exact ht
    · exact ht

theorem inRange_copies {s : Slice} (hr : sm.InRange) (m : Nat) :
    (sm ++ copies s sm m).InRange := by
  have htotal : (sm ++ copies s sm m).length = sm.length + s.n * m := by rw [List.length_append, length_copies]
  intro q i t ht
  by_cases hold : q < sm.length
  · rw [row_append_left hold] at ht
    have hlt := hr q i t ht
    omega
  · by_cases hnew : q < (sm ++ copies s sm m).length
    · obtain ⟨j, rfl⟩ := Nat.exists_eq_add_of_le (not_lt.mp hold)
      have hj : j < (copies s sm m).length := by
        rw [length_copies]
        omega
      rw [row_append_right, List.getD_eq_getElem _ _ hj] at ht
      obtain ⟨k, hk, hmem⟩ := List.mem_flatMap.mp (List.getElem_mem hj)
      obtain ⟨q', -, hq'⟩ := List.mem_map.mp hmem
      rw [← hq', row_pushed] at ht
      obtain ⟨t', ht', rfl⟩ := Option.map_eq_some_iff.mp ht
      have hlt := hr q' i t' ht'
      have hfar : s.n * (k + 1) ≤ s.n * m := Nat.mul_le_mul_left _ (List.mem_range.mp hk)
      omega
    · rw [next_of_le (not_lt.mp hnew)] at ht
      exact absurd ht (by simp)

theorem keeps_cats {n lo : Nat} (j : Nat) {s : Slice}
    (h : (List.range j).foldlM (fun (w : Slice × Dfa) _ => Dfa.cat w.1 ⟨w.1.start + w.1.n, n⟩ w.2) (⟨lo, n⟩, sm) =
      some (s, sm')) : s = ⟨lo, n * (j + 1)⟩ ∧ Keeps sm sm' := by
  induction j generalizing s sm' with
  | zero =>
    obtain ⟨rfl, rfl⟩ := Prod.mk.inj (Option.some.inj h)
    exact ⟨by rw [Nat.zero_add, Nat.mul_one], .refl sm⟩
  | succ j ih =>
    rw [List.range_succ, List.foldlM_append] at h
    obtain ⟨⟨s₁, sm₁⟩, hfold, hround⟩ := Option.bind_eq_some_iff.mp h
    obtain ⟨rfl, hkeeps⟩ := ih hfold
    rw [List.foldlM_cons] at hround
    obtain ⟨⟨s₂, sm₂⟩, hcat, hlast⟩ := Option.bind_eq_some_iff.mp hround
    obtain ⟨rfl, rfl⟩ := Prod.mk.inj (Option.some.inj hlast)
    obtain ⟨rfl, hjoined⟩ := keeps_cat hcat
    refine ⟨?_, hkeeps.trans hjoined⟩
    rw [Slice.mk.injEq]
    exact ⟨rfl, (Nat.mul_succ _ _).symm⟩

end Dfa

theorem Regex.build_fits {e : Regex} {sm sm' : Dfa} {s : Slice} (h : e.build sm = some (s, sm')) :
    s = ⟨sm.length, e.size⟩ ∧ sm'.length = sm.length + e.size ∧ (sm.InRange → sm'.InRange) := by
  induction e generalizing sm sm' s with
  | primary chars =>
    obtain ⟨rfl, rfl⟩ := Prod.mk.inj (Option.some.inj h)
    have hlength : (sm.primarySubset chars).2.length = sm.length + 2 := by simp [Dfa.primarySubset]
    refine ⟨rfl, hlength, fun hr q i t ht => ?_⟩
    show t < (sm.primarySubset chars).2.length
    rw [hlength]
    by_cases hold : q < sm.length
    · rw [Dfa.row_append_left hold] at ht
      have hlt := hr q i t ht
      omega
    · by_cases hnew : q < sm.length + 2
      · exact ((Fragment.primary chars sm).targets q i t (not_lt.mp hold) hnew ht).2
      · have hnone : ((sm.primarySubset chars).2.row q).next i = none :=
          Dfa.next_of_le (hlength.trans_le (not_lt.mp hnew)) i
        exact absurd (hnone.symm.trans ht) (by simp)
  | star e ih =>
    obtain ⟨⟨s₁, sm₁⟩, hbuild, hstar⟩ := Option.bind_eq_some_iff.mp h
    obtain ⟨rfl, hlength, hr⟩ := ih hbuild
    obtain ⟨sm₂, hloop, hslice⟩ := Option.bind_eq_some_iff.mp hstar
    obtain ⟨rfl, rfl⟩ := Prod.mk.inj (Option.some.inj hslice)
    have hkeeps := (@Dfa.keeps_modify sm₁ sm.length (fun st => { st with endState := true })
      fun _ _ _ ht => ht).trans (Dfa.keeps_onEndStates hloop)
    exact ⟨rfl, hkeeps.length.trans hlength, fun h => hkeeps.inRange (hr h)⟩
  | plus e ih =>
    obtain ⟨⟨s₁, sm₁⟩, hbuild, hplus⟩ := Option.bind_eq_some_iff.mp h
    obtain ⟨rfl, hlength, hr⟩ := ih hbuild
    obtain ⟨sm₂, hloop, hslice⟩ := Option.bind_eq_some_iff.mp hplus
    obtain ⟨rfl, rfl⟩ := Prod.mk.inj (Option.some.inj hslice)
    have hkeeps := Dfa.keeps_onEndStates hloop
    exact ⟨rfl, hkeeps.length.trans hlength, fun h => hkeeps.inRange (hr h)⟩
  | opt e ih =>
    obtain ⟨⟨s₁, sm₁⟩, hbuild, hopt⟩ := Option.bind_eq_some_iff.mp h
    obtain ⟨rfl, hlength, hr⟩ := ih hbuild
    obtain ⟨rfl, rfl⟩ := Prod.mk.inj (Option.some.inj hopt)
    have hkeeps := @Dfa.keeps_modify sm₁ sm.length (fun st => { st with endState := true })
      fun _ _ _ ht => ht
    exact ⟨rfl, hkeeps.length.trans hlength, fun h => hkeeps.inRange (hr h)⟩
  | rep e n ih =>
    obtain ⟨⟨s₁, sm₁⟩, hbuild, hrep⟩ := Option.bind_eq_some_iff.mp h
    obtain ⟨rfl, hlength, hr⟩ := ih hbuild
    cases n with
    | zero =>
      obtain ⟨rfl, rfl⟩ := Prod.mk.inj (Option.some.inj hrep)
      have hkeeps := @Dfa.keeps_drop sm₁ (Slice.range ⟨sm.length, e.size⟩)
      exact ⟨rfl, hkeeps.length.trans hlength, fun h => hkeeps.inRange (hr h)⟩
    | succ m =>
      have hfold : (List.range m).foldlM (fun (w : Slice × Dfa) _ => Dfa.cat w.1 ⟨w.1.start + w.1.n, e.size⟩ w.2)
          (⟨sm.length, e.size⟩, sm₁ ++ Dfa.copies ⟨sm.length, e.size⟩ sm₁ m) = some (s, sm') := hrep
      obtain ⟨rfl, hkeeps⟩ := Dfa.keeps_cats m hfold
      refine ⟨rfl, ?_, fun h => hkeeps.inRange (Dfa.inRange_copies (hr h) m)⟩
      rw [hkeeps.length, List.length_append, Dfa.length_copies, hlength, Regex.size, if_neg (by omega),
        Nat.add_assoc, Nat.mul_succ, Nat.add_comm (e.size * m)]
  | cat e1 e2 ih1 ih2 =>
    obtain ⟨⟨s₁, sm₁⟩, hbuild1, hrest⟩ := Option.bind_eq_some_iff.mp h
    obtain ⟨⟨s₂, sm₂⟩, hbuild2, hcat⟩ := Option.bind_eq_some_iff.mp hrest
    obtain ⟨rfl, hlength1, hr1⟩ := ih1 hbuild1
    obtain ⟨rfl, hlength2, hr2⟩ := ih2 hbuild2
    obtain ⟨rfl, hkeeps⟩ := Dfa.keeps_cat hcat
    refine ⟨rfl, ?_, fun h => hkeeps.inRange (hr2 (hr1 h))⟩
    rw [hkeeps.length, hlength2, hlength1, Regex.size, Nat.add_assoc]
  | alt e1 e2 ih1 ih2 =>
    obtain ⟨⟨s₁, sm₁⟩, hbuild1, hrest⟩ := Option.bind_eq_some_iff.mp h
    obtain ⟨⟨s₂, sm₂⟩, hbuild2, halt⟩ := Option.bind_eq_some_iff.mp hrest
    obtain ⟨rfl, hlength1, hr1⟩ := ih1 hbuild1
    obtain ⟨rfl, hlength2, hr2⟩ := ih2 hbuild2
    obtain ⟨sm₃, hmerge, hslice⟩ := Option.bind_eq_some_iff.mp halt
    obtain ⟨rfl, rfl⟩ := Prod.mk.inj (Option.some.inj hslice)
    have hkeeps := Dfa.keeps_merge true true hmerge
    refine ⟨rfl, ?_, fun h => hkeeps.inRange (hr2 (hr1 h))⟩
    rw [hkeeps.length, hlength2, hlength1, Regex.size, Nat.add_assoc]

theorem TermData.addToDfa_fits {t : TermData} {idx : Nat} {sm sm' : Dfa} (h : t.addToDfa idx sm = some sm') :
    sm'.length = sm.length + (t.dfaSize + if t.isEmptyString then 2 else 0) ∧ (sm.InRange → sm'.InRange) := by
  have hadd : ∃ e s sm₁ prev, t.expression = some e ∧ e.build sm = some (s, sm₁) ∧
      Dfa.addTerm prev idx s sm₁ = some sm' := by
    cases t with
    | char c => exact ⟨_, _, _, _, rfl, rfl, h⟩
    | string str =>
      obtain ⟨⟨s, sm₁⟩, hbuild, hadd⟩ := Option.bind_eq_some_iff.mp h
      exact ⟨_, s, sm₁, _, rfl, hbuild, hadd⟩
    | regex pattern =>
      obtain ⟨e, hparse, hrest⟩ := Option.bind_eq_some_iff.mp h
      obtain ⟨⟨s, sm₁⟩, hbuild, hadd⟩ := Option.bind_eq_some_iff.mp hrest
      exact ⟨e, s, sm₁, _, hparse, hbuild, hadd⟩
  obtain ⟨e, s, sm₁, prev, he, hbuild, hadd⟩ := hadd
  rw [Dfa.addTerm_eq] at hadd
  obtain ⟨-, hlength, hr⟩ := Regex.build_fits hbuild
  have hkeeps := (Dfa.keeps_markEndStates s idx sm₁).trans (Dfa.keeps_merge true true hadd)
  exact ⟨by rw [hkeeps.length, hlength, TermData.size_expression he], fun h => hkeeps.inRange (hr h)⟩

/-- Whatever the terms are, if none is the empty string and their states can be numbered: a lexer that is built
fills the slots of its array, and a transition leads to one of them and is not mistaken for none. -/
theorem createLexer_fits (terms : List TermData) (sm : Dfa) (hempty : ∀ t ∈ terms, t.isEmptyString = false)
    (hsize : lexerDfaSize terms ≤ uninitialized16) (h : createLexer terms = some sm) :
    sm.length = lexerDfaSize terms ∧
      ∀ q i t, (sm.state q).transition i = some t → t < sm.length ∧ t < uninitialized16 := by
  have hfold : ∀ (ts : List TermData) (n : Nat) (sm sm' : Dfa), (∀ t ∈ ts, t.isEmptyString = false) →
      (ts.zipIdx n).foldlM (fun sm t => t.1.addToDfa t.2 sm) sm = some sm' →
        sm'.length = sm.length + lexerDfaSize ts ∧ (sm.InRange → sm'.InRange) := by
    intro ts
    induction ts with
    | nil =>
      intro n sm sm' _ h
      obtain rfl := Option.some.inj h
      exact ⟨rfl, id⟩
    | cons t ts ih =>
      intro n sm sm' hempty h
      obtain ⟨ht, hempty⟩ := List.forall_mem_cons.mp hempty
      rw [List.zipIdx_cons, List.foldlM_cons] at h
      obtain ⟨sm₁, hadd, hrest⟩ := Option.bind_eq_some_iff.mp h
      obtain ⟨hlength, hr⟩ : sm₁.length = sm.length + (t.dfaSize + if t.isEmptyString then 2 else 0) ∧
          (sm.InRange → sm₁.InRange) := TermData.addToDfa_fits hadd
      rw [ht, if_neg (by simp), Nat.add_zero] at hlength
      obtain ⟨hlength', hr'⟩ := ih (n + 1) sm₁ sm' hempty hrest
      refine ⟨?_, fun h => hr' (hr h)⟩
      rw [hlength', hlength, Nat.add_assoc]
      rfl
  obtain ⟨hlength, hr⟩ := hfold terms 0 [] sm hempty h
  replace hlength : sm.length = lexerDfaSize terms := by simpa using hlength
  refine ⟨hlength, fun q i t ht => ?_⟩
  have hlt : t < sm.length := hr (fun q i t ht => by
    rw [Dfa.next_of_le (Nat.zero_le q)] at ht
    exact absurd ht (by simp)) q i t ht
  exact ⟨hlt, hlt.trans_le (hlength.trans_le hsize)⟩

/-- Both alternatives and another term begin with `a`. -/
theorem createLexer_fits_ambiguous :
    ∃ sm, createLexer [.regex (str "(ab)*|ac"), .string (str "ab"), .char 59] = some sm ∧ sm.length = 14 := by
  have hterms : (∀ t ∈ [TermData.regex (str "(ab)*|ac"), .string (str "ab"), .char 59], t.isEmptyString = false) ∧
      lexerDfaSize [.regex (str "(ab)*|ac"), .string (str "ab"), .char 59] = 14 ∧
      (createLexer [.regex (str "(ab)*|ac"), .string (str "ab"), .char 59]).isSome = true := by decide +kernel
  obtain ⟨hempty, hsize, hlexer⟩ := hterms
  obtain ⟨sm, hsm⟩ := Option.isSome_iff_exists.mp hlexer
  have hle : lexerDfaSize [.regex (str "(ab)*|ac"), .string (str "ab"), .char 59] ≤ uninitialized16 := by
    rw [hsize]
    decide
  exact ⟨sm, hsm, (createLexer_fits _ sm hempty hle hsm).1.trans hsize⟩

end Ctpg
end UdfRunner
