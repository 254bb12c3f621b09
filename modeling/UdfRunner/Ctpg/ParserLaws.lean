import UdfRunner.Ctpg.Parser

/-!
# Laws of the lexer and of the parser's loop

`dfaMatch_eq`: the lexer gives the longest recognized prefix. `Ends`: what a parser does with enough fuel,
from the end of its run backwards.
-/

namespace UdfRunner
namespace Ctpg
open RegularExpression

/-! ### Patterns -/

namespace Pattern

theorem charSubset_rmatch {l : List UInt8} {w : ByteString} :
    (charSubset l).rmatch w ↔ ∃ c ∈ l, w = [c] := by
  induction l with
  | nil => simp [charSubset]
  | cons c l ih =>
    rw [charSubset, List.foldr_cons, add_rmatch_iff, char_rmatch_iff]
    exact (or_congr_right ih).trans (by simp)

theorem literal_rmatch {s w : ByteString} : (literal s).rmatch w ↔ w = s := by
  induction s generalizing w with
  | nil => exact one_rmatch_iff w
  | cons c s ih =>
    rw [literal, List.foldr_cons, mul_rmatch_iff]
    constructor
    · rintro ⟨t, u, rfl, ht, hu⟩
      rw [(char_rmatch_iff c t).mp ht, ih.mp hu]
      rfl
    · rintro rfl
      exact ⟨[c], s, rfl, (char_rmatch_iff c _).mpr rfl, ih.mpr rfl⟩

theorem alternatives_rmatch {l : List ByteString} {w : ByteString} : (alternatives l).rmatch w ↔ w ∈ l := by
  induction l with
  | nil => simp [alternatives]
  | cons s l ih =>
    rw [alternatives, List.foldr_cons, add_rmatch_iff, literal_rmatch, List.mem_cons]
    exact or_congr_right ih

theorem star_charSubset_rmatch {l : List UInt8} {w : ByteString} :
    (star (charSubset l)).rmatch w ↔ ∀ c ∈ w, c ∈ l := by
  rw [star_rmatch_iff]
  constructor
  · rintro ⟨parts, rfl, hparts⟩ c hc
    obtain ⟨part, hpart, hcp⟩ := List.mem_flatten.mp hc
    obtain ⟨d, hd, rfl⟩ := charSubset_rmatch.mp (hparts part hpart).2
    rwa [List.mem_singleton.mp hcp]
  · intro h
    refine ⟨w.map fun c => [c], by rw [← List.flatMap_def, List.flatMap_singleton'], fun t ht => ?_⟩
    obtain ⟨c, hc, rfl⟩ := List.mem_map.mp ht
    exact ⟨by simp, charSubset_rmatch.mpr ⟨c, h c hc, rfl⟩⟩

theorem atLeastOnce_rmatch {l : List UInt8} {c : UInt8} {w : ByteString} :
    (atLeastOnce (charSubset l)).rmatch (c :: w) ↔ c ∈ l ∧ ∀ d ∈ w, d ∈ l := by
  rw [atLeastOnce, mul_rmatch_iff]
  constructor
  · rintro ⟨t, u, htu, ht, hu⟩
    obtain ⟨d, hd, rfl⟩ := charSubset_rmatch.mp ht
    obtain ⟨rfl, rfl⟩ : c = d ∧ w = u := by simpa using htu
    exact ⟨hd, star_charSubset_rmatch.mp hu⟩
  · rintro ⟨hc, hw⟩
    exact ⟨[c], w, rfl, charSubset_rmatch.mpr ⟨c, hc, rfl⟩, star_charSubset_rmatch.mpr hw⟩

end Pattern

/-! ### The longest match -/

theorem matchEpsilon_eq (p : Pattern) : p.matchEpsilon = p.rmatch [] := by
  cases p <;> rfl

theorem recognized_none {state : List Pattern} (h : ∀ p ∈ state, p.rmatch [] = false) (n : Nat)
    (rt : Option (Nat × Nat)) : dfaMatch.recognized state n rt = rt := by
  unfold dfaMatch.recognized
  rw [List.findIdx?_eq_none_iff.mpr fun p hp => by rw [matchEpsilon_eq, h p hp]]

theorem dfaMatch_none {state : List Pattern} {input : ByteString}
    (h : ∀ j ≤ input.length, ∀ p ∈ state, p.rmatch (input.take j) = false) (n : Nat)
    (rt : Option (Nat × Nat)) : dfaMatch state n rt input = rt := by
  induction input generalizing state n rt with
  | nil => exact recognized_none (h 0 le_rfl) n rt
  | cons c input ih =>
    rw [dfaMatch, ih, recognized_none (h 0 (Nat.zero_le _))]
    intro j hj p hp
    obtain ⟨q, hq, rfl⟩ := List.mem_map.mp hp
    exact h (j + 1) (by simpa using hj) q hq

/-- Maximal munch, and the first of several terms. -/
theorem dfaMatch_eq {state : List Pattern} {input : ByteString} {k t : Nat} (hk : k ≤ input.length)
    (ht : state.findIdx? (·.rmatch (input.take k)) = some t)
    (hlast : ∀ j, k < j → j ≤ input.length → ∀ p ∈ state, p.rmatch (input.take j) = false) (n : Nat)
    (rt : Option (Nat × Nat)) : dfaMatch state n rt input = some (t, n + k) := by
  induction input generalizing state k n rt with
  | nil =>
    obtain rfl : k = 0 := by simpa using hk
    simp only [List.take_nil] at ht
    rw [dfaMatch, dfaMatch.recognized, funext matchEpsilon_eq, ht]
    rfl
  | cons c input ih =>
    cases k with
    | zero =>
      rw [List.take_zero] at ht
      rw [dfaMatch, dfaMatch_none, dfaMatch.recognized, funext matchEpsilon_eq, ht]
      · rfl
      · intro j hj p hp
        obtain ⟨q, hq, rfl⟩ := List.mem_map.mp hp
        exact hlast (j + 1) (Nat.succ_pos j) (by simpa using hj) q hq
    | succ k =>
      rw [dfaMatch, ih (k := k) (by simpa using hk), Nat.add_right_comm, Nat.add_assoc]
      · rw [List.findIdx?_map]
        exact ht
      · intro j hkj hj p hp
        obtain ⟨q, hq, rfl⟩ := List.mem_map.mp hp
        exact hlast (j + 1) (by omega) (by simpa using hj) q hq

/-! ### Source points -/

theorem SourcePoint.update_append (sp : SourcePoint) (s t : ByteString) :
    sp.update (s ++ t) = (sp.update s).update t := List.foldl_append

/-! ### Runs -/

namespace Parser
variable {V : Type} {p : Parser V} {ps ps' : ParseState V} {b b' : Nat} {R : ParseResult V → Prop}

/-- After `b` rounds at the latest the run has ended in `R`. -/
def Ends (p : Parser V) (b : Nat) (ps : ParseState V) (R : ParseResult V → Prop) : Prop :=
  ∃ r, R r ∧ ∀ n, b ≤ n → p.run n ps = some r

theorem Ends.mono (h : p.Ends b ps R) (hb : b ≤ b') : p.Ends b' ps R := by
  obtain ⟨r, hr, hrun⟩ := h
  exact ⟨r, hr, fun n hn => hrun n (hb.trans hn)⟩

theorem Ends.step (h : p.Ends b ps' R) (hstep : p.step ps = .inl ps') : p.Ends (b + 1) ps R := by
  obtain ⟨r, hr, hrun⟩ := h
  refine ⟨r, hr, fun n hn => ?_⟩
  obtain ⟨n, rfl⟩ : ∃ m, n = m + 1 := ⟨n - 1, by omega⟩
  rw [run_succ, hstep]
  exact hrun n (by omega)

theorem Ends.last {r : ParseResult V} (hstep : p.step ps = .inr r) (hr : R r) : p.Ends 1 ps R := by
  refine ⟨r, hr, fun n hn => ?_⟩
  obtain ⟨n, rfl⟩ : ∃ m, n = m + 1 := ⟨n - 1, by omega⟩
  rw [run_succ, hstep]

/-! ### Rounds -/

/-- The parser outside error recovery. -/
def parsing (cs : List Nat) (vs : List V) (sp : SourcePoint) (s : ByteString) : ParseState V :=
  { cursorStack := cs, valueStack := vs, currentSp := sp, current := s }

/-- The term in front of `s`, and its length. -/
def Sees (p : Parser V) (s : ByteString) (t n : Nat) : Prop :=
  (if s = [] then some (p.grammar.eofIdx, 0) else dfaMatch p.patterns 0 none s) = some (t, n)

section
variable {q q₀ q' t n m k l r : Nat} {cs cs₀ : List Nat} {vs : List V} {v : V} {sp : SourcePoint}
    {w s : ByteString}

theorem Sees.getTermWith (h : p.Sees s t n) :
    p.getTermWith (dfaMatch p.patterns 0 none) (parsing cs vs sp s) = some (t, n) := h

theorem step_shift (h : p.Sees (w ++ s) t w.length) (ht : t ≠ p.grammar.errorRecoveryTokenIdx)
    {reduce : Option Nat} (he : p.entry q t = { kind := .shift, shift := some q', reduce := reduce }) :
    p.step (parsing (q :: cs) vs sp (w ++ s)) =
      .inl (parsing (q' :: q :: cs) (p.termValue t w sp :: vs) (sp.update w) s) := by
  have hentry : p.entry ((parsing (q :: cs) vs sp (w ++ s)).cursorStack.headD 0) t =
      { kind := .shift, shift := some q', reduce := reduce } := he
  simp only [step, stepWith, h.getTermWith, hentry]
  simp only [if_neg ht, Parser.shift, consumeTerm, parsing, List.take_left, List.drop_left, Option.getD_some]
  rfl

theorem step_reduce (h : p.Sees s t n) (he : p.entry q t = { kind := .reduce, reduce := some k })
    (hk : p.grammar.ruleInfos[k]? = some ⟨l, r, m⟩) (hcs : (q :: cs).drop m = q₀ :: cs₀)
    (hgoto : p.goto q₀ l = some q') (hv : p.reductor r (vs.take m).reverse = some v) :
    p.step (parsing (q :: cs) vs sp s) = .inl (parsing (q' :: q₀ :: cs₀) (v :: vs.drop m) sp s) := by
  have hentry : p.entry ((parsing (q :: cs) vs sp s).cursorStack.headD 0) t =
      { kind := .reduce, reduce := some k } := he
  have hreduce : ∀ ps : ParseState V, ps.cursorStack = q :: cs → ps.valueStack = vs →
      p.reduce ps k = some { ps with cursorStack := q' :: q₀ :: cs₀, valueStack := v :: vs.drop m } := by
    rintro ps hpcs hpvs
    simp only [Parser.reduce, show p.grammar.info.ruleInfos = p.grammar.ruleInfos from rfl, hk, hpcs, hpvs, hcs,
      Option.bind_eq_bind, Option.bind_some, List.head?_cons, hgoto, hv, Option.pure_def]
  simp only [step, stepWith, h.getTermWith, hentry]
  simp only [Option.getD_some]
  rw [hreduce _ rfl rfl]
  rfl

theorem step_success (h : p.Sees s t n) (he : (p.entry q t).kind = .success) (hv : vs.getLast? = some v) :
    p.step (parsing (q :: cs) vs sp s) = .inr (.value v) := by
  have hkind : (p.entry ((parsing (q :: cs) vs sp s).cursorStack.headD 0) t).kind = .success := he
  simp only [step, stepWith, h.getTermWith, hkind]
  rw [show ({ parsing (q :: cs) vs sp s with consumeMode := false } : ParseState V).valueStack =
    vs from rfl, hv]
  rfl

/-- Where no state takes the recovery token the stacks are emptied. -/
theorem ends_recovery (hall : ∀ q, (p.entry q p.grammar.errorRecoveryTokenIdx).kind = .error)
    (ps : ParseState V)
    (hmode : ps.recoveryMode = true ∧ ps.consumeMode = false) :
    p.Ends (ps.cursorStack.length + 1) ps fun r => ∃ e, r = .noValue e := by
  obtain ⟨cs, hcs⟩ : ∃ cs, ps.cursorStack = cs := ⟨_, rfl⟩
  have hterm : p.getTermWith (dfaMatch p.patterns 0 none) ps = some (p.grammar.errorRecoveryTokenIdx, 0) :=
    if_pos hmode.1
  induction cs generalizing ps with
  | nil =>
    rw [hcs]
    refine .last (r := .noValue ps.errorStream) ?_ ⟨_, rfl⟩
    simp only [step, stepWith, hterm, hall, if_true, hmode.1, hmode.2, Bool.false_eq_true, if_false, hcs, List.tail_nil]
  | cons q cs ih =>
    rw [hcs, List.length_cons]
    have hstep : p.step ps = match cs with
        | [] => .inr (.noValue ps.errorStream)
        | q' :: cs => .inl { ps with cursorStack := q' :: cs, valueStack := ps.valueStack.tail } := by
      simp only [step, stepWith, hterm, hall, if_true, hmode.1, hmode.2, Bool.false_eq_true, if_false, hcs,
        List.tail_cons]
      cases cs <;> rfl
    rcases cs with _ | ⟨q', cs⟩
    · exact (Ends.last hstep ⟨_, rfl⟩).mono (by simp)
    · have hrest := ih { ps with cursorStack := q' :: cs, valueStack := ps.valueStack.tail }
        hmode rfl (if_pos hmode.1)
      exact hrest.step hstep

theorem ends_error (hall : ∀ q, (p.entry q p.grammar.errorRecoveryTokenIdx).kind = .error) (h : p.Sees s t n)
    (he : (p.entry q t).kind = .error) :
    p.Ends (cs.length + 2) (parsing (q :: cs) vs sp s) fun r => ∃ e, r = .noValue e := by
  have hkind : (p.entry ((parsing (q :: cs) vs sp s).cursorStack.headD 0) t).kind = .error := he
  have hstep : p.step (parsing (q :: cs) vs sp s) = match cs with
      | [] => .inr (.noValue (p.syntaxError (parsing (q :: cs) vs sp s) t))
      | q' :: cs' => .inl { parsing (q :: cs) vs sp s with
          errorStream := p.syntaxError (parsing (q :: cs) vs sp s) t
          recoveryMode := true
          cursorStack := q' :: cs'
          valueStack := vs.tail } := by
    simp only [step, stepWith, h.getTermWith, hkind, if_true]
    cases cs <;> rfl
  rcases cs with _ | ⟨q', cs⟩
  · exact (Ends.last hstep ⟨_, rfl⟩).mono (by simp)
  · have hrest := ends_recovery hall { parsing (q :: q' :: cs) vs sp s with
      errorStream := p.syntaxError (parsing (q :: q' :: cs) vs sp s) t
      recoveryMode := true
      cursorStack := q' :: cs
      valueStack := vs.tail } ⟨rfl, rfl⟩
    exact hrest.step hstep

end

end Parser

end Ctpg
end UdfRunner
