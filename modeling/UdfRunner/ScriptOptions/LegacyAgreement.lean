import UdfRunner.ScriptOptions.OptionSpans

/-!
# The two parsers of options

On an option that both of them know, the old parser returns and removes what the new one has found.
-/

namespace UdfRunner
namespace CtpgParser
open OptionParser LegacyParser StringSearch Segment

/-- Every option before `o` is on a line before it. -/
def FirstOnLine (code : ByteString) (m : OptionsMap) (o : ScriptOption) : Prop :=
  ∀ k os, m k = some os → ∀ o' ∈ os, o'.start < o.start →
    o'.finish ≤ (linesBefore isBreak (code.take o.start)).length

/-! ### A value without escapes -/

section
variable {v s : ByteString} {ps : List Piece}

theorem readValue_plain (h : ∀ c ∈ v, c ≠ semicolon ∧ c ≠ backslash) :
    readValue (v ++ semicolon :: s) = some (v.map .char, s) := by
  induction v with
  | nil => exact readValue_semicolon
  | cons c v ih =>
    obtain ⟨⟨hsemi, hback⟩, hv⟩ := List.forall_mem_cons.mp h
    rw [List.cons_append, readValue_char ⟨hsemi, fun heq => absurd heq hback⟩, ih hv]
    rfl

theorem decode_plain : decode (v.map .char) = v := by
  cases v with
  | nil => rfl
  | cons c v =>
    rw [List.map_cons, decode, List.flatMap_map]
    simp [Piece.decodeFirst, Piece.decodeLater]

theorem value_plain (hback : backslash ∉ v) (hread : readValue (v ++ [semicolon]) = some (ps, [])) :
    semicolon ∉ v ∧ decode ps = v := by
  have hsemi : semicolon ∉ v := by
    intro hmem
    obtain ⟨v₁, v₂, rfl, hfirst⟩ := List.eq_append_cons_of_mem hmem
    rw [List.append_assoc, List.cons_append, readValue_plain] at hread
    · exact absurd (Prod.mk.inj (Option.some.inj hread)).2 (by simp)
    · intro c hc
      exact ⟨fun heq => hfirst (heq ▸ hc), fun heq => hback (List.mem_append_left _ (heq ▸ hc))⟩
  refine ⟨hsemi, ?_⟩
  rw [readValue_plain fun c hc => ⟨fun heq => hsemi (heq ▸ hc), fun heq => hback (heq ▸ hc)⟩] at hread
  rw [← (Prod.mk.inj (Option.some.inj hread)).1]
  exact decode_plain

end

/-! ### The option and its line -/

section
variable {code : ByteString} {m : OptionsMap} {k : ByteString} {o : ScriptOption} {e : OptionText}
  {es : List OptionText} {n : Nat}

theorem mem_optionEntries {entry : ByteString × ScriptOption} (h : entry ∈ optionEntries n es) :
    ∃ es₁ e es₂, es = es₁ ++ e :: es₂ ∧ entry = (e.key, ⟨decode e.pieces,
      UInt64.ofNat (n + (texts es₁).length + e.lead.length), UInt64.ofNat (e.body.length + 1)⟩) := by
  induction es generalizing n with
  | nil => cases h
  | cons e es ih =>
    rcases List.mem_cons.mp h with rfl | h
    · exact ⟨[], e, es, rfl, rfl⟩
    · obtain ⟨es₁, e', es₂, rfl, hentry⟩ := ih h
      refine ⟨e :: es₁, e', es₂, rfl, ?_⟩
      rw [hentry, texts_cons, List.length_append, ← Nat.add_assoc]

/-- An option that begins its line. -/
structure Begins (code k : ByteString) (o : ScriptOption) (e : OptionText)
    (front back : ByteString) : Prop where
  key : e.key = k
  value : o.value = decode e.pieces
  eq : code = (front ++ e.lead) ++ (e.body ++ semicolon :: back)
  front_ended : Ended isBreak front
  plain : Plain isBreak e.text
  start_eq : o.start = (front ++ e.lead).length
  length_eq : o.length = (e.body ++ [semicolon]).length

theorem exists_begins (hcode : code.length < 2 ^ 64) (hplaceable : ∀ x ∈ optionLines 0 code, Placeable x)
    (hm : m = insertAll (fun _ => none) ((optionLines 0 code).flatMap entries))
    (ho : (k, o) ∈ (optionLines 0 code).flatMap entries) (hfirst : FirstOnLine code m o) :
    ∃ e front back, Begins code k o e front back := by
  obtain ⟨x, hx, hentry⟩ := List.mem_flatMap.mp ho
  obtain ⟨haccepted, hlt⟩ := hplaceable x hx
  obtain ⟨es, rest, hsplits⟩ := exists_splits hx haccepted
  have hentries := entries_eq hx hlt hsplits
  rw [hentries] at hentry
  obtain ⟨es₁, e, es₂, rfl, heq⟩ := mem_optionEntries hentry
  obtain ⟨rfl, rfl⟩ := Prod.mk.inj heq
  obtain ⟨a, b, hline⟩ := mem_lines_iff.mp (List.mem_of_mem_filter hx)
  have htext : x.text = (texts es₁ ++ e.lead) ++ (e.body ++ semicolon :: (texts es₂ ++ rest)) := by
    rw [hsplits.1, texts, List.flatMap_append, ← texts, ← texts, texts_cons]
    simp [OptionText.text]
  have hsplit : code = (a ++ (texts es₁ ++ e.lead)) ++ (e.body ++ semicolon :: (texts es₂ ++ rest ++ b)) := by
    rw [hline.eq, htext]
    simp
  have hplain : Plain isBreak ((texts es₁ ++ e.lead) ++ (e.body ++ semicolon :: (texts es₂ ++ rest))) :=
    htext ▸ plain_of_mem hx
  have hlength := congrArg List.length hsplit
  simp only [List.length_append, List.length_cons] at hlength
  have hstart : ∀ p, p ≤ code.length → (UInt64.ofNat p).toNat = p :=
    fun p hp => UInt64.toNat_ofNat_of_lt' (by rw [UInt64.size]; omega)
  have hplace : (UInt64.ofNat (x.start + (texts es₁).length + e.lead.length)).toNat =
      (a ++ (texts es₁ ++ e.lead)).length := by
    rw [hline.start_eq, hstart _ (by omega)]
    simp only [List.length_append, Nat.add_assoc]
  -- an option in front of it would end after the beginning of the line
  have hnone : es₁ = [] := by
    rcases es₁ with _ | ⟨e₁, es₁⟩
    · rfl
    exfalso
    have hentry₁ : (e₁.key, ScriptOption.mk (decode e₁.pieces) (UInt64.ofNat (x.start + e₁.lead.length))
        (UInt64.ofNat (e₁.body.length + 1))) ∈ (optionLines 0 code).flatMap entries := by
      refine List.mem_flatMap.mpr ⟨x, hx, ?_⟩
      rw [hentries]
      exact List.mem_cons_self ..
    obtain ⟨os, hos, ho₁⟩ := exists_key_iff.mpr hentry₁
    have hbefore : linesBefore isBreak (code.take (a ++ (texts (e₁ :: es₁) ++ e.lead)).length) = a := by
      rw [hsplit, List.take_left]
      exact linesBefore_append hline.before fun c hc => hplain c (List.mem_append_left _ hc)
    simp only [texts_cons, OptionText.text, List.length_append, List.length_singleton] at hlength
    have hfinish := hfirst e₁.key os (hm ▸ hos) _ ho₁
    simp only [ScriptOption.finish, ScriptOption.start, ScriptOption.length] at hfinish
    rw [hplace, hbefore, hstart _ (by rw [hline.start_eq]; omega), hstart _ (by omega),
      hline.start_eq] at hfinish
    simp only [texts_cons, OptionText.text, List.length_append, List.length_singleton] at hfinish
    omega
  subst hnone
  simp only [texts, List.flatMap_nil, List.nil_append, List.length_nil,
    Nat.add_zero] at hsplit hplain hplace hlength
  refine ⟨e, a, _, rfl, rfl, hsplit, hline.before, ?_, hplace, ?_⟩
  · intro c hc
    refine hplain c ?_
    simp only [OptionText.text, List.mem_append, List.mem_cons, List.not_mem_nil, or_false] at hc ⊢
    tauto
  · exact (hstart _ (by omega)).trans (by simp)

/-! ### What the old parser does -/

variable {a r front back : ByteString} {pos : Option Nat}

theorem not_prefix_drop (hk : percent ∉ k) (hnone : ¬percent :: k <:+: a) :
    ∀ j < a.length, ¬percent :: k <+: (a ++ percent :: r).drop j := by
  intro j hj hpre
  rw [List.drop_append_of_le_length hj.le] at hpre
  obtain ⟨c, u, hu⟩ : ∃ c u, a.drop j = c :: u :=
    List.exists_cons_of_ne_nil (List.ne_nil_of_length_pos (by rw [List.length_drop]; omega))
  rcases List.prefix_or_prefix_of_prefix hpre (List.prefix_append _ _) with hinside | ⟨w, hw⟩
  · exact hnone (hinside.isInfix.trans (List.drop_suffix j a).isInfix)
  · rw [← hw, List.prefix_append_right_inj] at hpre
    rcases w with _ | ⟨d, w⟩
    · rw [List.append_nil] at hw
      refine hnone ?_
      rw [← hw]
      exact (List.drop_suffix j a).isInfix
    · obtain ⟨rfl, -⟩ := List.cons_prefix_cons.mp hpre
      rw [hu] at hw
      obtain ⟨-, rfl⟩ := List.cons.inj hw
      exact hk (List.mem_append_right _ (List.mem_cons_self ..))

theorem Begins.percent_not_mem (h : Begins code k o e front back) : percent ∉ k := by
  intro hmem
  have halpha : percent ∉ alphaNumericChars := by decide
  exact halpha (e.key_alphaNumeric _ (h.key ▸ hmem))

theorem Begins.startsLine (h : Begins code k o e front back) : StartsLine (front ++ e.lead) := by
  have hlead : Plain isBreak e.lead := fun c hc => h.plain c (List.mem_append_left _ hc)
  have hsplit := lines_append isBreak (front ++ e.lead)
  rw [linesBefore_append h.front_ended hlead] at hsplit
  intro c hc
  refine e.lead_ws c ?_
  rw [← List.append_cancel_left hsplit]
  exact hc

theorem Begins.value_eq (h : Begins code k o e front back) (hback : backslash ∉ e.body) :
    o.value = e.value ∧ semicolon ∉ e.value := by
  have hvalue : backslash ∉ e.value := fun hmem => hback (by simp [OptionText.body, hmem])
  obtain ⟨hsemi, hdecode⟩ := value_plain hvalue e.value_read
  exact ⟨h.value.trans hdecode, hsemi⟩

theorem Begins.isValue (h : Begins code k o e front back) (hback : backslash ∉ e.body) :
    ∃ trail, IsValue (e.gap ++ (e.value ++ semicolon :: back)) e.gap (trim o.value) trail back := by
  obtain ⟨hvalue, hsemi⟩ := h.value_eq hback
  obtain ⟨trail, hsplit, htrail, hne, hhead, hlast⟩ := exists_trim e.value_ne fun c hc hmem =>
    e.value_head c hc (List.mem_cons_of_mem _ hmem)
  refine ⟨trail, ?_⟩
  rw [hvalue]
  refine ⟨?_, e.gap_ws, htrail, hne, hhead, hlast, fun c hc => ?_⟩
  · conv_lhs => rw [hsplit]
    rw [List.append_assoc]
  · have hc : c ∈ e.value := hsplit ▸ List.mem_append_left _ hc
    refine ⟨fun heq => hsemi (heq ▸ hc), fun hbreak => ?_⟩
    have hplain := h.plain c (by simp [OptionText.text, OptionText.body, hc])
    exact absurd hplain (by simpa using hbreak)

/-- It finds the option, takes the value up to its last character and the option out of the code. -/
theorem Begins.extract_eq (h : Begins code k o e front back) (hback : backslash ∉ e.body)
    (hnone : ¬percent :: k <:+: code.take o.start) :
    extract code (percent :: k) pos = ⟨.ok (trim o.value), erase code o.start o.length, some o.start⟩ := by
  obtain ⟨trail, hvalue⟩ := h.isValue hback
  have hcode : code = (front ++ e.lead) ++ (percent :: k ++ (e.gap ++ (e.value ++ semicolon :: back))) := by
    rw [h.eq, OptionText.body, ← h.key]
    simp
  have hfront : code.take o.start = front ++ e.lead := by rw [h.start_eq, h.eq, List.take_left]
  have hfirst : First code (percent :: k) (front ++ e.lead) (e.gap ++ (e.value ++ semicolon :: back)) := by
    refine ⟨hcode, ?_⟩
    rw [hfront] at hnone
    rw [hcode, List.cons_append]
    exact not_prefix_drop h.percent_not_mem hnone
  have herase : erase code o.start o.length = front ++ e.lead ++ back := by
    have hsplit : code = (front ++ e.lead) ++ ((e.body ++ [semicolon]) ++ back) := by rw [h.eq]; simp
    rw [h.start_eq, h.length_eq, hsplit, erase_append]
  rw [(extract_first hfirst (by decide)).1 ⟨h.startsLine, by decide⟩, processOption_value hcode hvalue,
    herase, h.start_eq]

end

/-! ### A wide line -/

theorem firstOnLine_single {code k : ByteString} {o : ScriptOption} :
    FirstOnLine code (Function.update (fun _ => none) k (some [o])) o := by
  intro k' os hos o' ho' hlt
  by_cases hk : k' = k
  · rw [hk, Function.update_self] at hos
    rw [← Option.some.inj hos, List.mem_singleton] at ho'
    rw [ho'] at hlt
    exact absurd hlt (lt_irrefl _)
  · rw [Function.update_of_ne hk] at hos
    cases hos

theorem backslash_not_mem {n start length : Nat} : backslash ∉ substr (wideOption n).text start length := by
  intro hmem
  rcases mem_wideOption (List.mem_of_mem_drop (List.mem_of_mem_take hmem)) with hspace | hoption
  · exact absurd hspace (by decide)
  · exact absurd hoption (by decide)

/-- The old parser finds the option behind any number of spaces. -/
theorem extract_wideOption {n : Nat} (hn : n < 2 ^ 64) :
    (extract (wideOption n).text (str "%k") none).pos = some n := by
  have hstart : (UInt64.ofNat n).toNat = n := UInt64.toNat_ofNat_of_lt' hn
  have hbegins : Begins (wideOption n).text (str "k") ⟨str "v", UInt64.ofNat n, 5⟩ (wideOption n) [] [] :=
    ⟨rfl, rfl, rfl, Ended.nil, wideOption_plain, by simp [ScriptOption.start, hstart, wideOption], rfl⟩
  have hspaces : ¬str "%k" <:+: (wideOption n).text.take n := by
    intro hinfix
    have hmem : percent ∈ (wideOption n).text.take n := hinfix.mem (by decide)
    rw [OptionText.text, List.take_left' (by simp [wideOption])] at hmem
    exact absurd (List.eq_of_mem_replicate hmem) (by decide)
  have hbackslash : backslash ∉ (wideOption n).body := show backslash ∉ str "%k v" by decide
  have hextract : extract (wideOption n).text (percent :: str "k") none = _ :=
    hbegins.extract_eq hbackslash (by rwa [ScriptOption.start, hstart])
  rw [show str "%k" = percent :: str "k" from rfl, hextract, ScriptOption.start, hstart]

end CtpgParser

open CtpgParser OptionParser LegacyParser StringSearch Segment

/-- The old parser agrees with the new one on options without escapes. -/
theorem extractOptionLine_agrees (code : SizedString) (m : OptionsMap) (k : ByteString) (o : ScriptOption)
    (os : List ScriptOption) (pos : Option Nat)
    (hlines : ∀ x ∈ lines isBreak 0 code.bytes, x.text.length < 2 ^ 32)
    (hparsed : parseOptions code.bytes (fun _ => none) = some ⟨m, none⟩) (hk : m k = some (o :: os))
    (hback : backslash ∉ substr code.bytes o.start o.length) (hfirst : FirstOnLine code.bytes m o)
    (hnone : ¬percent :: k <:+: code.bytes.take o.start) :
    extract code.bytes (percent :: k) pos =
      ⟨.ok (trim o.value), erase code.bytes o.start o.length, some o.start⟩ := by
  obtain ⟨haccepted, hm⟩ := parsed_cases hparsed
  have ho : (k, o) ∈ (optionLines 0 code.bytes).flatMap entries :=
    exists_key_iff.mp ⟨_, hm ▸ hk, List.mem_cons_self ..⟩
  obtain ⟨e, front, back, hbegins⟩ := exists_begins code.length_lt (fun x hx =>
    ⟨haccepted x hx, hlines x (List.mem_of_mem_filter hx)⟩) hm ho hfirst
  refine hbegins.extract_eq ?_ hnone
  have hsplit : code.bytes = (front ++ e.lead) ++ ((e.body ++ [semicolon]) ++ back) := by rw [hbegins.eq]; simp
  rw [hbegins.start_eq, hbegins.length_eq, hsplit, substr_append] at hback
  exact fun hmem => hback (List.mem_append_left _ hmem)

theorem extractOptionLine_agrees_two :
    extract (str "%k v;%l w;") (str "%k") none = ⟨.ok (str "v"), str "%l w;", some 0⟩ := by
  obtain ⟨m, hparsed, hk, -⟩ := parseOptions_two
  have hfirst : FirstOnLine (str "%k v;%l w;") m ⟨str "v", 0, 5⟩ :=
    fun k os _ o' _ hlt => absurd hlt (Nat.not_lt_zero _)
  exact extractOptionLine_agrees ⟨str "%k v;%l w;", by decide⟩ m (str "k") ⟨str "v", 0, 5⟩ [] none (by decide)
    hparsed hk (by decide) hfirst (by decide)

/-- After 2^32 spaces it does not. -/
theorem extractOptionLine_disagrees : ¬∀ (code : SizedString) (m : OptionsMap) (k : ByteString)
    (o : ScriptOption)
    (os : List ScriptOption) (pos : Option Nat),
    parseOptions code.bytes (fun _ => none) = some ⟨m, none⟩ → m k = some (o :: os) →
    backslash ∉ substr code.bytes o.start o.length → FirstOnLine code.bytes m o →
    ¬percent :: k <:+: code.bytes.take o.start →
    extract code.bytes (percent :: k) pos =
      ⟨.ok (trim o.value), erase code.bytes o.start o.length, some o.start⟩ := by
  intro h
  have hwide : ∀ n < 2 ^ 63, UInt32.ofNat (n + 1) = 1 → n = 0 := by
    intro n hn hcolumn
    have hstart : (toScriptOption 0 ((wideOption n).option {})).start = 0 := by
      rw [ScriptOption.start, idx_wideOption, UInt32.add_comm, ← UInt32.ofNat_one, ← UInt32.ofNat_add, hcolumn]
      rfl
    have hlength : (wideOption n).text.length < 2 ^ 64 := by
      simp [OptionText.text, OptionText.body, wideOption, str]
      omega
    have hextract := h ⟨(wideOption n).text, hlength⟩ _ (str "k")
      (toScriptOption 0 ((wideOption n).option {})) [] none
      (parseOptions_single wideOption_plain percent_mem_text splits_wideOption) (Function.update_self ..)
      backslash_not_mem firstOnLine_single (by rw [hstart]; simp)
    have hpos := extract_wideOption (n := n) (by omega)
    rw [show str "%k" = percent :: str "k" from rfl, hextract, hstart] at hpos
    exact (Option.some.inj hpos).symm
  exact absurd (hwide (2 ^ 32) (by decide) (by decide)) (by decide)

end UdfRunner
