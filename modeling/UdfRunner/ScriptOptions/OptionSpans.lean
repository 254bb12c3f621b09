import UdfRunner.Lib.Segments
import UdfRunner.ScriptOptions.OptionFold

/-!
# The places of options

A code whose lines are accepted is a text in segments, with the options marked. `exists_segments` finds them,
and the places in the map of `parseOptions` are their marks.
-/

namespace UdfRunner
open StringSearch Segment Ctpg

/-- A `std::string`: its length is a `size_t`. -/
structure SizedString where
  bytes : ByteString
  length_lt : bytes.length < 2 ^ 64

namespace CtpgParser
open OptionParser

abbrev OptionSegment := Segment UInt8 OptionText

def lineSegments : List OptionText → ByteString → List OptionSegment
  | [], rest => [⟨rest, none⟩]
  | e :: es, rest => ⟨e.lead, none⟩ :: ⟨e.body ++ [semicolon], some e⟩ :: lineSegments es rest

def toEntry (m : Mark OptionText) : ByteString × ScriptOption :=
  (m.label.key, ⟨decode m.label.pieces, UInt64.ofNat m.start, UInt64.ofNat m.size⟩)

/-- A marked segment is an option by itself. -/
structure Spells (s : OptionSegment) (e : OptionText) : Prop where
  text_eq : s.text = e.body ++ [semicolon]
  plain : Plain isBreak s.text
  length_lt : s.text.length < 2 ^ 32

def Spelled (ss : List OptionSegment) : Prop := ∀ s ∈ ss, ∀ e, s.label = some e → Spells s e

/-- No line has an option. -/
def Optionless (s : ByteString) : Prop := ∀ x ∈ lines isBreak 0 s, NoOption x.text

section
variable {l s rest : ByteString} {es : List OptionText} {c : UInt8} {n : Nat} {ss ss' : List OptionSegment}

/-! ### The segments of a line -/

theorem joined_lineSegments : joined (lineSegments es rest) = texts es ++ rest := by
  induction es with
  | nil => simp [lineSegments, texts]
  | cons e es ih =>
    rw [lineSegments, joined_cons, joined_cons, ih, texts_cons, OptionText.text]
    simp only [List.append_assoc]

theorem marks_lineSegments : (marks n (lineSegments es rest)).map toEntry = optionEntries n es := by
  induction es generalizing n with
  | nil => rfl
  | cons e es ih =>
    have hlength : n + e.lead.length + (e.body ++ [semicolon]).length = n + e.text.length := by
      simp only [OptionText.text, List.length_append, Nat.add_assoc]
    rw [lineSegments, marks, marks, List.map_cons, ih, hlength, optionEntries]
    simp [toEntry]

/-- Only whitespace and the rest are left of a line. -/
theorem noOption_lineSegments (hrest : NoOption rest) : NoOption (kept (lineSegments es rest)) := by
  induction es with
  | nil => simpa [lineSegments] using hrest
  | cons e es ih =>
    have hlead : ∀ c ∈ e.lead, decide (c ∈ whitespaceChars) = true := fun c hc =>
      decide_eq_true (e.lead_ws c hc)
    rw [lineSegments, kept_none, kept_some, NoOption, List.dropWhile_append_of_pos hlead]
    exact ih

theorem noOption_of_not_mem (hl : percent ∉ l) : NoOption l := by
  intro hhead
  obtain ⟨t, ht⟩ := List.head?_eq_some_iff.mp hhead
  have hmem : percent ∈ l.dropWhile (· ∈ whitespaceChars) := by
    rw [ht]
    exact List.mem_cons_self ..
  exact hl (List.dropWhile_sublist _ |>.mem hmem)

theorem spelled_lineSegments (hplain : Plain isBreak (texts es ++ rest))
    (hlt : (texts es ++ rest).length < 2 ^ 32) :
    Spelled (lineSegments es rest) := by
  induction es with
  | nil =>
    intro s hs e he
    rw [List.mem_singleton.mp hs] at he
    cases he
  | cons e es ih =>
    rw [texts_cons, List.append_assoc] at hplain hlt
    have hrest := ih (fun c hc => hplain c (List.mem_append_right _ hc)) (by
      rw [List.length_append] at hlt
      omega)
    intro s hs e' he
    rcases List.mem_cons.mp hs with rfl | hs
    · cases he
    rcases List.mem_cons.mp hs with rfl | hs
    · cases he
      refine ⟨rfl, fun c hc => hplain c (List.mem_append_left _ (List.mem_append_right _ hc)), ?_⟩
      simp only [OptionText.text, List.length_append] at hlt ⊢
      omega
    · exact hrest s hs e' he

theorem Spelled.append (h : Spelled ss) (h' : Spelled ss') : Spelled (ss ++ ss') :=
  fun s hs => (List.mem_append.mp hs).elim (h s) (h' s)

theorem Spelled.cons_none (h : Spelled ss) : Spelled (⟨s, none⟩ :: ss) := by
  intro seg hseg e he
  rcases List.mem_cons.mp hseg with rfl | hseg
  · cases he
  · exact h seg hseg e he

theorem kept_plain (h : Plain isBreak (joined ss)) : Plain isBreak (kept ss) :=
  fun c hc => h c ((kept_sublist ss).mem hc)

/-! ### The segments of a code -/

theorem optionless_plain (hl : Plain isBreak l) (hno : NoOption l) : Optionless l := by
  intro x hx
  rw [lines_plain hl, List.mem_singleton] at hx
  exact hx ▸ hno

theorem optionless_cons (hl : Plain isBreak l) (hc : isBreak c = true) (hno : NoOption l) (hs : Optionless s) :
    Optionless (l ++ c :: s) := by
  intro x hx
  rw [lines_cons hl hc, Nat.add_assoc, lines_shift] at hx
  rcases List.mem_cons.mp hx with rfl | hx
  · exact hno
  · obtain ⟨y, hy, rfl⟩ := List.mem_map.mp hx
    exact hs y hy

/-- A line that is read and no longer than a column can say. -/
def Placeable (x : Line UInt8) : Prop := Accepted x ∧ x.text.length < 2 ^ 32

/-- What the segments of a code are. -/
structure Segments (n : Nat) (s : ByteString) (ss : List OptionSegment) : Prop where
  joined_eq : joined ss = s
  spelled : Spelled ss
  entries_eq : (optionLines n s).flatMap entries = (marks n ss).map toEntry

theorem exists_lineSegments (hl : Plain isBreak l) (h : ∀ x ∈ optionLines n l, Placeable x) :
    ∃ ss, Segments n l ss ∧ Plain isBreak (kept ss) ∧ NoOption (kept ss) := by
  by_cases hmem : percent ∈ l
  · have hline := optionLines_single (n := n) hl hmem
    have hx : Line.mk n l ∈ optionLines n l := by
      rw [hline]
      exact List.mem_singleton_self _
    obtain ⟨haccepted, hlt⟩ := h _ hx
    obtain ⟨es, rest, hsplits⟩ : ∃ es rest, Splits l es rest := exists_splits hx haccepted
    have hjoined : joined (lineSegments es rest) = l := joined_lineSegments.trans hsplits.1.symm
    refine ⟨lineSegments es rest, ⟨hjoined, ?_, ?_⟩, kept_plain (hjoined.symm ▸ hl),
      noOption_lineSegments hsplits.2⟩
    · exact spelled_lineSegments (hsplits.1 ▸ hl) (hsplits.1 ▸ hlt)
    · rw [hline, List.flatMap_singleton, marks_lineSegments]
      exact entries_eq hx hlt hsplits
  · refine ⟨[⟨l, none⟩], ⟨by simp, ?_, ?_⟩, by simpa using hl, by simpa using noOption_of_not_mem hmem⟩
    · exact Spelled.cons_none nofun
    · rw [optionLines, lines_plain hl, List.filter_cons_of_neg (by simpa using hmem)]
      rfl

/-- A code that is read is made of options and text without options. -/
theorem exists_segments (h : ∀ x ∈ optionLines n s, Placeable x) :
    ∃ ss, Segments n s ss ∧ Optionless (kept ss) := by
  induction s using line_induction (p := isBreak) generalizing n with
  | last l hl =>
    obtain ⟨ss, hss, hplain, hno⟩ := exists_lineSegments hl h
    exact ⟨ss, hss, optionless_plain hplain hno⟩
  | cons l c s hl hc ih =>
    rw [optionLines_append hc] at h
    obtain ⟨ss, hss, hplain, hno⟩ := exists_lineSegments hl fun x hx => h x (List.mem_append_left _ hx)
    obtain ⟨ss', hss', hno'⟩ := ih fun x hx => h x (List.mem_append_right _ hx)
    refine ⟨ss ++ ⟨[c], none⟩ :: ss', ⟨?_, hss.spelled.append hss'.spelled.cons_none, ?_⟩, ?_⟩
    · rw [joined_append, joined_cons, hss.joined_eq, hss'.joined_eq]
      rfl
    · rw [optionLines_append hc, List.flatMap_append, hss.entries_eq, hss'.entries_eq, marks_append,
        List.map_append,
        hss.joined_eq]
      rfl
    · rw [kept_append, kept_none]
      exact optionless_cons hplain hc hno hno'

end

/-! ### The places in the map -/

namespace ScriptOption

def start (o : ScriptOption) : Nat := o.idxInSource.toNat
def length (o : ScriptOption) : Nat := o.size.toNat
def finish (o : ScriptOption) : Nat := o.start + o.length

end ScriptOption

section
variable {code : ByteString} {m : OptionsMap} {result : OptionsMap} {k : ByteString} {o : ScriptOption}
  {es : List (ByteString × ScriptOption)} {ss : List OptionSegment}

theorem parsed_cases (h : parseOptions code result = some ⟨m, none⟩) :
    (∀ x ∈ optionLines 0 code, Accepted x) ∧ m = insertAll result ((optionLines 0 code).flatMap entries) := by
  rw [parseOptions_eq] at h
  have hne : ∀ x ∈ optionLines 0 code, x.text ≠ [] := fun x => ne_nil_of_mem
  rcases lines_cases hne with hall | ⟨front, x, back, what, heq, hfront, hparse⟩
  · rw [foldLines_accepted hall] at h
    exact ⟨hall, (Parsed.mk.inj (Option.some.inj h)).1.symm⟩
  · rw [heq, foldLines_rejected hfront hparse] at h
    exact absurd (Parsed.mk.inj (Option.some.inj h)).2 nofun

theorem mem_ofKey : o ∈ ofKey k es ↔ (k, o) ∈ es := by
  simp only [ofKey, List.mem_map, List.mem_filter, decide_eq_true_iff]
  constructor
  · rintro ⟨⟨k', o'⟩, ⟨hmem, rfl⟩, rfl⟩
    exact hmem
  · intro hmem
    exact ⟨(k, o), ⟨hmem, rfl⟩, rfl⟩

theorem eq_ofKey {os : List ScriptOption} (h : insertAll (fun _ => none) es k = some os) : os = ofKey k es := by
  rw [insertAll_apply] at h
  rcases hes : ofKey k es with _ | ⟨o', os'⟩
  · rw [hes] at h
    cases h
  · rw [hes] at h
    exact (Option.some.inj h).symm

theorem exists_key_iff : (∃ os, insertAll (fun _ => none) es k = some os ∧ o ∈ os) ↔ (k, o) ∈ es := by
  rw [← mem_ofKey]
  constructor
  · rintro ⟨os, hos, ho⟩
    exact eq_ofKey hos ▸ ho
  · intro ho
    obtain ⟨o', os', hes⟩ := List.exists_cons_of_ne_nil (List.ne_nil_of_mem ho)
    refine ⟨ofKey k es, ?_, ho⟩
    rw [insertAll_apply, hes]
    rfl

/-- A mark of a string is where the map says. -/
structure Place (code : ByteString) (k : ByteString) (o : ScriptOption) (e : OptionText) : Prop where
  key : e.key = k
  value : o.value = decode e.pieces
  substr_eq : substr code o.start o.length = e.body ++ [semicolon]
  length_eq : o.length = (e.body ++ [semicolon]).length
  plain : Plain isBreak (e.body ++ [semicolon])
  length_lt : (e.body ++ [semicolon]).length < 2 ^ 32
  finish_le : o.finish ≤ code.length

theorem toEntry_start {mark : Mark OptionText} (h : mark.start + mark.size < 2 ^ 64) :
    (toEntry mark).2.start = mark.start ∧ (toEntry mark).2.length = mark.size := by
  constructor
  · exact UInt64.toNat_ofNat_of_lt' (by rw [UInt64.size]; omega)
  · exact UInt64.toNat_ofNat_of_lt' (by rw [UInt64.size]; omega)

theorem place_of_mem {mark : Mark OptionText} (hcode : code.length < 2 ^ 64) (hss : Segments 0 code ss)
    (hmark : mark ∈ marks 0 ss) :
    (toEntry mark).2.start = mark.start ∧ (toEntry mark).2.length = mark.size ∧
      Place code (toEntry mark).1 (toEntry mark).2 mark.label := by
  obtain ⟨s, hs, hlabel, hsize, hsubstr, hle⟩ := of_mem_marks (a := []) hmark
  rw [List.nil_append, hss.joined_eq] at hsubstr hle
  obtain ⟨htext, hplain, hlt⟩ := hss.spelled s hs _ hlabel
  have hend : mark.start + mark.size < 2 ^ 64 := hle.trans_lt hcode
  obtain ⟨hstart, hlength⟩ := toEntry_start hend
  rw [htext] at hsize hsubstr hplain hlt
  refine ⟨hstart, hlength, rfl, rfl, ?_, hlength.trans hsize, hplain, hlt, ?_⟩
  · rw [hstart, hlength]
    exact hsubstr
  · rw [ScriptOption.finish, hstart, hlength]
    exact hle

/-- An option cut out of its code is a code with this option. -/
theorem Place.parse_alone {e : OptionText} (h : Place code k o e) :
    parseOptions (substr code o.start o.length) (fun _ => none) =
      some ⟨Function.update (fun _ => none) k (some [{ o with idxInSource := 0 }]), none⟩ := by
  let alone : OptionText := { e with lead := [], lead_ws := by simp }
  have htext : alone.text = e.body ++ [semicolon] := rfl
  have hsplits : Splits (e.body ++ [semicolon]) [alone] [] := by
    refine ⟨?_, by decide⟩
    rw [texts_cons, htext]
    simp [texts]
  have hnewline : SourcePoint.newline ∉ [] ++ alone.text := by
    intro hmem
    exact absurd (h.plain _ hmem) (show ¬isBreak SourcePoint.newline = false by decide)
  have hparse := parseOptions_single h.plain (List.mem_append_left _ (List.mem_cons_self ..)) hsplits
  rw [h.substr_eq, hparse, show alone.key = k from h.key]
  have hentry : toScriptOption 0 (alone.option (SourcePoint.update {} [])) = _ :=
    toScriptOption_eq hnewline h.length_lt
  have hsize : o.size = UInt64.ofNat (e.body.length + 1) := by
    rw [← UInt64.ofNat_toNat (x := o.size)]
    exact congrArg UInt64.ofNat (h.length_eq.trans (by simp))
  rw [show alone.option {} = alone.option (SourcePoint.update {} []) from rfl, hentry]
  rw [show ({ o with idxInSource := 0 } : ScriptOption) = ⟨o.value, 0, o.size⟩ from rfl, h.value, hsize]
  rfl

theorem Place.head {e : OptionText} (h : Place code k o e) : percent :: k <+: substr code o.start o.length := by
  rw [h.substr_eq, ← h.key]
  exact ⟨e.gap ++ e.value ++ [semicolon], by simp [OptionText.body]⟩

theorem Place.last {e : OptionText} (h : Place code k o e) :
    (substr code o.start o.length).getLast? = some semicolon := by
  rw [h.substr_eq, List.getLast?_concat]

theorem Place.length_pos {e : OptionText} (h : Place code k o e) : 0 < o.length := by
  rw [h.length_eq, List.length_append, List.length_singleton]
  omega

/-- Where no line has an option, nothing is found. -/
theorem parseOptions_optionless {s : ByteString} (h : Optionless s) :
    parseOptions s result = some ⟨result, none⟩ := by
  have hparse : ∀ x ∈ optionLines 0 s, parse x.text = some (.ok []) := by
    intro x hx
    have hsplits : Splits x.text [] x.text := ⟨rfl, h x (List.mem_of_mem_filter hx)⟩
    exact parse_of_splits (ne_nil_of_mem hx) hsplits
  have hentries : (optionLines 0 s).flatMap entries = [] := by
    rw [List.flatMap_eq_nil_iff]
    intro x hx
    rw [entries, hparse x hx]
    rfl
  rw [parseOptions_eq, foldLines_accepted fun x hx => ⟨_, hparse x hx⟩, hentries]
  rfl

end

end CtpgParser

open CtpgParser OptionParser

/-- The places in the map are those of the options, and without them no option is left. -/
theorem parseOptions_spans (code : SizedString) (m : OptionsMap)
    (hlines : ∀ x ∈ lines isBreak 0 code.bytes, x.text.length < 2 ^ 32)
    (hparsed : parseOptions code.bytes (fun _ => none) = some ⟨m, none⟩) :
    (∀ k os, m k = some os → ∀ o ∈ os, o.finish ≤ code.bytes.length ∧
      percent :: k <+: substr code.bytes o.start o.length ∧
      (substr code.bytes o.start o.length).getLast? = some semicolon ∧
      parseOptions (substr code.bytes o.start o.length) (fun _ => none) =
        some ⟨Function.update (fun _ => none) k (some [{ o with idxInSource := 0 }]), none⟩) ∧
    (∀ k os, m k = some os → os.Pairwise fun o o' => o.finish ≤ o'.start ∧ o.start < o'.start) ∧
    (∀ k os k' os', m k = some os → m k' = some os' → ∀ o ∈ os, ∀ o' ∈ os', (k, o) ≠ (k', o') →
      o.finish ≤ o'.start ∨ o'.finish ≤ o.start) ∧
    ∃ spans : List ScriptOption, spans.Pairwise (fun o o' => o.start < o'.start) ∧
      (∀ o, o ∈ spans ↔ ∃ k os, m k = some os ∧ o ∈ os) ∧
      parseOptions (spans.foldr (fun o s => erase s o.start o.length) code.bytes) (fun _ => none) =
        some ⟨fun _ => none, none⟩ := by
  obtain ⟨haccepted, rfl⟩ := parsed_cases hparsed
  obtain ⟨ss, hss, hoptionless⟩ := exists_segments (n := 0) (s := code.bytes) fun x hx =>
    ⟨haccepted x hx, hlines x (List.mem_of_mem_filter hx)⟩
  rw [hss.entries_eq]
  have hplace : ∀ mark ∈ marks 0 ss, _ := fun mark hmark => place_of_mem code.length_lt hss hmark
  have hpairwise : ((marks 0 ss).map toEntry).Pairwise fun a b =>
      a.2.finish ≤ b.2.start ∧ a.2.start < b.2.start := by
    rw [List.pairwise_map]
    refine marks_pairwise.imp_of_mem fun {a b} ha hb hle => ?_
    obtain ⟨hstart, hlength, hspan⟩ := hplace a ha
    obtain ⟨hstart', -, -⟩ := hplace b hb
    have hpos := hspan.length_pos
    unfold ScriptOption.finish
    omega
  have hmem : ∀ {k os o}, insertAll (fun _ => none) ((marks 0 ss).map toEntry) k = some os → o ∈ os →
      (k, o) ∈ (marks 0 ss).map toEntry := fun hos ho => exists_key_iff.mp ⟨_, hos, ho⟩
  refine ⟨?_, ?_, ?_, ((marks 0 ss).map toEntry).map Prod.snd, ?_, ?_, ?_⟩
  · intro k os hos o ho
    obtain ⟨mark, hmark, heq⟩ := List.mem_map.mp (hmem hos ho)
    obtain ⟨-, -, hspan⟩ := hplace mark hmark
    rw [heq] at hspan
    exact ⟨hspan.finish_le, hspan.head, hspan.last, hspan.parse_alone⟩
  · intro k os hos
    rw [eq_ofKey hos, ofKey, List.pairwise_map]
    exact hpairwise.filter _
  · intro k os k' os' hos hos' o ho o' ho' hne
    have hsymm : Std.Symm fun a b : ByteString × ScriptOption =>
        a.2.finish ≤ b.2.start ∨ b.2.finish ≤ a.2.start :=
      ⟨fun a b h => h.symm⟩
    have hapart := hpairwise.imp (S := fun a b =>
      a.2.finish ≤ b.2.start ∨ b.2.finish ≤ a.2.start) fun h => .inl h.1
    exact hapart.forall (hmem hos ho) (hmem hos' ho') hne
  · rw [List.pairwise_map]
    exact hpairwise.imp fun h => h.2
  · intro o
    simp only [exists_key_iff, List.mem_map (f := Prod.snd), Prod.exists, exists_eq_right]
  · have herase := erase_marks [] ss
    rw [List.nil_append, List.nil_append, hss.joined_eq] at herase
    have hmarks : ((marks 0 ss).map fun mark => (toEntry mark).2).foldr (fun o s => erase s o.start o.length)
        code.bytes = (marks 0 ss).foldr (fun mark s => erase s mark.start mark.size) code.bytes := by
      rw [List.foldr_map]
      refine List.foldr_ext _ _ _ fun mark hmark s => ?_
      obtain ⟨hstart, hlength, -⟩ := hplace mark hmark
      rw [hstart, hlength]
    rw [List.map_map, show Prod.snd ∘ toEntry = fun mark => (toEntry mark).2 from rfl, hmarks]
    exact herase ▸ parseOptions_optionless hoptionless

/-- Two options on one line. -/
theorem parseOptions_two : ∃ m : OptionsMap, parseOptions (str "%k v;%l w;") (fun _ => none) = some ⟨m, none⟩ ∧
    m (str "k") = some [⟨str "v", 0, 5⟩] ∧ m (str "l") = some [⟨str "w", 5, 5⟩] := by
  have hrun : (parseOptions (str "%k v;%l w;") fun _ => none).map
      (fun p => (p.result (str "k"), p.result (str "l"), p.error)) =
      some (some [⟨str "v", 0, 5⟩], some [⟨str "w", 5, 5⟩], none) := by decide +kernel
  obtain ⟨⟨m, error⟩, hparsed, heq⟩ := Option.map_eq_some_iff.mp hrun
  obtain ⟨hk, hrest⟩ := Prod.mk.inj heq
  obtain ⟨hl, rfl⟩ := Prod.mk.inj hrest
  exact ⟨m, hparsed, hk, hl⟩

theorem parseOptions_spans_two : ∃ spans : List ScriptOption, spans.Pairwise (fun o o' => o.start < o'.start) ∧
    ⟨str "v", 0, 5⟩ ∈ spans ∧ ⟨str "w", 5, 5⟩ ∈ spans ∧
    parseOptions (spans.foldr (fun o s => erase s o.start o.length) (str "%k v;%l w;")) (fun _ => none) =
      some ⟨fun _ => none, none⟩ := by
  obtain ⟨m, hparsed, hk, hl⟩ := parseOptions_two
  obtain ⟨-, -, -, spans, hpairwise, hmem, hparse⟩ :=
    parseOptions_spans ⟨str "%k v;%l w;", by decide⟩ m (by decide) hparsed
  refine ⟨spans, hpairwise, (hmem _).mpr ⟨_, _, hk, ?_⟩, (hmem _).mpr ⟨_, _, hl, ?_⟩, hparse⟩
  · exact List.mem_singleton_self _
  · exact List.mem_singleton_self _

end UdfRunner
