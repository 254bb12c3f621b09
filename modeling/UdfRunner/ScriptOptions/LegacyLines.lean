import UdfRunner.Lib.StringSearch
import UdfRunner.ScriptOptions.OptionText

/-!
# `legacy/script_option_lines.cc`: the old parser of options

`extractOptionLine` looks at the first occurrence of the option and at no other. `IsOption` is what it takes.
-/

namespace UdfRunner
open StringSearch

def lineBreaks : List UInt8 := [13, 10]

namespace LegacyParser

/-- What is returned or the text of what is thrown, and the two references after it. -/
structure Extraction where
  result : Except ByteString ByteString
  code : ByteString
  pos : Option Nat

def noValues (option : ByteString) : ByteString :=
  cstr (str "No values found for " ++ option ++ str " statement")

def endNotFound (option : ByteString) : ByteString :=
  cstr (str "End of " ++ option ++ str " statement not found")

def processOption (code option whitespace lineEnd : ByteString) (pos : Option Nat)
    (startPos : Nat) : Extraction :=
  match findFirst (· ∉ whitespace) code (startPos + option.length) with
  | none => ⟨.error (noValues option), code, pos⟩
  | some firstPos =>
    match findFirst (· ∈ lineEnd ++ lineBreaks) code firstPos with
    | none => ⟨.error (endNotFound option), code, pos⟩
    | some lastPos =>
      if (code.drop lastPos).take lineEnd.length ≠ lineEnd then ⟨.error (endNotFound option), code, pos⟩
      else if lastPos ≤ firstPos then ⟨.error (noValues option), code, pos⟩
      else match findLast (· ∉ whitespace) code (lastPos - 1) with
        | none => ⟨.error (noValues option), code, pos⟩
        | some optionsEnd =>
          if optionsEnd < firstPos then ⟨.error (noValues option), code, pos⟩
          else ⟨.ok ((code.drop firstPos).take (optionsEnd - firstPos + 1)),
            code.take startPos ++ code.drop (startPos + (lastPos - startPos + 1)), some startPos⟩

def extractOptionLine (code option whitespace lineEnd : ByteString) (pos : Option Nat) : Extraction :=
  match find option code with
  | none => ⟨.ok [], code, none⟩
  | some startPos =>
    let firstNonWhiteSpace := (findLast (· ∈ lineBreaks) code startPos).elim (findFirst (· ∉ whitespace) code 0)
      fun column0 => findFirst (· ∉ whitespace) code (column0 + 1)
    if firstNonWhiteSpace = some startPos then processOption code option whitespace lineEnd pos startPos
    else ⟨.ok [], code, none⟩

open OptionParser

/-- `extractOptionLine` as it is called. -/
def extract (code option : ByteString) (pos : Option Nat) : Extraction :=
  extractOptionLine code option whitespaceChars [semicolon] pos

/-- The first occurrence of `option` stands between `front` and `text`. -/
structure First (code option front text : ByteString) : Prop where
  eq : code = front ++ (option ++ text)
  first : ∀ j < front.length, ¬option <+: code.drop j

/-- A line that has only whitespace so far. -/
def StartsLine (front : ByteString) : Prop := ∀ c ∈ lastLine (· ∈ lineBreaks) front, c ∈ whitespaceChars

instance : DecidablePred StartsLine := fun front =>
  inferInstanceAs (Decidable (∀ c ∈ lastLine (· ∈ lineBreaks) front, c ∈ whitespaceChars))

/-- A value between whitespace, with its `;`. -/
structure IsValue (text gap value trail back : ByteString) : Prop where
  eq : text = gap ++ (value ++ (trail ++ semicolon :: back))
  gap_ws : ∀ c ∈ gap, c ∈ whitespaceChars
  trail_ws : ∀ c ∈ trail, c ∈ whitespaceChars
  ne : value ≠ []
  head : ∀ c ∈ value.head?, c ∉ whitespaceChars
  last : ∀ c ∈ value.getLast?, c ∉ whitespaceChars
  plain : ∀ c ∈ value, c ≠ semicolon ∧ c ∉ lineBreaks

/-- The option with this value can be taken out of the code. -/
def IsOption (code option front value back : ByteString) : Prop :=
  ∃ text gap trail, First code option front text ∧ StartsLine front ∧ IsValue text gap value trail back

/-- The option does not occur, or first after something else on its line. -/
def Absent (code option : ByteString) : Prop :=
  ¬option <:+: code ∨ ∃ front text, First code option front text ∧ ¬StartsLine front

/-- An option text that begins with whitespace is never found at the beginning of a line. -/
def Ignored (code option : ByteString) : Prop := Absent code option ∨ ∃ c ∈ option.head?, c ∈ whitespaceChars

section
variable {code option front text gap value trail back : ByteString} {pos : Option Nat}

/-! ### The value -/

theorem processOption_value (hcode : code = front ++ (option ++ text))
    (hvalue : IsValue text gap value trail back) :
    processOption code option whitespaceChars [semicolon] pos front.length =
      ⟨.ok value, front ++ back, some front.length⟩ := by
  obtain ⟨c, rest, hc⟩ := List.exists_cons_of_ne_nil hvalue.ne
  obtain ⟨body, d, hd⟩ := (List.eq_nil_or_concat value).resolve_left hvalue.ne
  rw [List.concat_eq_append] at hd
  set start := front ++ option ++ gap with hstart
  have hlenStart : start.length = front.length + option.length + gap.length := by
    simp only [hstart, List.length_append]
  -- the three searches, each in the code cut where it begins
  have hfirst : findFirst (· ∉ whitespaceChars) code (front.length + option.length) = some start.length := by
    have := findFirst_append (p := (· ∉ whitespaceChars)) (a := front ++ option) (w := gap)
      (t := rest ++ (trail ++ semicolon :: back)) (c := c) (by simpa using hvalue.gap_ws)
      (by simpa using hvalue.head c (by rw [hc]; rfl))
    rw [List.length_append] at this
    rw [hcode, hvalue.eq, hc, hlenStart, ← this]
    simp
  have hend : findFirst (· ∈ [semicolon] ++ lineBreaks) code start.length =
      some (start.length + (value ++ trail).length) := by
    have := findFirst_append (p := (· ∈ [semicolon] ++ lineBreaks)) (a := start) (w := value ++ trail)
      (t := back) (c := semicolon) ?_ (by simp)
    · rw [← this, hcode, hvalue.eq, hstart]
      simp
    · intro x hx
      rcases List.mem_append.mp hx with hx | hx
      · simpa using hvalue.plain x hx
      · have := (show ∀ x ∈ whitespaceChars, x ∉ [semicolon] ++ lineBreaks by decide) x (hvalue.trail_ws x hx)
        simpa using this
  have hlast : findLast (· ∉ whitespaceChars) code (start.length + (value ++ trail).length - 1) =
      some (start.length + value.length - 1) := by
    have := findLast_append (p := (· ∉ whitespaceChars)) (a := start ++ body) (w := trail)
      (t := semicolon :: back) (c := d) (by simpa using hvalue.trail_ws)
      (by simpa using hvalue.last d (by rw [hd]; simp))
    rw [show start.length + (value ++ trail).length - 1 = (start ++ body).length + trail.length by
      simp only [hd, List.length_append, List.length_singleton]; omega,
      show start.length + value.length - 1 = (start ++ body).length by
      simp only [hd, List.length_append, List.length_singleton]; omega, ← this, hcode, hvalue.eq, hstart, hd]
    simp
  have hpos : 0 < value.length := List.length_pos_iff.mpr hvalue.ne
  have hdrop : ∀ {a b : ByteString} {n : Nat}, code = a ++ b → a.length = n → code.drop n = b := by
    rintro a b n rfl rfl
    exact List.drop_left
  have hdropLast := hdrop (a := start ++ value ++ trail) (b := semicolon :: back)
    (n := start.length + (value ++ trail).length) (by rw [hcode, hvalue.eq, hstart]; simp)
    (by simp only [List.length_append]; omega)
  rw [processOption, hfirst]
  simp only []
  rw [hend]
  simp only []
  rw [hlast, hdropLast, if_neg (by simp), if_neg (by simp only [List.length_append]; omega)]
  simp only []
  rw [if_neg (by omega)]
  congr 1
  · rw [hdrop (a := start) (b := value ++ (trail ++ semicolon :: back))
      (by rw [hcode, hvalue.eq, hstart]; simp) rfl,
      List.take_left' (by omega)]
  · rw [hdrop (a := front ++ option ++ gap ++ value ++ trail ++ [semicolon]) (b := back)
      (by rw [hcode, hvalue.eq]; simp) (by simp only [List.length_append, List.length_singleton]; omega),
      hcode, List.take_left]

/-- Without the whitespace at the end. -/
def trim (x : ByteString) : ByteString := x.rdropWhile (· ∈ whitespaceChars)

/-- A text without whitespace in front is a value and the whitespace after it. -/
theorem exists_trim {x : ByteString} (hne : x ≠ []) (hhead : ∀ c ∈ x.head?, c ∉ whitespaceChars) :
    ∃ trail, x = trim x ++ trail ∧ (∀ c ∈ trail, c ∈ whitespaceChars) ∧ trim x ≠ [] ∧
      (∀ c ∈ (trim x).head?, c ∉ whitespaceChars) ∧ ∀ c ∈ (trim x).getLast?, c ∉ whitespaceChars := by
  have hsplit : trim x ++ x.rtakeWhile (· ∈ whitespaceChars) = x := List.rdropWhile_append_rtakeWhile
  have hvalueNe : trim x ≠ [] := by
    intro hnil
    obtain ⟨c, x, rfl⟩ := List.exists_cons_of_ne_nil hne
    have hall := List.rdropWhile_eq_nil_iff.mp hnil c (List.mem_cons_self ..)
    exact hhead c rfl (by simpa using hall)
  refine ⟨x.rtakeWhile (· ∈ whitespaceChars), hsplit.symm, fun c hc => ?_, hvalueNe,
    fun c hc => ?_, fun c hc => ?_⟩
  · simpa using List.mem_rtakeWhile_imp hc
  · refine hhead c ?_
    rw [← hsplit, List.head?_append_of_ne_nil _ hvalueNe]
    exact hc
  · have hlast := List.rdropWhile_last_not (fun c => decide (c ∈ whitespaceChars)) x hvalueNe
    rw [List.getLast?_eq_some_getLast hvalueNe] at hc
    obtain rfl := Option.some.inj hc
    simpa [trim] using hlast

theorem processOption_cases (hcode : code = front ++ (option ++ text)) :
    (∃ gap value trail back, IsValue text gap value trail back) ∨
      ∃ e ∈ [noValues option, endNotFound option],
        processOption code option whitespaceChars [semicolon] pos front.length = ⟨.error e, code, pos⟩ := by
  obtain ⟨gap, text₁, rfl, hgap, hstops⟩ := exists_run whitespaceChars text
  have hat : code = (front ++ option) ++ (gap ++ text₁) := by rw [hcode, List.append_assoc]
  have hlength : front.length + option.length = (front ++ option).length := List.length_append.symm
  rw [processOption, hlength]
  rcases text₁ with _ | ⟨c, s⟩
  · right
    rw [hat, findFirst_none (by simpa using hgap)]
    exact ⟨_, by simp, rfl⟩
  have hc : c ∉ whitespaceChars := hstops c rfl
  have hfirst := findFirst_append (p := (· ∉ whitespaceChars)) (a := front ++ option) (t := s)
    (by simpa using hgap) (by simpa using hc)
  rw [← hat, ← List.length_append] at hfirst
  rw [hfirst]
  simp only []
  set ends := [semicolon] ++ lineBreaks with hends
  set x := (c :: s).takeWhile (· ∉ ends) with hx
  have hplain : ∀ d ∈ x, d ∉ ends := fun d hd => by simpa using List.mem_takeWhile_imp hd
  have hsplit : c :: s = x ++ (c :: s).dropWhile (· ∉ ends) := List.takeWhile_append_dropWhile.symm
  have hstart : code = (front ++ option ++ gap) ++ (x ++ (c :: s).dropWhile (· ∉ ends)) := by
    rw [hat, ← hsplit, List.append_assoc, List.append_assoc]
    simp
  rcases htail : (c :: s).dropWhile (· ∉ ends) with _ | ⟨d, back⟩
  · right
    rw [htail, List.append_nil] at hstart
    rw [show findFirst (· ∈ ends) code (front ++ option ++ gap).length = none by
      rw [hstart]
      exact findFirst_none (by simpa using hplain)]
    exact ⟨_, by simp, rfl⟩
  have hd : d ∈ ends := by
    have := List.head?_dropWhile_not (fun c => decide (c ∉ ends)) (c :: s)
    rw [htail] at this
    simpa using this
  rw [htail] at hsplit hstart
  have hlast := findFirst_append (p := (· ∈ ends)) (a := front ++ option ++ gap) (t := back)
    (by simpa using hplain) (by simpa using hd)
  rw [← hstart] at hlast
  rw [hlast]
  simp only []
  have hdrop : code.drop ((front ++ option ++ gap).length + x.length) = d :: back := by
    rw [hstart, ← List.length_append, ← List.append_assoc, List.drop_left]
  rw [hdrop]
  by_cases hsemi : d = semicolon
  · subst hsemi
    rw [if_neg (by simp)]
    by_cases hempty : x = []
    · right
      rw [if_pos (by rw [hempty]; simp)]
      exact ⟨_, by simp, rfl⟩
    · left
      have hfront : (x ++ semicolon :: back).head? = x.head? := List.head?_append_of_ne_nil _ hempty
      obtain ⟨trail, hvalue, htrail, hne, hhead, hend⟩ := exists_trim hempty fun e he => by
        rw [← hfront, ← hsplit] at he
        obtain rfl := Option.some.inj he
        exact hc
      refine ⟨gap, trim x, trail, back, by rw [hsplit, ← List.append_assoc (trim x), ← hvalue],
        hgap, htrail, hne, hhead, hend,
        fun e he => ?_⟩
      have := hplain e (by rw [hvalue]; exact List.mem_append_left _ he)
      simpa [hends] using this
  · right
    rw [if_pos (by simpa using hsemi)]
    exact ⟨_, by simp, rfl⟩

/-! ### The place -/

theorem First.find_eq (h : First code option front text) : find option code = some front.length := by
  obtain ⟨rfl, hfirst⟩ := h
  exact find_append hfirst

theorem First.unique {front' text' : ByteString} (h : First code option front text)
    (h' : First code option front' text') : front = front' ∧ text = text' := by
  have hlength := Option.some.inj (h.find_eq.symm.trans h'.find_eq)
  obtain ⟨rfl, htext⟩ := List.append_inj (h.eq.symm.trans h'.eq) hlength
  exact ⟨rfl, List.append_cancel_left htext⟩

theorem exists_first (h : option <:+: code) : ∃ front text, First code option front text := by
  rcases hfind : find option code with _ | n
  · exact absurd h (find_eq_none_iff.mp hfind)
  · obtain ⟨front, text, heq, -, hfirst⟩ := exists_of_find hfind
    exact ⟨front, text, heq, hfirst⟩

theorem extract_none (h : ¬option <:+: code) : extract code option pos = ⟨.ok [], code, none⟩ := by
  rw [extract, extractOptionLine, find_eq_none_iff.mpr h]

/-- The first occurrence is looked at if nothing but whitespace stands before it on its line. -/
theorem extract_first {c : UInt8} (h : First code (c :: option) front text) (hc : c ∉ lineBreaks) :
    (StartsLine front ∧ c ∉ whitespaceChars → extract code (c :: option) pos =
      processOption code (c :: option) whitespaceChars [semicolon] pos front.length) ∧
    (¬(StartsLine front ∧ c ∉ whitespaceChars) → extract code (c :: option) pos = ⟨.ok [], code, none⟩) := by
  have hstart := findLast_lineStart (p := (· ∈ lineBreaks)) (a := front) (t := option ++ text) (c := c)
    (by simpa using hc)
  have hsearch : ((findLast (· ∈ lineBreaks) code front.length).elim (findFirst (· ∉ whitespaceChars) code 0)
      fun column0 => findFirst (· ∉ whitespaceChars) code (column0 + 1)) =
      findFirst (· ∉ whitespaceChars) code (linesBefore (· ∈ lineBreaks) front).length := by
    rw [← hstart, show code = front ++ c :: (option ++ text) from h.eq]
    rcases findLast (· ∈ lineBreaks) (front ++ c :: (option ++ text)) front.length with _ | n <;> rfl
  have hsplit := lines_append (· ∈ lineBreaks) front
  have hiff : findFirst (· ∉ whitespaceChars) code (linesBefore (· ∈ lineBreaks) front).length =
      some front.length ↔ StartsLine front ∧ c ∉ whitespaceChars := by
    have hrun := findFirst_run_iff (p := (· ∉ whitespaceChars)) (a := linesBefore (· ∈ lineBreaks) front)
      (w := lastLine (· ∈ lineBreaks) front) (c := c) (t := option ++ text)
    rw [← List.append_assoc, hsplit, ← List.length_append, hsplit] at hrun
    rw [show code = front ++ c :: (option ++ text) from h.eq, hrun, StartsLine]
    simp
  rw [extract, extractOptionLine, h.find_eq]
  exact ⟨fun hline => if_pos (hsearch.trans (hiff.mpr hline)),
    fun hline => if_neg fun heq => hline (hiff.mp (hsearch.symm.trans heq))⟩

end

end LegacyParser

open LegacyParser OptionParser

/-- What happens to the code, for every option text on one line. -/
theorem extractOptionLine_outcomes (code option : ByteString) (pos : Option Nat) (hne : option ≠ [])
    (hline : ∀ c ∈ option, c ∉ lineBreaks) :
    (Ignored code option ∧ extract code option pos = ⟨.ok [], code, none⟩) ∨
    (¬Ignored code option ∧ ∃ front value back, IsOption code option front value back ∧
      extract code option pos = ⟨.ok value, front ++ back, some front.length⟩) ∨
    (¬Ignored code option ∧ (¬∃ front value back, IsOption code option front value back) ∧
      ∃ e ∈ [noValues option, endNotFound option], extract code option pos = ⟨.error e, code, pos⟩) := by
  obtain ⟨c, option, rfl⟩ := List.exists_cons_of_ne_nil hne
  by_cases hoccurs : c :: option <:+: code
  swap
  · exact .inl ⟨.inl (.inl hoccurs), extract_none hoccurs⟩
  obtain ⟨front, text, hfirst⟩ := exists_first hoccurs
  obtain ⟨htaken, hignored⟩ := extract_first hfirst (hline c (by simp))
  by_cases hbegins : StartsLine front ∧ c ∉ whitespaceChars
  swap
  · refine .inl ⟨?_, hignored hbegins⟩
    by_cases hc : c ∈ whitespaceChars
    · exact .inr ⟨c, rfl, hc⟩
    · exact .inl (.inr ⟨front, text, hfirst, fun hstarts => hbegins ⟨hstarts, hc⟩⟩)
  have hnot : ¬Ignored code (c :: option) := by
    rintro ((hno | ⟨front', text', hfirst', hstarts⟩) | ⟨d, hd, hws⟩)
    · exact hno hoccurs
    · obtain ⟨rfl, -⟩ := hfirst'.unique hfirst
      exact hstarts hbegins.1
    · obtain rfl := Option.some.inj hd
      exact hbegins.2 hws
  rw [htaken hbegins]
  by_cases hvalue : ∃ gap value trail back, IsValue text gap value trail back
  · obtain ⟨gap, value, trail, back, hvalue⟩ := hvalue
    exact .inr (.inl ⟨hnot, front, value, back, ⟨text, gap, trail, hfirst, hbegins.1, hvalue⟩,
      processOption_value hfirst.eq hvalue⟩)
  · refine .inr (.inr ⟨hnot, ?_, (processOption_cases hfirst.eq).resolve_left hvalue⟩)
    rintro ⟨front', value, back, text', gap, trail, hfirst', -, hvalue'⟩
    obtain ⟨rfl, rfl⟩ := hfirst'.unique hfirst
    exact hvalue ⟨gap, value, trail, back, hvalue'⟩

theorem extractOptionLine_outcomes_key : ∃ front value back,
    IsOption (str "%k v;") (str "%k") front value back ∧
      extract (str "%k v;") (str "%k") none = ⟨.ok value, front ++ back, some front.length⟩ := by
  have hresult : extract (str "%k v;") (str "%k") none = ⟨.ok (str "v"), [], some 0⟩ := rfl
  rcases extractOptionLine_outcomes (str "%k v;") (str "%k") none (by decide) (by decide) with
    ⟨-, hnone⟩ | ⟨-, hsome⟩ | ⟨-, -, e, -, herror⟩
  · exact absurd (congrArg Extraction.pos (hresult.symm.trans hnone)) nofun
  · exact hsome
  · exact absurd (congrArg Extraction.result (hresult.symm.trans herror)) nofun

/-- The option ` x` is not found in ` x v;`, which begins with it. -/
theorem extractOptionLine_whitespace : ¬∀ (code option : ByteString) (pos : Option Nat), option ≠ [] →
    (∀ c ∈ option, c ∉ lineBreaks) →
    (Absent code option ∧ extract code option pos = ⟨.ok [], code, none⟩) ∨
    (¬Absent code option ∧ ∃ front value back, IsOption code option front value back ∧
      extract code option pos = ⟨.ok value, front ++ back, some front.length⟩) ∨
    (¬Absent code option ∧ (¬∃ front value back, IsOption code option front value back) ∧
      ∃ e, extract code option pos = ⟨.error e, code, pos⟩) := by
  intro h
  have hresult : extract (str " x v;") (str " x") none = ⟨.ok [], str " x v;", none⟩ := rfl
  have hfirst : First (str " x v;") (str " x") [] (str " v;") := ⟨rfl, nofun⟩
  rcases h (str " x v;") (str " x") none (by decide) (by decide) with
    ⟨habsent, -⟩ | ⟨-, front, value, back, -, hsome⟩ | ⟨-, -, e, herror⟩
  · rcases habsent with hno | ⟨front, text, hfirst', hline⟩
    · exact hno ⟨[], str " v;", rfl⟩
    · obtain ⟨rfl, -⟩ := hfirst.unique hfirst'
      exact hline nofun
  · exact absurd (congrArg Extraction.pos (hresult.symm.trans hsome)) nofun
  · exact absurd (congrArg Extraction.result (hresult.symm.trans herror)) nofun

/-! ### Options on any line -/

/-- A line begins, after whitespace, with the option and a value. -/
def OptionLine (code option front value back : ByteString) : Prop :=
  ∃ text gap trail, code = front ++ (option ++ text) ∧ StartsLine front ∧ gap ≠ [] ∧
    IsValue text gap value trail back

def FirstLine (code option front value back : ByteString) : Prop :=
  OptionLine code option front value back ∧
    ∀ front' value' back', OptionLine code option front' value' back' → front.length ≤ front'.length

/-- It is found exactly if the option does not occur before it. -/
theorem firstLine_found_iff (code k front value back : ByteString) (pos : Option Nat)
    (hk : ∀ c ∈ k, c ∉ lineBreaks) (hline : FirstLine code (percent :: k) front value back) :
    extract code (percent :: k) pos = ⟨.ok value, front ++ back, some front.length⟩ ↔
      ∀ j < front.length, ¬percent :: k <+: code.drop j := by
  obtain ⟨⟨text, gap, trail, heq, hstarts, -, hvalue⟩, -⟩ := hline
  constructor
  · intro hfound
    have hoption : ∀ c ∈ percent :: k, c ∉ lineBreaks := List.forall_mem_cons.mpr ⟨by decide, hk⟩
    rcases extractOptionLine_outcomes code (percent :: k) pos (List.cons_ne_nil _ _) hoption with
      ⟨-, hnone⟩ | ⟨-, front', value', back', ⟨text', _, _, hfirst, -, -⟩, hsome⟩ | ⟨-, -, e, -, herror⟩
    · exact absurd (congrArg Extraction.pos (hfound.symm.trans hnone)) nofun
    · have hlength : front.length = front'.length :=
        Option.some.inj (congrArg Extraction.pos (hfound.symm.trans hsome))
      exact hlength ▸ hfirst.first
    · exact absurd (congrArg Extraction.result (hfound.symm.trans herror)) nofun
  · intro hfirst
    rw [(extract_first ⟨heq, hfirst⟩ (by decide)).1 ⟨hstarts, by decide⟩]
    exact processOption_value heq hvalue

theorem isValue_letter : IsValue (str " b;") (str " ") (str "b") [] [] where
  eq := rfl
  gap_ws := by decide
  trail_ws := by simp
  ne := by decide
  head := by rintro c ⟨⟩; decide
  last := by rintro c ⟨⟩; decide
  plain := by decide

theorem firstLine_found_iff_second :
    extract (str "\n%k b;") (str "%k") none = ⟨.ok (str "b"), str "\n", some 1⟩ := by
  refine (firstLine_found_iff (str "\n%k b;") (str "k") (str "\n") (str "b") [] none (by decide)
    ⟨?_, ?_⟩).mpr ?_
  · exact ⟨str " b;", str " ", [], rfl, by decide, by decide, isValue_letter⟩
  · rintro (_ | ⟨c, front⟩) value back ⟨text, gap, trail, heq, -⟩
    · cases heq
    · exact Nat.succ_le_succ (Nat.zero_le _)
  · decide

/-- The first line with the option is not found after a comment that mentions it. -/
theorem firstLine_notFound : ¬∀ (code k front value back : ByteString) (pos : Option Nat),
    (∀ c ∈ k, c ∉ lineBreaks) → FirstLine code (percent :: k) front value back →
    extract code (percent :: k) pos = ⟨.ok value, front ++ back, some front.length⟩ := by
  intro h
  have hline : FirstLine (str "x %k a;\n%k b;") (str "%k") (str "x %k a;\n") (str "b") [] := by
    refine ⟨⟨str " b;", str " ", [], rfl, by decide, by decide, isValue_letter⟩, ?_⟩
    rintro front value back ⟨text, gap, trail, heq, hstarts, -⟩
    by_contra hlt
    have hbefore : ∀ n < 8, (str "%k").isPrefixOf ((str "x %k a;\n%k b;").drop n) = true →
        ¬∀ c ∈ lastLine (· ∈ lineBreaks) ((str "x %k a;\n%k b;").take n), c ∈ whitespaceChars := by decide
    refine hbefore front.length (Nat.lt_of_not_le hlt) ?_ ?_
    · rw [heq, List.drop_left]
      exact List.isPrefixOf_iff_prefix.mpr ⟨text, rfl⟩
    · rw [heq, List.take_left]
      exact hstarts
  have hfound := h (str "x %k a;\n%k b;") (str "k") _ _ _ none (by decide) hline
  have hresult : extract (str "x %k a;\n%k b;") (str "%k") none = ⟨.ok [], str "x %k a;\n%k b;", none⟩ := rfl
  exact absurd (congrArg Extraction.pos (hresult.symm.trans hfound)) nofun

end UdfRunner
