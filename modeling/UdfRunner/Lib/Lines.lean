import UdfRunner.Lib.StringSearch

/-!
# The lines of a text

A class of characters ends lines. `mem_lines_iff`: the lines are the longest pieces without such a character.
-/

namespace StringSearch

/-- A line and where it begins. -/
structure Line (α : Type) where
  start : Nat
  text : List α
deriving DecidableEq, Repr

namespace Line
variable {α : Type}

def shift (n : Nat) (l : Line α) : Line α := ⟨l.start + n, l.text⟩
def finish (l : Line α) : Nat := l.start + l.text.length

@[simp] theorem shift_start (n : Nat) (l : Line α) : (l.shift n).start = l.start + n := rfl
@[simp] theorem shift_text (n : Nat) (l : Line α) : (l.shift n).text = l.text := rfl

end Line

variable {α : Type} {p : α → Bool} {a l s t : List α} {c : α} {n m : Nat}

def Plain (p : α → Bool) (l : List α) : Prop := ∀ x ∈ l, p x = false

/-- Nothing, or whole lines with their ends. -/
def Ended (p : α → Bool) (a : List α) : Prop := ∀ x ∈ a.getLast?, p x = true

theorem Ended.nil : Ended p [] := nofun

theorem Ended.append (hc : p c = true) : Ended p (a ++ [c]) := by
  intro x hx
  rw [List.getLast?_concat, Option.mem_some_iff] at hx
  exact hx ▸ hc

theorem Ended.cons (hc : p c = true) (ha : Ended p a) : Ended p (l ++ c :: a) := by
  rcases List.eq_nil_or_concat a with rfl | ⟨a, d, rfl⟩
  · exact Ended.append hc
  · rw [List.concat_eq_append, ← List.cons_append, ← List.append_assoc]
    exact Ended.append (ha d (by rw [List.concat_eq_append, List.getLast?_concat]; rfl))

theorem linesBefore_append (ha : Ended p a) (hl : Plain p l) : linesBefore p (a ++ l) = a := by
  have hpos : ∀ x ∈ l.reverse, (!p x) = true := by
    intro x hx
    rw [hl x (List.mem_reverse.mp hx)]
    rfl
  rw [linesBefore, List.rdropWhile, List.reverse_append, List.dropWhile_append_of_pos hpos]
  rcases List.eq_nil_or_concat a with rfl | ⟨a, c, rfl⟩
  · rfl
  · have hc : p c = true := ha c (by simp)
    rw [List.concat_eq_append, List.reverse_append, List.reverse_singleton, List.singleton_append,
      List.dropWhile_cons_of_neg (by simpa using hc)]
    simp

theorem line_induction {P : List α → Prop} (last : ∀ l, Plain p l → P l)
    (cons : ∀ l c s, Plain p l → p c = true → P s → P (l ++ c :: s)) (s : List α) : P s := by
  induction hn : s.length using Nat.strong_induction_on generalizing s with
  | _ n ih =>
    subst hn
    have hplain : Plain p (s.takeWhile fun x => !p x) := fun x hx => by
      simpa using List.mem_takeWhile_imp hx
    have hsplit : (s.takeWhile fun x => !p x) ++ s.dropWhile (fun x => !p x) = s :=
      List.takeWhile_append_dropWhile
    rcases hrest : s.dropWhile (fun x => !p x) with _ | ⟨c, t⟩
    · rw [hrest, List.append_nil] at hsplit
      exact hsplit ▸ last _ hplain
    · have hc : p c = true := by
        have := List.head?_dropWhile_not (fun x => !p x) s
        rw [hrest] at this
        simpa using this
      rw [hrest] at hsplit
      have hlength := congrArg List.length hsplit
      rw [List.length_append, List.length_cons] at hlength
      exact hsplit ▸ cons _ c t hplain hc (ih t.length (by omega) t rfl)

/-! ### All lines -/

/-- Lines one after another, with one line end after each. -/
def placed : Nat → List (List α) → List (Line α)
  | _, [] => []
  | n, l :: ls => ⟨n, l⟩ :: placed (n + l.length + 1) ls

def lines (p : α → Bool) (n : Nat) (s : List α) : List (Line α) := placed n (s.splitOnP p)

theorem lines_plain (hl : Plain p l) : lines p n l = [⟨n, l⟩] := by
  rw [lines, List.splitOnP_eq_singleton hl]
  rfl

theorem lines_cons (hl : Plain p l) (hc : p c = true) :
    lines p n (l ++ c :: s) = ⟨n, l⟩ :: lines p (n + l.length + 1) s := by
  rw [lines, List.splitOnP_append_cons_of_forall_mem hl c hc]
  rfl

theorem lines_shift : lines p (n + m) s = (lines p n s).map (Line.shift m) := by
  unfold lines
  induction s.splitOnP p generalizing n with
  | nil => rfl
  | cons l ls ih =>
    rw [placed, placed, List.map_cons, ← ih]
    congr 2
    omega

theorem lines_break (hc : p c = true) :
    lines p n (s ++ c :: t) = lines p n s ++ lines p (n + s.length + 1) t := by
  induction s using line_induction (p := p) generalizing n with
  | last l hl => rw [lines_cons hl hc, lines_plain hl]; rfl
  | cons l d s hl hd ih =>
    rw [List.append_assoc, List.cons_append, lines_cons hl hd, lines_cons hl hd, ih, List.cons_append]
    congr 3
    simp only [List.length_append, List.length_cons]
    omega

theorem le_start {x : Line α} (hx : x ∈ lines p n s) : n ≤ x.start := by
  induction s using line_induction (p := p) generalizing n with
  | last l hl =>
    rw [lines_plain hl, List.mem_singleton] at hx
    rw [hx]
  | cons l c s hl hc ih =>
    rw [lines_cons hl hc] at hx
    rcases List.mem_cons.mp hx with rfl | hx
    · exact le_rfl
    · have := ih hx
      omega

/-- No line begins before another one has ended. -/
theorem lines_pairwise : (lines p n s).Pairwise fun x y => x.finish < y.start := by
  induction s using line_induction (p := p) generalizing n with
  | last l hl => rw [lines_plain hl]; exact List.pairwise_singleton ..
  | cons l c s hl hc ih =>
    rw [lines_cons hl hc]
    refine List.pairwise_cons.mpr ⟨fun y hy => ?_, ih⟩
    have := le_start hy
    show n + l.length < y.start
    omega

/-- A longest piece without a line end. -/
structure IsLine (p : α → Bool) (s : List α) (x : Line α) (a b : List α) : Prop where
  eq : s = a ++ (x.text ++ b)
  start_eq : x.start = a.length
  plain : Plain p x.text
  before : Ended p a
  after : ∀ c ∈ b.head?, p c = true

theorem mem_of_isLine {x : Line α} {b : List α} (h : IsLine p s x a b) : x ∈ lines p 0 s := by
  obtain ⟨rfl, hstart, hplain, hbefore, hafter⟩ := h
  have hmem : x ∈ lines p a.length (x.text ++ b) := by
    rcases b with _ | ⟨c, b⟩
    · rw [List.append_nil, lines_plain hplain, ← hstart]
      exact List.mem_singleton_self x
    · rw [lines_cons hplain (hafter c rfl), ← hstart]
      exact List.mem_cons_self ..
  rcases List.eq_nil_or_concat a with rfl | ⟨a, c, rfl⟩
  · exact hmem
  · rw [List.concat_eq_append, List.length_append, List.length_singleton] at hmem
    rw [List.concat_eq_append, List.append_assoc, List.singleton_append,
      lines_break (hbefore c (by rw [List.concat_eq_append, List.getLast?_concat]; rfl)), Nat.zero_add]
    exact List.mem_append_right _ hmem

theorem isLine_of_mem {x : Line α} (hx : x ∈ lines p n s) : ∃ a b, IsLine p s ⟨x.start - n, x.text⟩ a b := by
  induction s using line_induction (p := p) generalizing n with
  | last l hl =>
    rw [lines_plain hl, List.mem_singleton] at hx
    subst hx
    exact ⟨[], [], by simp, by simp, hl, Ended.nil, nofun⟩
  | cons l c s hl hc ih =>
    rw [lines_cons hl hc] at hx
    rcases List.mem_cons.mp hx with rfl | hx
    · refine ⟨[], c :: s, rfl, by simp, hl, Ended.nil, ?_⟩
      rintro d ⟨⟩
      exact hc
    · obtain ⟨a, b, heq, hstart, hplain, hbefore, hafter⟩ := ih hx
      have hle := le_start hx
      refine ⟨l ++ c :: a, b, ?_, ?_, hplain, ?_, hafter⟩
      · rw [heq]
        simp
      · simp only [List.length_append, List.length_cons] at hstart ⊢
        omega
      · exact hbefore.cons hc

theorem mem_lines_iff {x : Line α} : x ∈ lines p 0 s ↔ ∃ a b, IsLine p s x a b :=
  ⟨isLine_of_mem, fun ⟨_, _, h⟩ => mem_of_isLine h⟩

end StringSearch
