import UdfRunner.EmitBuffer
import UdfRunner.ForwardPath

/-!
# Rows of texts

A script that writes `n` texts and takes the row: the rows get through if the output has no column but these,
all of them VARCHAR (`Fits`), and none of them otherwise. `Writing` is the invariant of such calls.
-/

namespace UdfRunner
open Proc

/-- `n` texts make a row. -/
def Fits (n : Nat) (types : List Datatype) : Prop := types.length ≤ n ∧ ∀ type ∈ types, type = .string

instance (n : Nat) (types : List Datatype) : Decidable (Fits n types) := inferInstanceAs (Decidable (_ ∧ _))

/-- The row of some texts, as far as there are columns. -/
def textRow (types : List Datatype) (texts : List ByteString) (currentRow : UInt64) : Row :=
  ⟨currentRow, (texts.take types.length).map fun v => some (.string (cstr v))⟩

/-- The tables hold the rows, and none of them is empty. -/
def Carry (types : List Datatype) (ts : List TableData) (rows : List Row) : Prop :=
  ∃ sentRows, List.Forall₂ (TableData.Holds types) ts sentRows ∧ (∀ r ∈ sentRows, r ≠ []) ∧
    sentRows.flatten = rows

theorem carry_nil_iff {types : List Datatype} {ts : List TableData} : Carry types ts [] ↔ ts = [] := by
  constructor
  · rintro ⟨sentRows, hholds, hne, hflatten⟩
    have hnone : sentRows = [] := by
      rcases sentRows with _ | ⟨r, sentRows⟩
      · rfl
      · have hr : r ≠ [] := hne r (by simp)
        rw [List.flatten_cons, List.append_eq_nil_iff] at hflatten
        exact absurd hflatten.1 hr
    subst hnone
    simpa using hholds
  · rintro rfl
    exact ⟨[], .nil, by simp, rfl⟩

namespace ResultHandler
variable {S : Session} {n : Nat} {start : Channel} {rows : List Row} {texts : List ByteString}
  {h : ResultHandler} {c : Channel}

/-- Only VARCHAR columns before the `n`-th were ever set. -/
def OnlyTexts (n : Nat) (types : List Datatype) (r : RowData) : Prop :=
  ∀ col type, types[col]? = some type → n ≤ col ∨ type ≠ .string → r.cell col type = none

/-- Between two runs. -/
def Between (S : Session) (n : Nat) (h : ResultHandler) : Prop :=
  if Fits n S.outputTypes then h.table.Holds S.outputTypes []
  else h.table.rowCount = 0 ∧ OnlyTexts n S.outputTypes h.rowdata

/-- Since `start`, `rows` were taken and `texts` set for the next one, if they fit; else nothing was sent. -/
def Writing (S : Session) (n : Nat) (start : Channel) (rows : List Row) (texts : List ByteString)
    (s : ResultHandler × Channel) : Prop :=
  if Fits n S.outputTypes then ∃ view, EmitInv S start view s ∧ view.rows = rows ∧
    ∀ col v, col < S.outputTypes.length → texts[col]? = some v → view.cells col = some (some (.string (cstr v)))
  else s.1.table.rowCount = 0 ∧ OnlyTexts n S.outputTypes s.1.rowdata ∧ s.2.exchanges = start.exchanges

theorem Between.writing (hb : Between S n h) : Writing S n c [] [] (h, c) := by
  unfold Between Writing at *
  split_ifs at hb ⊢
  · exact ⟨_, .init hb c, rfl, by simp⟩
  · exact ⟨hb.1, hb.2, rfl⟩

theorem onlyTexts_empty (n : Nat) (types : List Datatype) : OnlyTexts n types {} := by
  intro col type _ _
  cases type <;> rfl

theorem between_new (S : Session) (n : Nat) : Between S n {} := by
  unfold Between
  split_ifs
  · exact .empty _
  · exact ⟨rfl, onlyTexts_empty _ _⟩

theorem exists_unfit {types : List Datatype} (hfits : ¬ Fits n types) :
    ∃ col type, types[col]? = some type ∧ (n ≤ col ∨ type ≠ .string) := by
  by_cases hlength : types.length ≤ n
  · have hall : ¬ ∀ type ∈ types, type = .string := fun hall => hfits ⟨hlength, hall⟩
    obtain ⟨type, hmem, hne⟩ : ∃ type ∈ types, type ≠ .string := by simpa using hall
    obtain ⟨col, hcol⟩ := List.getElem?_of_mem hmem
    exact ⟨col, type, hcol, .inr hne⟩
  · exact ⟨n, types[n], List.getElem?_eq_getElem (by omega), .inl le_rfl⟩

theorem cells_eq_none {types : List Datatype} {r : RowData} {col i : Nat} {type : Datatype}
    (hi : types[i]? = some type) (hr : r.cell (col + i) type = none) : r.cells col types = none := by
  induction types generalizing col i with
  | nil => simp at hi
  | cons type' types ih =>
    cases i with
    | zero =>
      obtain rfl : type' = type := by simpa using hi
      rw [Nat.add_zero] at hr
      simp [RowData.cells, hr]
    | succ i =>
      have hrest : r.cells (col + 1) types = none :=
        ih (by simpa using hi) (by rwa [Nat.add_assoc, Nat.add_comm 1 i])
      simp [RowData.cells, hrest]

/-- What no table is sent by. -/
def SameExchanges (s s' : ResultHandler × Channel) : Prop := s'.2.exchanges = s.2.exchanges

instance : IsPreorder (ResultHandler × Channel) SameExchanges where
  refl _ := rfl
  trans _ _ _ h h' := Eq.trans h' h

theorem exchanges_addColumns (types : List Datatype) (col : Nat) : Moves SameExchanges (addColumns col types) := by
  have hcell : ∀ {α : Type} (missing : String) (found : Option α) (size : α → Nat)
      (add : α → TableData → TableData), Moves SameExchanges (addCell missing found size add) := by
    intro α missing found size add
    cases found with
    | none => exact .bind (fun _ => rfl) fun _ => .pure _
    | some v => exact .bind (fun _ => rfl) fun _ => .pure _
  have hcolumn : ∀ col type, Moves SameExchanges (addColumn col type) := by
    refine fun col type => .bind .get fun _ => .bind (fun _ => rfl) fun _ => .ite (.pure _) ?_
    cases type <;> first | exact hcell _ _ _ _ | exact .bind (fun _ => rfl) fun _ => .pure _
  induction types generalizing col with
  | nil => exact .pure _
  | cons type types ih => exact .bind (hcolumn _ _) fun _ => .ite (ih _) (.pure _)

namespace Writing

theorem setString (hw : Writing S n start rows texts (h, c)) (hn : texts.length < n) (v : ByteString) (l : Nat) :
    wp (ResultHandler.setString S texts.length v l)
      (fun o s => o = .ok () ∧ Writing S n start rows (texts ++ [v]) s) (h, c) := by
  unfold Writing at hw ⊢
  split_ifs at hw ⊢ with hfits
  · obtain ⟨view, hi, hrows, hcells⟩ := hw
    have hstorage : Datatype.storage .string = some .string := rfl
    refine wp_mono (hi.setText_cstr texts.length v "STRING" "1096" "1097" hstorage) ?_
    rintro o s ⟨rfl, hi'⟩
    refine ⟨rfl, _, hi', ?_, fun col v' hcol hv' => ?_⟩
    · unfold EmitOp.assign.typed
      split_ifs <;> exact hrows
    · rcases Nat.lt_trichotomy col texts.length with hlt | rfl | hgt
      · rw [List.getElem?_append_left hlt] at hv'
        unfold EmitOp.assign.typed
        split_ifs
        · simp only [EmitView.assigned]
          rw [Function.update_of_ne (Nat.ne_of_lt hlt)]
          exact hcells col v' hcol hv'
        · exact hcells col v' hcol hv'
      · obtain rfl : v = v' := by simpa using hv'
        have htype : S.outputTypes[texts.length]? = some .string := by
          rw [List.getElem?_eq_getElem hcol, hfits.2 _ (List.getElem_mem hcol)]
        simp only [EmitOp.assign.typed, htype, if_true, EmitView.assigned, Function.update_self]
      · rw [List.getElem?_eq_none (by simp; omega)] at hv'
        cases hv'
  · obtain ⟨hcount, honly, hex⟩ := hw
    unfold ResultHandler.setString ResultHandler.setText ResultHandler.setCell
    cases htype : S.outputTypes[texts.length]? with
    | none => exact ⟨rfl, hcount, honly, hex⟩
    | some type =>
      by_cases hstring : type = .string
      · subst hstring
        simp only [ne_eq, not_true_eq_false, if_false, wp_update]
        refine ⟨trivial, hcount, fun col type' htype' hcol => ?_, hex⟩
        have hne : col ≠ texts.length := by
          rintro rfl
          rcases hcol with hcol | hcol
          · omega
          · exact hcol (Option.some.inj (htype'.symm.trans htype))
        exact (RowData.cell_put_ne (c := .string (cstr v)) hne).trans (honly col type' htype' hcol)
      · simp only [ne_eq, hstring, not_false_eq_true, if_true]
        exact ⟨rfl, hcount, honly, hex⟩

theorem next (hw : Writing S n start rows texts (h, c)) (hn : texts.length = n) (currentRow : UInt64) :
    wp (ResultHandler.next S currentRow) (fun o s => (∃ taken, o = .ok taken) ∧
      Writing S n start (rows ++ [textRow S.outputTypes texts currentRow]) [] s) (h, c) := by
  unfold Writing at hw ⊢
  split_ifs at hw ⊢ with hfits
  · obtain ⟨view, hi, hrows, hcells⟩ := hw
    have hlength : S.outputTypes.length ≤ texts.length := hn ▸ hfits.1
    have hcell : ∀ col (htext : col < texts.length), col < S.outputTypes.length →
        view.cells col = some (some (.string (cstr texts[col]))) := by
      intro col htext hcol
      exact hcells col _ hcol (List.getElem?_eq_getElem htext)
    refine wp_mono (hi.next (fun col hcol => by rw [hcell col (by omega) hcol]; rfl) currentRow) ?_
    rintro o s ⟨rfl, hi'⟩
    refine ⟨⟨_, rfl⟩, _, hi', ?_, by simp⟩
    have hrow : view.row S.outputTypes currentRow = textRow S.outputTypes texts currentRow := by
      rw [EmitView.row, textRow, Row.mk.injEq]
      refine ⟨rfl, List.ext_getElem ?_ fun i hi _ => ?_⟩
      · simpa using hlength
      · have hcol : i < S.outputTypes.length := by simpa using hi
        simp [hcell i (by omega) hcol]
    simp only [EmitView.step, hrows, hrow]
  · obtain ⟨hcount, honly, hex⟩ := hw
    obtain ⟨col, type, htype, hcol⟩ := exists_unfit hfits
    have hnone : h.rowdata.cells 0 S.outputTypes = none :=
      cells_eq_none htype (by rw [Nat.zero_add]; exact honly col type htype hcol)
    simp only [ResultHandler.next, wp_bind, wp_update, Outcome.andThen_ok]
    have hadd := wp_addColumns_none (c := c) (h := { h with rowsEmited := h.rowsEmited + 1 }) hnone
    have hkeeps : wp (addColumns 0 S.outputTypes) (fun _ s => s.2.exchanges = c.exchanges)
        ({ h with rowsEmited := h.rowsEmited + 1 }, c) := exchanges_addColumns _ _ _
    refine wp_mono (wp_and hadd hkeeps) ?_
    rintro o s ⟨⟨rfl, -, hspoiled⟩, hsame⟩
    rw [Outcome.andThen_ok, if_neg Bool.false_ne_true, wp_pure]
    refine ⟨⟨_, rfl⟩, ?_, ?_, Eq.trans hsame hex⟩
    · rw [TableData.rowCount, hspoiled.rows]
      exact hcount
    · rw [hspoiled.rowdata]
      exact honly

theorem flush (hw : Writing S n start rows texts (h, c)) (hser : ∀ t, S.serializes t = true) :
    wp (ResultHandler.flush S) (fun o s => o = .ok () ∧ Writing S n start rows texts s ∧
      s.1.table.rowCount = 0) (h, c) := by
  unfold Writing at hw ⊢
  split_ifs at hw ⊢ with hfits
  · obtain ⟨view, hi, hview⟩ := hw
    refine wp_mono (wp_and hi.flush (flush_empties (hser _))) ?_
    rintro o s ⟨⟨rfl, hi'⟩, hempty⟩
    exact ⟨rfl, ⟨view, hi', hview⟩, hempty⟩
  · refine wp_mono (wp_flush_keeps fun hsends => absurd hsends.1 (by rw [hw.1]; exact lt_irrefl 0)) ?_
    rintro o s ⟨rfl, exch, rfl⟩
    exact ⟨rfl, hw, hw.1⟩

theorem carry (hw : Writing S n start rows texts (h, c)) (hempty : h.table.rowCount = 0)
    (hstart : emitted (start.exchanges.map Prod.fst) = []) : Between S n h ∧
      Carry S.outputTypes (emitted (c.exchanges.map Prod.fst)) (if Fits n S.outputTypes then rows else []) := by
  unfold Writing at hw
  unfold Between
  split_ifs at hw ⊢ with hfits
  · obtain ⟨view, hi, rfl, -⟩ := hw
    obtain ⟨sent, sentRows, waiting, hd⟩ := hi.delivered
    obtain rfl : waiting = [] := List.length_eq_zero_iff.mp (hd.waiting.rowCount.symm.trans hempty)
    refine ⟨hd.waiting, sentRows, ?_, hd.nonempty, ?_⟩
    · have hex : c.exchanges.map Prod.fst = _ := hd.exchanges
      rw [hex, emitted_append, hstart, List.nil_append, emitted_map_emit]
      exact hd.holds
    · rw [hd.rows_eq, List.append_nil]
  · obtain ⟨-, honly, hex⟩ := hw
    have hex : c.exchanges = start.exchanges := hex
    refine ⟨⟨hempty, honly⟩, ?_⟩
    rw [hex, hstart]
    exact ⟨[], .nil, by simp, rfl⟩

end Writing

end ResultHandler

end UdfRunner
