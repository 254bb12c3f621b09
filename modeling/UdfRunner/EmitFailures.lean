import UdfRunner.EmitBuffer

/-!
# Rows that `next` does not take

`failedNext_spoils`: what a failed `next` leaves in the table that waits, and in which runs it is sent.
-/

namespace UdfRunner
open Proc ColumnStore

namespace EmitOp
open ResultHandler
variable {S : Session} {op : EmitOp} {ops : List EmitOp} {s : ResultHandler × Channel} {waiting : List Row}

/-- A `next` that does not find all cells of its row. -/
def Fails (S : Session) (h : ResultHandler) : EmitOp → Prop
  | next _ => h.rowdata.cells 0 S.outputTypes = none
  | _ => False

def row (S : Session) (h : ResultHandler) : EmitOp → List Row
  | next currentRow => (h.rowdata.cells 0 S.outputTypes).toList.map (Row.mk currentRow)
  | _ => []

def sends (S : Session) (h : ResultHandler) : EmitOp → List TableData
  | next currentRow => ((h.rowdata.cells 0 S.outputTypes).toList.map (Row.mk currentRow)).flatMap fun row =>
      if Sends S h row then outgoing S (h.taking row) else []
  | flush => outgoing S h
  | _ => []

def taken (S : Session) : List EmitOp → ResultHandler × Channel → List Row
  | [], _ => []
  | op :: ops, s => op.row S s.1 ++ taken S ops (op.run S s).2

def sent (S : Session) : List EmitOp → ResultHandler × Channel → List TableData
  | [], _ => []
  | op :: ops, s => op.sends S s.1 ++ sent S ops (op.run S s).2

/-- After a failed `next` nothing is sent. -/
def NothingAfterFailure (S : Session) : List EmitOp → ResultHandler × Channel → Prop
  | [], _ => True
  | op :: ops, s => (op.Fails S s.1 → sent S ops (op.run S s).2 = []) ∧
      (¬op.Fails S s.1 → NothingAfterFailure S ops (op.run S s).2)

/-! ### Steps -/

def result (S : Session) (h : ResultHandler) : EmitOp → ResultHandler
  | next currentRow => (h.rowdata.cells 0 S.outputTypes).elim h fun cells =>
      if Sends S h ⟨currentRow, cells⟩ then flushed S (h.taking ⟨currentRow, cells⟩)
      else h.taking ⟨currentRow, cells⟩
  | flush => flushed S h
  | op => { h with rowdata := op.store S.outputTypes h.rowdata }

theorem run_result (hop : ¬op.Fails S s.1) :
    wp (op.run S) (fun o s' => (∃ taken, o = .ok taken) ∧ s'.1 = op.result S s.1 ∧
      s'.2.past = s.2.past ++ requests S (op.sends S s.1)) s := by
  obtain ⟨h, c⟩ := s
  by_cases hset : op.IsSet
  · refine wp_mono (run_set hset) fun o s' ho => ?_
    obtain ⟨rfl, hpast, hh⟩ := ho
    have hresult : op.sends S h = [] ∧
        op.result S h = { h with rowdata := op.store S.outputTypes h.rowdata } := by
      cases op <;> first | exact ⟨rfl, rfl⟩ | exact hset.elim
    exact ⟨⟨[], rfl⟩, hh.trans hresult.2.symm, by rw [hpast, hresult.1]; simp [requests]⟩
  cases op with
  | next currentRow =>
    obtain ⟨cells, hcells⟩ := Option.ne_none_iff_exists'.mp hop
    simp only [run, wp_bind, sends, result, hcells, Option.toList_some, List.map_singleton,
      List.flatMap_singleton, Option.elim_some]
    refine wp_mono (next_takes ⟨currentRow, cells⟩ hcells) fun o s' ho => ?_
    obtain ⟨rfl, hh, hpast⟩ := ho
    exact ⟨⟨_, rfl⟩, hh, hpast⟩
  | flush =>
    simp only [run, wp_bind]
    refine wp_mono flush_sends fun o s' ho => ?_
    obtain ⟨rfl, hh, hpast⟩ := ho
    exact ⟨⟨_, rfl⟩, hh, hpast⟩
  | _ => exact absurd trivial hset

theorem result_cases (P : ResultHandler → List TableData → List Row → Prop) {h : ResultHandler}
    (hop : ¬op.Fails S h)
    (hkeep : ∀ rowdata, P { h with rowdata } [] [])
    (hflush : P (flushed S h) (outgoing S h) [])
    (htake : ∀ row : Row, row.Typed S.outputTypes → P (h.taking row) [] [row])
    (hsend : ∀ row : Row, row.Typed S.outputTypes →
      P (flushed S (h.taking row)) (outgoing S (h.taking row)) [row]) :
    P (op.result S h) (op.sends S h) (op.row S h) := by
  cases op with
  | next currentRow =>
    obtain ⟨cells, hcells⟩ := Option.ne_none_iff_exists'.mp hop
    have htyped : (Row.mk currentRow cells).Typed S.outputTypes := RowData.cells_typed hcells
    simp only [sends, result, row, hcells, Option.toList_some, List.map_singleton,
      List.flatMap_singleton, Option.elim_some]
    split_ifs
    · exact hsend _ htyped
    · exact htake _ htyped
  | flush => exact hflush
  | _ => exact hkeep _

theorem flushed_holds {h : ResultHandler} (hw : h.table.Holds S.outputTypes waiting) :
    ∃ front rest, waiting = front.flatten ++ rest ∧
      List.Forall₂ (TableData.Holds S.outputTypes) (outgoing S h) front ∧
      (flushed S h).table.Holds S.outputTypes rest := by
  unfold outgoing flushed
  split_ifs
  · exact ⟨[waiting], [], by simp, .cons hw .nil, .empty _⟩
  · exact ⟨[], waiting, rfl, .nil, hw⟩

theorem result_holds {h : ResultHandler} (hw : h.table.Holds S.outputTypes waiting) (hop : ¬op.Fails S h) :
    ∃ front rest, waiting ++ op.row S h = front.flatten ++ rest ∧
      List.Forall₂ (TableData.Holds S.outputTypes) (op.sends S h) front ∧
      (op.result S h).table.Holds S.outputTypes rest := by
  refine result_cases (fun h' tables rows => ∃ front rest, waiting ++ rows = front.flatten ++ rest ∧
    List.Forall₂ (TableData.Holds S.outputTypes) tables front ∧
      h'.table.Holds S.outputTypes rest) hop ?_ ?_ ?_ ?_
  · exact fun _ => ⟨[], waiting, by simp, .nil, hw⟩
  · rw [List.append_nil]
    exact flushed_holds hw
  · exact fun row htyped => ⟨[], waiting ++ [row], by simp, .nil, hw.addRow htyped⟩
  · exact fun row htyped => flushed_holds (hw.addRow htyped)

/-- The table has more null flags than its rows account for. -/
def Excess (S : Session) (t : TableData) : Prop := t.rowCount * S.outputTypes.length < t.dataNulls.length

theorem excess_addRow {t : TableData} {row : Row} (h : Excess S t) (htyped : row.Typed S.outputTypes) :
    Excess S (t.addRow row) := by
  have hcells : row.cells.length = S.outputTypes.length := by
    rw [← htyped.length_eq, List.length_map]
  have hnulls : (t.addRow row).dataNulls.length = t.dataNulls.length + S.outputTypes.length := by
    rw [show (t.addRow row).dataNulls = _ from TableData.addCells_dataNulls t row.cells, List.length_append,
      ColumnStore.nulls_length, hcells]
  unfold Excess at h ⊢
  rw [TableData.addRow_rowCount, hnulls, Nat.succ_mul]
  omega

theorem flushed_excess {h : ResultHandler} (hexcess : Excess S h.table) :
    (∀ t ∈ outgoing S h, Excess S t) ∧ (outgoing S h = [] → Excess S (flushed S h).table) := by
  unfold outgoing flushed
  split_ifs
  · exact ⟨fun t ht => by rwa [List.mem_singleton.mp ht], nofun⟩
  · exact ⟨by simp, fun _ => hexcess⟩

theorem result_excess {h : ResultHandler} (hexcess : Excess S h.table) (hop : ¬op.Fails S h) :
    (∀ t ∈ op.sends S h, Excess S t) ∧ (op.sends S h = [] → Excess S (op.result S h).table) := by
  refine result_cases (fun h' tables _ => (∀ t ∈ tables, Excess S t) ∧ (tables = [] → Excess S h'.table)) hop
    ?_ ?_ ?_ ?_
  · exact fun _ => ⟨by simp, fun _ => hexcess⟩
  · exact flushed_excess hexcess
  · exact fun row htyped => ⟨by simp, fun _ => excess_addRow hexcess htyped⟩
  · exact fun row htyped => flushed_excess (excess_addRow hexcess htyped)

/-- A failed call sends nothing and leaves null flags behind. -/
theorem run_fails (hop : op.Fails S s.1) :
    wp (op.run S) (fun o s' => (∃ taken, o = .ok taken) ∧ s'.2.past = s.2.past ∧
      Spoiled { s.1 with rowsEmited := s.1.rowsEmited + 1 } s'.1) s := by
  obtain ⟨h, c⟩ := s
  cases op with
  | next currentRow =>
    simp only [run, wp_bind]
    refine wp_mono (next_fails hop currentRow) fun o s' ho => ?_
    obtain ⟨rfl, ho⟩ := ho
    exact ⟨⟨_, rfl⟩, ho⟩
  | _ => exact hop.elim

theorem sends_of_fails {h : ResultHandler} (hop : op.Fails S h) : op.sends S h = [] ∧ op.row S h = [] := by
  cases op with
  | next currentRow =>
    have hnone : h.rowdata.cells 0 S.outputTypes = none := hop
    simp [sends, row, hnone]
  | _ => exact hop.elim

theorem run_past (op : EmitOp) (s : ResultHandler × Channel) :
    wp (op.run S) (fun o s' => (∃ taken, o = .ok taken) ∧
      s'.2.past = s.2.past ++ requests S (op.sends S s.1)) s := by
  by_cases hop : op.Fails S s.1
  · refine wp_mono (run_fails hop) fun o s' ho => ⟨ho.1, ?_⟩
    rw [ho.2.1, (sends_of_fails hop).1]
    simp [requests]
  · exact wp_mono (run_result hop) fun o s' ho => ⟨ho.1, ho.2.2⟩

theorem spoiled_excess {h h' : ResultHandler} (hspoiled : Spoiled h h')
    (hle : h.table.rowCount * S.outputTypes.length ≤ h.table.dataNulls.length) : Excess S h'.table := by
  have hrows : h'.table.rowCount = h.table.rowCount := by rw [TableData.rowCount, hspoiled.rows]; rfl
  unfold Excess
  rw [hrows]
  exact hle.trans_lt hspoiled.nulls

/-! ### Runs -/

theorem runAll_past (ops : List EmitOp) (s : ResultHandler × Channel) :
    wp (runAll S ops) (fun o s' => (∃ taken, o = .ok taken) ∧
      s'.2.past = s.2.past ++ requests S (sent S ops s)) s := by
  induction ops generalizing s with
  | nil => exact ⟨⟨[], rfl⟩, (List.append_nil _).symm⟩
  | cons op ops ih =>
    obtain ⟨⟨taken, ho⟩, hpast⟩ := run_past (S := S) op s
    rw [runAll, wp_bind]
    refine wp_mono (Q := fun o s' => o = .ok taken ∧ s' = (op.run S s).2) ⟨ho, rfl⟩ fun o s₁ h => ?_
    obtain ⟨rfl, rfl⟩ := h
    rw [Outcome.andThen_ok, wp_bind]
    refine wp_mono (ih (op.run S s).2) fun o s' ho' => ?_
    obtain ⟨⟨rest, rfl⟩, hrest⟩ := ho'
    refine ⟨⟨_, rfl⟩, ?_⟩
    show s'.2.past = _
    rw [hrest, hpast, sent]
    simp [requests]

theorem run_excess (hexcess : Excess S s.1.table) :
    (∀ t ∈ op.sends S s.1, Excess S t) ∧ (op.sends S s.1 = [] → Excess S (op.run S s).2.1.table) := by
  by_cases hop : op.Fails S s.1
  · rw [(sends_of_fails hop).1]
    exact ⟨by simp, fun _ => spoiled_excess (run_fails hop).2.2 hexcess.le⟩
  · rw [show (op.run S s).2.1 = op.result S s.1 from (run_result hop).2.1]
    exact result_excess hexcess hop

theorem sent_excess (hexcess : Excess S s.1.table) (hsent : sent S ops s ≠ []) :
    ∃ t ∈ sent S ops s, Excess S t := by
  induction ops generalizing s with
  | nil => exact absurd rfl hsent
  | cons op ops ih =>
    obtain ⟨hsends, hstays⟩ := run_excess hexcess
    rw [sent] at hsent ⊢
    rcases heq : op.sends S s.1 with _ | ⟨t, ts⟩
    · rw [heq, List.nil_append] at hsent
      obtain ⟨t, ht, hexcess⟩ := ih (hstays heq) hsent
      exact ⟨t, List.mem_append_right _ ht, hexcess⟩
    · exact ⟨t, by simp, hsends t (by rw [heq]; exact List.mem_cons_self ..)⟩

/-- The tables sent are the rows taken, but for those that still wait. -/
structure SendsTaken (S : Session) (tables : List TableData) (rows : List Row) (final : TableData) : Prop where
  nulls : ∀ t ∈ tables, t.dataNulls.length = t.rowCount * S.outputTypes.length
  rows : ∃ front waiting, TableData.decodeAll S.outputTypes tables = some front ∧ rows = front ++ waiting ∧
    waiting.length = final.rowCount

def final (S : Session) (ops : List EmitOp) (s : ResultHandler × Channel) : ResultHandler × Channel :=
  (runAll S ops s).2

theorem final_cons (op : EmitOp) (ops : List EmitOp) (s : ResultHandler × Channel) :
    final S (op :: ops) s = final S ops (op.run S s).2 := by
  obtain ⟨⟨taken, ho⟩, -⟩ := run_past (S := S) op s
  obtain ⟨⟨rest, hrest⟩, -⟩ := runAll_past (S := S) ops (op.run S s).2
  have hrun : op.run S s = (.ok taken, (op.run S s).2) := Prod.ext ho rfl
  have hruns : runAll S ops (op.run S s).2 = (.ok rest, (runAll S ops (op.run S s).2).2) := Prod.ext hrest rfl
  rw [final, runAll, run_bind _ _ hrun, run_bind _ _ hruns]
  rfl

theorem run_quiet (op : EmitOp) (hsends : op.sends S s.1 = []) :
    (op.run S s).2.1.table.rowCount = s.1.table.rowCount + (op.row S s.1).length := by
  have hflushed : ∀ h : ResultHandler, outgoing S h = [] → (flushed S h).table.rowCount = h.table.rowCount := by
    intro h
    unfold outgoing flushed
    split_ifs
    · exact nofun
    · exact fun _ => rfl
  have htaking : ∀ (h : ResultHandler) (row : Row), (h.taking row).table.rowCount = h.table.rowCount + 1 :=
    fun h row => h.table.addRow_rowCount row
  by_cases hop : op.Fails S s.1
  · rw [(sends_of_fails hop).2, TableData.rowCount, (run_fails hop).2.2.rows]
    rfl
  rw [show (op.run S s).2.1 = op.result S s.1 from (run_result hop).2.1]
  revert hsends
  refine result_cases (fun h' tables rows => tables = [] →
    h'.table.rowCount = s.1.table.rowCount + rows.length) hop ?_ ?_ ?_ ?_
  · exact fun _ _ => rfl
  · exact fun hnone => hflushed _ hnone
  · exact fun row _ _ => htaking _ row
  · exact fun row _ hnone => (hflushed _ hnone).trans (htaking _ row)

theorem final_quiet (hsent : sent S ops s = []) :
    (final S ops s).1.table.rowCount = s.1.table.rowCount + (taken S ops s).length := by
  induction ops generalizing s with
  | nil => rfl
  | cons op ops ih =>
    obtain ⟨hsends, hrest⟩ := List.append_eq_nil_iff.mp hsent
    rw [final_cons, ih hrest, run_quiet op hsends, taken, List.length_append]
    omega

/-- Where nothing is sent after a failure, the tables sent hold the rows taken. -/
theorem sent_holds (hw : s.1.table.Holds S.outputTypes waiting) (hnothing : NothingAfterFailure S ops s) :
    ∃ front rest, waiting ++ taken S ops s = front.flatten ++ rest ∧
      List.Forall₂ (TableData.Holds S.outputTypes) (sent S ops s) front ∧
      rest.length = (final S ops s).1.table.rowCount := by
  induction ops generalizing s waiting with
  | nil => exact ⟨[], waiting, by simp [taken], .nil, hw.rowCount.symm⟩
  | cons op ops ih =>
    by_cases hop : op.Fails S s.1
    · have hsent : sent S (op :: ops) s = [] := by
        rw [sent, (sends_of_fails hop).1, hnothing.1 hop]
        rfl
      refine ⟨[], waiting ++ taken S (op :: ops) s, rfl, hsent ▸ .nil, ?_⟩
      rw [final_quiet hsent, hw.rowCount, List.length_append]
    · obtain ⟨front, rest, hrows, hfront, hrest⟩ := result_holds hw hop
      rw [show op.result S s.1 = (op.run S s).2.1 from (run_result hop).2.1.symm] at hrest
      obtain ⟨front', rest', hrows', hfront', hrest'⟩ := ih hrest (hnothing.2 hop)
      refine ⟨front ++ front', rest', ?_, List.rel_append hfront hfront', by rw [final_cons, hrest']⟩
      rw [taken, ← List.append_assoc, hrows, List.append_assoc, hrows']
      simp

/-- Where something is, one of the tables sent has null flags too many. -/
theorem failure_excess (hw : s.1.table.Holds S.outputTypes waiting)
    (hsomething : ¬NothingAfterFailure S ops s) :
    ∃ t ∈ sent S ops s, Excess S t := by
  induction ops generalizing s waiting with
  | nil => exact absurd trivial hsomething
  | cons op ops ih =>
    rw [sent]
    by_cases hop : op.Fails S s.1
    · have hsent : sent S ops (op.run S s).2 ≠ [] := fun hsent => hsomething ⟨fun _ => hsent, absurd hop⟩
      have hle : s.1.table.rowCount * S.outputTypes.length ≤ s.1.table.dataNulls.length := by
        rw [hw.nulls_eq, nulls_length, hw.length_flatten, hw.rowCount]
      obtain ⟨t, ht, hexcess⟩ := sent_excess (spoiled_excess (run_fails hop).2.2 hle) hsent
      exact ⟨t, List.mem_append_right _ ht, hexcess⟩
    · obtain ⟨front, rest, -, -, hrest⟩ := result_holds hw hop
      rw [show op.result S s.1 = (op.run S s).2.1 from (run_result hop).2.1.symm] at hrest
      obtain ⟨t, ht, hexcess⟩ := ih hrest fun hnothing => hsomething ⟨fun h => absurd h hop, fun _ => hnothing⟩
      exact ⟨t, List.mem_append_right _ ht, hexcess⟩

/-- The tables sent are right as long as none is sent after a failed `next`. -/
theorem sendsTaken_iff (hw : s.1.table.Holds S.outputTypes []) :
    SendsTaken S (sent S ops s) (taken S ops s) (final S ops s).1.table ↔ NothingAfterFailure S ops s := by
  constructor
  · intro hsends
    by_contra hsomething
    obtain ⟨t, ht, hexcess⟩ := failure_excess hw hsomething
    exact (hsends.nulls t ht).not_gt hexcess
  · intro hnothing
    obtain ⟨front, rest, hrows, hfront, hrest⟩ := sent_holds hw hnothing
    refine ⟨fun t ht => ?_, front.flatten, rest, TableData.decodeAll_of_forall₂ hfront, hrows, hrest⟩
    obtain ⟨i, hi, rfl⟩ := List.getElem_of_mem ht
    have hholds := List.Forall₂.get hfront hi (hfront.length_eq ▸ hi)
    rw [List.get_eq_getElem] at hholds
    rw [hholds.nulls_eq, nulls_length, hholds.length_flatten, hholds.rowCount]

end EmitOp

/-- A `next` returns `false` if a cell of the row is missing, and always leaves traces of the row. So the
tables sent in a run are right if and only if none is sent after such a `next`. -/
theorem failedNext_spoils (S : Session) :
    (∀ (h : ResultHandler) (c : Channel) (currentRow : UInt64),
      wp (ResultHandler.next S currentRow) (fun o s =>
        (o = .ok false ↔ h.rowdata.cells 0 S.outputTypes = none) ∧
        (o = .ok false → ¬ResultHandler.Untouched h s.1)) (h, c)) ∧
    ∀ (ops : List EmitOp) (start : Channel),
      (EmitOp.final S ops ({}, start)).2.past =
        start.past ++ ResultHandler.requests S (EmitOp.sent S ops ({}, start)) ∧
      (EmitOp.SendsTaken S (EmitOp.sent S ops ({}, start)) (EmitOp.taken S ops ({}, start))
          (EmitOp.final S ops ({}, start)).1.table ↔
        EmitOp.NothingAfterFailure S ops ({}, start)) := by
  refine ⟨fun h c currentRow => ?_, fun ops start => ⟨(EmitOp.runAll_past ops ({}, start)).2, ?_⟩⟩
  · rcases hcells : h.rowdata.cells 0 S.outputTypes with _ | cells
    · refine wp_mono (ResultHandler.next_fails hcells currentRow) fun o s ho => ?_
      obtain ⟨rfl, -, hspoiled⟩ := ho
      refine ⟨by simp, fun _ huntouched => ?_⟩
      exact hspoiled.nulls.ne (congrArg (·.dataNulls.length) huntouched.1).symm
    · refine wp_mono (ResultHandler.next_takes ⟨currentRow, cells⟩ hcells) fun o s ho => ?_
      obtain ⟨rfl, -⟩ := ho
      simp
  · exact EmitOp.sendsTaken_iff (.empty _)

/-- One INT32 column, and a database that takes every table. -/
def intSession : Session where
  server := fun _ => .message { type := .mtEmit }
  serializes := fun _ => true
  outTypes := [{ type := .int32 }]

/-- The first `next` finds no value; the row after it goes out with two null flags. -/
theorem failedNext_fail :
    ¬∀ (S : Session) (ops : List EmitOp) (start : Channel),
      (∀ currentRow : UInt64, wp (ResultHandler.next S currentRow) (fun o s =>
        o = .ok false → ResultHandler.Untouched (EmitOp.final S ops ({}, start)).1 s.1)
        (EmitOp.final S ops ({}, start))) ∧
      EmitOp.SendsTaken S (EmitOp.sent S ops ({}, start)) (EmitOp.taken S ops ({}, start))
        (EmitOp.final S ops ({}, start)).1.table := by
  intro hall
  have hsends := (hall intSession [.next 1, .setInt32 0 5, .next 1, .flush] {}).2
  have hnulls := hsends.nulls
    { rows := some 1, rowNumber := [1], dataNulls := [false, false], dataInt32 := [5] }
    (by decide)
  exact absurd hnulls (by decide)

end UdfRunner
