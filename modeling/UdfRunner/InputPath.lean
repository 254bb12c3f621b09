import UdfRunner.TableIterator

/-!
# The iterator reads the batches row by row

`AtRow done row todo it`: the current batch is `done ++ row :: todo` and the counters of `it` stand on
`row`. `Reads S quiet rows s`: what is still to be read, the current row included, is `rows`, and the
server will answer accordingly as long as only `quiet` requests come in between. `verdict` is what the
iterator makes of any answer.
-/

namespace UdfRunner
open Proc ColumnStore

/-- The offsets of `cells`, when the cells `before` were counted already. -/
def OffsetsOk {n : Nat} (before cells : List (Option Cell)) (offsets : Vector Nat n) : Prop :=
  ∀ i x, cells[i]? = some (some x) →
    offsets[i]? = some (column Cell.storage x.storage (before ++ cells.take i)).length

/-- The counters after `cells`. -/
def ValuesOk (cells : List (Option Cell)) (v : ValuesPerRow) : Prop :=
  ∀ k, v.count k = (column Cell.storage (some k) cells).length

namespace OffsetsOk
variable {n : Nat} {before cells : List (Option Cell)} {offsets : Vector Nat n}

theorem nil (before : List (Option Cell)) (offsets : Vector Nat n) : OffsetsOk before [] offsets := by
  simp [OffsetsOk]

theorem null (h : OffsetsOk before cells offsets) : OffsetsOk before (cells ++ [none]) offsets := by
  intro i x hx
  rcases Nat.lt_or_ge i cells.length with hi | hi
  · rw [List.getElem?_append_left hi] at hx
    rw [List.take_append_of_le_length (by omega)]
    exact h i x hx
  · rw [List.getElem?_append_right hi, List.getElem?_singleton] at hx
    split_ifs at hx
    simp at hx

theorem cell (h : OffsetsOk before cells offsets) (hlt : cells.length < n) (x : Cell) :
    OffsetsOk before (cells ++ [some x]) (offsets.setIfInBounds cells.length
      (column Cell.storage x.storage (before ++ cells)).length) := by
  intro i y hy
  rcases Nat.lt_trichotomy i cells.length with hi | rfl | hi
  · rw [List.getElem?_append_left hi] at hy
    rw [List.take_append_of_le_length (by omega), Vector.getElem?_setIfInBounds_ne (by omega)]
    exact h i y hy
  · obtain rfl : x = y := by simpa using hy
    rw [List.take_left, Vector.getElem?_setIfInBounds_self_of_lt hlt]
  · rw [List.getElem?_eq_none (by simp; omega)] at hy
    simp at hy

end OffsetsOk

namespace ValuesOk
variable {cells : List (Option Cell)} {v : ValuesPerRow}

theorem empty : ValuesOk [] {} := fun k => ValuesPerRow.count_empty k

theorem null (h : ValuesOk cells v) : ValuesOk (cells ++ [none]) v := by
  intro k
  simpa using h k

theorem cell (h : ValuesOk cells v) {x : Cell} {k : Storage} (hk : x.storage = some k) :
    ValuesOk (cells ++ [some x]) (v.increment k) := by
  intro k'
  by_cases hkk : k' = k
  · subst hkk
    rw [ValuesPerRow.count_increment_self, h k', column_append, column_some_cons, if_pos hk]
    simp
  · rw [ValuesPerRow.count_increment_ne v hkk, h k', column_append, column_some_cons, hk,
      if_neg (by simpa using Ne.symm hkk)]
    simp

end ValuesOk

/-! ### What is made of an answer -/

inductive Verdict
  | rejected (msg : ByteString)
  | ended
  | batch
deriving DecidableEq, Repr

def dataRequest (reset : Bool) : VmRequest := if reset then .reset else .next

/-- The message part of a reply, or what there is of it. -/
def Reply.response : Reply → Response
  | .message r => r
  | .unparsable leftover => leftover

/-- What `receive_next_data` makes of its reply. -/
def Session.verdict (S : Session) (reset : Bool) : Reply → Verdict
  | .unparsable _ => .rejected (str "F-UDF-CL-LIB-1060: Communication error: failed to parse data")
  | .message r =>
    if r.connectionId ≠ S.connectionId then
      .rejected (str "F-UDF-CL-LIB-1061: Communication error: wrong connection id, expected "
        ++ str (toString S.connectionId.toNat) ++ str " got " ++ str (toString r.connectionId.toNat))
    else if r.type = .mtDone then .ended
    else if r.type = .mtClose then r.close.elim .ended fun msg => .rejected (cstr msg)
    else if (reset ∧ r.type ≠ .mtReset) ∨ (¬reset ∧ r.type ≠ .mtNext) then
      .rejected (str "F-UDF-CL-LIB-1063: Communication error: wrong message type, got "
        ++ convertMessageTypeToString r.type)
    else .batch

namespace TableIterator
variable {types : List Datatype} {it : TableIterator types} {c : Channel}

@[simp] theorem wp_update {Q : Outcome Exception Unit → TableIterator types × Channel → Prop}
    (f : TableIterator types → TableIterator types) :
    wp (update f) Q (it, c) ↔ Q (.ok ()) (f it, c) := Iff.rfl

@[simp] theorem wp_onChannel {α : Type}
    {Q : Outcome Exception α → TableIterator types × Channel → Prop} (m : Proc Channel Exception α) :
    wp (onChannel m) Q (it, c) ↔ wp m (fun o c => Q o (it, c)) c := Iff.rfl

@[simp] theorem wp_setException {Q : Outcome Exception Unit → TableIterator types × Channel → Prop}
    (msg : ByteString) :
    wp (setException msg) Q (it, c) ↔ Q (.ok ()) (it, { c with exch := ⟨msg, true⟩ }) := Iff.rfl

theorem wp_element {α : Type} {Q : Outcome Exception α → TableIterator types × Channel → Prop}
    {data : List α} {index : Nat} {v : α} (h : data[index]? = some v) :
    wp (element data index) Q (it, c) ↔ Q (.ok v) (it, c) := by
  simp only [element, h, wp_pure]

theorem wp_takeOffset {Q : Outcome Exception Unit → TableIterator types × Channel → Prop} {col : Nat}
    {k : Storage} :
    wp (takeOffset col k) Q (it, c) ↔ Q (.ok ()) ({ it with
      colOffsets := it.colOffsets.setIfInBounds col (it.valuesPerRow.count k)
      valuesPerRow := it.valuesPerRow.increment k }, c) := Iff.rfl

theorem advanceColumns_cell {type : Datatype} {k : Storage} (hk : type.storage = some k)
    {col nullIndex : Nat} {rest : List Datatype} (hnull : it.table.dataNulls[nullIndex]? = some false)
    {Q : Outcome Exception Unit → TableIterator types × Channel → Prop} :
    wp (advanceColumns col nullIndex (type :: rest)) Q (it, c) ↔
      wp (do takeOffset col k; advanceColumns (col + 1) (nullIndex + 1) rest) Q (it, c) := by
  simp only [advanceColumns, wp_bind, wp_get, Outcome.andThen_ok, wp_element hnull]
  cases type <;> simp only [Datatype.storage, Option.some.injEq, reduceCtorEq] at hk <;> subst hk <;>
    simp only [Bool.false_eq_true, if_false, wp_bind]

theorem wp_advanceColumns {Q : Outcome Exception Unit → TableIterator types × Channel → Prop}
    {before pre post : List (Option Cell)} {rest : List Datatype} {nullIndex : Nat}
    (htyped : Typed Cell.storage (rest.map Datatype.storage) post)
    (hnulls : ∀ (i : Nat) (cell : Option Cell), post[i]? = some cell →
      it.table.dataNulls[nullIndex + i]? = some cell.isNone)
    (hlen : pre.length + rest.length = types.length)
    (hvalues : ValuesOk (before ++ pre) it.valuesPerRow)
    (hoffsets : OffsetsOk before pre it.colOffsets)
    (hQ : ∀ offsets values, OffsetsOk before (pre ++ post) offsets →
      ValuesOk (before ++ (pre ++ post)) values →
      Q (.ok ()) ({ it with colOffsets := offsets, valuesPerRow := values }, c)) :
    wp (advanceColumns pre.length nullIndex rest) Q (it, c) := by
  induction rest generalizing it pre post nullIndex with
  | nil =>
    obtain rfl : post = [] := by simpa [Typed] using htyped
    simpa [advanceColumns] using hQ it.colOffsets it.valuesPerRow (by simpa using hoffsets)
      (by simpa using hvalues)
  | cons type rest ih =>
    rw [List.map_cons] at htyped
    obtain ⟨cell, post, hcell, hpost, rfl⟩ := List.forall₂_cons_left_iff.mp htyped
    rw [List.length_cons] at hlen
    have hnull : it.table.dataNulls[nullIndex]? = some cell.isNone := hnulls 0 cell rfl
    have hnulls' : ∀ (i : Nat) (cell : Option Cell), post[i]? = some cell →
        it.table.dataNulls[nullIndex + 1 + i]? = some cell.isNone := by
      intro i cell' hi
      have := hnulls (i + 1) cell' (by simpa using hi)
      rwa [Nat.add_assoc, Nat.add_comm 1 i]
    have hpre : ∀ x : Option Cell, (pre ++ [x]).length = pre.length + 1 := by simp
    cases cell with
    | none =>
      simp only [advanceColumns, wp_bind, wp_get, Outcome.andThen_ok, wp_element hnull,
        Option.isNone_none, if_true]
      rw [← hpre none]
      refine ih hpost hnulls' (by rw [hpre]; omega) ?_ hoffsets.null ?_
      · rw [← List.append_assoc]; exact hvalues.null
      · intro o v ho hv
        exact hQ o v (by simpa using ho) (by simpa using hv)
    | some x =>
      have hstorage : x.storage = type.storage := hcell x rfl
      obtain ⟨k, hk⟩ : ∃ k, x.storage = some k := by cases x <;> exact ⟨_, rfl⟩
      rw [advanceColumns_cell (hstorage ▸ hk) hnull, wp_bind, wp_takeOffset, Outcome.andThen_ok,
        ← hpre (some x)]
      have hcount : it.valuesPerRow.count k =
          (column Cell.storage x.storage (before ++ pre)).length := hk ▸ hvalues k
      refine ih hpost hnulls' (by rw [hpre]; omega) ?_ ?_ ?_
      · rw [← List.append_assoc]; exact hvalues.cell hk
      · rw [hcount]
        exact hoffsets.cell (by omega) x
      · intro o v ho hv
        exact hQ o v (by simpa using ho) (by simpa using hv)

/-- The iterator stands on `row`; `done` and `todo` are the rows of its batch before and after it. -/
structure AtRow (done : List Row) (row : Row) (todo : List Row) (it : TableIterator types) :
    Prop where
  holds : it.table.Holds types (done ++ row :: todo)
  received : it.rowsReceived = it.table.rowCount
  completed : it.rowsCompleted = done.length
  currentRow : it.currentRow = row.rowNumber
  values : ValuesOk (cellsOf (done ++ [row])) it.valuesPerRow
  offsets : OffsetsOk (cellsOf done) row.cells it.colOffsets

theorem nulls_getElem? {t : TableData} {done todo : List Row} {row : Row}
    (h : t.Holds types (done ++ row :: todo)) {col : Nat} {cell : Option Cell}
    (hcell : row.cells[col]? = some cell) :
    t.dataNulls[done.length * types.length + col]? = some cell.isNone := by
  have hlen : (cellsOf done).length = done.length * types.length := by
    have hdone : ∀ r ∈ done, r.cells.length = types.length := fun r hr => h.cells_length (by simp [hr])
    clear h
    induction done with
    | nil => simp
    | cons r done ih =>
      rw [cellsOf_cons, List.length_append, hdone r (by simp), ih fun r' hr => hdone r' (by simp [hr])]
      simp [Nat.succ_mul, Nat.add_comm]
  have hlt : col < row.cells.length := (List.getElem?_eq_some_iff.mp hcell).1
  rw [h.nulls_eq, nulls, List.getElem?_map, cellsOf_append, cellsOf_cons, ← hlen,
    List.getElem?_append_right (by omega), Nat.add_sub_cancel_left, List.getElem?_append_left hlt, hcell]
  rfl

theorem wp_incrementColOffsets {Q : Outcome Exception Unit → TableIterator types × Channel → Prop}
    (reset : Bool) (done : List Row) {todo : List Row} {row : Row}
    (hholds : it.table.Holds types (done ++ row :: todo))
    (hreceived : it.rowsReceived = it.table.rowCount) (hcompleted : it.rowsCompleted = done.length)
    (hvalues : ValuesOk (cellsOf done) (if reset then {} else it.valuesPerRow))
    (hQ : ∀ it' : TableIterator types, AtRow done row todo it' → Q (.ok ()) (it', c)) :
    wp (incrementColOffsets reset) Q (it, c) := by
  have hcells : row.cells.length = types.length := hholds.cells_length (by simp)
  have hrow : it.table.rowNumber[it.rowsCompleted]? = some row.rowNumber := by
    rw [hholds.rowNumber, hcompleted]
    simp
  have henough : ¬ (it.table.dataNulls.length : Int) ≤
      (it.rowsCompleted * types.length : Nat) + types.length - 1 := by
    rw [hholds.nulls_eq, ColumnStore.nulls_length, hholds.length_flatten, hcompleted]
    simp only [List.length_append, List.length_cons]
    have : (done.length + (todo.length + 1)) * types.length =
        done.length * types.length + todo.length * types.length + types.length := by ring
    rw [this]
    push_cast
    omega
  simp only [incrementColOffsets, wp_bind, wp_get, Outcome.andThen_ok, wp_element hrow, wp_update]
  rw [if_neg henough]
  show wp (advanceColumns ([] : List (Option Cell)).length _ types) Q _
  refine wp_advanceColumns (hholds.typed row (by simp)) ?_ (by simp) (by simpa using hvalues)
    (OffsetsOk.nil _ _) ?_
  · intro i cell hcell
    rw [hcompleted]
    exact nulls_getElem? hholds hcell
  · intro offsets values ho hv
    exact hQ _ ⟨hholds, hreceived, hcompleted, rfl, by simpa using hv, by simpa using ho⟩

/-! ### What the server answers to data requests -/

section
variable {S : Session} {reset : Bool} {it : TableIterator S.inputTypes}

/-- The iterator with an answer in its buffer and no rows. -/
def holding (it : TableIterator S.inputTypes) (r : Response) : TableIterator S.inputTypes :=
  { it with rowsReceived := 0, rowsCompleted := 0, nextResponse := r }

/-- The iterator with a batch, before it stands on a row. -/
def accepting (it : TableIterator S.inputTypes) (r : Response) : TableIterator S.inputTypes :=
  { it.holding r with rowsReceived := r.next.rowCount, rowsInGroup := r.next.rowsInGroup }

theorem wp_receiveNextData {Q : Outcome Exception Unit → TableIterator S.inputTypes × Channel → Prop} :
    wp (receiveNextData S reset) Q (it, c) ↔
      match S.verdict reset (c.answer S (dataRequest reset)) with
      | .rejected msg => Q (.ok ()) (it.holding (c.answer S (dataRequest reset)).response,
          { c.after S (dataRequest reset) with exch := ⟨msg, true⟩ })
      | .ended => Q (.ok ()) (it.holding (c.answer S (dataRequest reset)).response,
          c.after S (dataRequest reset))
      | .batch => wp (incrementColOffsets true) Q
          (it.accepting (c.answer S (dataRequest reset)).response, c.after S (dataRequest reset)) := by
  simp only [receiveNextData, wp_bind, wp_update, wp_onChannel, Channel.wp_exchange, Outcome.andThen_ok]
  rw [show (if reset = true then VmRequest.reset else .next) = dataRequest reset from rfl]
  cases c.answer S (dataRequest reset) with
  | unparsable leftover => rfl
  | message r =>
    simp only [Session.verdict, Reply.response, wp_bind, wp_update, Outcome.andThen_ok]
    split_ifs with hid hdone hclose htype
    · rfl
    · rfl
    · cases r.close <;> rfl
    · rfl
    · rfl

end

/-- The answer to the next data request, after `past`, is the batch `t`. -/
def AnswersBatch (S : Session) (reset : Bool) (past : List Request) (t : TableData) : Prop :=
  ∃ r, S.server (past ++ [Channel.request S (if reset then .reset else .next)]) = .message r ∧
    r.connectionId = S.connectionId ∧ r.type = (if reset then .mtReset else .mtNext) ∧ r.next = t

/-- The answer to the next `MT_NEXT`, after `past`, is `MT_DONE`. -/
def AnswersDone (S : Session) (past : List Request) : Prop :=
  ∃ r, S.server (past ++ [Channel.request S .next]) = .message r ∧
    r.connectionId = S.connectionId ∧ r.type = .mtDone

/-- The next data requests are answered by `batches` and then `MT_DONE`, as long as the requests in
between are `quiet`. -/
def Feeds (S : Session) (quiet : Request → Prop) : List Request → List TableData → Prop
  | past, [] => ∀ mid : List Request, (∀ r ∈ mid, quiet r) → AnswersDone S (past ++ mid)
  | past, t :: ts => ∀ mid : List Request, (∀ r ∈ mid, quiet r) →
    AnswersBatch S false (past ++ mid) t ∧ Feeds S quiet (past ++ mid ++ [Channel.request S .next]) ts

theorem Feeds.append {S : Session} {quiet : Request → Prop} {past mid : List Request}
    {ts : List TableData} (h : Feeds S quiet past ts) (hmid : ∀ r ∈ mid, quiet r) :
    Feeds S quiet (past ++ mid) ts := by
  cases ts with
  | nil =>
    intro mid' hmid'
    rw [List.append_assoc]
    exact h (mid ++ mid') fun r hr => (List.mem_append.mp hr).elim (hmid r) (hmid' r)
  | cons t ts =>
    intro mid' hmid'
    rw [List.append_assoc]
    exact h (mid ++ mid') fun r hr => (List.mem_append.mp hr).elim (hmid r) (hmid' r)

theorem Feeds.mono {S : Session} {quiet quiet' : Request → Prop} {past : List Request} {ts : List TableData}
    (h : Feeds S quiet past ts) (hquiet : ∀ r, quiet' r → quiet r) : Feeds S quiet' past ts := by
  induction ts generalizing past with
  | nil => exact fun mid hmid => h mid fun r hr => hquiet r (hmid r hr)
  | cons t ts ih =>
    intro mid hmid
    obtain ⟨hanswers, hrest⟩ := h mid fun r hr => hquiet r (hmid r hr)
    exact ⟨hanswers, ih hrest⟩

/-- After `past`, the data requests bring exactly `rows`. -/
def Ahead (S : Session) (quiet : Request → Prop) (past : List Request) (rows : List Row) : Prop :=
  ∃ batches later, List.Forall₂ (TableData.Holds S.inputTypes) batches later ∧
    (∀ r ∈ later, r ≠ []) ∧ Feeds S quiet past batches ∧ rows = later.flatten

/-- What is left to be read, the current row included, is `rows`. -/
def Reads (S : Session) (quiet : Request → Prop) (rows : List Row)
    (s : TableIterator S.inputTypes × Channel) : Prop :=
  (s.1.rowsReceived = 0 ∧ rows = []) ∨
    ∃ done row todo rest, AtRow done row todo s.1 ∧ Ahead S quiet s.2.past rest ∧
      rows = row :: todo ++ rest

theorem Ahead.append {S : Session} {quiet : Request → Prop} {past mid : List Request}
    {rows : List Row} (h : Ahead S quiet past rows) (hmid : ∀ r ∈ mid, quiet r) :
    Ahead S quiet (past ++ mid) rows := by
  obtain ⟨batches, later, hholds, hne, hfeeds, hrows⟩ := h
  exact ⟨batches, later, hholds, hne, hfeeds.append hmid, hrows⟩

theorem Reads.append {S : Session} {quiet : Request → Prop} {rows : List Row} {mid : List Request}
    {it : TableIterator S.inputTypes} {c c' : Channel} (h : Reads S quiet rows (it, c))
    (hmid : ∀ r ∈ mid, quiet r) (hpast : c'.past = c.past ++ mid) : Reads S quiet rows (it, c') := by
  obtain ⟨hz, rfl⟩ | ⟨done, row, todo, rest, hat, hahead, rfl⟩ := h
  · exact .inl ⟨hz, rfl⟩
  · exact .inr ⟨done, row, todo, rest, hat, hpast ▸ hahead.append hmid, rfl⟩

theorem Reads.received {S : Session} {quiet : Request → Prop} {rows : List Row}
    {s : TableIterator S.inputTypes × Channel} (h : Reads S quiet rows s) :
    s.1.rowsReceived = 0 ↔ rows = [] := by
  obtain ⟨hz, rfl⟩ | ⟨done, row, todo, rest, hat, -, rfl⟩ := h
  · simp [hz]
  · simp [hat.received, hat.holds.rowCount]

section
variable {S : Session} {quiet : Request → Prop} {it : TableIterator S.inputTypes}

theorem AnswersBatch.verdict {reset : Bool} {t : TableData} (h : AnswersBatch S reset c.past t) :
    S.verdict reset (c.answer S (dataRequest reset)) = .batch ∧
      (c.answer S (dataRequest reset)).response.next = t := by
  obtain ⟨r, hr, hid, htype, rfl⟩ := h
  have hanswer : c.answer S (dataRequest reset) = .message r := hr
  have hne : r.type ≠ .mtDone ∧ r.type ≠ .mtClose := by rw [htype]; cases reset <;> decide
  have hexp : ¬ ((reset = true ∧ r.type ≠ .mtReset) ∨ (¬ reset = true ∧ r.type ≠ .mtNext)) := by
    rw [htype]; cases reset <;> decide
  rw [hanswer]
  refine ⟨?_, rfl⟩
  rw [Session.verdict, if_neg (by simpa using hid), if_neg hne.1, if_neg hne.2, if_neg hexp]

theorem AnswersDone.verdict (h : AnswersDone S c.past) :
    S.verdict false (c.answer S (dataRequest false)) = .ended := by
  obtain ⟨r, hr, hid, htype⟩ := h
  have hanswer : c.answer S (dataRequest false) = .message r := hr
  rw [hanswer, Session.verdict, if_neg (by simpa using hid), if_pos htype]

theorem wp_receiveBatch {Q : Outcome Exception Unit → TableIterator S.inputTypes × Channel → Prop}
    {reset : Bool} {t : TableData} {row : Row} {todo : List Row} (hans : AnswersBatch S reset c.past t)
    (hholds : t.Holds S.inputTypes (row :: todo))
    (hQ : ∀ it' : TableIterator S.inputTypes, AtRow [] row todo it' →
      Q (.ok ()) (it', c.after S (if reset then .reset else .next))) :
    wp (receiveNextData S reset) Q (it, c) := by
  obtain ⟨hverdict, rfl⟩ := hans.verdict
  rw [wp_receiveNextData, hverdict]
  exact wp_incrementColOffsets true [] hholds rfl rfl ValuesOk.empty hQ

theorem wp_receiveDone {Q : Outcome Exception Unit → TableIterator S.inputTypes × Channel → Prop}
    (hans : AnswersDone S c.past)
    (hQ : ∀ it' : TableIterator S.inputTypes, it'.rowsReceived = 0 → Q (.ok ()) (it', c.after S .next)) :
    wp (receiveNextData S false) Q (it, c) := by
  rw [wp_receiveNextData, hans.verdict]
  exact hQ _ rfl

theorem wp_receiveAhead {Q : Outcome Exception Unit → TableIterator S.inputTypes × Channel → Prop}
    {rows : List Row} (h : Ahead S quiet c.past rows)
    (hQ : ∀ it' : TableIterator S.inputTypes, Reads S quiet rows (it', c.after S .next) →
      Q (.ok ()) (it', c.after S .next)) :
    wp (receiveNextData S false) Q (it, c) := by
  obtain ⟨batches, later, hholds, hne, hfeeds, rfl⟩ := h
  cases hholds with
  | nil =>
    have := hfeeds [] (by simp)
    rw [List.append_nil] at this
    exact wp_receiveDone this fun it' hz => hQ it' (.inl ⟨hz, rfl⟩)
  | @cons t rows batches later ht hlater =>
    obtain ⟨row, todo, rfl⟩ := List.exists_cons_of_ne_nil (hne rows (by simp))
    obtain ⟨hans, hrest⟩ := hfeeds [] (by simp)
    rw [List.append_nil] at hans hrest
    refine wp_receiveBatch hans ht fun it' hat => hQ it' (.inr ⟨[], row, todo, later.flatten, hat, ?_, by simp⟩)
    exact ⟨batches, later, hlater, fun r hr => hne r (by simp [hr]), hrest, rfl⟩

theorem wp_next {Q : Outcome Exception Bool → TableIterator S.inputTypes × Channel → Prop}
    {row : Row} {rows : List Row} (h : Reads S quiet (row :: rows) (it, c))
    (hforce : c.inpForceFinish = false)
    (hQ : ∀ (it' : TableIterator S.inputTypes) (c' : Channel), Reads S quiet rows (it', c') →
      c' = c ∨ c' = c.after S .next → Q (.ok (rows ≠ [])) (it', c')) :
    wp (next S) Q (it, c) := by
  obtain ⟨-, habs⟩ | ⟨done, row', todo, rest, hat, hahead, hrows⟩ := h
  · simp at habs
  simp only [List.cons_append, List.cons.injEq] at hrows
  obtain ⟨rfl, rfl⟩ := hrows
  have hcompleted : it.rowsCompleted = done.length := hat.completed
  have hlen : it.rowsReceived = done.length + (todo.length + 1) := by
    rw [hat.received, hat.holds.rowCount]; simp
  simp only [next, wp_bind, wp_get, Outcome.andThen_ok]
  rw [if_neg (by omega)]
  simp only [wp_bind, wp_update, Outcome.andThen_ok, hforce, Bool.false_eq_true, if_false]
  cases todo with
  | nil =>
    rw [if_pos (by rw [hcompleted, hlen]; simp), wp_bind]
    refine wp_receiveAhead hahead fun it' hreads => ?_
    simp only [Outcome.andThen_ok, wp_bind, wp_get, wp_pure, ne_eq, hreads.received]
    exact hQ it' (c.after S .next) hreads (.inr rfl)
  | cons row₁ todo =>
    rw [if_neg (by rw [hcompleted, hlen]; simp), wp_bind]
    have hholds : it.table.Holds S.inputTypes ((done ++ [row]) ++ row₁ :: todo) := by
      simpa using hat.holds
    refine wp_incrementColOffsets false (done ++ [row]) hholds hat.received (by simp [hcompleted])
      (by simpa using hat.values) fun it' hat' => ?_
    have := hQ it' c (.inr ⟨_, row₁, todo, rest, hat', hahead, rfl⟩) (.inl rfl)
    simpa using this

end

/-! ### Reading cells -/

theorem AtRow.wasNull {done todo : List Row} {row : Row} (h : AtRow done row todo it) (b : Bool) :
    AtRow done row todo { it with wasNull := b } :=
  ⟨h.holds, h.received, h.completed, h.currentRow, h.values, h.offsets⟩

theorem Reads.wasNull {S : Session} {quiet : Request → Prop} {rows : List Row}
    {it : TableIterator S.inputTypes} (h : Reads S quiet rows (it, c)) (b : Bool) :
    Reads S quiet rows ({ it with wasNull := b }, c) := by
  obtain ⟨hz, rfl⟩ | ⟨done, row, todo, rest, hat, hahead, rfl⟩ := h
  · exact .inl ⟨hz, rfl⟩
  · exact .inr ⟨done, row, todo, rest, hat.wasNull b, hahead, rfl⟩

theorem getElem?_column {t : TableData} {done todo : List Row} {row : Row}
    (h : t.Holds types (done ++ row :: todo)) {col : Nat} {x : Cell}
    (hcell : row.cells[col]? = some (some x)) :
    (t.columnOf x.storage)[(column Cell.storage x.storage
      (cellsOf done ++ row.cells.take col)).length]? = some x := by
  obtain ⟨hlt, hx⟩ := List.getElem?_eq_some_iff.mp hcell
  have hsplit : cellsOf (done ++ row :: todo) =
      (cellsOf done ++ row.cells.take col) ++ some x :: (row.cells.drop (col + 1) ++ cellsOf todo) := by
    rw [cellsOf_append, cellsOf_cons]
    conv_lhs => rw [← List.take_append_drop col row.cells, List.drop_eq_getElem_cons hlt, hx]
    simp
  rw [h.column_eq, hsplit]
  exact column_getElem?

@[simp] theorem table_wasNull (it : TableIterator types) (b : Bool) :
    table { it with wasNull := b } = it.table := rfl

theorem wp_checkIndex {Q : Outcome Exception (Option Nat) → TableIterator types × Channel → Prop}
    {index available : Nat} (h : index < available) {tp otype ts : String} :
    wp (checkIndex index available tp otype ts) Q (it, c) ↔ Q (.ok (some index)) (it, c) := by
  rw [checkIndex, if_pos h, wp_pure]

theorem AtRow.offset_eq {done todo : List Row} {row : Row} (hat : AtRow done row todo it) {col : Nat}
    {x : Cell} (hcell : row.cells[col]? = some (some x)) :
    it.colOffsets[col]?.getD 0 =
      (column Cell.storage x.storage (cellsOf done ++ row.cells.take col)).length := by
  rw [hat.offsets col x hcell, Option.getD_some]

theorem wp_getCell {α : Type} {Q : Outcome Exception α → TableIterator types × Channel → Prop}
    {done todo : List Row} {row : Row} (hat : AtRow done row todo it) {expected : Datatype}
    {typeName noColumn wrongType otype : String} {onError onNull : α} {data : TableData → List α}
    (toCell : α → Cell) (hdata : ∀ t : TableData, t.columnOf expected.storage = (data t).map toCell)
    {col : Nat} (htype : types[col]? = some expected) {cell : Option Cell}
    (hcell : row.cells[col]? = some cell)
    (hnull : cell = none → Q (.ok onNull) ({ it with wasNull := true }, c))
    (hsome : ∀ v ∈ data it.table, cell = some (toCell v) → Q (.ok v) ({ it with wasNull := false }, c)) :
    wp (getCell expected typeName noColumn wrongType otype onError onNull data col) Q (it, c) := by
  have hnulls := nulls_getElem? hat.holds hcell
  rw [← hat.completed, Nat.mul_comm] at hnulls
  have hlt : types.length * it.rowsCompleted + col < it.table.dataNulls.length :=
    (List.getElem?_eq_some_iff.mp hnulls).1
  simp only [getCell, htype, ne_eq, not_true_eq_false, if_false, wp_bind, wp_get, Outcome.andThen_ok,
    checkValue, wp_update, table_wasNull, wp_checkIndex hlt, wp_element hnulls]
  cases cell with
  | none =>
    simp only [Option.isNone_none, if_true, wp_pure, Outcome.andThen_ok]
    exact hnull rfl
  | some x =>
    have hstorage : x.storage = expected.storage := by
      have htyped := hat.holds.typed row (by simp)
      obtain ⟨hcol, hx⟩ := List.getElem?_eq_some_iff.mp hcell
      obtain ⟨hcol', ht⟩ := List.getElem?_eq_some_iff.mp htype
      have := List.Forall₂.get htyped (i := col) (by simpa using hcol') hcol
      simp only [List.get_eq_getElem, List.getElem_map, ht, hx] at this
      exact this x rfl
    have hfound := getElem?_column hat.holds hcell
    rw [← hat.offset_eq hcell, hstorage, hdata, List.getElem?_map, Option.map_eq_some_iff] at hfound
    obtain ⟨v, hv, rfl⟩ := hfound
    have hlt' := (List.getElem?_eq_some_iff.mp hv).1
    simp only [Option.isNone_some, Bool.false_eq_true, if_false, wp_checkIndex hlt', Outcome.andThen_ok,
      wp_element hv]
    exact hsome v (List.mem_of_getElem? hv) rfl

theorem wp_getString {Q : Outcome Exception (ByteString × Option Nat) → TableIterator types × Channel → Prop}
    {done todo : List Row} {row : Row} (hat : AtRow done row todo it) {col : Nat}
    (htype : types[col]? = some .string) {cell : Option Cell} (hcell : row.cells[col]? = some cell)
    (hnull : cell = none → Q (.ok ([], none)) ({ it with wasNull := true }, c))
    (hsome : ∀ s, cell = some (.string s) → Q (.ok (s, some s.length)) ({ it with wasNull := false }, c)) :
    wp (getString col) Q (it, c) := by
  refine wp_getCell hat (fun p => Cell.string p.1) (fun t => ?_) htype hcell hnull fun v hv h => ?_
  · simp [Datatype.storage, TableData.columnOf]
  · obtain ⟨s, -, rfl⟩ := List.mem_map.mp hv
    exact hsome s h

/-- The `get` call of a type. -/
def getOfType (col : Nat) : Datatype → Iterating types Cell
  | .double => do return .double (← getDouble col)
  | .int32 => do return .int32 (← getInt32 col)
  | .int64 => do return .int64 (← getInt64 col)
  | .numeric => do return .string (← getNumeric col)
  | .timestamp => do return .string (← getTimestamp col)
  | .date => do return .string (← getDate col)
  | .string => do
    let (s, length) ← getString col
    -- The caller's length starts at 0.
    return .string (s.take (length.getD 0))
  | .boolean => do return .bool (← getBoolean col)
  | _ => stop .undefined

/-- A `get` call of the column's type, and `wasNull` after it. -/
def readCell (col : Nat) : Iterating types (Cell × Bool) := do
  let v ← getOfType col (types[col]?.getD .unsupported)
  let (it, _) ← get
  return (v, it.wasNull)

def readCells : List Nat → Iterating types (List (Nat × Cell × Bool))
  | [] => return []
  | col :: cols => do
    let r ← readCell col
    return (col, r) :: (← readCells cols)

end TableIterator

/-- What the `get` functions return for a null cell. -/
def Datatype.nullCell : Datatype → Cell
  | .double => .double 0
  | .int32 => .int32 0
  | .int64 => .int64 0
  | .numeric => .string (str "0")
  | .timestamp => .string (str "1970-01-01 00:00:00.00 0000")
  | .date => .string (str "1970-01-01")
  | .boolean => .bool false
  | _ => .string []

/-- A column of a row as a script sees it: the value and whether it is null. -/
def Row.read (types : List Datatype) (row : Row) (col : Nat) : Cell × Bool :=
  match row.cells[col]? with
  | some (some x) => (x, false)
  | _ => ((types[col]?.getD .unsupported).nullCell, true)

/-- What a script saw of a row. -/
structure Visit where
  currentRow : UInt64
  reads : List (Nat × Cell × Bool)
deriving DecidableEq, Repr

/-- The visits of `rows`, when the columns read at each row are planned from the visits so far. -/
def visitRows (types : List Datatype) (plan : List Visit → List Nat) : List Visit → List Row → List Visit
  | visits, [] => visits
  | visits, row :: rows =>
    let visit := ⟨row.rowNumber, (plan visits).map fun col => (col, row.read types col)⟩
    visitRows types plan (visits ++ [visit]) rows

namespace TableIterator

/-- One round of `while not eot: read, next()`. -/
def driveRound (S : Session) (plan : List Visit → List Nat) (visits : List Visit) :
    Iterating S.inputTypes (List Visit ⊕ List Visit) := do
  let (it, _) ← get
  if it.eot then return .inr visits
  else do
    let reads ← readCells (plan visits)
    let (it, _) ← get
    let _ ← next S
    return .inl (visits ++ [⟨it.currentRow, reads⟩])

/-- `while not eot: read, next()`, cut off after `fuel` rounds. -/
def drive (S : Session) (plan : List Visit → List Nat) (fuel : Nat) : Iterating S.inputTypes (List Visit) :=
  loop (driveRound S plan) fuel []

variable {types : List Datatype} {it : TableIterator types} {c : Channel}

theorem wp_getCell_toCell {α : Type} {Q : Outcome Exception Cell → TableIterator types × Channel → Prop}
    {done todo : List Row} {row : Row} (hat : AtRow done row todo it) {expected : Datatype}
    {typeName noColumn wrongType otype : String} {onError onNull : α} {data : TableData → List α}
    {toCell : α → Cell} (hdata : ∀ t : TableData, t.columnOf expected.storage = (data t).map toCell)
    (honNull : toCell onNull = expected.nullCell) {col : Nat} (htype : types[col]? = some expected)
    {cell : Option Cell} (hcell : row.cells[col]? = some cell)
    (hQ : Q (.ok (cell.getD expected.nullCell)) ({ it with wasNull := cell.isNone }, c)) :
    wp (do return toCell (← getCell expected typeName noColumn wrongType otype onError onNull data col))
      Q (it, c) := by
  rw [wp_bind]
  refine wp_getCell hat toCell hdata htype hcell (fun h => ?_) (fun v _ h => ?_) <;> rw [h] at hQ
  · simpa [honNull] using hQ
  · simpa using hQ

theorem wp_getOfType {Q : Outcome Exception Cell → TableIterator types × Channel → Prop}
    {done todo : List Row} {row : Row} (hat : AtRow done row todo it) {col : Nat} {type : Datatype}
    (htype : types[col]? = some type) (hsupported : type.Supported) {cell : Option Cell}
    (hcell : row.cells[col]? = some cell)
    (hQ : Q (.ok (cell.getD type.nullCell)) ({ it with wasNull := cell.isNone }, c)) :
    wp (getOfType col type) Q (it, c) := by
  cases type with
  | string =>
    simp only [getOfType, wp_bind]
    refine wp_getString hat htype hcell (fun h => ?_) fun s h => ?_
    · rw [h] at hQ
      exact hQ
    · rw [h] at hQ
      simpa using hQ
  | unsupported | intervalYm | intervalDs | geometry => exact absurd hsupported (by decide)
  | _ => refine wp_getCell_toCell hat ?_ ?_ htype hcell hQ <;> intros <;> rfl

theorem wp_readCell {Q : Outcome Exception (Cell × Bool) → TableIterator types × Channel → Prop}
    {done todo : List Row} {row : Row} (hat : AtRow done row todo it) {col : Nat} {type : Datatype}
    (htype : types[col]? = some type) (hsupported : type.Supported)
    (hQ : ∀ b, Q (.ok (row.read types col)) ({ it with wasNull := b }, c)) :
    wp (readCell col) Q (it, c) := by
  have hcol : col < row.cells.length := by
    rw [hat.holds.cells_length (by simp)]
    exact (List.getElem?_eq_some_iff.mp htype).1
  have hcell := List.getElem?_eq_getElem hcol
  have hread : row.read types col =
      (row.cells[col].getD type.nullCell, row.cells[col].isNone) := by
    unfold Row.read
    rw [hcell, htype]
    cases row.cells[col] <;> rfl
  simp only [readCell, htype, Option.getD_some, wp_bind]
  refine wp_getOfType hat htype hsupported hcell ?_
  simp only [Outcome.andThen_ok, wp_get, wp_pure]
  rw [← hread]
  exact hQ _

theorem wp_readCells {Q : Outcome Exception (List (Nat × Cell × Bool)) →
    TableIterator types × Channel → Prop} {done todo : List Row} {row : Row}
    (hat : AtRow done row todo it) (hsupported : ∀ t ∈ types, t.Supported) {cols : List Nat}
    (hcols : ∀ col ∈ cols, col < types.length)
    (hQ : ∀ b, Q (.ok (cols.map fun col => (col, row.read types col))) ({ it with wasNull := b }, c)) :
    wp (readCells cols) Q (it, c) := by
  induction cols generalizing it Q with
  | nil => exact hQ it.wasNull
  | cons col cols ih =>
    have hcol := List.getElem?_eq_getElem (hcols col (by simp))
    simp only [readCells, wp_bind]
    refine wp_readCell hat hcol (hsupported _ (List.getElem_mem _)) fun b => ?_
    simp only [Outcome.andThen_ok]
    refine ih (hat.wasNull b) (fun col' h => hcols col' (by simp [h])) fun b' => ?_
    simpa using hQ b'

section
variable {S : Session} {quiet : Request → Prop} {plan : List Visit → List Nat}

theorem wp_drive {s : TableIterator S.inputTypes × Channel} {rows : List Row}
    (h : Reads S quiet rows s) (hforce : s.2.inpForceFinish = false)
    (hsupported : ∀ t ∈ S.inputTypes, t.Supported)
    (hplan : ∀ visits, ∀ col ∈ plan visits, col < S.inputTypes.length) {fuel : Nat}
    (hfuel : rows.length < fuel) (visits : List Visit) :
    wp (loop (driveRound S plan) fuel visits) (fun o s =>
      o = .ok (visitRows S.inputTypes plan visits rows) ∧ s.1.eot = true) s := by
  induction rows generalizing fuel s visits with
  | nil =>
    obtain ⟨fuel, rfl⟩ := Nat.exists_eq_succ_of_ne_zero (Nat.ne_of_gt hfuel)
    have heot : s.1.eot = true := by simpa [eot] using h.received.mpr rfl
    simp only [loop_succ, driveRound, wp_bind, wp_get, Outcome.andThen_ok, heot, if_true, wp_pure]
    exact ⟨rfl, heot⟩
  | cons row rows ih =>
    obtain ⟨fuel, rfl⟩ := Nat.exists_eq_succ_of_ne_zero (Nat.ne_of_gt (Nat.zero_lt_of_lt hfuel))
    obtain ⟨it, c⟩ := s
    have heot : it.eot = false := by
      have : it.rowsReceived ≠ 0 := fun hz => by simpa using h.received.mp hz
      simpa [eot] using this
    obtain ⟨done, row', todo, rest, hat, -, hrows⟩ := h.resolve_left (by simp)
    obtain rfl : row = row' := by simpa using congrArg List.head? hrows
    simp only [loop_succ, driveRound, wp_bind, wp_get, Outcome.andThen_ok, heot, Bool.false_eq_true,
      if_false]
    refine wp_readCells hat hsupported (hplan visits) fun b => ?_
    simp only [Outcome.andThen_ok]
    refine wp_next (h.wasNull b) hforce fun it' c' h' hc' => ?_
    have hforce' : c'.inpForceFinish = false := by
      rcases hc' with rfl | rfl <;> exact hforce
    simp only [Outcome.andThen_ok, wp_pure]
    rw [hat.currentRow]
    exact ih h' hforce' (by simpa using hfuel) _

end

end TableIterator

/-- Driven by `while not eot: read, next()`, a new iterator, one that is reinitialized and one that is
reset visit the rows of the batches the server sends, each once and in order; every cell reads as it is
stored. -/
theorem iterator_visitsBatches (S : Session) (hsupported : ∀ t ∈ S.inputTypes, t.Supported)
    (batches : List TableData) (hwf : ∀ t ∈ batches, t.WellFormed S.inputTypes)
    (plan : List Visit → List Nat)
    (hplan : ∀ visits, ∀ col ∈ plan visits, col < S.inputTypes.length) :
    ∃ rows, TableData.decodeAll S.inputTypes batches = some rows ∧
      ∀ fuel, rows.length < fuel → ∀ (it : TableIterator S.inputTypes) (c : Channel),
        let visited := fun (o : Outcome Exception (List Visit)) (s : TableIterator S.inputTypes × Channel) =>
          o = .ok (visitRows S.inputTypes plan [] rows) ∧ s.1.eot = true
        (c.inpForceFinish = false → TableIterator.Feeds S (fun _ => False) c.past batches →
          wp (do TableIterator.construct S; TableIterator.drive S plan fuel) visited ({}, c) ∧
          wp (do TableIterator.reinitialize S; TableIterator.drive S plan fuel) visited (it, c)) ∧
        (∀ t ts, batches = t :: ts → TableIterator.AnswersBatch S true c.past t →
          TableIterator.Feeds S (fun _ => False) (c.past ++ [Channel.request S .reset]) ts →
          wp (do TableIterator.reset S; TableIterator.drive S plan fuel) visited (it, c)) := by
  obtain ⟨later, hholds, hne⟩ := TableData.exists_holds hwf
  refine ⟨later.flatten, TableData.decodeAll_of_forall₂ hholds, fun fuel hfuel it c => ?_⟩
  -- A data request leaves the iterator where it reads everything the request found ahead.
  have hreceive : ∀ it' : TableIterator S.inputTypes, c.inpForceFinish = false →
      TableIterator.Feeds S (fun _ => False) c.past batches →
      wp (do TableIterator.receiveNextData S false; TableIterator.drive S plan fuel)
        (fun o s => o = .ok (visitRows S.inputTypes plan [] later.flatten) ∧ s.1.eot = true)
        (it', c) := by
    intro it' hforce hfeeds
    rw [wp_bind]
    refine TableIterator.wp_receiveAhead ⟨batches, later, hholds, hne, hfeeds, rfl⟩ fun it'' h => ?_
    exact TableIterator.wp_drive h hforce hsupported hplan hfuel []
  refine ⟨fun hforce hfeeds => ⟨hreceive _ hforce hfeeds, hreceive _ hforce hfeeds⟩, ?_⟩
  rintro t ts rfl hans hfeeds
  obtain ⟨rows, later, ht, hlater, rfl⟩ := List.forall₂_cons_left_iff.mp hholds
  obtain ⟨row, todo, rfl⟩ := List.exists_cons_of_ne_nil (hne rows (by simp))
  simp only [TableIterator.reset, wp_bind, TableIterator.wp_update, TableIterator.wp_onChannel,
    wp_modify, Outcome.andThen_ok]
  refine TableIterator.wp_receiveBatch hans ht fun it' hat => ?_
  have hahead : TableIterator.Ahead S (fun _ => False)
      (c.past ++ [Channel.request S .reset]) later.flatten :=
    ⟨ts, later, hlater, fun r hr => hne r (by simp [hr]), hfeeds, rfl⟩
  exact TableIterator.wp_drive (.inr ⟨[], row, todo, later.flatten, hat, hahead, by simp⟩) rfl
    hsupported hplan hfuel []

/-- One VARCHAR column and a single batch: the rows `"ab"` and NULL. -/
def oneBatch : TableData where
  rows := some 2
  dataString := [str "ab"]
  dataNulls := [false, true]
  rowNumber := [4, 5]

/-- A database that answers the first data request with `oneBatch`. -/
def oneBatchSession : Session where
  server := fun requests => match requests with
    | [⟨_, .inl .reset⟩] => .message { type := .mtReset, next := oneBatch }
    | [_] => .message { type := .mtNext, next := oneBatch }
    | _ => .message { type := .mtDone }
  serializes := fun _ => true
  inpTypes := [{ type := .string }]

theorem iterator_visitsBatches_oneBatch :
    wp (do TableIterator.construct oneBatchSession
           TableIterator.drive oneBatchSession (fun _ => [0, 0]) 3)
      (fun o _ => o = .ok
        [⟨4, [(0, .string [97, 98], false), (0, .string [97, 98], false)]⟩,
          ⟨5, [(0, .string [], true), (0, .string [], true)]⟩]) ({}, {}) ∧
    wp (do TableIterator.reset oneBatchSession
           TableIterator.drive oneBatchSession (fun _ => [0]) 3)
      (fun o _ => o = .ok [⟨4, [(0, .string [97, 98], false)]⟩, ⟨5, [(0, .string [], true)]⟩])
      ({ rowsCompleted := 9, rowsReceived := 3 }, { inpForceFinish := true }) := by
  have hwf : ∀ t ∈ [oneBatch], t.WellFormed oneBatchSession.inputTypes := by
    intro t ht
    obtain rfl := List.mem_singleton.mp ht
    exact ⟨by decide, rfl, rfl, fun k => by rcases k with _ | (_ | _ | _ | _ | _) <;> rfl⟩
  have hquiet : ∀ {mid : List Request}, (∀ r ∈ mid, False) → mid = [] :=
    fun h => List.eq_nil_iff_forall_not_mem.mpr h
  have hrows : TableData.decodeAll oneBatchSession.inputTypes [oneBatch] =
      some [⟨4, [some (.string [97, 98])]⟩, ⟨5, [none]⟩] := rfl
  have hcol : ∀ col ∈ [0, 0], col < oneBatchSession.inputTypes.length := by decide
  constructor
  · obtain ⟨rows, hdecode, h⟩ := iterator_visitsBatches oneBatchSession (by decide) [oneBatch] hwf
      (fun _ => [0, 0]) fun _ => hcol
    obtain rfl : _ = rows := Option.some.inj (hrows.symm.trans hdecode)
    refine wp_mono ((h 3 (by decide) {} {}).1 rfl fun mid hmid => ?_).1 fun o s ho => ho.1
    obtain rfl := hquiet hmid
    refine ⟨⟨_, rfl, rfl, rfl, rfl⟩, fun mid hmid => ?_⟩
    obtain rfl := hquiet hmid
    exact ⟨_, rfl, rfl, rfl⟩
  · obtain ⟨rows, hdecode, h⟩ := iterator_visitsBatches oneBatchSession (by decide) [oneBatch] hwf
      (fun _ => [0]) fun _ col hc => hcol col (List.mem_cons_of_mem 0 hc)
    obtain rfl : _ = rows := Option.some.inj (hrows.symm.trans hdecode)
    refine wp_mono ((h 3 (by decide) _ { inpForceFinish := true }).2 _ _ rfl ⟨_, rfl, rfl, rfl, rfl⟩
      fun mid hmid => ?_) fun o s ho => ho.1
    obtain rfl := hquiet hmid
    exact ⟨_, rfl, rfl, rfl⟩

end UdfRunner
