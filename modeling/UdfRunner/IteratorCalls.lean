import UdfRunner.InputPath

/-!
# Any calls of the iterator, any answers

`IteratorCall` is a call of a script or of what stands around it, in any order. `indices_inBounds_iff`: in
which runs every index is inside its array.
-/

namespace UdfRunner
open Proc

/-! ### Calls -/

/-- A call of the iterator or of what shares the channel with it: `get` by the column's type, the host's
`checkException`, and the result handler's full buffer. -/
inductive IteratorCall
  | next
  | reset
  | reinitialize
  | get (type : Datatype) (supported : type.Supported) (col : Nat)
  | checkException
  | forceFinish

namespace IteratorCall
open TableIterator

def run (S : Session) : IteratorCall → Iterating S.inputTypes Unit
  | next => do let _ ← TableIterator.next S
  | reset => TableIterator.reset S
  | reinitialize => TableIterator.reinitialize S
  | get type _ col => do let _ ← getOfType col type
  | checkException => do let _ ← onChannel Channel.checkException
  | forceFinish => onChannel (modify fun c => { c with inpForceFinish := true })

def runAll (S : Session) : List IteratorCall → Iterating S.inputTypes Unit
  | [] => return ()
  | call :: calls => do
    call.run S
    runAll S calls

/-- Whether a call asks the database for data, and how. -/
def request (S : Session) (s : TableIterator S.inputTypes × Channel) : IteratorCall → Option Bool
  | next =>
    if s.1.rowsReceived ≠ 0 ∧ s.2.inpForceFinish = false ∧ s.1.rowsReceived ≤ s.1.rowsCompleted + 1 then
      some false
    else none
  | reset => some true
  | reinitialize => some false
  | _ => none

/-- Where a call that asks for data does so. -/
def prepare {types : List Datatype} (s : TableIterator types × Channel) :
    IteratorCall → TableIterator types × Channel
  | next => ({ s.1 with
      rowsCompleted := s.1.rowsCompleted + 1, rowsGroupCompleted := s.1.rowsGroupCompleted + 1 }, s.2)
  | reset => ({ s.1 with rowsGroupCompleted := 1 }, { s.2 with inpForceFinish := false })
  | reinitialize => ({ s.1 with rowsCompleted := 0, rowsGroupCompleted := 1, valuesPerRow := {} }, s.2)
  | _ => s

variable {S : Session} {s : TableIterator S.inputTypes × Channel} {call : IteratorCall} {again : Bool}

theorem wp_run_request {Q : Outcome Exception Unit → TableIterator S.inputTypes × Channel → Prop}
    (h : call.request S s = some again) :
    wp (call.run S) Q s ↔ wp (receiveNextData S again) Q (call.prepare s) := by
  cases call with
  | next =>
    obtain ⟨it, c⟩ := s
    unfold request at h
    split_ifs at h with hnext
    obtain ⟨hrows, hforce, hlast⟩ := hnext
    cases h
    replace hforce : c.inpForceFinish = false := hforce
    simp only [run, TableIterator.next, wp_bind, wp_get, Outcome.andThen_ok]
    rw [if_neg hrows]
    simp only [wp_bind, wp_update, Outcome.andThen_ok, hforce, Bool.false_eq_true, if_false]
    rw [if_pos hlast, wp_bind]
    refine iff_of_eq (congrArg (fun Q => wp (receiveNextData S false) Q (prepare (it, c) next)) ?_)
    funext o s'
    cases o <;> rfl
  | reset =>
    cases h
    rfl
  | reinitialize =>
    cases h
    rfl
  | get => cases h
  | checkException => cases h
  | forceFinish => cases h

theorem prepare_exch {types : List Datatype} (s : TableIterator types × Channel) (call : IteratorCall) :
    (call.prepare s).2.exch = s.2.exch := by cases call <;> rfl

theorem prepare_answer (s : TableIterator S.inputTypes × Channel) (call : IteratorCall) (q : VmRequest) :
    (call.prepare s).2.answer S q = s.2.answer S q := by cases call <;> rfl

theorem prepare_colOffsets {types : List Datatype} (s : TableIterator types × Channel) (call : IteratorCall) :
    (call.prepare s).1.colOffsets = s.1.colOffsets := by cases call <;> rfl

end IteratorCall

/-! ### What stays -/

/-- The batch and the conversation stay as they are. -/
structure SameBatch {types : List Datatype} (s s' : TableIterator types × Channel) : Prop where
  response : s'.1.nextResponse = s.1.nextResponse
  received : s'.1.rowsReceived = s.1.rowsReceived
  completed : s'.1.rowsCompleted = s.1.rowsCompleted
  past : s'.2.past = s.2.past
  exchanges : s'.2.exchanges = s.2.exchanges

instance {types : List Datatype} : IsPreorder (TableIterator types × Channel) SameBatch where
  refl _ := ⟨rfl, rfl, rfl, rfl, rfl⟩
  trans _ _ _ h h' := ⟨h'.1.trans h.1, h'.2.trans h.2, h'.3.trans h.3, h'.4.trans h.4, h'.5.trans h.5⟩

namespace TableIterator
variable {types : List Datatype}

variable {it : TableIterator types} {c : Channel}

/-- The columns of a row that has all its null flags, whatever their types. -/
theorem wp_advanceColumns_any {rest : List Datatype} {col nullIndex : Nat}
    (hlen : nullIndex + rest.length ≤ it.table.dataNulls.length) :
    wp (advanceColumns col nullIndex rest) (fun o s => o = .ok () ∧ SameBatch (it, c) s) (it, c) := by
  induction rest generalizing it c col nullIndex with
  | nil => exact ⟨rfl, refl_of SameBatch _⟩
  | cons type rest ih =>
    rw [List.length_cons] at hlen
    have hnull := List.getElem?_eq_getElem (l := it.table.dataNulls) (i := nullIndex) (by omega)
    have hrest : ∀ it' : TableIterator types, SameBatch (it, c) (it', c) →
        wp (advanceColumns (col + 1) (nullIndex + 1) rest) (fun o s => o = .ok () ∧ SameBatch (it, c) s)
          (it', c) := by
      intro it' h
      have htable : it'.table = it.table := congrArg Response.next h.response
      refine wp_mono (ih (c := c) (by rw [htable]; omega)) fun o s hs => ?_
      exact ⟨hs.1, trans_of SameBatch h hs.2⟩
    simp only [advanceColumns, wp_bind, wp_get, Outcome.andThen_ok, wp_element hnull]
    cases it.table.dataNulls[nullIndex] with
    | true => exact hrest it (refl_of SameBatch _)
    | false =>
      rw [if_neg (by decide)]
      cases type <;> first
        | (rw [wp_bind, wp_takeOffset]; exact hrest _ ⟨rfl, rfl, rfl, rfl, rfl⟩)
        | exact ⟨rfl, rfl, rfl, rfl, rfl, rfl⟩

/-- Moving to a row needs its row number; nothing else of the packet has to be there. -/
theorem wp_incrementColOffsets_any {Q : Outcome Exception Unit → TableIterator types × Channel → Prop}
    {reset : Bool}
    (hrow : it.rowsCompleted < it.table.rowNumber.length → ∀ s, SameBatch (it, c) s → Q (.ok ()) s)
    (hnone : it.table.rowNumber.length ≤ it.rowsCompleted → Q (.stop .undefined) (it, c)) :
    wp (incrementColOffsets reset) Q (it, c) := by
  simp only [incrementColOffsets, wp_bind, wp_get, Outcome.andThen_ok]
  by_cases hlt : it.rowsCompleted < it.table.rowNumber.length
  · rw [wp_element (List.getElem?_eq_getElem hlt)]
    simp only [wp_update, Outcome.andThen_ok]
    by_cases henough : (it.table.dataNulls.length : Int) ≤
        (it.rowsCompleted * types.length : Nat) + types.length - 1
    · rw [if_pos henough]
      exact hrow hlt _ ⟨rfl, rfl, rfl, rfl, rfl⟩
    · rw [if_neg henough]
      refine wp_mono (wp_advanceColumns_any ?_) fun o s hs => ?_
      · show it.rowsCompleted * types.length + types.length ≤ it.table.dataNulls.length
        omega
      · rw [hs.1]
        exact hrow hlt s ⟨hs.2.1, hs.2.2, hs.2.3, hs.2.4, hs.2.5⟩
  · rw [element, List.getElem?_eq_none (by omega)]
    exact hnone (by omega)

/-! ### The `get` calls in any state -/

/-- The null flag of a column of the current row, if the packet has one. -/
def nullFlag (it : TableIterator types) (col : Nat) : Option Bool :=
  it.table.dataNulls[types.length * it.rowsCompleted + col]?

/-- What a column's offset points at among the values of a type. -/
def cellAt (it : TableIterator types) (type : Datatype) (col : Nat) : Option Cell :=
  (it.table.columnOf type.storage)[it.colOffsets[col]?.getD 0]?

/-- The packet has less than a `get` call asks for. -/
def Short (it : TableIterator types) (type : Datatype) (col : Nat) : Prop :=
  it.nullFlag col = none ∨ it.nullFlag col = some false ∧ it.cellAt type col = none

variable {it : TableIterator types} {c : Channel} {type : Datatype} {col : Nat}

theorem wp_getCell_any {α : Type} {Q : Outcome Exception Cell → TableIterator types × Channel → Prop}
    {typeName noColumn wrongType otype : String} {onError onNull : α} {data : TableData → List α}
    {toCell : α → Cell} (hdata : ∀ t : TableData, t.columnOf type.storage = (data t).map toCell)
    (hcolumn : types[col]? ≠ some type → ∀ msg,
      Q (.ok (toCell onError)) ({ it with wasNull := true }, { c with exch := ⟨msg, true⟩ }))
    (hnull : types[col]? = some type → it.nullFlag col = some true →
      Q (.ok (toCell onNull)) ({ it with wasNull := true }, c))
    (hshort : types[col]? = some type → it.Short type col → ∀ msg,
      Q (.ok (toCell onNull)) ({ it with wasNull := true }, { c with exch := ⟨msg, true⟩ }))
    (hfound : types[col]? = some type → it.nullFlag col = some false → ∀ x, it.cellAt type col = some x →
      Q (.ok x) ({ it with wasNull := false }, c)) :
    wp (do return toCell (← getCell type typeName noColumn wrongType otype onError onNull data col)) Q
      (it, c) := by
  rw [wp_bind]
  unfold getCell
  cases htype : types[col]? with
  | none =>
    simp only [wp_bind, wp_setException, wp_update, Outcome.andThen_ok, wp_pure]
    exact hcolumn (by simp [htype]) _
  | some type' =>
    by_cases heq : type' = type
    swap
    · simp only [ne_eq, heq, not_false_eq_true, if_true, wp_bind, wp_setException, wp_update,
        Outcome.andThen_ok, wp_pure]
      exact hcolumn (by simpa [htype] using heq) _
    subst heq
    have hcell : it.cellAt type' col = ((data it.table)[it.colOffsets[col]?.getD 0]?).map toCell := by
      rw [cellAt, hdata, List.getElem?_map]
    simp only [ne_eq, not_true_eq_false, if_false, wp_bind, wp_get, Outcome.andThen_ok, checkValue,
      wp_update, table_wasNull]
    rcases hflag : it.nullFlag col with _ | isNull
    · have hlen := List.getElem?_eq_none_iff.mp hflag
      rw [checkIndex, if_neg (by omega)]
      simp only [wp_bind, wp_get, Outcome.andThen_ok, wp_setException, wp_update, wp_pure]
      exact hshort htype (.inl hflag) _
    · have hlt := (List.getElem?_eq_some_iff.mp hflag).1
      rw [wp_checkIndex hlt]
      simp only [wp_bind, Outcome.andThen_ok]
      rw [wp_element hflag]
      simp only [wp_update, Outcome.andThen_ok]
      cases isNull with
      | true =>
        simp only [if_true, wp_pure, Outcome.andThen_ok]
        exact hnull htype hflag
      | false =>
        simp only [Bool.false_eq_true, if_false]
        rcases hx : (data it.table)[it.colOffsets[col]?.getD 0]? with _ | x
        · have hlen := List.getElem?_eq_none_iff.mp hx
          rw [checkIndex, if_neg (by omega)]
          simp only [wp_bind, wp_get, Outcome.andThen_ok, wp_setException, wp_update, wp_pure]
          exact hshort htype (.inr ⟨hflag, by rw [hcell, hx]; rfl⟩) _
        · have hlt' := (List.getElem?_eq_some_iff.mp hx).1
          rw [wp_checkIndex hlt']
          simp only [Outcome.andThen_ok, wp_element hx, wp_pure]
          exact hfound htype hflag (toCell x) (by rw [hcell, hx]; rfl)

end TableIterator

/-- What the `get` functions return for a column that is not there or of another type. -/
def Datatype.errorCell : Datatype → Cell
  | .double => .double 0
  | .int32 => .int32 0
  | .int64 => .int64 0
  | .boolean => .bool true
  | _ => .string []

namespace TableIterator
variable {types : List Datatype} {it : TableIterator types} {c : Channel} {type : Datatype} {col : Nat}

theorem wp_getOfType_any {Q : Outcome Exception Cell → TableIterator types × Channel → Prop}
    (hsupported : type.Supported)
    (hcolumn : types[col]? ≠ some type → ∀ msg,
      Q (.ok type.errorCell) ({ it with wasNull := true }, { c with exch := ⟨msg, true⟩ }))
    (hnull : types[col]? = some type → it.nullFlag col = some true →
      Q (.ok type.nullCell) ({ it with wasNull := true }, c))
    (hshort : types[col]? = some type → it.Short type col → ∀ msg,
      Q (.ok type.nullCell) ({ it with wasNull := true }, { c with exch := ⟨msg, true⟩ }))
    (hfound : types[col]? = some type → it.nullFlag col = some false → ∀ x, it.cellAt type col = some x →
      Q (.ok x) ({ it with wasNull := false }, c)) :
    wp (getOfType col type) Q (it, c) := by
  cases type with
  | string =>
    have hdata : ∀ t : TableData, t.columnOf Datatype.string.storage =
        (t.dataString.map fun s => (s, some s.length)).map fun p => Cell.string (p.1.take (p.2.getD 0)) := by
      simp [Datatype.storage, TableData.columnOf]
    exact wp_getCell_any hdata hcolumn hnull hshort hfound
  | unsupported | intervalYm | intervalDs | geometry => exact absurd hsupported (by decide)
  | _ => exact wp_getCell_any (fun _ => rfl) hcolumn hnull hshort hfound

end TableIterator

namespace IteratorCall
open TableIterator
variable {S : Session} {s : TableIterator S.inputTypes × Channel} {call : IteratorCall}

def Advances (s : TableIterator S.inputTypes × Channel) : IteratorCall → Prop
  | next => s.1.rowsReceived ≠ 0 ∧ s.2.inpForceFinish = false
  | _ => False

theorem wp_run_quiet (h : call.request S s = none) (hquiet : ¬call.Advances s) :
    wp (call.run S) (fun o s' => o = .ok () ∧
      (s.1.rowsReceived = 0 → SameBatch s s' ∧ s'.1.colOffsets = s.1.colOffsets)) s := by
  obtain ⟨it, c⟩ := s
  cases call with
  | next =>
    simp only [run, TableIterator.next, wp_bind, wp_get, Outcome.andThen_ok]
    by_cases hrows : it.rowsReceived = 0
    · rw [if_pos hrows]
      exact ⟨rfl, fun _ => ⟨⟨rfl, rfl, rfl, rfl, rfl⟩, rfl⟩⟩
    · have hforce : c.inpForceFinish = true := by
        by_contra hforce
        exact hquiet ⟨hrows, by simpa using hforce⟩
      rw [if_neg hrows]
      simp only [wp_bind, wp_update, Outcome.andThen_ok, hforce, if_true, wp_pure]
      exact ⟨trivial, fun hz => absurd hz hrows⟩
  | reset => cases h
  | reinitialize => cases h
  | get type supported col =>
    rw [run, wp_bind]
    refine wp_getOfType_any supported ?_ ?_ ?_ ?_ <;> intros <;>
      exact ⟨rfl, fun _ => ⟨⟨rfl, rfl, rfl, rfl, rfl⟩, rfl⟩⟩
  | checkException =>
    rw [run, wp_bind, wp_onChannel]
    unfold Channel.checkException
    simp only [wp_bind, wp_get, Outcome.andThen_ok, wp_ite]
    split_ifs <;> exact ⟨rfl, fun _ => ⟨⟨rfl, rfl, rfl, rfl, rfl⟩, rfl⟩⟩
  | forceFinish => exact ⟨rfl, fun _ => ⟨⟨rfl, rfl, rfl, rfl, rfl⟩, rfl⟩⟩

/-- The row a call moves to has its number in the packet. -/
def Numbered (S : Session) (s : TableIterator S.inputTypes × Channel) (call : IteratorCall) : Prop :=
  match call.request S s with
  | some again => S.verdict again (s.2.answer S (dataRequest again)) = .batch →
      (s.2.answer S (dataRequest again)).response.next.rowNumber ≠ []
  | none => call.Advances s → s.1.rowsCompleted + 1 < s.1.table.rowNumber.length

/-- All calls of a run find the row numbers they look for. -/
def AllNumbered (S : Session) : List IteratorCall → TableIterator S.inputTypes × Channel → Prop
  | [], _ => True
  | call :: calls, s => call.Numbered S s ∧ AllNumbered S calls (call.run S s).2

end IteratorCall

/-- A program that goes wrong exactly where `p` fails. -/
def GoesIf {σ α : Type} (p : Prop) (o : Outcome Exception α) (_ : σ) : Prop :=
  (p → ∃ a, o = .ok a) ∧ (¬p → o = .stop .undefined)

theorem GoesIf.bind {σ α β : Type} {p q : Prop} {m : Proc σ Exception α} {f : α → Proc σ Exception β} {s : σ}
    (hm : wp m (GoesIf p) s) (hf : ∀ a, wp (f a) (GoesIf q) (m s).2) : wp (m >>= f) (GoesIf (p ∧ q)) s := by
  show GoesIf _ (Proc.bind m f s).1 (Proc.bind m f s).2
  unfold wp at hm
  unfold Proc.bind
  by_cases hp : p
  · obtain ⟨a, ho⟩ := hm.1 hp
    have hrest := hf a
    rcases hrun : m s with ⟨o, s'⟩
    rw [hrun] at ho hrest
    subst ho
    exact ⟨fun h => hrest.1 h.2, fun h => hrest.2 fun hq => h ⟨hp, hq⟩⟩
  · have ho := hm.2 hp
    rcases hrun : m s with ⟨o, s'⟩
    rw [hrun] at ho
    subst ho
    exact ⟨fun h => absurd h.1 hp, fun _ => rfl⟩

theorem GoesIf.iff {σ α : Type} {p : Prop} {o : Outcome Exception α} {s : σ} (h : GoesIf p o s) :
    o ≠ .stop .undefined ↔ p := by
  constructor
  · intro ho
    by_contra hp
    exact ho (h.2 hp)
  · intro hp ho
    obtain ⟨a, rfl⟩ := h.1 hp
    cases ho

namespace TableIterator
variable {S : Session} {again : Bool} {it : TableIterator S.inputTypes} {c : Channel}

theorem receiveNextData_goesIf : wp (receiveNextData S again) (GoesIf
    (S.verdict again (c.answer S (dataRequest again)) = .batch →
      (c.answer S (dataRequest again)).response.next.rowNumber ≠ [])) (it, c) := by
  rw [wp_receiveNextData]
  generalize c.answer S (dataRequest again) = reply
  cases hverdict : S.verdict again reply with
  | rejected msg => exact ⟨fun _ => ⟨(), rfl⟩, fun h => absurd (fun hb => by cases hb) h⟩
  | ended => exact ⟨fun _ => ⟨(), rfl⟩, fun h => absurd (fun hb => by cases hb) h⟩
  | batch =>
    refine wp_incrementColOffsets_any (fun hlt s _ => ⟨fun _ => ⟨(), rfl⟩, fun h => ?_⟩) fun hle =>
      ⟨fun h => ?_, fun _ => rfl⟩
    · exact absurd (fun _ => List.ne_nil_of_length_pos hlt) h
    · exact absurd (List.eq_nil_of_length_eq_zero (Nat.le_zero.mp hle)) (h rfl)

end TableIterator

namespace IteratorCall
open TableIterator
variable {S : Session} {s : TableIterator S.inputTypes × Channel} {call : IteratorCall}

theorem run_goesIf (call : IteratorCall) (s : TableIterator S.inputTypes × Channel) :
    wp (call.run S) (GoesIf (call.Numbered S s)) s := by
  unfold Numbered
  rcases hrequest : call.request S s with _ | again
  · by_cases hadvances : call.Advances s
    · cases call with
      | next =>
        obtain ⟨it, c⟩ := s
        obtain ⟨hrows, hforce⟩ : it.rowsReceived ≠ 0 ∧ c.inpForceFinish = false := hadvances
        have hinside : ¬it.rowsReceived ≤ it.rowsCompleted + 1 := by
          intro hlast
          rw [request, if_pos ⟨hrows, hforce, hlast⟩] at hrequest
          cases hrequest
        simp only [run, TableIterator.next, wp_bind, wp_get, Outcome.andThen_ok]
        rw [if_neg hrows]
        simp only [wp_bind, wp_update, Outcome.andThen_ok, hforce, Bool.false_eq_true, if_false]
        rw [if_neg hinside, wp_bind]
        refine wp_incrementColOffsets_any (fun hlt s _ => ?_) fun hle => ?_
        · exact ⟨fun _ => ⟨(), rfl⟩, fun h => absurd (fun _ => hlt) h⟩
        · exact ⟨fun h => absurd (h ⟨hrows, hforce⟩) (Nat.not_lt.mpr hle), fun _ => rfl⟩
      | reset | reinitialize | get | checkException | forceFinish => exact hadvances.elim
    · refine wp_mono (wp_run_quiet hrequest hadvances) fun o s' ho => ?_
      exact ⟨fun _ => ⟨(), ho.1⟩, fun h => absurd (fun hadv => absurd hadv hadvances) h⟩
  · rw [wp_run_request hrequest]
    have := @receiveNextData_goesIf S again (call.prepare s).1 (call.prepare s).2
    rw [prepare_answer] at this
    exact this

theorem runAll_goesIf (calls : List IteratorCall) (s : TableIterator S.inputTypes × Channel) :
    wp (runAll S calls) (GoesIf (AllNumbered S calls s)) s := by
  induction calls generalizing s with
  | nil => exact ⟨fun _ => ⟨(), rfl⟩, fun h => absurd trivial h⟩
  | cons call calls ih => exact GoesIf.bind (run_goesIf call s) fun _ => ih _

end IteratorCall

/-- For a new iterator and any calls, every index is inside its array exactly where every row moved to has
its number in the packet. A packet too short for what a `get` call asks for is an exception. -/
theorem indices_inBounds_iff (S : Session) (c : Channel) (calls : List IteratorCall) :
    (wp (do TableIterator.construct S; IteratorCall.runAll S calls) (fun o _ => o ≠ .stop .undefined) ({}, c) ↔
      (S.verdict false (c.answer S .next) = .batch → (c.answer S .next).response.next.rowNumber ≠ []) ∧
        IteratorCall.AllNumbered S calls (TableIterator.construct S ({}, c)).2) ∧
    ∀ (it : TableIterator S.inputTypes) (c : Channel) (type : Datatype) (col : Nat), type.Supported →
      S.inputTypes[col]? = some type → it.Short type col →
      wp (TableIterator.getOfType col type) (fun o s =>
        o = .ok type.nullCell ∧ s.1.wasNull = true ∧ s.2.exch.exthrowed = true) (it, c) := by
  constructor
  · have hfirst : wp (TableIterator.construct S) (GoesIf (S.verdict false (c.answer S .next) = .batch →
        (c.answer S .next).response.next.rowNumber ≠ [])) ({}, c) := TableIterator.receiveNextData_goesIf
    exact (GoesIf.bind hfirst fun _ => IteratorCall.runAll_goesIf calls _).iff
  · intro it c type col hsupported htype hshort
    refine TableIterator.wp_getOfType_any hsupported (fun h => absurd htype h) (fun _ hnull => ?_)
      (fun _ _ _ => ⟨rfl, rfl, rfl⟩) fun _ hflag x hx => ?_
    · obtain h | h := hshort <;> simp [hnull] at h
    · obtain h | h := hshort
      · simp [hflag] at h
      · simp [hx] at h

/-- A BOOLEAN column, and a batch of one null cell without its row number. -/
def unnumberedSession : Session where
  server := fun _ => .message { type := .mtNext, next := { rows := some 1, dataNulls := [true] } }
  serializes := fun _ => true
  inpTypes := [{ type := .boolean }]

theorem indices_inBounds_fail : ¬ ∀ (S : Session) (c : Channel) (calls : List IteratorCall),
    wp (do TableIterator.construct S; IteratorCall.runAll S calls) (fun o _ => o ≠ .stop .undefined) ({}, c) :=
  fun h => absurd rfl (h unnumberedSession {} [])

end UdfRunner
