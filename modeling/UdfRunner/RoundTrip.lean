import UdfRunner.ForwardPath

/-!
# What is emitted reads back

The emit requests of one script and the batches another one reads are tables of one format.
`emittedRows_readBack`: rows emitted by a script, delivered to another in whatever batches, are visited
there as they were assigned, whatever their types and however they were cut into tables on either side.
-/

namespace UdfRunner
open Proc

section
variable {S : Session} {start c : Channel} {v : EmitView} {h : ResultHandler}

theorem EmitInv.flush_delivers (hi : EmitInv S start v (h, c)) (hser : S.serializes h.table = true) :
    wp (ResultHandler.flush S) (fun o s => o = .ok () ∧ ∃ sent sentRows,
      Delivered S start v.rows s.1.table s.2 sent sentRows []) (h, c) := by
  refine wp_mono (wp_and hi.flush (ResultHandler.flush_empties hser)) fun o s ho => ?_
  obtain ⟨⟨rfl, hi'⟩, hempty⟩ := ho
  obtain ⟨sent, sentRows, waiting, hd⟩ := hi'.delivered
  have hnone : waiting = [] := List.length_eq_zero_iff.mp (hd.waiting.rowCount.symm.trans hempty)
  rw [hnone] at hd
  exact ⟨rfl, sent, sentRows, hd⟩

namespace Delivered
variable {rows : List Row} {table : TableData} {sent : List TableData} {sentRows : List (List Row)}

theorem decodeAll_sent (hd : Delivered S start rows table c sent sentRows []) :
    TableData.decodeAll S.outputTypes sent = some rows := by
  rw [TableData.decodeAll_of_forall₂ hd.holds, hd.rows_eq, List.append_nil]

theorem sent_wellFormed {waiting : List Row} (hd : Delivered S start rows table c sent sentRows waiting) :
    ∀ t ∈ sent, t.WellFormed S.outputTypes := by
  intro t ht
  obtain ⟨i, hi, rfl⟩ := List.getElem_of_mem ht
  have hlen : i < sentRows.length := hd.holds.length_eq ▸ hi
  exact (List.Forall₂.get hd.holds hi hlen).wellFormed (hd.nonempty _ (List.getElem_mem hlen))

end Delivered

end

theorem TableIterator.wp_construct_drive {S : Session} (hsupported : ∀ t ∈ S.inputTypes, t.Supported)
    {batches : List TableData} (hwf : ∀ t ∈ batches, t.WellFormed S.inputTypes) {rows : List Row}
    (hrows : TableData.decodeAll S.inputTypes batches = some rows) {plan : List Visit → List Nat}
    (hplan : ∀ visits, ∀ col ∈ plan visits, col < S.inputTypes.length) {fuel : Nat}
    (hfuel : rows.length < fuel) {c : Channel} (hforce : c.inpForceFinish = false)
    (hfeeds : TableIterator.Feeds S (fun _ => False) c.past batches) :
    wp (do TableIterator.construct S; TableIterator.drive S plan fuel) (fun o s =>
      o = .ok (visitRows S.inputTypes plan [] rows) ∧ s.1.eot = true) ({}, c) := by
  obtain ⟨later, hholds, hne⟩ := TableData.exists_holds hwf
  obtain rfl : later.flatten = rows :=
    Option.some.inj ((TableData.decodeAll_of_forall₂ hholds).symm.trans hrows)
  show wp (do TableIterator.receiveNextData S false; TableIterator.drive S plan fuel) _ _
  rw [wp_bind]
  refine TableIterator.wp_receiveAhead ⟨batches, later, hholds, hne, hfeeds, rfl⟩ fun it h => ?_
  exact TableIterator.wp_drive h hforce hsupported hplan hfuel []

/-- The rows of a script that completes them and flushes at its end went out in well-formed tables. Any
batches with these rows, those tables or others, are read by a script with such input columns as the same
rows: it visits each once, in order, and every value reads as it was assigned. -/
theorem emittedRows_readBack (S S' : Session) (htypes : S'.inputTypes = S.outputTypes)
    (hsupported : ∀ t ∈ S.outputTypes, t.Supported) (hser : ∀ t, S.serializes t = true)
    (ops : List EmitOp) (hnul : ∀ op ∈ ops, op.NulFree S.outputTypes)
    (hcomplete : EmitView.CompleteAtNext S.outputTypes {} ops) (start : Channel) :
    wp (do let _ ← EmitOp.runAll S ops; ResultHandler.flush S) (fun o s => o = .ok () ∧
      ∃ sent : List TableData,
        s.2.exchanges.map Prod.fst = start.exchanges.map Prod.fst ++ sent.map VmRequest.emit ∧
        (∀ t ∈ sent, t.WellFormed S'.inputTypes) ∧
        TableData.decodeAll S'.inputTypes sent = some (EmitView.steps S.outputTypes {} ops).rows ∧
        ∀ batches : List TableData, (∀ t ∈ batches, t.WellFormed S'.inputTypes) →
          TableData.decodeAll S'.inputTypes batches = TableData.decodeAll S'.inputTypes sent →
          ∀ plan : List Visit → List Nat, (∀ visits, ∀ col ∈ plan visits, col < S'.inputTypes.length) →
          ∀ fuel, (EmitView.steps S.outputTypes {} ops).rows.length < fuel →
          ∀ c : Channel, c.inpForceFinish = false → TableIterator.Feeds S' (fun _ => False) c.past batches →
            wp (do TableIterator.construct S'; TableIterator.drive S' plan fuel) (fun o s =>
              o = .ok (visitRows S'.inputTypes plan [] (EmitView.steps S.outputTypes {} ops).rows) ∧
                s.1.eot = true) ({}, c))
      ({}, start) := by
  rw [wp_bind]
  refine wp_mono ((EmitInv.init (.empty _) start).runAll hnul hcomplete) fun o s ho => ?_
  obtain ⟨⟨taken, rfl, -⟩, hi⟩ := ho
  rw [Outcome.andThen_ok]
  refine wp_mono (hi.flush_delivers (hser _)) fun o s' ho => ?_
  obtain ⟨rfl, sent, sentRows, hd⟩ := ho
  have hdecode : TableData.decodeAll S'.inputTypes sent = some (EmitView.steps S.outputTypes {} ops).rows := by
    rw [htypes]
    exact hd.decodeAll_sent
  have hwf := hd.sent_wellFormed
  rw [← htypes] at hwf hsupported
  refine ⟨rfl, sent, hd.exchanges, hwf, hdecode, ?_⟩
  intro batches hbatches hsame plan hplan fuel hfuel c hforce hfeeds
  exact TableIterator.wp_construct_drive hsupported hbatches (hsame.trans hdecode) hplan hfuel hforce hfeeds

/-- The batches of a string and a NULL that went out in one table. -/
def splitBatches : List TableData :=
  [{ rows := some 1, dataString := [str "ab"], dataNulls := [false], rowNumber := [4] },
    { rows := some 1, dataNulls := [true], rowNumber := [5] }]

theorem emittedRows_readBack_split :
    wp (do TableIterator.construct (feedSession splitBatches)
           TableIterator.drive (feedSession splitBatches) (fun _ => [0]) 3)
      (fun o _ => o = .ok [⟨4, [(0, .string [97, 98], false)]⟩, ⟨5, [(0, .string [], true)]⟩]) ({}, {}) := by
  let ops : List EmitOp := [.setString 0 (str "ab") 2, .next 4, .setNull 0, .next 5]
  have hemits := emittedRows_readBack (feedSession []) (feedSession splitBatches) rfl (by decide) (fun _ => rfl) ops
    ?_ ?_ {}
  · obtain ⟨-, sent, -, -, hdecode, hread⟩ := hemits
    refine wp_mono (hread splitBatches ?_ (Eq.trans rfl hdecode.symm) (fun _ => [0]) ?_ 3 (by decide) {} rfl ?_)
      fun o s ho => ho.1
    · intro t ht
      simp only [splitBatches, List.mem_cons, List.not_mem_nil, or_false] at ht
      rcases ht with rfl | rfl
      · exact ⟨by decide, rfl, rfl, fun k => by rcases k with _ | (_ | _ | _ | _ | _) <;> rfl⟩
      · exact ⟨by decide, rfl, rfl, fun k => by rcases k with _ | (_ | _ | _ | _ | _) <;> rfl⟩
    · intro _ col hcol
      obtain rfl := List.mem_singleton.mp hcol
      decide
    · exact (feedSession_feeds rfl).mono fun _ h => h.elim
  · intro op hop col s hs
    simp only [ops, List.mem_cons, List.not_mem_nil, or_false] at hop
    rcases hop with rfl | rfl | rfl | rfl <;>
      simp [EmitOp.assign, EmitOp.assign.typed, feedSession, Session.outputTypes] at hs
    rw [← hs.2]
    decide
  · simp [ops, EmitView.CompleteAtNext, EmitView.Complete, EmitView.step, EmitView.assigned, EmitOp.assign,
      EmitOp.assign.typed, feedSession, Session.outputTypes, Function.update]

end UdfRunner
