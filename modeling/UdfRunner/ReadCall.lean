import UdfRunner.SocketHighLevel

/-!
# `send_run`: the argument of a call

The argument is read into globals that outlive the call. `readCall_decodes`: what is read depends on the
`MT_CALL` reply alone.
-/

namespace UdfRunner
open Proc

/-- The part `view` shows is all that `m` reads and writes, whatever the VM is, and `m` does not stop. -/
def ActsOn {α β : Type} (view : ∀ σ, World σ → β) (put : ∀ σ, World σ → β → World σ)
    (m : ∀ σ, Client σ α) : Prop :=
  ∃ m' : Proc β Exception α, (∀ b, ¬ (m' b).1.Stopped) ∧ ∀ σ, m σ = zoom (view σ) (put σ) m'

namespace ActsOn
variable {α β γ : Type} {view : ∀ σ, World σ → β} {put : ∀ σ, World σ → β → World σ}

theorem pure (hlens : ∀ σ, IsLens (view σ) (put σ)) (a : α) :
    ActsOn view put fun σ => (Pure.pure a : Client σ α) :=
  ⟨Pure.pure a, fun _ => id, fun σ => ((hlens σ).zoom_pure a).symm⟩

theorem bind (hlens : ∀ σ, IsLens (view σ) (put σ)) {m : ∀ σ, Client σ α} {f : ∀ σ, α → Client σ γ}
    (hm : ActsOn view put m) (hf : ∀ a, ActsOn view put fun σ => f σ a) :
    ActsOn view put fun σ => m σ >>= f σ := by
  obtain ⟨m', hstop, hm⟩ := hm
  choose f' hf' using hf
  refine ⟨m' >>= f', fun b => ?_, fun σ => ?_⟩
  · show ¬ (Proc.bind m' f' b).1.Stopped
    have h := hstop b
    unfold Proc.bind
    rcases hmb : m' b with ⟨a | e | r, b'⟩ <;> rw [hmb] at h
    · exact (hf' a).1 b'
    · exact id
    · exact absurd trivial h
  · show m σ >>= f σ = _
    rw [(hlens σ).zoom_bind, ← hm]
    exact congrArg _ (funext fun a => (hf' a).2 σ)

theorem option_forM (hlens : ∀ σ, IsLens (view σ) (put σ)) {f : ∀ σ, γ → Client σ PUnit}
    (hf : ∀ a, ActsOn view put fun σ => f σ a) (o : Option γ) :
    ActsOn view put fun σ => o.forM (f σ) := by
  cases o with
  | none => exact pure hlens _
  | some a => exact hf a

theorem list_forM (hlens : ∀ σ, IsLens (view σ) (put σ)) {f : ∀ σ, γ → Client σ PUnit}
    (hf : ∀ a, ActsOn view put fun σ => f σ a) (l : List γ) :
    ActsOn view put fun σ => l.forM (f σ) := by
  induction l with
  | nil => exact pure hlens _
  | cons a l ih => exact bind hlens (hf a) fun _ => ih

/-- An update of the part alone. -/
def updated (f : β → DtoResult β) (b : β) : Outcome Exception Unit × β :=
  match f b with
  | .ok b' => (.ok (), b')
  | .error e => (.throw e, b)

theorem update (hlens : ∀ σ, IsLens (view σ) (put σ)) (f : β → DtoResult β) : ActsOn view put fun σ => (do
    let w ← get
    let b ← Client.ofDto (f (view σ w))
    modify fun w => put σ w b : Client σ Unit) := by
  refine ⟨updated f, fun b => ?_, fun σ => funext fun w => ?_⟩
  · rw [updated]
    cases f b <;> exact id
  · show (get >>= fun w => _) w = _
    rw [run_bind _ _ (show get w = (.ok w, w) from rfl)]
    dsimp only [zoom, updated]
    cases f (view σ w) with
    | ok b' => rfl
    | error e => exact Prod.ext rfl ((hlens σ).put_view w).symm

theorem after_put {m : ∀ σ, Client σ α} (hlens : ∀ σ, IsLens (view σ) (put σ)) (hm : ActsOn view put m)
    (b : β) : ∃ (o : Outcome Exception α) (b' : β), ¬ o.Stopped ∧
      ∀ σ (w : World σ), (do modify fun w => put σ w b; m σ) w = (o, put σ w b') := by
  obtain ⟨m', hstop, hm⟩ := hm
  refine ⟨(m' b).1, (m' b).2, hstop b, fun σ w => ?_⟩
  show m σ (put σ w b) = _
  rw [hm, zoom, (hlens σ).view_put, (hlens σ).put_put]

end ActsOn

namespace Client

/-! ### The two specifications -/

theorem lens_importSpecification (σ : Type) : IsLens
    (fun w : World σ => w.singleCallImportSpecificationArg)
    (fun w s => { w with singleCallImportSpecificationArg := s }) :=
  ⟨fun _ _ => rfl, fun _ => rfl, fun _ _ _ => rfl⟩

theorem lens_exportSpecification (σ : Type) : IsLens
    (fun w : World σ => w.singleCallExportSpecificationArg)
    (fun w s => { w with singleCallExportSpecificationArg := s }) :=
  ⟨fun _ _ => rfl, fun _ => rfl, fun _ _ _ => rfl⟩

theorem actsOn_updateImport (f : ImportSpecification → DtoResult ImportSpecification) :
    ActsOn (fun _ w => w.singleCallImportSpecificationArg)
      (fun _ w s => { w with singleCallImportSpecificationArg := s })
      fun σ => (updateImport f : Client σ Unit) := .update lens_importSpecification f

theorem actsOn_updateExport (f : ExportSpecification → DtoResult ExportSpecification) :
    ActsOn (fun _ w => w.singleCallExportSpecificationArg)
      (fun _ w s => { w with singleCallExportSpecificationArg := s })
      fun σ => (updateExport f : Client σ Unit) := .update lens_exportSpecification f

/-- Reading an import specification: what comes of it does not depend on the world. -/
theorem readImportSpecification_eq (rep : ImportSpecificationRep) :
    ∃ (o : Outcome Exception Unit) (s : ImportSpecification), ¬ o.Stopped ∧ ∀ σ (w : World σ),
      readImportSpecification rep w = (o, { w with singleCallImportSpecificationArg := s }) := by
  have hl := lens_importSpecification
  refine ActsOn.after_put hl ?_ _
  refine .bind hl (.option_forM hl (fun _ => actsOn_updateImport _) _) fun _ => ?_
  refine .bind hl (.option_forM hl (fun _ => actsOn_updateImport _) _) fun _ => ?_
  refine .bind hl (.list_forM hl (fun _ => ?_) _) fun _ => ?_
  · exact .bind hl (actsOn_updateImport _) fun _ => actsOn_updateImport _
  · exact .list_forM hl (fun _ => actsOn_updateImport _) _

theorem readExportSpecification_eq (rep : ExportSpecificationRep) :
    ∃ (o : Outcome Exception Unit) (s : ExportSpecification), ¬ o.Stopped ∧ ∀ σ (w : World σ),
      readExportSpecification rep w = (o, { w with singleCallExportSpecificationArg := s }) := by
  have hl := lens_exportSpecification
  refine ActsOn.after_put hl ?_ _
  refine .bind hl (.option_forM hl (fun _ => actsOn_updateExport _) _) fun _ => ?_
  refine .bind hl (.option_forM hl (fun _ => actsOn_updateExport _) _) fun _ => ?_
  refine .bind hl (.list_forM hl (fun _ => actsOn_updateExport _) _) fun _ => ?_
  refine .bind hl (actsOn_updateExport _) fun _ => ?_
  refine .bind hl (actsOn_updateExport _) fun _ => ?_
  refine .bind hl (.option_forM hl (fun _ => actsOn_updateExport _) _) fun _ => ?_
  exact .list_forM hl (fun _ => actsOn_updateExport _) _

/-! ### The argument -/

/-- What the loop hands to the VM for a function. -/
def argument {σ : Type} (fn : SingleCallFunctionId) (w : World σ) : ScriptDto :=
  match fn with
  | .scFnNil | .scFnDefaultOutputColumns => .empty
  | .scFnGenerateSqlForImportSpec => .importSpecification w.singleCallImportSpecificationArg
  | .scFnGenerateSqlForExportSpec => .exportSpecification w.singleCallExportSpecificationArg
  | .scFnVirtualSchemaAdapterCall => .string w.singleCallStringArg

/-- The argument an `MT_CALL` reply carries, as a client reads it that has not read one before. -/
def decodeArgument (sc : SingleCallRep) : Option ScriptDto :=
  match readCall sc ({} : World Unit) with
  | (.ok (), w) => some (argument sc.fn w)
  | _ => none

/-- Only the call may differ. -/
def SameButCall {σ : Type} (w w' : World σ) : Prop :=
  w' = { w with
    singleCallFunction := w'.singleCallFunction
    singleCallImportSpecificationArg := w'.singleCallImportSpecificationArg
    singleCallExportSpecificationArg := w'.singleCallExportSpecificationArg
    singleCallStringArg := w'.singleCallStringArg }

/-- What reading a call comes to: the outcome and, if it is read, the argument are the same in every
world. -/
structure Reads (sc : SingleCallRep) (o : Outcome Exception Unit) (arg : ScriptDto) {σ : Type}
    (w w' : World σ) : Prop where
  eq : readCall sc w = (o, w')
  fn : w'.singleCallFunction = sc.fn
  same : SameButCall w w'
  argument : o = .ok () → argument sc.fn w' = arg

theorem readCall_reads (sc : SingleCallRep) : ∃ (o : Outcome Exception Unit) (arg : ScriptDto),
    ¬ o.Stopped ∧ ∀ σ (w : World σ), ∃ w', Reads sc o arg w w' := by
  obtain ⟨fn, importRep, json, exportRep⟩ := sc
  cases fn with
  | scFnNil | scFnDefaultOutputColumns =>
    exact ⟨.ok (), .empty, id, fun σ w => ⟨_, rfl, rfl, rfl, fun _ => rfl⟩⟩
  | scFnGenerateSqlForImportSpec =>
    cases importRep with
    | none => exact ⟨_, .empty, id, fun σ w => ⟨_, rfl, rfl, rfl, by simp⟩⟩
    | some rep =>
      obtain ⟨o, s, hstop, hread⟩ := readImportSpecification_eq rep
      exact ⟨o, .importSpecification s, hstop, fun σ w => ⟨_, hread σ _, rfl, rfl, fun _ => rfl⟩⟩
  | scFnGenerateSqlForExportSpec =>
    cases exportRep with
    | none => exact ⟨_, .empty, id, fun σ w => ⟨_, rfl, rfl, rfl, by simp⟩⟩
    | some rep =>
      obtain ⟨o, s, hstop, hread⟩ := readExportSpecification_eq rep
      exact ⟨o, .exportSpecification s, hstop, fun σ w => ⟨_, hread σ _, rfl, rfl, fun _ => rfl⟩⟩
  | scFnVirtualSchemaAdapterCall =>
    cases json with
    | none => exact ⟨_, .empty, id, fun σ w => ⟨_, rfl, rfl, rfl, by simp⟩⟩
    | some json => exact ⟨.ok (), .string json, id, fun σ w => ⟨_, rfl, rfl, rfl, fun _ => rfl⟩⟩

variable {σ : Type}

theorem readCall_same (sc : SingleCallRep) (w : World σ) :
    ¬ (readCall sc w).1.Stopped ∧ SameButCall w (readCall sc w).2 := by
  obtain ⟨o, arg, hstop, hreads⟩ := readCall_reads sc
  obtain ⟨w', h⟩ := hreads σ w
  rw [h.eq]
  exact ⟨hstop, h.same⟩

/-- The argument that is read is the one in the reply, whatever was read before. -/
theorem readCall_decodes {sc : SingleCallRep} {w w' : World σ} (h : readCall sc w = (.ok (), w')) :
    w'.singleCallFunction = sc.fn ∧ decodeArgument sc = some (argument sc.fn w') := by
  obtain ⟨o, arg, -, hreads⟩ := readCall_reads sc
  obtain ⟨w₁, h₁⟩ := hreads σ w
  obtain ⟨w₂, h₂⟩ := hreads Unit {}
  obtain ⟨rfl, rfl⟩ : o = .ok () ∧ w₁ = w' := Prod.mk.inj (h₁.eq.symm.trans h)
  refine ⟨h₁.fn, ?_⟩
  rw [decodeArgument, h₂.eq, h₁.argument rfl]
  exact congrArg some (h₂.argument rfl)

theorem wp_readCall {sc : SingleCallRep} {w : World σ} {Q : Outcome Exception Unit → World σ → Prop}
    (hok : ∀ w', SameButCall w w' → w'.singleCallFunction = sc.fn →
      decodeArgument sc = some (argument sc.fn w') → Q (.ok ()) w')
    (hthrow : ∀ e w', SameButCall w w' → Q (.throw e) w') : wp (readCall sc) Q w := by
  obtain ⟨hstop, hsame⟩ := readCall_same sc w
  unfold wp
  rcases hread : readCall sc w with ⟨⟨⟩ | e | r, w'⟩ <;> rw [hread] at hstop hsame
  · obtain ⟨hfn, hdecode⟩ := readCall_decodes hread
    exact hok w' hsame hfn hdecode
  · exact hthrow e w' hsame
  · exact absurd trivial hstop

end Client

end UdfRunner
