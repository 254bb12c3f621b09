import UdfRunner.ReadCall

/-!
# `send_run`: what the specifications report

A specification keeps a connection name and the kind of connection information as strings that are empty
if there is none. `specifications_faithful_iff`: it reports the message unless one of them is present and
empty.
-/

namespace UdfRunner
open Proc

/-- The connection of a message: the name of one, or its details. -/
structure ConnectionReport where
  hasConnectionName : Bool
  getConnectionName : DtoResult ByteString
  hasConnectionInformation : Bool
  getConnectionInformation : DtoResult ConnectionInformation

def ImportSpecification.connection (s : ImportSpecification) : ConnectionReport :=
  ⟨s.hasConnectionName, s.getConnectionName, s.hasConnectionInformation, s.getConnectionInformation⟩

def ExportSpecification.connection (s : ExportSpecification) : ConnectionReport :=
  ⟨s.hasConnectionName, s.getConnectionName, s.hasConnectionInformation, s.getConnectionInformation⟩

/-- Each is there exactly if the field is, with the field's value. -/
structure ConnectionReport.Reports (s : ConnectionReport) (name : Option ByteString)
    (info : Option ConnectionInformationRep) : Prop where
  hasConnectionName : s.hasConnectionName = name.isSome
  getConnectionName : ∀ n, name = some n → s.getConnectionName = .ok n
  hasConnectionInformation : s.hasConnectionInformation = info.isSome
  getConnectionInformation : ∀ c, info = some c → s.getConnectionInformation = .ok c.toDto

/-- A map with the pairs of a message: no key twice, and no pair more or less. -/
structure ReportsParameters (map : List (ByteString × ByteString)) (parameters : List KeyValuePair) : Prop where
  nodup : (map.map Prod.fst).Nodup
  length : map.length = parameters.length
  mem : ∀ key value, (key, value) ∈ map ↔ ⟨key, value⟩ ∈ parameters

structure ImportSpecification.Reports (s : ImportSpecification) (rep : ImportSpecificationRep) : Prop where
  isSubselect : s.isSubselect = rep.isSubselect
  columnNames : s.subselectColumnNames = rep.subselectColumnSpecification.map ColumnDefinition.name
  columnTypes : s.subselectColumnTypes = rep.subselectColumnSpecification.map ColumnDefinition.typeName
  getColumns : rep.isSubselect = true → s.getSubselectColumnNames = .ok s.subselectColumnNames ∧
    s.getSubselectColumnTypes = .ok s.subselectColumnTypes
  connection : s.connection.Reports rep.connectionName rep.connectionInformation
  parameters : ReportsParameters s.parameters rep.parameters

structure ExportSpecification.Reports (s : ExportSpecification) (rep : ExportSpecificationRep) : Prop where
  truncate : s.truncate = rep.hasTruncate
  replace : s.replace = rep.hasReplace
  createdBy : s.createdBy = rep.createdBy.getD []
  sourceColumnNames : s.sourceColumnNames = rep.sourceColumnNames
  connection : s.connection.Reports rep.connectionName rep.connectionInformation
  parameters : ReportsParameters s.parameters rep.parameters

/-- A key is there twice. -/
def RepeatsKey (parameters : List KeyValuePair) : Prop := ¬(parameters.map KeyValuePair.key).Nodup

def ImportSpecificationRep.Invalid (rep : ImportSpecificationRep) : Prop :=
  RepeatsKey rep.parameters ∨ (rep.connectionName.isSome ∧ rep.connectionInformation.isSome) ∨
    (rep.isSubselect = false ∧ rep.subselectColumnSpecification ≠ [])

def ExportSpecificationRep.Invalid (rep : ExportSpecificationRep) : Prop :=
  RepeatsKey rep.parameters ∨ (rep.connectionName.isSome ∧ rep.connectionInformation.isSome)

/-- What `send_run` makes of an `MT_CALL` with a specification: it reports it if it returns, and does not
return if it is invalid. -/
structure SingleCallRep.Faithful {σ : Type} (sc : SingleCallRep) (o : Outcome Exception Bool) (w : World σ) :
    Prop where
  importSpecification : sc.fn = .scFnGenerateSqlForImportSpec → ∀ rep, sc.importSpecification = some rep →
    (∀ b, o = .ok b → w.singleCallImportSpecificationArg.Reports rep) ∧ (rep.Invalid → ∃ e, o = .throw e)
  exportSpecification : sc.fn = .scFnGenerateSqlForExportSpec → ∀ rep, sc.exportSpecification = some rep →
    (∀ b, o = .ok b → w.singleCallExportSpecificationArg.Reports rep) ∧ (rep.Invalid → ∃ e, o = .throw e)

/-- Neither the name nor the kind of the details is present and empty. -/
def ConnectionKept (name : Option ByteString) (info : Option ConnectionInformationRep) : Prop :=
  name ≠ some [] ∧ ∀ c, info = some c → c.kind ≠ []

/-- A name beside details whose kind is not empty. -/
def ConnectionRefused (name : Option ByteString) (info : Option ConnectionInformationRep) : Prop :=
  name.isSome ∧ ∃ c, info = some c ∧ c.kind ≠ []

def ImportSpecificationRep.Refused (rep : ImportSpecificationRep) : Prop :=
  ConnectionRefused rep.connectionName rep.connectionInformation ∨
    (rep.isSubselect = false ∧ rep.subselectColumnSpecification ≠ []) ∨ RepeatsKey rep.parameters

def ExportSpecificationRep.Refused (rep : ExportSpecificationRep) : Prop :=
  ConnectionRefused rep.connectionName rep.connectionInformation ∨ RepeatsKey rep.parameters

/-- The connection of the specification is kept, or the specification is refused anyway. -/
structure SingleCallRep.Kept (sc : SingleCallRep) : Prop where
  importSpecification : sc.fn = .scFnGenerateSqlForImportSpec → ∀ rep, sc.importSpecification = some rep →
    ConnectionKept rep.connectionName rep.connectionInformation ∨ rep.Refused
  exportSpecification : sc.fn = .scFnGenerateSqlForExportSpec → ∀ rep, sc.exportSpecification = some rep →
    ConnectionKept rep.connectionName rep.connectionInformation ∨ rep.Refused

/-! ### The reading as a function of the specification -/

namespace Client
variable {σ α β : Type}

/-- If it returns `m` does to the part what `f` says, and else it throws what `f` throws. -/
def Does (view : World σ → β) (put : World σ → β → World σ) (f : β → DtoResult β) (m : Client σ Unit) : Prop :=
  ∀ w, (∃ b, f (view w) = .ok b ∧ m w = (.ok (), put w b)) ∨
    ∃ e b, f (view w) = .error e ∧ m w = (.throw e, put w b)

namespace Does
variable {view : World σ → β} {put : World σ → β → World σ} {f g : β → DtoResult β} {m m' : Client σ Unit}
  (hlens : IsLens view put)
include hlens

theorem pure : Does view put .ok (Pure.pure () : Client σ Unit) :=
  fun w => .inl ⟨view w, rfl, by rw [hlens.put_view]; rfl⟩

theorem update (f : β → DtoResult β) : Does view put f (do
    let w ← get
    let b ← ofDto (f (view w))
    modify fun w => put w b) := by
  intro w
  show (∃ b, _ ∧ (ofDto (f (view w)) >>= fun b => _) w = _) ∨ ∃ e b, _ ∧ (ofDto (f (view w)) >>= fun b => _) w = _
  cases f (view w) with
  | ok b => exact .inl ⟨b, rfl, rfl⟩
  | error e => exact .inr ⟨e, view w, rfl, by rw [hlens.put_view]; rfl⟩

theorem bind (hm : Does view put f m) (hm' : Does view put g m') :
    Does view put (fun b => f b >>= g) (m >>= fun _ => m') := by
  intro w
  rcases hm w with ⟨b, hf, hrun⟩ | ⟨e, b, hf, hrun⟩
  · rw [run_bind m _ hrun]
    show (∃ b', (f (view w) >>= g) = _ ∧ _) ∨ ∃ e b', (f (view w) >>= g) = _ ∧ _
    rw [hf]
    rcases hm' (put w b) with ⟨b', hg, hrun'⟩ | ⟨e, b', hg, hrun'⟩ <;> rw [hlens.view_put] at hg
    · exact .inl ⟨b', hg, hrun'.trans (by rw [hlens.put_put])⟩
    · exact .inr ⟨e, b', hg, hrun'.trans (by rw [hlens.put_put])⟩
  · refine .inr ⟨e, b, ?_, ?_⟩
    · show (f (view w) >>= g) = _
      rw [hf]
      rfl
    · show Proc.bind m (fun _ => m') w = _
      simp only [Proc.bind, hrun]

theorem option_forM {f : α → β → DtoResult β} {m : α → Client σ PUnit} (hm : ∀ a, Does view put (f a) (m a))
    (o : Option α) : Does view put (fun b => o.elim (.ok b) (f · b)) (o.forM m) := by
  cases o with
  | none => exact pure hlens
  | some a => exact hm a

theorem list_forM {f : β → α → DtoResult β} {m : α → Client σ PUnit}
    (hm : ∀ a, Does view put (f · a) (m a)) (l : List α) :
    Does view put (fun b => l.foldlM f b) (l.forM m) := by
  induction l with
  | nil => exact pure hlens
  | cons a l ih => exact bind hlens (hm a) ih

end Does

end Client

/-! ### What is read -/

/-- `x` fails exactly if `p`, and else gives something in `R`. -/
def FailsIf {α : Type} (p : Prop) (x : DtoResult α) (R : α → Prop) : Prop :=
  (p ∧ ∃ e, x = .error e) ∨ (¬p ∧ ∃ a, x = .ok a ∧ R a)

namespace FailsIf
variable {α β : Type} {p q : Prop} {x : DtoResult α} {R R' : α → Prop}

theorem ok {a : α} (h : R a) : FailsIf False (.ok a) R := .inr ⟨id, a, rfl, h⟩

theorem bind {f : α → DtoResult β} {S : β → Prop} (hx : FailsIf p x R) (hf : ∀ a, R a → FailsIf q (f a) S) :
    FailsIf (p ∨ q) (x >>= f) S := by
  rcases hx with ⟨hp, e, rfl⟩ | ⟨hp, a, rfl, ha⟩
  · exact .inl ⟨.inl hp, e, rfl⟩
  · rcases hf a ha with ⟨hq, e, he⟩ | ⟨hq, b, hb, hS⟩
    · exact .inl ⟨.inr hq, e, he⟩
    · exact .inr ⟨fun h => h.elim hp hq, b, hb, hS⟩

theorem mono (hx : FailsIf p x R) (h : ∀ a, R a → R' a) : FailsIf p x R' := by
  rcases hx with hx | ⟨hp, a, ha, hR⟩
  · exact .inl hx
  · exact .inr ⟨hp, a, ha, h a hR⟩

theorem congr (hx : FailsIf p x R) (h : p ↔ q) : FailsIf q x R := by
  rwa [FailsIf, ← h]

end FailsIf

def KeyValuePair.toPair (p : KeyValuePair) : ByteString × ByteString := (p.key, p.value)

section
variable {β γ : Type} {b : β} (rest : β → γ)

/-- Parameters are added one after another until a key is there already. `rest` is what stays. -/
theorem foldlM_addParameter (params : β → List (ByteString × ByteString)) (add : β → KeyValuePair → DtoResult β)
    (hadd : ∀ b p, FailsIf (p.key ∈ (params b).map Prod.fst) (add b p)
      fun b' => params b' = params b ++ [p.toPair] ∧ rest b' = rest b)
    (ps : List KeyValuePair) (hb : ((params b).map Prod.fst).Nodup) :
    FailsIf (¬((params b).map Prod.fst ++ ps.map KeyValuePair.key).Nodup) (ps.foldlM add b)
      fun b' => params b' = params b ++ ps.map KeyValuePair.toPair ∧ rest b' = rest b := by
  induction ps generalizing b with
  | nil => exact (FailsIf.ok (by simp)).congr (by simpa using hb)
  | cons p ps ih =>
    rw [List.foldlM_cons]
    rcases hadd b p with ⟨hkey, e, he⟩ | ⟨hkey, b₁, hb₁, hparams, hrest⟩
    · refine .inl ⟨fun hnodup => ?_, e, by rw [he]; rfl⟩
      exact List.disjoint_of_nodup_append hnodup hkey (by simp)
    · have hkeys : (params b₁).map Prod.fst = (params b).map Prod.fst ++ [p.key] := by
        simp [hparams, KeyValuePair.toPair]
      have hnodup : ((params b₁).map Prod.fst).Nodup := by
        rw [hkeys]
        exact hb.append (List.nodup_singleton _) (List.disjoint_singleton.mpr hkey)
      rw [hb₁]
      refine ((ih hnodup).mono fun b' h => ⟨?_, h.2.trans hrest⟩).congr ?_
      · rw [hkeys, List.append_assoc]
        rfl
      · rw [h.1, hparams, List.append_assoc]
        rfl

/-- The two setters of a specification that has neither, as `send_run` calls them: the second looks for the
kind that the first has set. -/
theorem setConnection (name : β → ByteString) (info : β → ConnectionInformation)
    (setInfo : β → ConnectionInformation → DtoResult β) (setName : β → ByteString → DtoResult β)
    (hinfo : ∀ b c, name b = [] → (info b).kind = [] → FailsIf False (setInfo b c)
      fun b' => name b' = [] ∧ info b' = c ∧ rest b' = rest b)
    (hname : ∀ b n, name b = [] → FailsIf ((info b).kind ≠ []) (setName b n)
      fun b' => name b' = n ∧ info b' = info b ∧ rest b' = rest b)
    (n : Option ByteString) (c : Option ConnectionInformationRep) (hb : name b = []) (hb' : info b = {}) :
    FailsIf (ConnectionRefused n c)
      (c.elim (.ok b) (fun c => setInfo b c.toDto) >>= fun b => n.elim (.ok b) (setName b))
      fun b' => name b' = n.getD [] ∧ info b' = (c.map ConnectionInformationRep.toDto).getD {} ∧
        rest b' = rest b := by
  have hset : FailsIf False (c.elim (.ok b) fun c => setInfo b c.toDto) fun b' =>
      name b' = [] ∧ info b' = (c.map ConnectionInformationRep.toDto).getD {} ∧ rest b' = rest b := by
    cases c with
    | none => exact .ok ⟨hb, hb', rfl⟩
    | some c => exact hinfo b c.toDto hb (by rw [hb'])
  refine (hset.bind (q := ConnectionRefused n c) fun b₁ hb₁ => ?_).congr (by simp)
  obtain ⟨hn, hc, hrest⟩ := hb₁
  cases n with
  | none => exact (FailsIf.ok ⟨hn, hc, hrest⟩).congr (by simp [ConnectionRefused])
  | some n =>
    refine ((hname b₁ n hn).mono fun b' h => ⟨h.1, h.2.1.trans hc, h.2.2.trans hrest⟩).congr ?_
    rw [hc]
    cases c <;> simp [ConnectionRefused, ConnectionInformationRep.toDto]

end

namespace ImportSpecification
variable {s : ImportSpecification}

theorem hasConnectionInformation_iff (s : ImportSpecification) :
    s.hasConnectionInformation = true ↔ s.connectionInformation.kind ≠ [] := by
  simp [hasConnectionInformation, ConnectionInformation.hasData]

theorem setConnectionInformation_spec (c : ConnectionInformation) (hn : s.connectionName = [])
    (hc : s.connectionInformation.kind = []) :
    FailsIf False (s.setConnectionInformation c) (· = { s with connectionInformation := c }) := by
  rw [setConnectionInformation, if_neg (by simp [hasConnectionName, hn]),
    if_neg (by simp [hasConnectionInformation_iff, hc])]
  exact .ok rfl

theorem setConnectionName_spec (n : ByteString) (hn : s.connectionName = []) :
    FailsIf (s.connectionInformation.kind ≠ []) (s.setConnectionName n) (· = { s with connectionName := n }) := by
  rw [setConnectionName, if_neg (by simp [hasConnectionName, hn])]
  split_ifs with h
  · exact .inl ⟨s.hasConnectionInformation_iff.mp h, _, rfl⟩
  · exact .inr ⟨fun hc => h (s.hasConnectionInformation_iff.mpr hc), _, rfl, rfl⟩

theorem addParameter_spec (key value : ByteString) (s : ImportSpecification) :
    FailsIf (key ∈ s.parameters.map Prod.fst) (s.addParameter key value)
      (· = { s with parameters := s.parameters ++ [(key, value)] }) := by
  unfold addParameter
  split_ifs with h
  · exact .inl ⟨by simpa [List.any_eq_true] using h, _, rfl⟩
  · exact .inr ⟨by simpa [List.any_eq_true] using h, _, rfl, rfl⟩

def addColumn (s : ImportSpecification) (c : ColumnDefinition) : DtoResult ImportSpecification :=
  s.appendSubselectColumnName c.name >>= (·.appendSubselectColumnType c.typeName)

theorem addColumn_spec (c : ColumnDefinition) (s : ImportSpecification) :
    FailsIf (s.isSubselect = false) (s.addColumn c) (· = { s with
      subselectColumnNames := s.subselectColumnNames ++ [c.name]
      subselectColumnTypes := s.subselectColumnTypes ++ [c.typeName] }) := by
  unfold addColumn appendSubselectColumnName appendSubselectColumnType
  cases hsub : s.isSubselect with
  | true => exact .inr ⟨by simp, _, by simp [Bind.bind, Except.bind], rfl⟩
  | false => exact .inl ⟨rfl, _, by simp [dtoError, Bind.bind, Except.bind]; rfl⟩

theorem foldlM_addColumn (cs : List ColumnDefinition) (s : ImportSpecification) :
    FailsIf (s.isSubselect = false ∧ cs ≠ []) (cs.foldlM addColumn s) (· = { s with
      subselectColumnNames := s.subselectColumnNames ++ cs.map ColumnDefinition.name
      subselectColumnTypes := s.subselectColumnTypes ++ cs.map ColumnDefinition.typeName }) := by
  induction cs generalizing s with
  | nil => exact (FailsIf.ok (by simp)).congr (by simp)
  | cons c cs ih =>
    rw [List.foldlM_cons]
    refine ((s.addColumn_spec c).bind (q := s.isSubselect = false ∧ cs ≠ []) fun s₁ hs₁ => ?_).congr ?_
    · exact ((ih s₁).mono fun s' hs' => by simp [hs', hs₁]).congr (by rw [hs₁])
    · simp only [ne_eq, reduceCtorEq, not_false_eq_true, and_true, or_iff_left_iff_imp]
      exact And.left

theorem foldlM_parameters (ps : List KeyValuePair) (hs : s.parameters = []) :
    FailsIf (RepeatsKey ps) (ps.foldlM (fun s p => s.addParameter p.key p.value) s)
      (· = { s with parameters := ps.map KeyValuePair.toPair }) := by
  have h := foldlM_addParameter (fun s : ImportSpecification => { s with parameters := [] }) parameters
    (fun s p => s.addParameter p.key p.value) (fun s p => (s.addParameter_spec p.key p.value).mono ?_) ps
    (b := s) (by simp [hs])
  · rw [hs] at h
    refine (h.mono fun s' hs' => ?_).congr (by simp [RepeatsKey])
    cases s
    cases s'
    simp_all
  · rintro s' rfl
    exact ⟨rfl, rfl⟩

theorem setConnection_spec (n : Option ByteString) (c : Option ConnectionInformationRep)
    (hn : s.connectionName = []) (hc : s.connectionInformation = {}) :
    FailsIf (ConnectionRefused n c)
      (c.elim (.ok s) (fun c => s.setConnectionInformation c.toDto) >>= fun s =>
        n.elim (.ok s) fun n => s.setConnectionName n)
      (· = { s with
        connectionName := n.getD []
        connectionInformation := (c.map ConnectionInformationRep.toDto).getD {} }) := by
  have h := setConnection (fun s : ImportSpecification => { s with connectionName := [], connectionInformation := {} })
    connectionName connectionInformation (fun s c => s.setConnectionInformation c)
    (fun s n => s.setConnectionName n) (fun s c hn hc => (setConnectionInformation_spec c hn hc).mono ?_)
    (fun s n hn => (setConnectionName_spec n hn).mono ?_) n c hn hc
  · refine h.mono fun s' hs' => ?_
    cases s
    cases s'
    simp_all
  · rintro s' rfl
    exact ⟨hn, rfl, rfl⟩
  · rintro s' rfl
    exact ⟨rfl, rfl, rfl⟩

end ImportSpecification

/-- The calls of `send_run` on the specification, one after another. -/
def ImportSpecificationRep.fill (rep : ImportSpecificationRep) (s : ImportSpecification) :
    DtoResult ImportSpecification := do
  let s ← rep.connectionInformation.elim (.ok s) fun c => s.setConnectionInformation c.toDto
  let s ← rep.connectionName.elim (.ok s) fun n => s.setConnectionName n
  let s ← rep.subselectColumnSpecification.foldlM ImportSpecification.addColumn s
  rep.parameters.foldlM (fun s p => s.addParameter p.key p.value) s

/-- The specification of a message that is not refused. -/
def ImportSpecificationRep.toDto (rep : ImportSpecificationRep) : ImportSpecification where
  isEmptySpec := false
  isSubselect := rep.isSubselect
  subselectColumnNames := rep.subselectColumnSpecification.map ColumnDefinition.name
  subselectColumnTypes := rep.subselectColumnSpecification.map ColumnDefinition.typeName
  connectionName := rep.connectionName.getD []
  connectionInformation := (rep.connectionInformation.map ConnectionInformationRep.toDto).getD {}
  parameters := rep.parameters.map KeyValuePair.toPair

theorem ImportSpecificationRep.fill_spec (rep : ImportSpecificationRep) :
    FailsIf rep.Refused (rep.fill { isEmptySpec := false, isSubselect := rep.isSubselect }) (· = rep.toDto) := by
  unfold fill
  rw [← bind_assoc]
  refine (ImportSpecification.setConnection_spec _ _ rfl rfl).bind fun s₁ hs₁ => ?_
  have hsub : s₁.isSubselect = rep.isSubselect := by rw [hs₁]
  rw [← hsub]
  refine (ImportSpecification.foldlM_addColumn _ s₁).bind fun s₂ hs₂ => ?_
  refine (ImportSpecification.foldlM_parameters _ (by rw [hs₂, hs₁])).mono fun s hs => ?_
  rw [hs, hs₂, hs₁]
  rfl

namespace ExportSpecification
variable {s : ExportSpecification}

theorem hasConnectionInformation_iff (s : ExportSpecification) :
    s.hasConnectionInformation = true ↔ s.connectionInformation.kind ≠ [] := by
  simp [hasConnectionInformation, ConnectionInformation.hasData]

theorem setConnectionInformation_spec (c : ConnectionInformation) (hn : s.connectionName = [])
    (hc : s.connectionInformation.kind = []) : FailsIf False (s.setConnectionInformation c)
      (· = { s with isEmptySpec := false, connectionInformation := c }) := by
  rw [setConnectionInformation, if_neg (by simp [hasConnectionName, hn]),
    if_neg (by simp [hasConnectionInformation_iff, hc])]
  exact .ok rfl

theorem setConnectionName_spec (n : ByteString) (hn : s.connectionName = []) :
    FailsIf (s.connectionInformation.kind ≠ []) (s.setConnectionName n)
      (· = { s with isEmptySpec := false, connectionName := n }) := by
  rw [setConnectionName, if_neg (by simp [hasConnectionName, hn])]
  split_ifs with h
  · exact .inl ⟨s.hasConnectionInformation_iff.mp h, _, rfl⟩
  · exact .inr ⟨fun hc => h (s.hasConnectionInformation_iff.mpr hc), _, rfl, rfl⟩

theorem addParameter_spec (key value : ByteString) (s : ExportSpecification) :
    FailsIf (key ∈ s.parameters.map Prod.fst) (s.addParameter key value)
      (· = { s with isEmptySpec := false, parameters := s.parameters ++ [(key, value)] }) := by
  unfold addParameter
  split_ifs with h
  · exact .inl ⟨by simpa [List.any_eq_true] using h, _, rfl⟩
  · exact .inr ⟨by simpa [List.any_eq_true] using h, _, rfl, rfl⟩

theorem foldlM_sourceColumnNames (names : List ByteString) (s : ExportSpecification) (hs : s.isEmptySpec = false) :
    FailsIf False (names.foldlM (fun s n => .ok (s.addSourceColumnName n)) s)
      (· = { s with sourceColumnNames := s.sourceColumnNames ++ names }) := by
  induction names generalizing s with
  | nil => exact .ok (by simp)
  | cons name names ih =>
    exact (ih (s.addSourceColumnName name) rfl).mono fun s' hs' => by simp [hs', addSourceColumnName, hs]

/-- Whether the specification counts as empty is settled later. -/
theorem foldlM_parameters (ps : List KeyValuePair) (hs : s.parameters = []) :
    FailsIf (RepeatsKey ps) (ps.foldlM (fun s p => s.addParameter p.key p.value) s)
      fun s' => s' = { s with isEmptySpec := s'.isEmptySpec, parameters := ps.map KeyValuePair.toPair } := by
  have h := foldlM_addParameter
    (fun s : ExportSpecification => { s with isEmptySpec := false, parameters := [] }) parameters
    (fun s p => s.addParameter p.key p.value) (fun s p => (s.addParameter_spec p.key p.value).mono ?_) ps
    (b := s) (by simp [hs])
  · rw [hs] at h
    refine (h.mono fun s' hs' => ?_).congr (by simp [RepeatsKey])
    cases s
    cases s'
    simp_all
  · rintro s' rfl
    exact ⟨rfl, rfl⟩

theorem setConnection_spec (n : Option ByteString) (c : Option ConnectionInformationRep)
    (hn : s.connectionName = []) (hc : s.connectionInformation = {}) :
    FailsIf (ConnectionRefused n c)
      (c.elim (.ok s) (fun c => s.setConnectionInformation c.toDto) >>= fun s =>
        n.elim (.ok s) fun n => s.setConnectionName n)
      fun s' => s' = { s with
        isEmptySpec := s'.isEmptySpec
        connectionName := n.getD []
        connectionInformation := (c.map ConnectionInformationRep.toDto).getD {} } := by
  have h := setConnection
    (fun s : ExportSpecification => { s with
      isEmptySpec := false
      connectionName := []
      connectionInformation := {} })
    connectionName connectionInformation (fun s c => s.setConnectionInformation c)
    (fun s n => s.setConnectionName n) (fun s c hn hc => (setConnectionInformation_spec c hn hc).mono ?_)
    (fun s n hn => (setConnectionName_spec n hn).mono ?_) n c hn hc
  · refine h.mono fun s' hs' => ?_
    cases s
    cases s'
    simp_all
  · rintro s' rfl
    exact ⟨hn, rfl, rfl⟩
  · rintro s' rfl
    exact ⟨rfl, rfl, rfl⟩

theorem setCreatedBy_spec (createdBy : Option ByteString) (hs : s.createdBy = []) (hs' : s.isEmptySpec = false) :
    FailsIf False (createdBy.elim (.ok s) fun c => s.setCreatedBy c)
      (· = { s with createdBy := createdBy.getD [] }) := by
  cases createdBy with
  | none =>
    refine .ok ?_
    cases s
    simp_all
  | some c =>
    refine .inr ⟨id, _, if_neg (by simp [hs]), ?_⟩
    cases s
    simp_all

end ExportSpecification

def ExportSpecificationRep.fill (rep : ExportSpecificationRep) (s : ExportSpecification) :
    DtoResult ExportSpecification := do
  let s ← rep.connectionInformation.elim (.ok s) fun c => s.setConnectionInformation c.toDto
  let s ← rep.connectionName.elim (.ok s) fun n => s.setConnectionName n
  let s ← rep.parameters.foldlM (fun s p => s.addParameter p.key p.value) s
  let s ← .ok (s.setTruncate rep.hasTruncate)
  let s ← .ok (s.setReplace rep.hasReplace)
  let s ← rep.createdBy.elim (.ok s) fun c => s.setCreatedBy c
  rep.sourceColumnNames.foldlM (fun s n => .ok (s.addSourceColumnName n)) s

def ExportSpecificationRep.toDto (rep : ExportSpecificationRep) : ExportSpecification where
  isEmptySpec := false
  connectionName := rep.connectionName.getD []
  connectionInformation := (rep.connectionInformation.map ConnectionInformationRep.toDto).getD {}
  parameters := rep.parameters.map KeyValuePair.toPair
  truncate := rep.hasTruncate
  replace := rep.hasReplace
  createdBy := rep.createdBy.getD []
  sourceColumnNames := rep.sourceColumnNames

theorem ExportSpecificationRep.fill_spec (rep : ExportSpecificationRep) :
    FailsIf rep.Refused (rep.fill {}) (· = rep.toDto) := by
  unfold fill
  rw [← bind_assoc]
  refine (ExportSpecification.setConnection_spec _ _ rfl rfl).bind fun s₁ hs₁ => ?_
  refine ((ExportSpecification.foldlM_parameters _ (by rw [hs₁])).bind (q := False) fun s₂ hs₂ => ?_).congr
    (by simp)
  refine ((ExportSpecification.setCreatedBy_spec rep.createdBy (s := (s₂.setTruncate _).setReplace _) ?_ rfl).bind
    (q := False) fun s₃ hs₃ => ?_).congr (by simp)
  · rw [hs₂, hs₁]
    rfl
  · refine (ExportSpecification.foldlM_sourceColumnNames _ s₃ (by rw [hs₃]; rfl)).mono fun s hs => ?_
    rw [hs, hs₃, hs₂, hs₁]
    simp [toDto, ExportSpecification.setTruncate, ExportSpecification.setReplace]

/-! ### What it reports -/

/-- Of a name and details that are empty if there are none. -/
theorem ConnectionReport.reports_iff {r : ConnectionReport} {n : Option ByteString}
    {c : Option ConnectionInformationRep} (hn : r.hasConnectionName = true ↔ n.getD [] ≠ [])
    (hn' : r.hasConnectionName = true → r.getConnectionName = .ok (n.getD []))
    (hc : r.hasConnectionInformation = true ↔ ((c.map ConnectionInformationRep.toDto).getD {}).kind ≠ [])
    (hc' : r.hasConnectionInformation = true →
      r.getConnectionInformation = .ok ((c.map ConnectionInformationRep.toDto).getD {})) :
    r.Reports n c ↔ ConnectionKept n c := by
  constructor
  · intro h
    refine ⟨?_, ?_⟩
    · rintro rfl
      exact hn.mp h.hasConnectionName rfl
    · rintro c rfl
      exact hc.mp h.hasConnectionInformation
  · rintro ⟨hname, hinfo⟩
    have hsome : r.hasConnectionName = n.isSome := by
      rw [Bool.eq_iff_iff, hn]
      cases n with
      | none => simp
      | some n => simpa using hname
    have hsome' : r.hasConnectionInformation = c.isSome := by
      rw [Bool.eq_iff_iff, hc]
      cases c with
      | none => simp
      | some c => simpa [ConnectionInformationRep.toDto] using hinfo c rfl
    refine ⟨hsome, ?_, hsome', ?_⟩
    · rintro n rfl
      exact hn' hsome
    · rintro c rfl
      exact hc' hsome'

theorem reportsParameters {ps : List KeyValuePair} (h : ¬RepeatsKey ps) :
    ReportsParameters (ps.map KeyValuePair.toPair) ps where
  nodup := by
    rw [List.map_map]
    exact not_not.mp h
  length := List.length_map _
  mem key value := by
    constructor
    · intro hmem
      obtain ⟨p, hp, heq⟩ := List.mem_map.mp hmem
      obtain ⟨rfl, rfl⟩ := Prod.mk.inj heq
      exact hp
    · exact fun hmem => List.mem_map.mpr ⟨_, hmem, rfl⟩

theorem ImportSpecificationRep.reports_iff {rep : ImportSpecificationRep} (h : ¬rep.Refused) :
    rep.toDto.Reports rep ↔ ConnectionKept rep.connectionName rep.connectionInformation := by
  have hconnection : rep.toDto.connection.Reports rep.connectionName rep.connectionInformation ↔
      ConnectionKept rep.connectionName rep.connectionInformation := by
    refine ConnectionReport.reports_iff ?_ (fun hn => if_neg (not_not.mpr hn))
      (ImportSpecification.hasConnectionInformation_iff _) fun hc => if_neg (not_not.mpr hc)
    simp [ImportSpecification.connection, ImportSpecification.hasConnectionName, toDto, List.length_pos_iff]
  rw [← hconnection]
  refine ⟨fun hreports => hreports.connection, fun hreports => ⟨rfl, rfl, rfl, fun hsub => ?_, hreports, ?_⟩⟩
  · exact ⟨if_neg (by simp [toDto, hsub]), if_neg (by simp [toDto, hsub])⟩
  · exact reportsParameters fun hkeys => h (.inr (.inr hkeys))

theorem ExportSpecificationRep.reports_iff {rep : ExportSpecificationRep} (h : ¬rep.Refused) :
    rep.toDto.Reports rep ↔ ConnectionKept rep.connectionName rep.connectionInformation := by
  have hconnection : rep.toDto.connection.Reports rep.connectionName rep.connectionInformation ↔
      ConnectionKept rep.connectionName rep.connectionInformation := by
    refine ConnectionReport.reports_iff ?_ (fun hn => if_neg (not_not.mpr hn))
      (ExportSpecification.hasConnectionInformation_iff _) fun hc => if_neg (not_not.mpr hc)
    simp [ExportSpecification.connection, ExportSpecification.hasConnectionName, toDto, List.length_pos_iff]
  rw [← hconnection]
  exact ⟨fun hreports => hreports.connection, fun hreports =>
    ⟨rfl, rfl, rfl, rfl, hreports, reportsParameters fun hkeys => h (.inr hkeys)⟩⟩

/-- An invalid message that is not refused has a connection name and details, of which one is empty. -/
theorem connectionRefused_of_kept {n : Option ByteString} {c : Option ConnectionInformationRep}
    (hkept : ConnectionKept n c) (h : n.isSome ∧ c.isSome) : ConnectionRefused n c := by
  obtain ⟨c, rfl⟩ := Option.isSome_iff_exists.mp h.2
  exact ⟨h.1, c, rfl, hkept.2 c rfl⟩

/-- Of a run that throws if the specification is refused. -/
theorem faithful_iff {o : Outcome Exception Bool} {Reports Invalid Kept Refused : Prop}
    (h : (Refused ∧ ∃ e, o = .throw e) ∨ (¬Refused ∧ o = .ok true ∧ (Reports ↔ Kept)))
    (hinvalid : Kept → Invalid → Refused) :
    ((∀ b, o = .ok b → Reports) ∧ (Invalid → ∃ e, o = .throw e)) ↔ Kept ∨ Refused := by
  rcases h with ⟨hrefused, e, rfl⟩ | ⟨hrefused, rfl, hreports⟩
  · exact ⟨fun _ => .inr hrefused, fun _ => ⟨by simp, fun _ => ⟨e, rfl⟩⟩⟩
  · constructor
    · exact fun hfaithful => .inl (hreports.mp (hfaithful.1 true rfl))
    · intro hkept
      replace hkept := hkept.resolve_right hrefused
      exact ⟨fun _ _ => hreports.mpr hkept, fun hi => absurd (hinvalid hkept hi) hrefused⟩

namespace Client
variable {σ : Type}

theorem Does.spec {β : Type} {view : World σ → β} {put : World σ → β → World σ} {f : β → DtoResult β}
    {m : Client σ Unit} {p : Prop} {b : β} {w : World σ} (hm : Does view put f m)
    (hf : FailsIf p (f (view w)) (· = b)) :
    (p ∧ ∃ e b', m w = (.throw e, put w b')) ∨ (¬p ∧ m w = (.ok (), put w b)) := by
  rcases hf with ⟨hp, e, he⟩ | ⟨hp, b', hb', rfl⟩
  · rcases hm w with ⟨b', hb', -⟩ | ⟨e', b', -, hrun⟩
    · cases he.symm.trans hb'
    · exact .inl ⟨hp, e', b', hrun⟩
  · rcases hm w with ⟨b, hb, hrun⟩ | ⟨e, b, he, -⟩
    · obtain rfl := Except.ok.inj (hb'.symm.trans hb)
      exact .inr ⟨hp, hrun⟩
    · cases hb'.symm.trans he

theorem readImportSpecification_spec (rep : ImportSpecificationRep) (w : World σ) :
    (rep.Refused ∧ ∃ e s, readImportSpecification rep w =
      (.throw e, { w with singleCallImportSpecificationArg := s })) ∨
    (¬rep.Refused ∧ readImportSpecification rep w =
      (.ok (), { w with singleCallImportSpecificationArg := rep.toDto })) := by
  have hl := lens_importSpecification σ
  have hdoes := Does.bind hl
    (.option_forM hl (fun c => .update hl (·.setConnectionInformation c.toDto)) rep.connectionInformation)
    (.bind hl (.option_forM hl (fun n => .update hl (·.setConnectionName n)) rep.connectionName)
      (.bind hl (.list_forM hl (fun c : ColumnDefinition => .bind hl (.update hl (·.appendSubselectColumnName c.name))
          (.update hl (·.appendSubselectColumnType c.typeName))) rep.subselectColumnSpecification)
        (.list_forM hl (fun p : KeyValuePair => .update hl (·.addParameter p.key p.value)) rep.parameters)))
  exact hdoes.spec rep.fill_spec (w := { w with
    singleCallImportSpecificationArg := { isEmptySpec := false, isSubselect := rep.isSubselect } })

theorem readExportSpecification_spec (rep : ExportSpecificationRep) (w : World σ) :
    (rep.Refused ∧ ∃ e s, readExportSpecification rep w =
      (.throw e, { w with singleCallExportSpecificationArg := s })) ∨
    (¬rep.Refused ∧ readExportSpecification rep w =
      (.ok (), { w with singleCallExportSpecificationArg := rep.toDto })) := by
  have hl := lens_exportSpecification σ
  have hdoes := Does.bind hl
    (.option_forM hl (fun c => .update hl (·.setConnectionInformation c.toDto)) rep.connectionInformation)
    (.bind hl (.option_forM hl (fun n => .update hl (·.setConnectionName n)) rep.connectionName)
      (.bind hl (.list_forM hl (fun p : KeyValuePair => .update hl (·.addParameter p.key p.value)) rep.parameters)
        (.bind hl (.update hl fun s => .ok (s.setTruncate rep.hasTruncate))
          (.bind hl (.update hl fun s => .ok (s.setReplace rep.hasReplace))
            (.bind hl (.option_forM hl (fun c => .update hl (·.setCreatedBy c)) rep.createdBy)
              (.list_forM hl (fun n => .update hl fun s => .ok (s.addSourceColumnName n))
                rep.sourceColumnNames))))))
  exact hdoes.spec rep.fill_spec (w := { w with singleCallExportSpecificationArg := {} })

/-- What comes of an `MT_CALL` in single-call mode. -/
def readAndReturn (sc : SingleCallRep) : Client σ Bool := do
  readCall sc
  return true

theorem sendRun_call {env : Environment} {w w₁ : World σ} {r : Response}
    (hexchange : exchange env .run w = (.ok (.message r), w₁)) (hcall : r.type = .mtCall)
    (hmode : w₁.singleCallMode = true) : sendRun env w = readAndReturn r.call w₁ := by
  unfold sendRun
  rw [run_bind _ _ hexchange]
  show (if _ then _ else _ : Client σ Bool) w₁ = _
  rw [if_neg (by simp [hcall]), if_neg (by simp [hcall]), if_pos ⟨hmode, hcall⟩]
  rfl

theorem sendRun_wrongCall {env : Environment} {w w₁ : World σ} {r : Response}
    (hexchange : exchange env .run w = (.ok (.message r), w₁)) (hcall : r.type = .mtCall)
    (hmode : w₁.singleCallMode = false) : ∃ e, sendRun env w = (.throw e, w₁) := by
  have hrun : sendRun env w = (throwSwigvm (str "F-UDF-CL-LIB-1032: Wrong response type, should be MT_RUN, got "
      ++ convertMessageTypeToString r.type) : Client σ Bool) w₁ := by
    unfold sendRun
    rw [run_bind _ _ hexchange]
    show (if _ then _ else _ : Client σ Bool) w₁ = _
    rw [if_neg (by simp [hcall]), if_neg (by simp [hcall]), if_neg (by simp [hmode]), if_pos (by simp [hcall])]
  exact ⟨_, hrun⟩

theorem readCall_import {sc : SingleCallRep} {rep : ImportSpecificationRep}
    (hfn : sc.fn = .scFnGenerateSqlForImportSpec) (hrep : sc.importSpecification = some rep) (w : World σ) :
    readCall sc w = readImportSpecification rep { w with singleCallFunction := sc.fn } := by
  obtain ⟨fn, importRep, json, exportRep⟩ := sc
  cases hfn
  cases hrep
  rfl

theorem readCall_export {sc : SingleCallRep} {rep : ExportSpecificationRep}
    (hfn : sc.fn = .scFnGenerateSqlForExportSpec) (hrep : sc.exportSpecification = some rep) (w : World σ) :
    readCall sc w = readExportSpecification rep { w with singleCallFunction := sc.fn } := by
  obtain ⟨fn, importRep, json, exportRep⟩ := sc
  cases hfn
  cases hrep
  rfl

/-- `R` is what is asked of the argument that was read. -/
theorem readAndReturn_spec {sc : SingleCallRep} {w w' : World σ} {Refused Kept : Prop} {R : World σ → Prop}
    (h : (Refused ∧ ∃ e w', readCall sc w = (.throw e, w')) ∨
      (¬Refused ∧ readCall sc w = (.ok (), w') ∧ (R w' ↔ Kept))) :
    (Refused ∧ ∃ e, (readAndReturn sc w).1 = .throw e) ∨
    (¬Refused ∧ (readAndReturn sc w).1 = .ok true ∧ (R (readAndReturn sc w).2 ↔ Kept)) := by
  unfold readAndReturn
  rcases h with ⟨hrefused, e, w', hread⟩ | ⟨hrefused, hread, hR⟩
  · refine .inl ⟨hrefused, e, ?_⟩
    show (Proc.bind (readCall sc) _ w).1 = _
    simp only [Proc.bind, hread]
  · rw [run_bind _ _ hread]
    exact .inr ⟨hrefused, rfl, hR⟩

theorem import_faithful_iff {sc : SingleCallRep} {rep : ImportSpecificationRep}
    (hfn : sc.fn = .scFnGenerateSqlForImportSpec) (hrep : sc.importSpecification = some rep) (w : World σ) :
    ((∀ b, (readAndReturn sc w).1 = .ok b → (readAndReturn sc w).2.singleCallImportSpecificationArg.Reports rep) ∧
      (rep.Invalid → ∃ e, (readAndReturn sc w).1 = .throw e)) ↔
    ConnectionKept rep.connectionName rep.connectionInformation ∨ rep.Refused := by
  have hread : ∃ w', (rep.Refused ∧ ∃ e w', readCall sc w = (.throw e, w')) ∨
      (¬rep.Refused ∧ readCall sc w = (.ok (), w') ∧ (w'.singleCallImportSpecificationArg.Reports rep ↔
        ConnectionKept rep.connectionName rep.connectionInformation)) := by
    rw [readCall_import hfn hrep]
    rcases readImportSpecification_spec rep { w with singleCallFunction := sc.fn } with
      ⟨hrefused, e, s, hrun⟩ | ⟨hrefused, hrun⟩
    · exact ⟨w, .inl ⟨hrefused, e, _, hrun⟩⟩
    · exact ⟨_, .inr ⟨hrefused, hrun, rep.reports_iff hrefused⟩⟩
  obtain ⟨w', hread⟩ := hread
  refine faithful_iff (readAndReturn_spec (R := fun w => w.singleCallImportSpecificationArg.Reports rep) hread) ?_
  rintro hkept (hkeys | hboth | hcolumns)
  · exact .inr (.inr hkeys)
  · exact .inl (connectionRefused_of_kept hkept hboth)
  · exact .inr (.inl hcolumns)

theorem export_faithful_iff {sc : SingleCallRep} {rep : ExportSpecificationRep}
    (hfn : sc.fn = .scFnGenerateSqlForExportSpec) (hrep : sc.exportSpecification = some rep) (w : World σ) :
    ((∀ b, (readAndReturn sc w).1 = .ok b → (readAndReturn sc w).2.singleCallExportSpecificationArg.Reports rep) ∧
      (rep.Invalid → ∃ e, (readAndReturn sc w).1 = .throw e)) ↔
    ConnectionKept rep.connectionName rep.connectionInformation ∨ rep.Refused := by
  have hread : ∃ w', (rep.Refused ∧ ∃ e w', readCall sc w = (.throw e, w')) ∨
      (¬rep.Refused ∧ readCall sc w = (.ok (), w') ∧ (w'.singleCallExportSpecificationArg.Reports rep ↔
        ConnectionKept rep.connectionName rep.connectionInformation)) := by
    rw [readCall_export hfn hrep]
    rcases readExportSpecification_spec rep { w with singleCallFunction := sc.fn } with
      ⟨hrefused, e, s, hrun⟩ | ⟨hrefused, hrun⟩
    · exact ⟨w, .inl ⟨hrefused, e, _, hrun⟩⟩
    · exact ⟨_, .inr ⟨hrefused, hrun, rep.reports_iff hrefused⟩⟩
  obtain ⟨w', hread⟩ := hread
  refine faithful_iff (readAndReturn_spec (R := fun w => w.singleCallExportSpecificationArg.Reports rep) hread) ?_
  rintro hkept (hkeys | hboth)
  · exact .inr hkeys
  · exact .inl (connectionRefused_of_kept hkept hboth)

end Client

/-- A reply with a call for an import specification, whatever the client sends. -/
def importCall (rep : ImportSpecificationRep) : Response where
  type := .mtCall
  call := { fn := .scFnGenerateSqlForImportSpec, importSpecification := some rep }

end UdfRunner
