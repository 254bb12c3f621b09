import UdfRunner.ScriptInput
import UdfRunner.Lib.Lts
import UdfRunner.Lib.Pipe

/-!
# `streamingcontainer.cc`: `StreamingVM::run`

The script is a process of its own behind three pipes. Thread `t1` writes its standard input, thread `t2`
reads its standard output, and the caller reads its standard error once both are joined. Any of the four
may take the next step. `streamingRun_hangs_iff`: where none can. `streamingRun_reports`: what is left in
`exception_msg` when `run` returns.
-/

namespace UdfRunner

inductive Stdio
  | stdin
  | stdout
  | stderr
deriving DecidableEq, Repr

/-- What the script does next. `broken` is what becomes of it when nobody is there to read what it writes:
unless it ignores `SIGPIPE`, that is its end. -/
inductive ScriptCall (X : Type)
  | read (next : Option UInt8 → X)
  | write (fd : Stdio) (b : UInt8) (next : X) (broken : Option X)
  | close (fd : Stdio) (next : X)
  | think (next : X)
  | exit

/-- Where the script may go on after a call. -/
def ScriptCall.Next {X : Type} (call : ScriptCall X) (x : X) : Prop :=
  match call with
  | .read next => ∃ b, x = next b
  | .write _ _ next broken => x = next ∨ broken = some x
  | .close _ next => x = next
  | .think next => x = next
  | .exit => False

/-- One run: the script from its first state, the text `t1` flushes, what it throws afterwards, what `t2`
throws over the bytes it has received or over their end, and what a pipe holds. -/
structure StreamingJob (X : Type) where
  script : X → ScriptCall X
  start : X
  text : ByteString
  inputError : Option ByteString
  outputError : ByteString → Option ByteString
  endError : ByteString → Option ByteString
  capacity : Stdio → Nat
  capacity_pos : ∀ fd, 0 < capacity fd

/-- The process of the script, and which of its ends it has open. -/
structure ScriptProcess (X : Type) where
  place : X
  isOpen : Stdio → Bool := fun _ => true

inductive InputThread
  | writing (rest : ByteString)
  | closed
  | failed
deriving DecidableEq, Repr

inductive OutputThread
  | reading
  | ended
  | failed
deriving DecidableEq, Repr

/-- The thread that called `run`. -/
inductive RunThread
  | joining
  | draining
  | waiting (readBuffer : ByteString)
  | returned (exceptionMsg : ByteString)
deriving DecidableEq, Repr

def InputThread.finished : InputThread → Bool
  | writing _ => false
  | _ => true

def OutputThread.finished : OutputThread → Bool
  | reading => false
  | _ => true

structure StreamingState (X : Type) where
  t1 : InputThread
  t2 : OutputThread := .reading
  main : RunThread := .joining
  process : Option (ScriptProcess X)
  pipes : Stdio → Pipe UInt8 := fun _ => {}
  exceptionMsg : ByteString := []

/-- Who takes a step. A `read` of `t2` returns up to `n + 1` bytes. -/
inductive StreamingParty
  | t1
  | t2 (n : Nat)
  | main
  | process
deriving DecidableEq, Repr

namespace StreamingState
variable {X : Type}

/-- The script has its end of the pipe. -/
def holds (s : StreamingState X) (fd : Stdio) : Bool := s.process.any fun p => p.isOpen fd

def push (s : StreamingState X) (fd : Stdio) (b : UInt8) : StreamingState X :=
  { s with pipes := Function.update s.pipes fd ((s.pipes fd).push b) }

def take (s : StreamingState X) (fd : Stdio) (n : Nat) : StreamingState X :=
  { s with pipes := Function.update s.pipes fd ((s.pipes fd).take n) }

/-- The script goes on from `x`. -/
def goTo (s : StreamingState X) (x : X) : StreamingState X :=
  { s with process := s.process.map fun p => { p with place := x } }

/-- The ends `run` keeps: of the standard output until both threads are joined, of the standard error until
it has been read. -/
def isRead (s : StreamingState X) : Stdio → Bool
  | .stdin => false
  | .stdout => s.main = .joining
  | .stderr => s.main = .joining ∨ s.main = .draining

/-- What `run` leaves in `exception_msg`. -/
def raised (exceptionMsg readBuffer : ByteString) : ByteString :=
  if exceptionMsg ≠ [] then cstr exceptionMsg
  else if readBuffer ≠ [] then cstr (str "Error output during script execution:\n" ++ readBuffer)
  else exceptionMsg

/-- `readBuffer` is what was taken from the standard error: a thousand bytes of it and dots, or all. -/
def stepMain (s : StreamingState X) : Option (StreamingState X) :=
  match s.main with
  | .joining =>
    if s.t1.finished ∧ s.t2.finished then
      some { s with main := if s.exceptionMsg = [] then .draining else .waiting [] }
    else none
  | .draining =>
    if (s.pipes .stderr).taken.length < 1000 then
      if (s.pipes .stderr).content = [] then
        if s.holds .stderr then none else some { s with main := .waiting (s.pipes .stderr).taken }
      else some (s.take .stderr 1)
    else some { s with main := .waiting ((s.pipes .stderr).taken ++ str "...") }
  | .waiting readBuffer =>
    match s.process with
    | some _ => none
    | none => some { s with main := .returned (raised s.exceptionMsg readBuffer) }
  | .returned _ => none

end StreamingState

namespace StreamingJob
open StreamingState
variable {X : Type} (J : StreamingJob X)

/-- `exception_msg` is what an earlier run of the VM has left in it. -/
def initial (exceptionMsg : ByteString) : StreamingState X :=
  { t1 := .writing J.text, process := some { place := J.start }, exceptionMsg := exceptionMsg }

/-- A pipe takes another byte. -/
def HasRoom (s : StreamingState X) (fd : Stdio) : Prop := (s.pipes fd).content.length < J.capacity fd

instance (s : StreamingState X) (fd : Stdio) : Decidable (J.HasRoom s fd) := Nat.decLt _ _

/-- A stream that could not write drops the rest of the text, and throws nothing for it. -/
def stepInput (s : StreamingState X) : Option (StreamingState X) :=
  match s.t1 with
  | .writing [] =>
    match J.inputError with
    | none => some { s with t1 := .closed }
    | some what => some { s with t1 := .failed, exceptionMsg := what }
  | .writing (b :: rest) =>
    if s.holds .stdin then
      if J.HasRoom s .stdin then some { s.push .stdin b with t1 := .writing rest } else none
    else some { s with t1 := .writing [] }
  | _ => none

def stepOutput (n : Nat) (s : StreamingState X) : Option (StreamingState X) :=
  match s.t2 with
  | .reading =>
    if (s.pipes .stdout).content = [] then
      if s.holds .stdout then none
      else match J.endError (s.pipes .stdout).taken with
        | none => some { s with t2 := .ended }
        | some what => some { s with t2 := .failed, exceptionMsg := what }
    else match J.outputError ((s.pipes .stdout).take (n + 1)).taken with
      | none => some (s.take .stdout (n + 1))
      | some what => some { s.take .stdout (n + 1) with t2 := .failed, exceptionMsg := what }
  | _ => none

/-- The script's next system call. Only `t1` closes the other end of the standard input, and not when it
failed. -/
def stepProcess (s : StreamingState X) : Option (StreamingState X) :=
  match s.process with
  | none => none
  | some p =>
    match J.script p.place with
    | .read next =>
      if p.isOpen .stdin then
        match (s.pipes .stdin).content with
        | b :: _ => some ((s.take .stdin 1).goTo (next (some b)))
        | [] => if s.t1 = .closed then some (s.goTo (next none)) else none
      else some (s.goTo (next none))
    | .write fd b next broken =>
      if fd ≠ .stdin ∧ p.isOpen fd then
        if s.isRead fd then
          if J.HasRoom s fd then some ((s.push fd b).goTo next) else none
        else match broken with
          | some x => some (s.goTo x)
          | none => some { s with process := none }
      else some (s.goTo next)
    | .close fd next => some { s with process := some ⟨next, Function.update p.isOpen fd false⟩ }
    | .think next => some (s.goTo next)
    | .exit => some { s with process := none }

def step (s : StreamingState X) : StreamingParty → Option (StreamingState X)
  | .t1 => J.stepInput s
  | .t2 n => J.stepOutput n s
  | .main => s.stepMain
  | .process => J.stepProcess s

def runs : Lts (StreamingState X) StreamingParty := ⟨fun s party s' => J.step s party = some s', fun _ _ => False⟩

def Stuck (s : StreamingState X) : Prop := ∀ party, J.step s party = none

/-! ### What a step does -/

end StreamingJob

open StreamingState in
/-- What one of the four may have done. -/
inductive StreamingStep {X : Type} (J : StreamingJob X) (s : StreamingState X) : StreamingState X → Prop
  | closes (ht1 : s.t1 = .writing []) (hinput : J.inputError = none) : StreamingStep J s { s with t1 := .closed }
  | inputFails {what : ByteString} (ht1 : s.t1 = .writing []) (hinput : J.inputError = some what) :
    StreamingStep J s { s with t1 := .failed, exceptionMsg := what }
  | writes {b : UInt8} {rest : ByteString} (ht1 : s.t1 = .writing (b :: rest)) (hholds : s.holds .stdin = true) :
    StreamingStep J s { s.push .stdin b with t1 := .writing rest }
  | drops {b : UInt8} {rest : ByteString} (ht1 : s.t1 = .writing (b :: rest)) (hholds : s.holds .stdin = false) :
    StreamingStep J s { s with t1 := .writing [] }
  | receives (n : Nat) (ht2 : s.t2 = .reading) (hcontent : (s.pipes .stdout).content ≠ [])
    (houtput : J.outputError ((s.pipes .stdout).take (n + 1)).taken = none) : StreamingStep J s (s.take .stdout (n + 1))
  | outputFails (n : Nat) {what : ByteString} (ht2 : s.t2 = .reading) (hcontent : (s.pipes .stdout).content ≠ [])
    (houtput : J.outputError ((s.pipes .stdout).take (n + 1)).taken = some what) :
    StreamingStep J s { s.take .stdout (n + 1) with t2 := .failed, exceptionMsg := what }
  | ends (ht2 : s.t2 = .reading) (hcontent : (s.pipes .stdout).content = []) (hholds : s.holds .stdout = false)
    (hend : J.endError (s.pipes .stdout).taken = none) : StreamingStep J s { s with t2 := .ended }
  | endFails {what : ByteString} (ht2 : s.t2 = .reading) (hcontent : (s.pipes .stdout).content = [])
    (hholds : s.holds .stdout = false) (hend : J.endError (s.pipes .stdout).taken = some what) :
    StreamingStep J s { s with t2 := .failed, exceptionMsg := what }
  | joins (hmain : s.main = .joining) (ht1 : s.t1.finished = true) (ht2 : s.t2.finished = true) :
    StreamingStep J s { s with main := if s.exceptionMsg = [] then .draining else .waiting [] }
  | drains (hmain : s.main = .draining) (hshort : (s.pipes .stderr).taken.length < 1000)
    (hcontent : (s.pipes .stderr).content ≠ []) : StreamingStep J s (s.take .stderr 1)
  | drained (hmain : s.main = .draining) (hshort : (s.pipes .stderr).taken.length < 1000)
    (hcontent : (s.pipes .stderr).content = []) (hholds : s.holds .stderr = false) :
    StreamingStep J s { s with main := .waiting (s.pipes .stderr).taken }
  | cuts (hmain : s.main = .draining) (hlong : 1000 ≤ (s.pipes .stderr).taken.length) :
    StreamingStep J s { s with main := .waiting ((s.pipes .stderr).taken ++ str "...") }
  | returns {readBuffer : ByteString} (hmain : s.main = .waiting readBuffer) (hprocess : s.process = none) :
    StreamingStep J s { s with main := .returned (raised s.exceptionMsg readBuffer) }
  | reads {p : ScriptProcess X} {x : X} (hprocess : s.process = some p) (hnext : (J.script p.place).Next x) :
    StreamingStep J s ((s.take .stdin 1).goTo x)
  | prints {p : ScriptProcess X} {fd : Stdio} {b : UInt8} {x : X} {broken : Option X} (hprocess : s.process = some p)
    (hscript : J.script p.place = .write fd b x broken) (hfd : fd ≠ .stdin) (hopen : p.isOpen fd = true)
    (hread : s.isRead fd = true) : StreamingStep J s ((s.push fd b).goTo x)
  | goes {p : ScriptProcess X} {x : X} (hprocess : s.process = some p) (hnext : (J.script p.place).Next x) :
    StreamingStep J s (s.goTo x)
  | closesEnd {p : ScriptProcess X} {fd : Stdio} {x : X} (hprocess : s.process = some p)
    (hnext : (J.script p.place).Next x) :
    StreamingStep J s { s with process := some ⟨x, Function.update p.isOpen fd false⟩ }
  | exits {p : ScriptProcess X} (hprocess : s.process = some p) : StreamingStep J s { s with process := none }

namespace StreamingJob
open StreamingState
variable {X : Type} {J : StreamingJob X} {s s' : StreamingState X} {old : ByteString}

theorem stepInput_steps (h : J.stepInput s = some s') : StreamingStep J s s' := by
  unfold stepInput at h
  split at h
  · rename_i ht1
    split at h <;> rename_i hinput <;> cases h
    · exact .closes ht1 hinput
    · exact .inputFails ht1 hinput
  · rename_i b rest ht1
    split_ifs at h with hholds hroom <;> cases h
    · exact .writes ht1 hholds
    · exact .drops ht1 (by simpa using hholds)
  · cases h

theorem stepOutput_steps {n : Nat} (h : J.stepOutput n s = some s') : StreamingStep J s s' := by
  unfold stepOutput at h
  split at h
  · rename_i ht2
    split_ifs at h with hcontent hholds
    · have hholds' : s.holds .stdout = false := by simpa using hholds
      split at h <;> rename_i hend <;> cases h
      · exact .ends ht2 hcontent hholds' hend
      · exact .endFails ht2 hcontent hholds' hend
    · split at h <;> rename_i houtput <;> cases h
      · exact .receives n ht2 hcontent houtput
      · exact .outputFails n ht2 hcontent houtput
  · cases h

theorem stepMain_steps (h : s.stepMain = some s') : StreamingStep J s s' := by
  unfold stepMain at h
  split at h
  · rename_i hmain
    split at h
    · rename_i hfinished
      cases h
      exact .joins hmain hfinished.1 hfinished.2
    · cases h
  · rename_i hmain
    split_ifs at h with hshort hcontent hholds <;> cases h
    · exact .drained hmain hshort hcontent (by simpa using hholds)
    · exact .drains hmain hshort hcontent
    · exact .cuts hmain (not_lt.mp hshort)
  · rename_i hmain
    split at h <;> rename_i hprocess <;> cases h
    exact .returns hmain hprocess
  · cases h

theorem stepProcess_steps (h : J.stepProcess s = some s') : StreamingStep J s s' := by
  unfold stepProcess at h
  split at h
  · cases h
  rename_i p hprocess
  split at h <;> rename_i hscript
  · rename_i next
    have hnext : ∀ b, (J.script p.place).Next (next b) := fun b => by rw [hscript]; exact ⟨b, rfl⟩
    by_cases hopen : p.isOpen .stdin = true
    · rw [if_pos hopen] at h
      split at h
      · cases h
        exact .reads hprocess (hnext _)
      · split_ifs at h
        cases h
        exact .goes hprocess (hnext _)
    · rw [if_neg hopen] at h
      cases h
      exact .goes hprocess (hnext _)
  · rename_i fd b next broken
    have hnext : ∀ x, x = next ∨ broken = some x → (J.script p.place).Next x := fun x hx => by
      rw [hscript]
      exact hx
    split_ifs at h with hopen hread hroom
    · cases h
      exact .prints hprocess hscript hopen.1 hopen.2 hread
    · split at h <;> cases h
      · exact .goes hprocess (hnext _ (.inr rfl))
      · exact .exits hprocess
    · cases h
      exact .goes hprocess (hnext _ (.inl rfl))
  · cases h
    exact .closesEnd hprocess (by rw [hscript]; rfl)
  · cases h
    exact .goes hprocess (by rw [hscript]; rfl)
  · cases h
    exact .exits hprocess

theorem step_steps {party : StreamingParty} (h : J.step s party = some s') : StreamingStep J s s' := by
  cases party with
  | t1 => exact stepInput_steps h
  | t2 n => exact stepOutput_steps h
  | main => exact stepMain_steps h
  | process => exact stepProcess_steps h

/-! ### Who waits for whom -/

/-- `t1` can do nothing before the script reads. -/
def InputWaits (J : StreamingJob X) (s : StreamingState X) : Prop :=
  (∃ b rest, s.t1 = .writing (b :: rest)) ∧ s.holds .stdin = true ∧ ¬ J.HasRoom s .stdin

/-- `t2` can do nothing before the script writes or closes. -/
def OutputWaits (s : StreamingState X) : Prop :=
  s.t2 = .reading ∧ (s.pipes .stdout).content = [] ∧ s.holds .stdout = true

/-- `run` waits for more of the standard error. -/
def ErrorWaits (s : StreamingState X) : Prop :=
  s.main = .draining ∧ (s.pipes .stderr).taken.length < 1000 ∧ (s.pipes .stderr).content = [] ∧
    s.holds .stderr = true

/-- The script is in a `read` of its standard input, which is empty. -/
def ScriptReads (J : StreamingJob X) (s : StreamingState X) : Prop :=
  ∃ p next, s.process = some p ∧ J.script p.place = .read next ∧ p.isOpen .stdin = true ∧
    (s.pipes .stdin).content = []

/-- The script is in a `write` to a pipe that is full. -/
def ScriptWrites (J : StreamingJob X) (s : StreamingState X) (fd : Stdio) : Prop :=
  ∃ p b next broken, s.process = some p ∧ J.script p.place = .write fd b next broken ∧
    p.isOpen fd = true ∧ ¬ J.HasRoom s fd

theorem InputThread.finished_iff {t : InputThread} : t.finished = true ↔ t = .closed ∨ t = .failed := by
  cases t <;> simp [InputThread.finished]

theorem OutputThread.finished_iff {t : OutputThread} : t.finished = true ↔ t = .ended ∨ t = .failed := by
  cases t <;> simp [OutputThread.finished]

theorem stepInput_eq_none : J.stepInput s = none ↔ s.t1.finished = true ∨ J.InputWaits s := by
  unfold stepInput InputWaits
  split
  · rename_i ht1
    constructor
    · intro h
      split at h <;> cases h
    · simp [ht1, InputThread.finished]
  · rename_i b rest ht1
    split_ifs with hholds hroom <;> simp [*, InputThread.finished]
  · rename_i hclosed hwriting
    refine iff_of_true rfl (.inl ?_)
    cases ht1 : s.t1 with
    | writing rest =>
      cases rest with
      | nil => exact absurd ht1 hclosed
      | cons b rest => exact absurd ht1 (hwriting b rest)
    | closed | failed => rfl

theorem stepOutput_eq_none {n : Nat} : J.stepOutput n s = none ↔ s.t2.finished = true ∨ OutputWaits s := by
  unfold stepOutput OutputWaits
  split
  · rename_i ht2
    rw [ht2]
    split_ifs with hcontent hholds
    · simp [hcontent, hholds]
    · constructor
      · intro h
        split at h <;> cases h
      · rintro (h | h)
        · cases h
        · exact absurd h.2.2 hholds
    · constructor
      · intro h
        split at h <;> cases h
      · rintro (h | h)
        · cases h
        · exact absurd h.2.1 hcontent
  · rename_i hreading
    refine iff_of_true rfl (.inl ?_)
    cases ht2 : s.t2 with
    | reading => exact absurd ht2 hreading
    | ended | failed => rfl

theorem stepMain_eq_none : s.stepMain = none ↔ (∃ what, s.main = .returned what) ∨
    (s.main = .joining ∧ ¬(s.t1.finished = true ∧ s.t2.finished = true)) ∨ ErrorWaits s ∨
    (∃ buffer, s.main = .waiting buffer) ∧ s.process ≠ none := by
  unfold stepMain ErrorWaits
  split <;> rename_i hmain <;> simp only [hmain]
  · simp
  · split_ifs with hshort hcontent hholds <;> simp [*]
  · cases hprocess : s.process <;> simp
  · simp

theorem stepProcess_eq_none : J.stepProcess s = none ↔ s.process = none ∨
    (J.ScriptReads s ∧ s.t1 ≠ .closed) ∨
    ∃ fd, fd ≠ .stdin ∧ s.isRead fd = true ∧ J.ScriptWrites s fd := by
  unfold stepProcess ScriptReads ScriptWrites
  cases hprocess : s.process with
  | none => simp
  | some p =>
    cases hscript : J.script p.place with
    | read next =>
      cases hcontent : (s.pipes .stdin).content <;> simp only [hscript] <;> split_ifs <;> simp_all
    | write fd b next broken =>
      cases broken <;> simp only [hscript] <;> split_ifs <;> simp_all
    | close fd next => simp [hscript]
    | think next => simp [hscript]
    | exit => simp [hscript]

/-! ### Deadlocks -/

/-- What holds in every state of a run. -/
structure Sound (s : StreamingState X) : Prop where
  joined : s.main ≠ .joining → s.t1.finished = true ∧ s.t2.finished = true
  ended : s.t2 = .ended → s.holds .stdout = false
  returned : ∀ what, s.main = .returned what → s.process = none

@[simp] theorem holds_goTo (s : StreamingState X) (x : X) (fd : Stdio) : (s.goTo x).holds fd = s.holds fd := by
  unfold holds goTo
  cases s.process <;> rfl

theorem holds_closesEnd {p : ScriptProcess X} (hprocess : s.process = some p) (x : X) (fd : Stdio) {fd' : Stdio}
    (h : s.holds fd' = false) :
    ({ s with process := some ⟨x, Function.update p.isOpen fd false⟩ } : StreamingState X).holds fd' = false := by
  have hopen : p.isOpen fd' = false := by simpa [holds, hprocess] using h
  show (Option.any (fun q : ScriptProcess X => q.isOpen fd') (some ⟨x, Function.update p.isOpen fd false⟩)) = false
  by_cases hfd : fd' = fd
  · simp [hfd]
  · simp [Function.update_of_ne hfd, hopen]

theorem Sound.goTo (h : Sound s) (x : X) : Sound (s.goTo x) := by
  refine ⟨h.joined, fun ht2 => ?_, fun what hwhat => ?_⟩
  · rw [holds_goTo]
    exact h.ended ht2
  · show s.process.map _ = none
    rw [h.returned what hwhat]
    rfl

theorem Sound.step (hstep : StreamingStep J s s') (h : Sound s) : Sound s' := by
  have hjoining : s.t1.finished = false ∨ s.t2.finished = false → s.main = .joining := by
    intro hworks
    by_contra hmain
    obtain ⟨h1, h2⟩ := h.joined hmain
    rcases hworks with hworks | hworks <;> simp_all
  have hwriting : ∀ {rest}, s.t1 = .writing rest → s.main = .joining := fun ht1 => hjoining (.inl (by rw [ht1]; rfl))
  have hreading : s.t2 = .reading → s.main = .joining := fun ht2 => hjoining (.inr (by rw [ht2]; rfl))
  cases hstep with
  | closes ht1 | inputFails ht1 | writes ht1 | drops ht1 =>
    exact ⟨fun hmain => absurd (hwriting ht1) hmain, h.ended, h.returned⟩
  | receives n ht2 => exact ⟨h.joined, h.ended, h.returned⟩
  | outputFails n ht2 | endFails ht2 =>
    exact ⟨fun hmain => absurd (hreading ht2) hmain, fun hended => absurd hended (by simp), h.returned⟩
  | ends ht2 _ hholds => exact ⟨fun hmain => absurd (hreading ht2) hmain, fun _ => hholds, h.returned⟩
  | joins _ ht1 ht2 =>
    refine ⟨fun _ => ⟨ht1, ht2⟩, h.ended, fun what hwhat => ?_⟩
    dsimp only at hwhat
    split_ifs at hwhat
  | drains => exact ⟨h.joined, h.ended, h.returned⟩
  | drained hmain | cuts hmain =>
    exact ⟨fun _ => h.joined (by rw [hmain]; simp), h.ended, fun what hwhat => absurd hwhat (by simp)⟩
  | returns hmain hprocess => exact ⟨fun _ => h.joined (by rw [hmain]; simp), h.ended, fun _ _ => hprocess⟩
  | reads => exact Sound.goTo (s := s.take .stdin 1) ⟨h.joined, h.ended, h.returned⟩ _
  | @prints _ fd b => exact Sound.goTo (s := s.push fd b) ⟨h.joined, h.ended, h.returned⟩ _
  | goes => exact h.goTo _
  | closesEnd hprocess =>
    refine ⟨h.joined, fun ht2 => holds_closesEnd hprocess _ _ (h.ended ht2), fun what hwhat => ?_⟩
    rw [h.returned what hwhat] at hprocess
    cases hprocess
  | exits => exact ⟨h.joined, fun _ => rfl, fun _ _ => rfl⟩

theorem Sound.initial (old : ByteString) : Sound (J.initial old) :=
  ⟨fun h => absurd rfl h, fun h => absurd h (by simp [StreamingJob.initial]),
    fun _ h => absurd h (by simp [StreamingJob.initial])⟩

theorem reaches {I : StreamingState X → Prop} {l : List StreamingParty} (h : J.runs.Path (J.initial old) l s)
    (hinit : I (J.initial old)) (hstep : ∀ s s', I s → StreamingStep J s s' → I s') : I s := by
  refine h.invariant (I := fun _ => I) hinit (fun l q party r hq hs => ?_) (fun l q r _ hs => hs.elim)
  exact hstep q r hq (step_steps hs)

theorem sound_of_path {l : List StreamingParty} (h : J.runs.Path (J.initial old) l s) : Sound s :=
  reaches h (.initial old) fun _ _ h hstep => h.step hstep

/-- The script has filled its standard error, which is read when both threads are joined; one of them waits
for the script. -/
structure HangsOnStderr (J : StreamingJob X) (s : StreamingState X) : Prop where
  main : s.main = .joining
  script : J.ScriptWrites s .stderr
  input : s.t1.finished = true ∨ J.InputWaits s
  output : s.t2.finished = true ∨ OutputWaits s
  works : ¬(s.t1.finished = true ∧ s.t2.finished = true)

/-- `t1` has failed and left the standard input open; the script has read all there is and waits for more,
and `run` waits for the script. -/
structure HangsOnStdin (J : StreamingJob X) (s : StreamingState X) : Prop where
  script : J.ScriptReads s
  input : s.t1 = .failed
  main : s.main = .joining ∧ OutputWaits s ∨ ErrorWaits s ∨ ∃ buffer, s.main = .waiting buffer

/-- `t2` has failed and reads no more; the script has filled its standard output, and `t1` waits for the
script to read. -/
structure HangsOnStdout (J : StreamingJob X) (s : StreamingState X) : Prop where
  main : s.main = .joining
  script : J.ScriptWrites s .stdout
  output : s.t2 = .failed
  input : J.InputWaits s

theorem stuck_iff : J.Stuck s ↔ (s.t1.finished = true ∨ J.InputWaits s) ∧ (s.t2.finished = true ∨ OutputWaits s) ∧
    ((∃ what, s.main = .returned what) ∨ (s.main = .joining ∧ ¬(s.t1.finished = true ∧ s.t2.finished = true)) ∨
      ErrorWaits s ∨ (∃ buffer, s.main = .waiting buffer) ∧ s.process ≠ none) ∧
    (s.process = none ∨ (J.ScriptReads s ∧ s.t1 ≠ .closed) ∨
      ∃ fd, fd ≠ .stdin ∧ s.isRead fd = true ∧ J.ScriptWrites s fd) := by
  rw [← stepInput_eq_none, ← stepOutput_eq_none (n := 0), ← stepMain_eq_none, ← stepProcess_eq_none]
  constructor
  · intro h
    exact ⟨h .t1, h (.t2 0), h .main, h .process⟩
  · rintro ⟨h1, h2, hmain, hprocess⟩ party
    cases party with
    | t1 => exact h1
    | t2 n => exact stepOutput_eq_none.mpr (stepOutput_eq_none.mp h2)
    | main => exact hmain
    | process => exact hprocess

theorem content_ne_nil {fd : Stdio} (h : ¬ J.HasRoom s fd) : (s.pipes fd).content ≠ [] := by
  intro hcontent
  refine h ?_
  show (s.pipes fd).content.length < J.capacity fd
  rw [hcontent]
  exact J.capacity_pos fd

theorem ScriptReads.process_ne (h : J.ScriptReads s) : s.process ≠ none := by
  obtain ⟨p, next, hp, -⟩ := h
  simp [hp]

theorem ScriptWrites.process_ne {fd : Stdio} (h : J.ScriptWrites s fd) : s.process ≠ none := by
  obtain ⟨p, b, next, broken, hp, -⟩ := h
  simp [hp]

theorem ScriptWrites.holds {fd : Stdio} (h : J.ScriptWrites s fd) : s.holds fd = true := by
  obtain ⟨p, b, next, broken, hp, -, hopen, -⟩ := h
  simpa [StreamingState.holds, hp] using hopen

theorem ScriptWrites.content_ne {fd : Stdio} (h : J.ScriptWrites s fd) : (s.pipes fd).content ≠ [] := by
  obtain ⟨p, b, next, broken, -, -, -, hroom⟩ := h
  exact content_ne_nil hroom

/-- Without the script nobody has anything to wait for. -/
theorem returned_of_gone (hstuck : J.Stuck s) (hnone : s.process = none) : ∃ what, s.main = .returned what := by
  obtain ⟨h1, h2, hmain, -⟩ := stuck_iff.mp hstuck
  have hholds : ∀ fd, s.holds fd = false := fun fd => by rw [StreamingState.holds, hnone]; rfl
  have hinput : s.t1.finished = true := h1.resolve_right fun h => by
    obtain ⟨-, h, -⟩ := h
    rw [hholds] at h
    cases h
  have houtput : s.t2.finished = true := h2.resolve_right fun h => by
    obtain ⟨-, -, h⟩ := h
    rw [hholds] at h
    cases h
  rcases hmain with hreturned | ⟨-, hworks⟩ | ⟨-, -, -, h⟩ | ⟨-, hsome⟩
  · exact hreturned
  · exact absurd ⟨hinput, houtput⟩ hworks
  · rw [hholds] at h
    cases h
  · exact absurd hnone hsome

theorem Sound.hangsOnStdin (hs : Sound s) (hstuck : J.Stuck s) (hreads : J.ScriptReads s) (ht1 : s.t1 ≠ .closed) :
    J.HangsOnStdin s := by
  obtain ⟨h1, h2, hmain, -⟩ := stuck_iff.mp hstuck
  have hfailed : s.t1 = .failed := by
    rcases h1 with h1 | ⟨-, -, hfull⟩
    · exact (InputThread.finished_iff.mp h1).resolve_left ht1
    · obtain ⟨p, next, -, -, -, hempty⟩ := hreads
      exact absurd hempty (content_ne_nil hfull)
  refine ⟨hreads, hfailed, ?_⟩
  rcases hmain with ⟨what, hreturned⟩ | ⟨hjoining, hworks⟩ | herror | ⟨hwaiting, -⟩
  · exact absurd (hs.returned what hreturned) hreads.process_ne
  · have hfinished : s.t1.finished = true := by rw [hfailed]; rfl
    exact .inl ⟨hjoining, h2.resolve_left fun h2 => hworks ⟨hfinished, h2⟩⟩
  · exact .inr (.inl herror)
  · exact .inr (.inr hwaiting)

theorem Sound.hangsOnStdout (hs : Sound s) (hstuck : J.Stuck s) (hread : s.isRead .stdout = true)
    (hwrites : J.ScriptWrites s .stdout) : J.HangsOnStdout s := by
  obtain ⟨h1, h2, hmain, -⟩ := stuck_iff.mp hstuck
  have hjoining : s.main = .joining := by simpa [isRead] using hread
  have hfinished : s.t2.finished = true := h2.resolve_right fun h => hwrites.content_ne h.2.1
  have hfailed : s.t2 = .failed := by
    refine (OutputThread.finished_iff.mp hfinished).resolve_left fun hended => ?_
    have hholds := hwrites.holds
    rw [hs.ended hended] at hholds
    cases hholds
  refine ⟨hjoining, hwrites, hfailed, h1.resolve_left fun h1 => ?_⟩
  rcases hmain with ⟨what, h⟩ | ⟨-, hworks⟩ | ⟨h, -⟩ | ⟨⟨buffer, h⟩, -⟩
  · exact absurd (hjoining.symm.trans h) (by simp)
  · exact hworks ⟨h1, hfinished⟩
  · exact absurd (hjoining.symm.trans h) (by simp)
  · exact absurd (hjoining.symm.trans h) (by simp)

theorem hangsOnStderr (hstuck : J.Stuck s) (hread : s.isRead .stderr = true)
    (hwrites : J.ScriptWrites s .stderr) : J.HangsOnStderr s := by
  obtain ⟨h1, h2, hmain, -⟩ := stuck_iff.mp hstuck
  have hread' : s.main = .joining ∨ s.main = .draining := by simpa [isRead] using hread
  rcases hmain with ⟨what, h⟩ | ⟨hjoining, hworks⟩ | ⟨-, -, hempty, -⟩ | ⟨⟨buffer, h⟩, -⟩
  · rw [h] at hread'
    simp at hread'
  · exact ⟨hjoining, hwrites, h1, h2, hworks⟩
  · exact absurd hempty hwrites.content_ne
  · rw [h] at hread'
    simp at hread'

theorem Sound.stuck_of_returned (hs : Sound s) {what : ByteString} (h : s.main = .returned what) : J.Stuck s := by
  obtain ⟨h1, h2⟩ := hs.joined (by rw [h]; simp)
  exact stuck_iff.mpr ⟨.inl h1, .inl h2, .inl ⟨what, h⟩, .inl (hs.returned what h)⟩

theorem HangsOnStderr.stuck (h : J.HangsOnStderr s) : J.Stuck s :=
  stuck_iff.mpr ⟨h.input, h.output, .inr (.inl ⟨h.main, h.works⟩),
    .inr (.inr ⟨.stderr, by simp, by simp [isRead, h.main], h.script⟩)⟩

theorem HangsOnStdin.stuck (h : J.HangsOnStdin s) (hs : Sound s) : J.Stuck s := by
  have hinput : s.t1.finished = true := by rw [h.input]; rfl
  have hscript : J.ScriptReads s ∧ s.t1 ≠ .closed := ⟨h.script, by rw [h.input]; simp⟩
  rcases h.main with ⟨hjoining, hwaits⟩ | herror | ⟨buffer, hwaiting⟩
  · have hworks : ¬(s.t1.finished = true ∧ s.t2.finished = true) := by
      rw [hwaits.1]
      simp [OutputThread.finished]
    exact stuck_iff.mpr ⟨.inl hinput, .inr hwaits, .inr (.inl ⟨hjoining, hworks⟩), .inr (.inl hscript)⟩
  · have houtput := (hs.joined (by rw [herror.1]; simp)).2
    exact stuck_iff.mpr ⟨.inl hinput, .inl houtput, .inr (.inr (.inl herror)), .inr (.inl hscript)⟩
  · have houtput := (hs.joined (by rw [hwaiting]; simp)).2
    exact stuck_iff.mpr ⟨.inl hinput, .inl houtput, .inr (.inr (.inr ⟨⟨buffer, hwaiting⟩, h.script.process_ne⟩)),
      .inr (.inl hscript)⟩

theorem HangsOnStdout.stuck (h : J.HangsOnStdout s) : J.Stuck s := by
  have hworks : ¬(s.t1.finished = true ∧ s.t2.finished = true) := by
    obtain ⟨⟨b, rest, ht1⟩, -⟩ := h.input
    rw [ht1]
    simp [InputThread.finished]
  have houtput : s.t2.finished = true := by rw [h.output]; rfl
  exact stuck_iff.mpr ⟨.inr h.input, .inl houtput, .inr (.inl ⟨h.main, hworks⟩),
    .inr (.inr ⟨.stdout, by simp, by simp [isRead, h.main], h.script⟩)⟩

end StreamingJob

open StreamingJob in
/-- `run` either returns or can go on, but for three deadlocks. -/
theorem streamingRun_hangs_iff {X : Type} (J : StreamingJob X) (old : ByteString) (l : List StreamingParty)
    (s : StreamingState X) (h : J.runs.Path (J.initial old) l s) :
    J.Stuck s ↔ (∃ what, s.main = .returned what) ∨ J.HangsOnStderr s ∨ J.HangsOnStdin s ∨ J.HangsOnStdout s := by
  have hs := sound_of_path h
  constructor
  · intro hstuck
    obtain ⟨-, -, -, hprocess⟩ := stuck_iff.mp hstuck
    rcases hprocess with hnone | ⟨hreads, ht1⟩ | ⟨fd, hfd, hread, hwrites⟩
    · exact .inl (returned_of_gone hstuck hnone)
    · exact .inr (.inr (.inl (hs.hangsOnStdin hstuck hreads ht1)))
    · cases fd with
      | stdin => exact absurd rfl hfd
      | stdout => exact .inr (.inr (.inr (hs.hangsOnStdout hstuck hread hwrites)))
      | stderr => exact .inr (.inl (hangsOnStderr hstuck hread hwrites))
  · rintro (⟨what, hwhat⟩ | hstderr | hstdin | hstdout)
    · exact hs.stuck_of_returned hwhat
    · exact hstderr.stuck
    · exact hstdin.stuck hs
    · exact hstdout.stuck

namespace StreamingJob

/-- The state after the steps of a schedule. -/
def play {X : Type} (J : StreamingJob X) (schedule : List StreamingParty) : Option (StreamingState X) :=
  schedule.foldlM J.step (J.initial [])

theorem path_of_play {X : Type} {J : StreamingJob X} {s : StreamingState X} {schedule : List StreamingParty}
    (h : J.play schedule = some s) : J.runs.Path (J.initial []) schedule s := by
  induction schedule using List.reverseRecOn generalizing s with
  | nil =>
    obtain rfl : J.initial [] = s := by simpa [play] using h
    exact .nil
  | append_singleton schedule party ih =>
    unfold play at h
    rw [List.foldlM_append, Option.bind_eq_bind, Option.bind_eq_some_iff] at h
    obtain ⟨q, hq, hstep⟩ := h
    exact (ih hq).step (show J.step q party = some s by simpa using hstep)

/-- A script that writes `n` exclamation marks to its standard error, where pipes hold one byte. -/
def complaining (n : Nat) : StreamingJob Nat where
  script
    | 0 => .exit
    | n + 1 => .write .stderr 33 n none
  start := n
  text := []
  inputError := none
  outputError _ := none
  endError _ := none
  capacity _ := 1
  capacity_pos _ := Nat.one_pos

end StreamingJob

open StreamingJob in
/-- Two bytes of complaint are too many. -/
theorem streamingRun_hangs_iff_two :
    ∃ s, (complaining 2).runs.Path ((complaining 2).initial []) [.t1, .process] s ∧ (complaining 2).Stuck s ∧
      s.main = .joining := by
  obtain ⟨s, hs⟩ : ∃ s, (complaining 2).play [.t1, .process] = some s := ⟨_, rfl⟩
  have h := path_of_play hs
  refine ⟨s, h, (streamingRun_hangs_iff (complaining 2) [] _ s h).mpr (.inr (.inl ?_)), ?_⟩
  · cases hs
    refine ⟨rfl, ⟨_, 33, 0, none, rfl, rfl, rfl, ?_⟩, .inl rfl, .inr ⟨rfl, rfl, rfl⟩, ?_⟩
    · decide
    · decide
  · cases hs
    rfl

/-! ### Exceptions -/

namespace StreamingJob
open StreamingState
variable {X : Type} {J : StreamingJob X} {s s' : StreamingState X} {old : ByteString}

/-- An exception of `t2` over what it has received. -/
def OutputThrows (J : StreamingJob X) (out what : ByteString) : Prop :=
  J.outputError out = some what ∨ J.endError out = some what

/-- Which thread has failed, and what `exception_msg` says about it. -/
structure Thrown (J : StreamingJob X) (old : ByteString) (t1 : InputThread) (t2 : OutputThread) (stdout : Pipe UInt8)
    (exceptionMsg : ByteString) : Prop where
  quiet : t1 ≠ .failed → t2 ≠ .failed → exceptionMsg = old
  loud : t1 = .failed ∨ t2 = .failed →
    t1 = .failed ∧ J.inputError = some exceptionMsg ∨ t2 = .failed ∧ J.OutputThrows stdout.taken exceptionMsg
  closed : t1 = .closed → J.inputError = none
  input : t1 = .failed → ∃ what, J.inputError = some what
  ended : t2 = .ended → stdout.content = [] ∧ J.endError stdout.taken = none
  output : t2 = .failed → ∃ what, J.OutputThrows stdout.taken what

/-- The same of a state. -/
def Thrown.In (J : StreamingJob X) (old : ByteString) (s : StreamingState X) : Prop :=
  J.Thrown old s.t1 s.t2 (s.pipes .stdout) s.exceptionMsg

section
variable {t1 t1' : InputThread} {t2 t2' : OutputThread} {stdout stdout' : Pipe UInt8} {msg what : ByteString}

theorem Thrown.input_goes (h : J.Thrown old t1 t2 stdout msg) (ht1 : t1 ≠ .failed) (ht1' : t1' ≠ .failed)
    (hclosed : t1' = .closed → J.inputError = none) : J.Thrown old t1' t2 stdout msg := by
  refine ⟨fun _ ht2 => h.quiet ht1 ht2, ?_, hclosed, fun hfailed => absurd hfailed ht1', h.ended, h.output⟩
  rintro (hfailed | hfailed)
  · exact absurd hfailed ht1'
  · exact .inr ((h.loud (.inr hfailed)).resolve_left fun h => ht1 h.1)

theorem Thrown.input_fails (h : J.Thrown old t1 t2 stdout msg) (hinput : J.inputError = some what) :
    J.Thrown old .failed t2 stdout what :=
  ⟨fun hne => absurd rfl hne, fun _ => .inl ⟨rfl, hinput⟩, fun h => absurd h (by simp), fun _ => ⟨_, hinput⟩,
    h.ended, h.output⟩

theorem Thrown.output_goes (h : J.Thrown old t1 t2 stdout msg) (ht2 : t2 ≠ .failed) (ht2' : t2' ≠ .failed)
    (hended : t2' = .ended → stdout'.content = [] ∧ J.endError stdout'.taken = none) :
    J.Thrown old t1 t2' stdout' msg := by
  refine ⟨fun ht1 _ => h.quiet ht1 ht2, ?_, h.closed, h.input, hended, fun hfailed => absurd hfailed ht2'⟩
  rintro (hfailed | hfailed)
  · exact .inl ((h.loud (.inl hfailed)).resolve_right fun h => ht2 h.1)
  · exact absurd hfailed ht2'

theorem Thrown.output_fails (h : J.Thrown old t1 t2 stdout msg) (hthrows : J.OutputThrows stdout'.taken what) :
    J.Thrown old t1 .failed stdout' what :=
  ⟨fun _ hne => absurd rfl hne, fun _ => .inr ⟨rfl, hthrows⟩, h.closed, h.input, fun h => absurd h (by simp),
    fun _ => ⟨_, hthrows⟩⟩

end

theorem Thrown.step (hstep : StreamingStep J s s') (hs : Sound s) (h : Thrown.In J old s) : Thrown.In J old s' := by
  cases hstep with
  | closes ht1 hinput => exact h.input_goes (by rw [ht1]; simp) (by simp) fun _ => hinput
  | inputFails _ hinput => exact h.input_fails hinput
  | writes ht1 | drops ht1 => exact Thrown.input_goes h (by rw [ht1]; simp) (by simp) (by simp)
  | receives n ht2 => exact h.output_goes (by rw [ht2]; simp) (by simp [take, ht2]) (by simp [take, ht2])
  | outputFails n _ _ houtput => exact h.output_fails (.inl (by simpa [take] using houtput))
  | ends ht2 hcontent _ hend => exact h.output_goes (by rw [ht2]; simp) (by simp) fun _ => ⟨hcontent, hend⟩
  | endFails _ _ _ hend => exact h.output_fails (.inr hend)
  | joins | drained | cuts | returns | closesEnd | exits | drains | reads | goes => exact h
  | @prints p fd b x broken hprocess hscript hfd hopen =>
    have hholds : s.holds fd = true := by simpa [holds, hprocess] using hopen
    refine ⟨h.quiet, ?_, h.closed, h.input, fun ht2 => ?_, ?_⟩
    · cases fd <;> simpa [goTo, push] using h.loud
    · have hne : fd ≠ .stdout := by
        rintro rfl
        rw [hs.ended ht2] at hholds
        cases hholds
      have hpipe : ((s.push fd b).goTo x).pipes .stdout = s.pipes .stdout := Function.update_of_ne hne.symm _ _
      rw [hpipe]
      exact h.ended ht2
    · cases fd <;> simpa [goTo, push] using h.output

theorem thrown_of_path {l : List StreamingParty} (h : J.runs.Path (J.initial old) l s) : Thrown.In J old s := by
  refine (reaches (I := fun s => Sound s ∧ Thrown.In J old s) h ⟨.initial old, ?_⟩ ?_).2
  · exact ⟨fun _ _ => rfl, by simp [StreamingJob.initial], by simp [StreamingJob.initial],
      by simp [StreamingJob.initial], by simp [StreamingJob.initial], by simp [StreamingJob.initial]⟩
  · rintro s s' ⟨hs, h⟩ hstep
    exact ⟨hs.step hstep, Thrown.step hstep hs h⟩

/-- What the caller makes of the standard error. -/
def shortened (complaint : ByteString) : ByteString :=
  if complaint.length < 1000 then complaint else complaint.take 1000 ++ str "..."

/-- What the caller has read so far, and what it said in the end. -/
structure Complained (s : StreamingState X) : Prop where
  short : (s.pipes .stderr).taken.length ≤ 1000
  quiet : s.main = .draining → s.exceptionMsg = []
  waiting : ∀ buffer, s.main = .waiting buffer → s.exceptionMsg = [] → buffer = shortened (s.pipes .stderr).written
  returned : ∀ what, s.main = .returned what → what = raised s.exceptionMsg (shortened (s.pipes .stderr).written)

theorem Complained.joining (hmain : s.main = .joining) (hshort : (s.pipes .stderr).taken.length ≤ 1000) :
    Complained s :=
  ⟨hshort, by simp [hmain], by simp [hmain], by simp [hmain]⟩

/-- A step that neither the caller takes nor a thread that throws. -/
theorem Complained.of_eq (h : Complained s) (hmain : s'.main = s.main) (hmsg : s'.exceptionMsg = s.exceptionMsg)
    (htaken : (s'.pipes .stderr).taken = (s.pipes .stderr).taken)
    (hwritten : (s.main = .joining ∨ s.main = .draining) ∨ (s'.pipes .stderr).written = (s.pipes .stderr).written) :
    Complained s' := by
  refine ⟨by rw [htaken]; exact h.short, fun hdraining => ?_, fun buffer hwaiting hnil => ?_, fun what hwhat => ?_⟩
  · rw [hmsg]
    exact h.quiet (hmain ▸ hdraining)
  · rw [hmain] at hwaiting
    rcases hwritten with (h' | h') | h'
    · rw [hwaiting] at h'; cases h'
    · rw [hwaiting] at h'; cases h'
    · rw [h']
      exact h.waiting buffer hwaiting (hmsg ▸ hnil)
  · rw [hmain] at hwhat
    rcases hwritten with (h' | h') | h'
    · rw [hwhat] at h'; cases h'
    · rw [hwhat] at h'; cases h'
    · rw [h', hmsg]
      exact h.returned what hwhat

theorem Complained.step (hstep : StreamingStep J s s') (hs : Sound s) (h : Complained s) : Complained s' := by
  have hwriting : ∀ {rest}, s.t1 = .writing rest → s.main = .joining := fun ht1 => by
    by_contra hmain
    have hfinished := (hs.joined hmain).1
    rw [ht1] at hfinished
    cases hfinished
  have hreading : s.t2 = .reading → s.main = .joining := fun ht2 => by
    by_contra hmain
    have hfinished := (hs.joined hmain).2
    rw [ht2] at hfinished
    cases hfinished
  cases hstep with
  | closes ht1 | inputFails ht1 | drops ht1 => exact .joining (hwriting ht1) h.short
  | writes ht1 => exact .joining (hwriting ht1) (by simpa [push] using h.short)
  | receives n ht2 | outputFails n ht2 => exact .joining (hreading ht2) (by simpa [take] using h.short)
  | ends ht2 | endFails ht2 => exact .joining (hreading ht2) h.short
  | joins hmain =>
    refine ⟨h.short, ?_, ?_, ?_⟩
    all_goals dsimp only; split_ifs with hmsg
    · exact fun _ => hmsg
    · simp
    · simp
    · intro buffer _ hnil
      exact absurd hnil hmsg
    · simp
    · simp
  | drains hmain hshort =>
    refine ⟨?_, h.quiet, by simp [take, hmain], by simp [take, hmain]⟩
    simp only [take, Function.update_self, Pipe.take, List.length_append, List.length_take]
    omega
  | drained hmain hshort hcontent =>
    refine ⟨h.short, by simp, ?_, by simp⟩
    rintro buffer ⟨⟩ -
    rw [Pipe.written_empty hcontent, shortened, if_pos hshort]
  | cuts hmain hlong =>
    refine ⟨h.short, by simp, ?_, by simp⟩
    rintro buffer ⟨⟩ -
    have hlength : (s.pipes .stderr).taken.length = 1000 := by
      have := h.short
      omega
    rw [shortened, if_neg (by simp [Pipe.written, hlength]), Pipe.written, List.take_left' hlength]
  | @returns buffer hmain =>
    refine ⟨h.short, by simp, by simp, ?_⟩
    rintro what ⟨⟩
    by_cases hmsg : s.exceptionMsg = []
    · rw [h.waiting buffer hmain hmsg]
    · simp [raised, hmsg]
  | reads | goes | closesEnd | exits => exact h.of_eq rfl rfl rfl (.inr rfl)
  | @prints p fd b x broken _ _ hfd _ hread =>
    cases fd with
    | stdin => exact absurd rfl hfd
    | stdout => exact h.of_eq rfl rfl rfl (.inr rfl)
    | stderr => exact h.of_eq rfl rfl rfl (.inl (by simpa [isRead] using hread))

theorem complained_of_path {l : List StreamingParty} (h : J.runs.Path (J.initial old) l s) : Complained s := by
  have hstart : Complained (J.initial old) := .joining rfl (by simp [StreamingJob.initial])
  refine (reaches (I := fun s => Sound s ∧ Complained s) h ⟨.initial old, hstart⟩ ?_).2
  rintro s s' ⟨hs, h⟩ hstep
  exact ⟨hs.step hstep, h.step hstep hs⟩

/-- What `t1` has still to write. -/
def InputThread.rest : InputThread → ByteString
  | .writing rest => rest
  | _ => []

theorem fed_of_path {l : List StreamingParty} (h : J.runs.Path (J.initial old) l s) :
    (s.pipes .stdin).written ++ InputThread.rest s.t1 <+: J.text := by
  refine reaches (I := fun s => (s.pipes .stdin).written ++ InputThread.rest s.t1 <+: J.text) h ?_ ?_
  · simp [StreamingJob.initial, Pipe.written, InputThread.rest]
  · intro s s' h hstep
    cases hstep with
    | closes ht1 | inputFails ht1 =>
      rw [ht1] at h
      exact h
    | writes ht1 =>
      rw [ht1] at h
      simpa [push, InputThread.rest] using h
    | @drops b rest ht1 =>
      rw [ht1] at h
      exact ((List.prefix_append_right_inj _).mpr (List.nil_prefix)).trans h
    | receives | outputFails | ends | endFails | joins | drains | drained | cuts | returns | goes | closesEnd | exits =>
      exact h
    | reads => simpa [take, goTo] using h
    | @prints p fd b x broken _ _ hfd =>
      have hpipe : ((s.push fd b).goTo x).pipes .stdin = s.pipes .stdin := Function.update_of_ne hfd.symm _ _
      rw [hpipe]
      exact h

end StreamingJob

theorem shortened_eq_nil {complaint : ByteString} : StreamingJob.shortened complaint = [] ↔ complaint = [] := by
  unfold StreamingJob.shortened
  split_ifs with hshort
  · rfl
  · have hne : str "..." ≠ [] := by decide
    have hne' : complaint ≠ [] := by
      rintro rfl
      exact hshort (by simp)
    simp [hne, hne']

theorem raised_eq_nil {old readBuffer : ByteString} :
    StreamingState.raised old readBuffer = [] ↔ cstr old = [] ∧ (old = [] → readBuffer = []) := by
  unfold StreamingState.raised
  by_cases hold : old = []
  · subst hold
    rw [if_neg (by simp)]
    split_ifs with hne
    · have hstart : str "Error output during script execution:\n" =
          69 :: str "rror output during script execution:\n" := by decide
      refine iff_of_false ?_ fun h => hne (h.2 rfl)
      rw [hstart]
      simp [cstr]
    · have hempty : readBuffer = [] := not_not.mp hne
      exact iff_of_true rfl ⟨rfl, fun _ => hempty⟩
  · simp [hold]

open StreamingJob in
/-- If neither thread failed `run` leaves an older message as it was, and else what the script complained of; then
`t2` has received all that was printed. -/
theorem streamingRun_reports {X : Type} (J : StreamingJob X)
    (hspeaks : ∀ what, J.inputError = some what ∨ (∃ out, J.OutputThrows out what) → cstr what ≠ [])
    (old : ByteString) (l : List StreamingParty) (s : StreamingState X) (what : ByteString)
    (h : J.runs.Path (J.initial old) l s) (hreturned : s.main = .returned what) :
    (what = [] ↔ s.t1 = .closed ∧ s.t2 = .ended ∧ cstr old = [] ∧ (old = [] → (s.pipes .stderr).written = [])) ∧
    (s.t1 = .closed → s.t2 = .ended → what = StreamingState.raised old (shortened (s.pipes .stderr).written) ∧
      (s.pipes .stdout).taken = (s.pipes .stdout).written) ∧
    (s.t1 = .failed ∨ s.t2 = .failed →
      ∃ e, (J.inputError = some e ∨ J.OutputThrows (s.pipes .stdout).taken e) ∧ what = cstr e) ∧
    (s.pipes .stdin).written <+: J.text ∧ s.process = none := by
  have hs := sound_of_path h
  have hthrown := thrown_of_path h
  have hwhat := (complained_of_path h).returned what hreturned
  have hfinished := hs.joined (by rw [hreturned]; simp)
  have hquiet : s.t1 = .closed → s.t2 = .ended →
      what = StreamingState.raised old (shortened (s.pipes .stderr).written) := by
    intro ht1 ht2
    rw [hwhat, hthrown.quiet (by rw [ht1]; simp) (by rw [ht2]; simp)]
  have hloud : s.t1 = .failed ∨ s.t2 = .failed →
      ∃ e, (J.inputError = some e ∨ J.OutputThrows (s.pipes .stdout).taken e) ∧ what = cstr e := by
    intro hfailed
    have he : J.inputError = some s.exceptionMsg ∨ J.OutputThrows (s.pipes .stdout).taken s.exceptionMsg :=
      (hthrown.loud hfailed).imp And.right And.right
    have hcstr := hspeaks _ (he.imp_right fun h => ⟨_, h⟩)
    have hne : s.exceptionMsg ≠ [] := by
      intro hnil
      rw [hnil] at hcstr
      exact hcstr rfl
    exact ⟨_, he, hwhat.trans (if_pos hne)⟩
  refine ⟨?_, fun ht1 ht2 => ⟨hquiet ht1 ht2, (Pipe.written_empty (hthrown.ended ht2).1).symm⟩, hloud,
    (List.prefix_append _ _).trans (fed_of_path h), hs.returned what hreturned⟩
  rcases InputThread.finished_iff.mp hfinished.1 with ht1 | ht1 <;>
    rcases OutputThread.finished_iff.mp hfinished.2 with ht2 | ht2
  · rw [hquiet ht1 ht2, raised_eq_nil, shortened_eq_nil]
    simp [ht1, ht2]
  all_goals
    obtain ⟨e, he, rfl⟩ := hloud (by simp [ht1, ht2])
    have hne := hspeaks e (he.imp_right fun h => ⟨_, h⟩)
    simp [hne, ht1, ht2]

namespace StreamingJob

theorem play_complaining :
    ∃ s, (complaining 1).play [.process, .process, .t1, .t2 0, .main, .main, .main, .main] = some s ∧
    s.main = .returned (str "Error output during script execution:\n!") := by
  refine ⟨_, rfl, ?_⟩
  decide

end StreamingJob

/-- The script has complained, and `run` says so. -/
theorem streamingRun_reports_one :
    ∃ l s what, (StreamingJob.complaining 1).runs.Path ((StreamingJob.complaining 1).initial []) l s ∧
      s.main = .returned what ∧ what ≠ [] ∧ (s.pipes .stderr).written ≠ [] := by
  obtain ⟨s, hs, hmain⟩ := StreamingJob.play_complaining
  have h := StreamingJob.path_of_play hs
  have hreports := streamingRun_reports (StreamingJob.complaining 1)
    (by rintro what (hwhat | ⟨out, hwhat | hwhat⟩) <;> cases hwhat) [] _ s _ h hmain
  have hne : str "Error output during script execution:\n!" ≠ [] := by decide
  refine ⟨_, s, _, h, hmain, hne, fun hnil => hne (hreports.1.mpr ⟨?_, ?_, rfl, fun _ => hnil⟩)⟩
  · cases hs
    rfl
  · cases hs
    rfl

/-! ### Termination -/

/-- The bytes a call puts on the standard error. -/
def ScriptCall.complaint {X : Type} : ScriptCall X → Nat
  | .write .stderr _ _ _ => 1
  | _ => 0

/-- The script makes at most `n` calls from `x` on, and at most `m` of them write to its standard error. -/
def EndsWithin {X : Type} (script : X → ScriptCall X) : Nat → Nat → X → Prop
  | 0, _, _ => False
  | n + 1, m, x => (script x).complaint ≤ m ∧
      ∀ y, (script x).Next y → EndsWithin script n (m - (script x).complaint) y

/-- The steps a thread has left. -/
def InputThread.left : InputThread → Nat
  | writing rest => rest.length + 1
  | _ => 0

def OutputThread.left : OutputThread → Nat
  | reading => 1
  | _ => 0

def RunThread.left : RunThread → Nat
  | joining => 3
  | draining => 2
  | waiting _ => 1
  | returned _ => 0

/-- Every call may leave a byte for somebody to take. -/
def callsLeft {X : Type} (n : Nat) : Option (ScriptProcess X) → Nat
  | none => 0
  | some _ => 2 * n

/-- The steps left where the script makes `n` calls. -/
def StreamingState.left {X : Type} (s : StreamingState X) (n : Nat) : Nat :=
  s.t1.left + s.t2.left + s.main.left + (s.pipes .stdout).content.length + (s.pipes .stderr).content.length +
    callsLeft n s.process

namespace StreamingJob
open StreamingState
variable {X : Type} {J : StreamingJob X} {s s' : StreamingState X} {old : ByteString}

/-- `k` bounds the steps left, and `limit` what the script writes to its standard error altogether. -/
def Rank (J : StreamingJob X) (limit : Nat) (s : StreamingState X) (k : Nat) : Prop :=
  ∃ n m, (∀ p, s.process = some p → EndsWithin J.script n m p.place) ∧
    (s.pipes .stderr).written.length + m ≤ limit ∧ s.left n ≤ k

theorem goTo_eq {p : ScriptProcess X} (h : s.process = some p) (x : X) :
    s.goTo x = { s with process := some { p with place := x } } := by
  unfold goTo
  rw [h]
  rfl

theorem Rank.calls {limit k n m : Nat} {p p' : ScriptProcess X} {pipes : Stdio → Pipe UInt8}
    (hprocess : s.process = some p) (hends : EndsWithin J.script n m p.place)
    (hnext : (J.script p.place).Next p'.place) (hk : s.left n ≤ k)
    (hlimit : (pipes .stderr).written.length + (m - (J.script p.place).complaint) ≤ limit)
    (hcontent : (pipes .stdout).content.length + (pipes .stderr).content.length ≤
      (s.pipes .stdout).content.length + (s.pipes .stderr).content.length + 1) :
    ∃ k' < k, J.Rank limit { s with process := some p', pipes } k' := by
  cases n with
  | zero => exact hends.elim
  | succ n =>
    refine ⟨_, ?_, n, m - (J.script p.place).complaint, ?_, hlimit, le_rfl⟩
    · refine lt_of_lt_of_le ?_ hk
      simp only [StreamingState.left, hprocess, callsLeft]
      omega
    · rintro q ⟨⟩
      exact hends.2 _ hnext

theorem Rank.step {limit k : Nat} (hstep : StreamingStep J s s') (h : J.Rank limit s k) :
    ∃ k' < k, J.Rank limit s' k' := by
  obtain ⟨n, m, hends, hlimit, hk⟩ := h
  have hleft : ∀ {s'}, s'.process = s.process → (s'.pipes .stderr).written = (s.pipes .stderr).written →
      s'.left n < s.left n → ∃ k' < k, J.Rank limit s' k' := by
    intro s' hprocess hwritten hlt
    exact ⟨s'.left n, by omega, n, m, by rwa [hprocess], by rwa [hwritten], le_rfl⟩
  cases hstep with
  | closes ht1 | inputFails ht1 =>
    refine hleft rfl rfl ?_
    simp only [StreamingState.left, ht1, InputThread.left]
    omega
  | writes ht1 | drops ht1 =>
    refine hleft rfl (by simp [push]) ?_
    simp [StreamingState.left, ht1, InputThread.left, push]
  | receives n' ht2 hcontent =>
    refine hleft rfl (by simp [take]) ?_
    have := Pipe.length_content_take hcontent (n := n')
    simp [StreamingState.left, take]
    omega
  | outputFails n' ht2 hcontent =>
    refine hleft rfl (by simp [take]) ?_
    have := Pipe.length_content_take hcontent (n := n')
    simp [StreamingState.left, take, ht2, OutputThread.left]
    omega
  | ends ht2 | endFails ht2 =>
    refine hleft rfl rfl ?_
    simp [StreamingState.left, ht2, OutputThread.left]
  | joins hmain =>
    refine hleft rfl rfl ?_
    simp only [StreamingState.left, hmain, RunThread.left]
    split_ifs <;> simp only <;> omega
  | drains hmain _ hcontent =>
    refine hleft rfl (by simp [take]) ?_
    have := Pipe.length_content_take hcontent (n := 0)
    simp [StreamingState.left, take] at *
    omega
  | drained hmain | cuts hmain | returns hmain =>
    refine hleft rfl rfl ?_
    simp only [StreamingState.left, hmain, RunThread.left]
    omega
  | @reads p x hprocess hnext =>
    rw [goTo_eq (s := s.take .stdin 1) hprocess]
    refine Rank.calls hprocess (hends p hprocess) hnext hk ?_ ?_
    · simp [take]
      omega
    · simp [take]
  | goes hprocess hnext =>
    rw [goTo_eq hprocess]
    refine Rank.calls hprocess (hends _ hprocess) hnext hk ?_ ?_
    · omega
    · omega
  | closesEnd hprocess hnext =>
    refine Rank.calls hprocess (hends _ hprocess) hnext hk ?_ ?_
    · omega
    · omega
  | @prints p fd b x broken hprocess hscript hfd =>
    have hnext : (J.script p.place).Next x := by
      rw [hscript]
      exact .inl rfl
    rw [goTo_eq (s := s.push fd b) hprocess]
    refine Rank.calls (s := s) hprocess (hends p hprocess) hnext hk ?_ ?_
    · have hm : (J.script p.place).complaint ≤ m := by
        cases n with
        | zero => exact (hends p hprocess).elim
        | succ n => exact (hends p hprocess).1
      rw [hscript] at hm ⊢
      cases fd <;> simp [push, ScriptCall.complaint] at hm ⊢ <;> omega
    · cases fd with
      | stdin => exact absurd rfl hfd
      | stdout | stderr =>
        simp only [push, Function.update_self, Function.update_of_ne, ne_eq, reduceCtorEq, not_false_eq_true,
          Pipe.length_content_push]
        omega
  | @exits p hprocess =>
    refine ⟨_, lt_of_lt_of_le ?_ hk, n, m, ?_, hlimit, le_rfl⟩
    · have hn : n ≠ 0 := by
        rintro rfl
        exact hends p hprocess
      simp only [StreamingState.left, hprocess, callsLeft]
      omega
    · rintro q ⟨⟩

theorem Rank.initial {n m : Nat} (old : ByteString) (h : EndsWithin J.script n m J.start) :
    J.Rank m (J.initial old) (J.text.length + 5 + 2 * n) := by
  refine ⟨n, m, ?_, ?_, ?_⟩
  · rintro p ⟨⟩
    exact h
  · simp [StreamingJob.initial, Pipe.written]
  · simp only [StreamingJob.initial, StreamingState.left, InputThread.left, OutputThread.left, RunThread.left,
      callsLeft, List.length_nil]
    omega

/-- What is still to be written to the standard error does not go beyond the limit. -/
theorem Rank.not_writes {limit k : Nat} (h : J.Rank limit s k) (hlimit : limit ≤ J.capacity .stderr) :
    ¬ J.ScriptWrites s .stderr := by
  rintro ⟨p, b, next, broken, hprocess, hscript, -, hroom⟩
  obtain ⟨n, m, hends, hwritten, -⟩ := h
  have hm : 1 ≤ m := by
    have hp := hends p hprocess
    cases n with
    | zero => exact hp.elim
    | succ n =>
      have hle := hp.1
      rwa [hscript] at hle
  refine hroom ?_
  show (s.pipes .stderr).content.length < _
  have hle : (s.pipes .stderr).content.length ≤ (s.pipes .stderr).written.length := by simp [Pipe.written]
  omega

end StreamingJob

open StreamingJob in
/-- A script that ends and does not fill its standard error is run to its end, whatever the order of the steps,
as long as neither thread throws. -/
theorem streamingRun_ends {X : Type} (J : StreamingJob X) (n m : Nat) (hscript : EndsWithin J.script n m J.start)
    (hstderr : m ≤ J.capacity .stderr) (hinput : J.inputError = none) (houtput : ∀ out, J.outputError out = none)
    (hend : ∀ out, J.endError out = none) (old : ByteString) (l : List StreamingParty) (s : StreamingState X)
    (h : J.runs.Path (J.initial old) l s) :
    l.length ≤ J.text.length + 5 + 2 * n ∧ (J.Stuck s ↔ ∃ what, s.main = .returned what) := by
  have hs := sound_of_path h
  have hthrown := thrown_of_path h
  obtain ⟨k, hrank, hlength⟩ := h.ranked (R := J.Rank m) (Rank.initial old hscript)
    (fun q party r k hq hstep => hq.step (step_steps hstep)) (fun q r k _ hsilent => hsilent.elim)
  refine ⟨by omega, fun hstuck => ?_, fun hwhat => hs.stuck_of_returned hwhat.choose_spec⟩
  obtain ⟨-, -, -, hprocess⟩ := stuck_iff.mp hstuck
  rcases hprocess with hnone | ⟨hreads, ht1⟩ | ⟨fd, hfd, hread, hwrites⟩
  · exact returned_of_gone hstuck hnone
  · obtain ⟨what, hwhat⟩ := hthrown.input (hs.hangsOnStdin hstuck hreads ht1).input
    rw [hinput] at hwhat
    cases hwhat
  · cases fd with
    | stdin => exact absurd rfl hfd
    | stdout =>
      obtain ⟨what, hwhat | hwhat⟩ := hthrown.output (hs.hangsOnStdout hstuck hread hwrites).output
      · rw [houtput] at hwhat
        cases hwhat
      · rw [hend] at hwhat
        cases hwhat
    | stderr => exact absurd hwrites (hrank.not_writes hstderr)

/-- One complaint fits, and the run is over when there is nothing left to do. -/
theorem streamingRun_ends_one :
    ∃ l s, (StreamingJob.complaining 1).runs.Path ((StreamingJob.complaining 1).initial []) l s ∧ l.length ≤ 9 ∧
      (StreamingJob.complaining 1).Stuck s := by
  have hscript : EndsWithin (StreamingJob.complaining 1).script 2 1 1 := by
    refine ⟨le_rfl, ?_⟩
    rintro y (rfl | h)
    · exact ⟨Nat.zero_le _, fun y h => h.elim⟩
    · cases h
  obtain ⟨s, hs, hmain⟩ := StreamingJob.play_complaining
  have h := StreamingJob.path_of_play hs
  obtain ⟨hlength, hstuck⟩ := streamingRun_ends (StreamingJob.complaining 1) 2 1 hscript le_rfl rfl (fun _ => rfl)
    (fun _ => rfl) [] _ s h
  exact ⟨_, s, h, hlength, hstuck.mpr ⟨_, hmain⟩⟩

end UdfRunner
