import UdfRunner.Ctpg.ParserLaws

/-!
# `ctpg.hpp`: the automaton of the lexer

`dfa_builder` puts the automata of the terms together by merging states in place. A merge that runs into
itself does not end, and states that are shared are changed for everybody: what comes out need not be
deterministic minimal nor, in general, right. `Dfa.dfaMatch_eq`: where it is right, `dfa_match` is the lexer by
derivatives.
-/

namespace UdfRunner
namespace Ctpg

/-- `cbitset<256>`. -/
abbrev CharSubset := Nat

namespace CharSubset

def set (s : CharSubset) (idx : Nat) : CharSubset := s ||| 1 <<< idx
def flip (s : CharSubset) : CharSubset := s ^^^ (2 ^ 256 - 1)
def addRange (s : CharSubset) (start finish : UInt8) : CharSubset :=
  (List.range (finish.toNat + 1 - start.toNat)).foldl (fun s i => set s (start.toNat + i)) s

end CharSubset

/-- The 16-bit state number that stands for no transition. -/
def uninitialized16 : Nat := 2 ^ 16 - 1

/-- Each transition with the characters that make it. States can be numbered up to `uninitialized16`. -/
structure DfaState where
  startState : Bool := false
  endState : Bool := false
  unreachable : Bool := false
  conflictedRecognition : List Nat := []
  transitions : List (CharSubset × Nat) := []
deriving DecidableEq, Repr

namespace DfaState

def transition (s : DfaState) (idx : Nat) : Option Nat := (s.transitions.find? (·.1.testBit idx)).map Prod.snd

/-- A transition over a character that had none. -/
def setTransition (s : DfaState) (idx target : Nat) : DfaState :=
  { s with transitions := add s.transitions }
where
  add : List (CharSubset × Nat) → List (CharSubset × Nat)
    | [] => [(CharSubset.set 0 idx, target)]
    | (chars, t) :: rest => if t = target then (chars.set idx, t) :: rest else (chars, t) :: add rest

/-- `add_conflicted_term`: there is room for four. -/
def addConflictedTerm (s : DfaState) (t : Nat) : DfaState :=
  if s.conflictedRecognition.length < 4 then { s with conflictedRecognition := s.conflictedRecognition ++ [t] }
  else s

def markEndState (s : DfaState) (t : Nat) : DfaState := if s.endState then s.addConflictedTerm t else s

end DfaState

abbrev Dfa := List DfaState

structure Slice where
  start : Nat
  n : Nat
deriving DecidableEq, Repr

/-- The indices of a slice. -/
def Slice.range (s : Slice) : List Nat := (List.range s.n).map (s.start + ·)

namespace Dfa

def state (sm : Dfa) (i : Nat) : DfaState := sm.getD i {}

/-- The body of the loop over the characters. The states are read as they are by now. -/
def mergeChar (merge : Nat → Nat → Dfa → Option Dfa) (target source : Nat) (sm : Dfa) (i : Nat) : Option Dfa :=
  match (sm.state source).transition i with
  | none => some sm
  | some trFrom =>
    match (sm.state target).transition i with
    | none => some ((sm.modify target (·.setTransition i trFrom)).modify trFrom
        fun s => { s with unreachable := false })
    | some trTo => merge trTo trFrom sm

/-- `fuel` cuts off the recursion. -/
def merge (keepEndState markFromAsUnreachable : Bool) : Nat → Nat → Nat → Dfa → Option Dfa
  | 0, _, _, _ => none
  | fuel + 1, target, source, sm =>
    if target = source then some sm
    else do
      let fromEnd := (sm.state source).endState
      let sm := (sm.modify source fun s =>
          { s with startState := false, unreachable := markFromAsUnreachable }).modify target fun s =>
        { s with endState := if keepEndState then s.endState || fromEnd else fromEnd }
      let sm ← (List.range 256).foldlM (mergeChar (merge keepEndState markFromAsUnreachable fuel) target source) sm
      return sm.modify target fun s => (sm.state source).conflictedRecognition.foldl DfaState.markEndState s

/-- No deeper than there are pairs of states. -/
def mergeAt (target source : Nat) (keepEndState markFromAsUnreachable : Bool) (sm : Dfa) : Option Dfa :=
  merge keepEndState markFromAsUnreachable (sm.length ^ 2 + 1) target source sm

def primarySubset (s : CharSubset) (sm : Dfa) : Slice × Dfa :=
  (⟨sm.length, 2⟩, sm ++ [{ startState := true, transitions := [(s, sm.length + 1)] }, { endState := true }])

/-- What a loop over a slice does with its end states. -/
def onEndStates (f : Nat → Dfa → Option Dfa) (s : Slice) (sm : Dfa) : Option Dfa :=
  s.range.foldlM (fun sm i => if (sm.state i).endState then f i sm else some sm) sm

def star (s : Slice) (sm : Dfa) : Option (Slice × Dfa) := do
  let sm := sm.modify s.start fun st => { st with endState := true }
  return (s, ← onEndStates (fun i => mergeAt i s.start false false) s sm)

def plus (s : Slice) (sm : Dfa) : Option (Slice × Dfa) := do
  return (s, ← onEndStates (fun i => mergeAt i s.start true false) s sm)

def opt (s : Slice) (sm : Dfa) : Option (Slice × Dfa) :=
  some (s, sm.modify s.start fun st => { st with endState := true })

def cat (s1 s2 : Slice) (sm : Dfa) : Option (Slice × Dfa) := do
  return (⟨s1.start, s1.n + s2.n⟩, ← onEndStates (fun i => mergeAt i s2.start false true) s1 sm)

def alt (s1 s2 : Slice) (sm : Dfa) : Option (Slice × Dfa) := do
  return (⟨s1.start, s1.n + s2.n⟩, ← mergeAt s1.start s2.start true true sm)

/-- The states of a slice that is repeated no times. -/
def drop (sm : Dfa) (i : Nat) : Dfa :=
  sm.modify i fun st =>
    if st.startState then { st with transitions := [], endState := true, startState := false }
    else { st with unreachable := true }

def rep (s : Slice) (n : Nat) (sm : Dfa) : Option (Slice × Dfa) :=
  if n = 0 then some (s, s.range.foldl drop sm)
  else
    let copies := (List.range (n - 1)).flatMap fun i => s.range.map fun j =>
      let st := sm.state j
      { st with transitions := st.transitions.map fun t => (t.1, t.2 + s.n * (i + 1)) }
    (List.range (n - 1)).foldlM (fun (whole, sm) _ => cat whole ⟨whole.start + whole.n, s.n⟩ sm) (s, sm ++ copies)

def markEndStates (s : Slice) (idx : Nat) (sm : Dfa) : Dfa :=
  s.range.foldl (fun sm i => sm.modify i (·.markEndState idx)) sm

end Dfa

/-- What the parser of a regular expression makes its calls of the builder from. They are made as the
reductions are, from the left to the right and from the inside out. -/
inductive Regex
  | primary (s : CharSubset)
  | star (e : Regex)
  | plus (e : Regex)
  | opt (e : Regex)
  | rep (e : Regex) (n : Nat)
  | cat (e1 e2 : Regex)
  | alt (e1 e2 : Regex)
deriving DecidableEq, Repr

def Regex.build : Regex → Dfa → Option (Slice × Dfa)
  | primary s, sm => some (sm.primarySubset s)
  | star e, sm => do
    let (s, sm) ← e.build sm
    sm.star s
  | plus e, sm => do
    let (s, sm) ← e.build sm
    sm.plus s
  | opt e, sm => do
    let (s, sm) ← e.build sm
    sm.opt s
  | rep e n, sm => do
    let (s, sm) ← e.build sm
    sm.rep s n
  | cat e1 e2, sm => do
    let (s1, sm) ← e1.build sm
    let (s2, sm) ← e2.build sm
    sm.cat s1 s2
  | alt e1 e2, sm => do
    let (s1, sm) ← e1.build sm
    let (s2, sm) ← e2.build sm
    sm.alt s1 s2

namespace Dfa

/-- The end of each `add_term_data_to_dfa`. -/
def addTerm (prev : Nat) (idx : Nat) (s : Slice) (sm : Dfa) : Option Dfa := do
  let (_, sm) ← (markEndStates s idx sm).alt ⟨0, prev⟩ s
  return sm

end Dfa

/-! ### Matching -/

namespace Dfa

/-- What has been recognized after `n` bytes. -/
def recognized (sm : Dfa) (stateIdx n : Nat) (rt : Option (Nat × Nat)) : Option (Nat × Nat) :=
  match (sm.state stateIdx).conflictedRecognition.head? with
  | some t => some (t, n)
  | none => rt

/-- `dfa_match` from a state after `n` bytes. -/
def dfaMatch (sm : Dfa) (stateIdx n : Nat) (rt : Option (Nat × Nat)) : ByteString → Option (Nat × Nat)
  | [] => sm.recognized stateIdx n rt
  | c :: input =>
    match (sm.state stateIdx).transition c.toNat with
    | none => sm.recognized stateIdx n rt
    | some tr => dfaMatch sm tr (n + 1) (sm.recognized stateIdx n rt) input

/-- The term that is recognized after a word, if the word leads anywhere. -/
def term (sm : Dfa) (stateIdx : Nat) : ByteString → Option Nat
  | [] => (sm.state stateIdx).conflictedRecognition.head?
  | c :: w => ((sm.state stateIdx).transition c.toNat).bind fun tr => term sm tr w

variable {sm : Dfa} {q : Nat}

theorem term_cons {c : UInt8} {tr : Nat} (h : (sm.state q).transition c.toNat = some tr) (w : ByteString) :
    sm.term q (c :: w) = sm.term tr w := by
  rw [term, h]
  rfl

theorem term_stuck {c : UInt8} (h : (sm.state q).transition c.toNat = none) (w : ByteString) :
    sm.term q (c :: w) = none := by
  rw [term, h]
  rfl

theorem recognized_eq {state : List Pattern} (h : ∀ w, sm.term q w = state.findIdx? (·.rmatch w)) (n : Nat)
    (rt : Option (Nat × Nat)) : sm.recognized q n rt = dfaMatch.recognized state n rt := by
  have hnil : (sm.state q).conflictedRecognition.head? = state.findIdx? RegularExpression.matchEpsilon := by
    rw [funext matchEpsilon_eq]
    exact h []
  rw [recognized, hnil]
  rfl

/-- An automaton whose words are those of the patterns matches as their derivatives do. -/
theorem dfaMatch_eq {state : List Pattern} (h : ∀ w, sm.term q w = state.findIdx? (·.rmatch w)) (n : Nat)
    (rt : Option (Nat × Nat)) (input : ByteString) : sm.dfaMatch q n rt input = Ctpg.dfaMatch state n rt input := by
  induction input generalizing q state n rt with
  | nil => exact recognized_eq h n rt
  | cons c input ih =>
    rw [dfaMatch, Ctpg.dfaMatch, recognized_eq h]
    cases htr : (sm.state q).transition c.toNat with
    | none =>
      refine (dfaMatch_none (fun j _ p hp => ?_) _ _).symm
      obtain ⟨p', hp', rfl⟩ := List.mem_map.mp hp
      have hnone := h (c :: input.take j)
      rw [term_stuck htr, eq_comm, List.findIdx?_eq_none_iff] at hnone
      exact hnone p' hp'
    | some tr =>
      refine ih (fun w => ?_) _ _
      rw [← term_cons htr, h, List.findIdx?_map]
      rfl

end Dfa

end Ctpg
end UdfRunner
