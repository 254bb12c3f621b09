import Mathlib.Algebra.GroupWithZero.Nat
import Mathlib.Data.List.Sort
import UdfRunner.Lib.Proc

/-!
# `ctpg.hpp`: the parse table of a grammar

`analyzeStates` is the work of the parser's constructor: LR(1) situations, states as bit sets of
situations, and a state found by any one of the situations it holds. First sets are computed once. What is
asked for while it is being computed is taken as far as it has come, and stays so.
-/

namespace UdfRunner
namespace Ctpg
open Proc

inductive Symbol
  | nterm (idx : Nat)
  | term (idx : Nat)
deriving DecidableEq, Repr

inductive Associativity
  | noAssoc
  | ltor
  | rtol
deriving DecidableEq, Repr

structure Rule where
  left : Nat
  right : List Symbol
  precedence : Int := 0
deriving DecidableEq, Repr

/-- The precedence and associativity of each term, the rules and the start symbol. -/
structure Grammar where
  terms : List (Int × Associativity)
  ntermCount : Nat
  rules : List Rule
  root : Nat
deriving DecidableEq, Repr

structure RuleInfo where
  lIdx : Nat
  rIdx : Nat
  rElements : Nat
deriving DecidableEq, Repr

inductive EntryKind
  | error
  | success
  | shift
  | shiftErrorRecoveryToken
  | reduce
  | rrConflict
deriving DecidableEq, Repr

structure TableEntry where
  kind : EntryKind := .error
  shift : Option Nat := none
  reduce : Option Nat := none
deriving DecidableEq, Repr

abbrev ParseTable := List (List TableEntry)

namespace Grammar
variable (g : Grammar)

def eofIdx : Nat := g.terms.length
def errorRecoveryTokenIdx : Nat := g.terms.length + 1
def termCount : Nat := g.terms.length + 2
/-- With the fake root. -/
def ntermTotal : Nat := g.ntermCount + 1
def rootRuleIdx : Nat := g.rules.length
def ruleCount : Nat := g.rules.length + 1

/-- The root rule is the last one. -/
def allRules : List Rule := g.rules ++ [⟨g.ntermCount, [.nterm g.root], 0⟩]

/-- Sorted by left side; `stdex::sort` keeps the order of the others. -/
def ruleInfos : List RuleInfo :=
  (g.allRules.zipIdx.map fun (r, i) => ⟨r.left, i, r.right.length⟩).insertionSort fun a b => a.lIdx ≤ b.lIdx

def rightSides : List (List Symbol) := g.allRules.map Rule.right

def maxRuleElementCount : Nat := (g.rules.map fun r => r.right.length).foldl max 1

end Grammar

/-- What the analysis reads of the grammar. -/
structure GrammarInfo where
  ruleInfos : List RuleInfo
  rightSides : List (List Symbol)
  rulePrecedences : List (Int × Associativity)
  termPrecedences : List (Int × Associativity)
  termCount : Nat
  ntermCount : Nat
  rootRuleIdx : Nat
  maxRuleElementCount : Nat
  situationSize : Nat

namespace Grammar
variable (g : Grammar)

/-- A rule without a precedence has that of its last term. -/
def rulePrecedence (r : Rule) : Int × Associativity :=
  let last := (r.right.reverse.filterMap fun
    | .term t => g.terms[t]?
    | .nterm _ => none).head?
  (if r.precedence ≠ 0 then r.precedence else (last.map Prod.fst).getD 0,
    (last.map Prod.snd).getD .noAssoc)

def info : GrammarInfo where
  ruleInfos := g.ruleInfos
  rightSides := g.rightSides
  rulePrecedences := g.allRules.map g.rulePrecedence
  termPrecedences := g.terms ++ [(0, .noAssoc), (0, .noAssoc)]
  termCount := g.termCount
  ntermCount := g.ntermTotal
  rootRuleIdx := g.rootRuleIdx
  maxRuleElementCount := g.maxRuleElementCount
  situationSize := g.maxRuleElementCount + 1

/-- `max_states` times `situation_address_space_size`: a state has no situation twice. -/
def maxSituations : Nat :=
  (g.allRules.map fun r => r.right.length + 1).sum * g.termCount *
    (g.ruleCount * (g.maxRuleElementCount + 1) * g.termCount)

end Grammar

/-! ### First sets -/

/-- What `state_analyze_info` remembers of the first sets and the closures. Sets are bit sets. -/
structure FirstSets where
  ntermEmpty : Nat := 0
  ntermEmptyAnalyzed : Nat := 0
  ntermFirst : Nat → Nat := fun _ => 0
  ntermFirstAnalyzed : Nat := 0
  rightSideSliceFirst : Nat → Nat := fun _ => 0
  rightSideSliceFirstAnalyzed : Nat := 0
  closures : Nat → Option (List Nat) := fun _ => none

abbrev Analyzing := Proc FirstSets Empty

namespace FirstSets

def addNtermFirst (nt terms : Nat) (m : FirstSets) : FirstSets :=
  { m with ntermFirst := Function.update m.ntermFirst nt (m.ntermFirst nt ||| terms) }

def addSliceFirst (slot terms : Nat) (m : FirstSets) : FirstSets :=
  { m with rightSideSliceFirst := Function.update m.rightSideSliceFirst slot (m.rightSideSliceFirst slot ||| terms) }

end FirstSets

/-- `is_right_side_slice_empty`. -/
def isSliceEmpty (empty : Nat → Analyzing Bool) : List Symbol → Analyzing Bool
  | [] => return true
  | .term _ :: _ => return false
  | .nterm nt :: rest => do
    if ← empty nt then isSliceEmpty empty rest else return false

namespace GrammarInfo
variable (g : GrammarInfo)

def rightSide (ri : RuleInfo) : List Symbol := g.rightSides.getD ri.rIdx []

/-- The slice of the rules of a nonterminal. -/
def ntermRules (nt : Nat) : List RuleInfo := g.ruleInfos.filter fun ri => ri.lIdx = nt

/-- A nonterminal is marked when it is first asked for, so no more than all of them are under way. -/
def makeNtermEmpty : Nat → Nat → Analyzing Bool
  | 0, _ => stop .cutOff
  | n + 1, nt => do
    let m ← get
    if m.ntermEmptyAnalyzed.testBit nt then return m.ntermEmpty.testBit nt
    else do
      modify fun m => { m with ntermEmptyAnalyzed := m.ntermEmptyAnalyzed ||| 1 <<< nt }
      if ← (g.ntermRules nt).anyM fun ri => isSliceEmpty (makeNtermEmpty n) (g.rightSide ri) then do
        modify fun m => { m with ntermEmpty := m.ntermEmpty ||| 1 <<< nt }
        return true
      else return false

def isNtermEmpty (nt : Nat) : Analyzing Bool := g.makeNtermEmpty (g.ntermCount + 1) nt

def addSlice (first : Nat → Analyzing Nat) (slot : Nat) : List Symbol → Analyzing Unit
  | [] => return ()
  | .term t :: _ => modify (FirstSets.addSliceFirst slot (1 <<< t))
  | .nterm nt :: rest => do
    let terms ← first nt
    modify (FirstSets.addSliceFirst slot terms)
    if ← g.isNtermEmpty nt then addSlice first slot rest else return ()

/-- A rule has `max_rule_element_count` slots: what begins behind that many elements shares the first slot of the
next rule. -/
def makeRightSideSliceFirst (first : Nat → Analyzing Nat) (ri : RuleInfo) (start : Nat) : Analyzing Nat := do
  let slot := g.maxRuleElementCount * ri.rIdx + start
  let m ← get
  if m.rightSideSliceFirstAnalyzed.testBit slot then return m.rightSideSliceFirst slot
  else do
    modify fun m => { m with rightSideSliceFirstAnalyzed := m.rightSideSliceFirstAnalyzed ||| 1 <<< slot }
    g.addSlice first slot ((g.rightSide ri).drop start)
    let m ← get
    return m.rightSideSliceFirst slot

def addRules (sliceFirst : RuleInfo → Analyzing Nat) (nt : Nat) : List RuleInfo → Analyzing Unit
  | [] => return ()
  | ri :: rules => do
    let terms ← sliceFirst ri
    modify (FirstSets.addNtermFirst nt terms)
    addRules sliceFirst nt rules

def makeNtermFirst : Nat → Nat → Analyzing Nat
  | 0, _ => stop .cutOff
  | n + 1, nt => do
    let m ← get
    if m.ntermFirstAnalyzed.testBit nt then return m.ntermFirst nt
    else do
      modify fun m => { m with ntermFirstAnalyzed := m.ntermFirstAnalyzed ||| 1 <<< nt }
      addRules (fun ri => g.makeRightSideSliceFirst (makeNtermFirst n) ri 0) nt (g.ntermRules nt)
      let m ← get
      return m.ntermFirst nt

/-- A situation's closure is made once, so this is asked for once. -/
def makeSituationFirstAfter (ri : RuleInfo) (after t : Nat) : Analyzing Nat := do
  let first ← g.makeRightSideSliceFirst (g.makeNtermFirst (g.ntermCount + 1)) ri (after + 1)
  if ← isSliceEmpty g.isNtermEmpty ((g.rightSide ri).drop (after + 1)) then return first ||| 1 <<< t
  else return first

end GrammarInfo

/-! ### The states -/

/-- Each state is the bit set of its situations. The queue is `front` and then `back` from its end. -/
structure StateAnalysis where
  states : List Nat
  parseTable : ParseTable
  front : List (Nat × Nat) := []
  back : List (Nat × Nat) := []
  firstSets : FirstSets := {}

namespace GrammarInfo
variable (g : GrammarInfo)

def makeSituationIdx (ruleInfoIdx after t : Nat) : Nat :=
  ruleInfoIdx * g.situationSize * g.termCount + after * g.termCount + t

/-- `make_situation_info`, with the rule and what follows the mark. -/
def situation (idx : Nat) : Option (Nat × RuleInfo × Nat × List Symbol × Nat) :=
  let after := idx / g.termCount % g.situationSize
  let ruleInfoIdx := idx / g.termCount / g.situationSize
  (g.ruleInfos[ruleInfoIdx]?).map fun ri =>
    (ruleInfoIdx, ri, after, (g.rightSides.getD ri.rIdx []).drop after, idx % g.termCount)

def tableIdx : Symbol → Nat
  | .nterm idx => idx
  | .term idx => g.ntermCount + idx

def solveConflict (ruleInfoIdx term : Nat) : EntryKind :=
  let rIdx := (g.ruleInfos[ruleInfoIdx]?).elim 0 RuleInfo.rIdx
  let (rp, ra) := g.rulePrecedences.getD rIdx (0, .noAssoc)
  let (tp, _) := g.termPrecedences.getD term (0, .noAssoc)
  if rp > tp then .reduce
  else if rp = tp ∧ ra = .ltor then .reduce
  else .shift

/-- The rules of a nonterminal with nothing read, in front of each of the terms. -/
def ntermSituations (nt terms : Nat) : List Nat :=
  (g.ruleInfos.zipIdx.filter fun p => p.1.lIdx = nt).flatMap fun p =>
    ((List.range g.termCount).filter fun t => terms.testBit t).map (g.makeSituationIdx p.2 0)

def newClosure (idx : Nat) : Analyzing (List Nat) :=
  match g.situation idx with
  | some (_, ri, after, .nterm nt :: _, t) => do
    let first ← g.makeSituationFirstAfter ri after t
    return g.ntermSituations nt first
  | _ => return []

/-- What `situation_closure` adds to the state: the situations a situation brings with it. -/
def situationClosure (idx : Nat) : Analyzing (List Nat) := do
  let m ← get
  match m.closures idx with
  | some closure => return closure
  | none => do
    let closure ← g.newClosure idx
    modify fun m => { m with closures := Function.update m.closures idx (some closure) }
    return closure

end GrammarInfo

namespace StateAnalysis

def addSituationToState (sai : StateAnalysis) (stateIdx idx : Nat) : StateAnalysis :=
  let state := sai.states.getD stateIdx 0
  if state.testBit idx then sai
  else { sai with
    states := sai.states.set stateIdx (state ||| 1 <<< idx)
    back := (stateIdx, idx) :: sai.back }

def entry (sai : StateAnalysis) (stateIdx symbolIdx : Nat) : TableEntry :=
  (sai.parseTable.getD stateIdx []).getD symbolIdx {}

def setEntry (sai : StateAnalysis) (stateIdx symbolIdx : Nat) (e : TableEntry) : StateAnalysis :=
  { sai with parseTable := sai.parseTable.modify stateIdx fun row => row.set symbolIdx e }

/-- The first state with the situation, or a new one. -/
def findState (g : GrammarInfo) (sai : StateAnalysis) (idx : Nat) : Nat × StateAnalysis :=
  match sai.states.findIdx? (·.testBit idx) with
  | some stateIdx => (stateIdx, sai)
  | none => (sai.states.length, { sai with
      states := sai.states ++ [0]
      parseTable := sai.parseTable ++ [List.replicate (g.ntermCount + g.termCount) {}] })

def situationTransition (g : GrammarInfo) (sai : StateAnalysis) (stateIdx idx : Nat) : StateAnalysis :=
  match g.situation idx with
  | none => sai
  | some (ruleInfoIdx, ri, _, [], t) =>
    let symbolIdx := g.tableIdx (.term t)
    let e := sai.entry stateIdx symbolIdx
    let kind :=
      if ri.rIdx = g.rootRuleIdx then .success
      else if e.shift.isSome then g.solveConflict ruleInfoIdx t
      else if e.reduce.isSome then .rrConflict
      else .reduce
    sai.setEntry stateIdx symbolIdx { e with kind := kind, reduce := some ruleInfoIdx }
  | some (ruleInfoIdx, _, after, s :: _, t) =>
    let symbolIdx := g.tableIdx s
    let e := sai.entry stateIdx symbolIdx
    let newIdx := g.makeSituationIdx ruleInfoIdx (after + 1) t
    match e.shift with
    | some target => sai.addSituationToState target newIdx
    | none =>
      let (newStateIdx, sai) := sai.findState g newIdx
      let sIdx := match s with
        | .nterm i | .term i => i
      let kind := match e.reduce with
        | some r => g.solveConflict r sIdx
        | none => .shift
      -- the source compares the index alone, whether term or not
      let kind := if kind = .shift ∧ sIdx = g.termCount - 1 then .shiftErrorRecoveryToken else kind
      (sai.setEntry stateIdx symbolIdx { e with kind := kind, shift := some newStateIdx }).addSituationToState
        newStateIdx newIdx

def analyzeLoop (g : GrammarInfo) : Nat → StateAnalysis → Option StateAnalysis
  | 0, _ => none
  | n + 1, sai =>
    match sai.front with
    | (stateIdx, idx) :: front =>
      match g.situationClosure idx sai.firstSets with
      | (.ok closure, firstSets) =>
        let sai := closure.foldl (fun sai i => sai.addSituationToState stateIdx i)
          { sai with front := front, firstSets := firstSets }
        analyzeLoop g n (sai.situationTransition g stateIdx idx)
      | _ => none
    | [] =>
      if sai.back.isEmpty then some sai
      else analyzeLoop g n { sai with front := sai.back.reverse, back := [] }

end StateAnalysis

/-- `eof_idx` is the last but one of the terms. -/
def analyzeStates (g : GrammarInfo) (maxSituations : Nat) : Option StateAnalysis :=
  StateAnalysis.analyzeLoop g (2 * maxSituations + 1) (StateAnalysis.addSituationToState
    { states := [0], parseTable := [List.replicate (g.ntermCount + g.termCount) {}] } 0
    (g.makeSituationIdx g.rootRuleIdx 0 (g.termCount - 2)))

def Grammar.parseTable (g : Grammar) : ParseTable :=
  (analyzeStates g.info g.maxSituations).elim [] StateAnalysis.parseTable

end Ctpg
end UdfRunner
