import Mathlib.Computability.RegularExpressions
import UdfRunner.Ctpg.ParseTable
import UdfRunner.Messages

/-!
# `ctpg.hpp`: the lexer and the parser

A parser over the bytes of a buffer, without the skipping of whitespace and without a context. The lexer's
states are the derivatives of its terms. A program's values are of a type `V`.
-/

namespace UdfRunner
namespace Ctpg
open RegularExpression

abbrev Pattern := RegularExpression UInt8

/-! ### Patterns -/

namespace Pattern

def charSubset (l : List UInt8) : Pattern := l.foldr (fun c p => char c + p) 0
def literal (s : ByteString) : Pattern := s.foldr (fun c p => char c * p) 1
def alternatives (l : List ByteString) : Pattern := l.foldr (fun s p => literal s + p) 0
def atLeastOnce (p : Pattern) : Pattern := p * p.star

end Pattern

/-- `dfa_match` from a state after `n` bytes: the last term recognized, the first one of several, and where
it ended. A missing transition is a state that recognizes nothing any more. -/
def dfaMatch (state : List Pattern) (n : Nat) (rt : Option (Nat × Nat)) : ByteString → Option (Nat × Nat)
  | [] => recognized state n rt
  | c :: input => dfaMatch (state.map (deriv · c)) (n + 1) (recognized state n rt) input
where
  recognized (state : List Pattern) (n : Nat) (rt : Option (Nat × Nat)) : Option (Nat × Nat) :=
    match state.findIdx? matchEpsilon with
    | some t => some (t, n)
    | none => rt

structure SourcePoint where
  line : UInt32 := 1
  column : UInt32 := 1
deriving DecidableEq, Repr

namespace SourcePoint

def newline : UInt8 := 10

def update (sp : SourcePoint) (text : ByteString) : SourcePoint :=
  text.foldl (fun sp c => if c = newline then ⟨sp.line + 1, 1⟩ else ⟨sp.line, sp.column + 1⟩) sp

/-- `operator<<`. -/
def toBytes (sp : SourcePoint) : ByteString :=
  str "[" ++ str (toString sp.line.toNat) ++ str ":" ++ str (toString sp.column.toNat) ++ str "]"

end SourcePoint

/-- A functor throws where it gives `none`. -/
structure Parser (V : Type) where
  grammar : Grammar
  patterns : List Pattern
  termNames : List ByteString
  termValue : Nat → ByteString → SourcePoint → V
  reductor : Nat → List V → Option V

/-- The stacks have their last element first. -/
structure ParseState (V : Type) where
  cursorStack : List Nat := [0]
  valueStack : List V := []
  currentSp : SourcePoint := {}
  current : ByteString
  recoveryMode : Bool := false
  consumeMode : Bool := false
  errorStream : ByteString := []

/-- How `context_parse` ends: with a value or without one, with an exception out of a functor, or with the call
of a functor that is not there. -/
inductive ParseResult (V : Type)
  | value (v : V)
  | noValue (errorStream : ByteString)
  | thrown
  | undefined
deriving DecidableEq

namespace Parser
variable {V : Type} (p : Parser V) (lexer : ByteString → Option (Nat × Nat))

/-- The current term, and where it ends, whatever the lexer is. -/
def getTermWith (ps : ParseState V) : Option (Nat × Nat) :=
  if ps.recoveryMode then some (p.grammar.errorRecoveryTokenIdx, 0)
  else if ps.current = [] then some (p.grammar.eofIdx, 0)
  else lexer ps.current

def entry (cursor term : Nat) : TableEntry :=
  (p.grammar.parseTable.getD cursor []).getD (p.grammar.ntermTotal + term) {}

def goto (cursor nterm : Nat) : Option Nat := ((p.grammar.parseTable.getD cursor []).getD nterm {}).shift

def unexpectedChar (ps : ParseState V) : ByteString :=
  ps.errorStream ++ ps.currentSp.toBytes ++ str " PARSE: Unexpected character: " ++ ps.current.take 1 ++
    str "\n"

def syntaxError (ps : ParseState V) (term : Nat) : ByteString :=
  ps.errorStream ++ ps.currentSp.toBytes ++ str " PARSE: Syntax error: Unexpected '" ++
    p.termNames.getD term [] ++ str "'\n"

def consumeTerm (ps : ParseState V) (termEnd : Nat) : ParseState V :=
  { ps with
    currentSp := ps.currentSp.update (ps.current.take termEnd)
    current := ps.current.drop termEnd }

def shift (ps : ParseState V) (term termEnd newCursor : Nat) : ParseState V :=
  consumeTerm { ps with
    cursorStack := newCursor :: ps.cursorStack
    valueStack := p.termValue term (ps.current.take termEnd) ps.currentSp :: ps.valueStack } termEnd

/-- The table has a state for what a reduction leaves, and the functor a value. -/
def reduce (ps : ParseState V) (ruleInfoIdx : Nat) : Option (ParseState V) := do
  let ri ← p.grammar.info.ruleInfos[ruleInfoIdx]?
  let cursorStack := ps.cursorStack.drop ri.rElements
  let newCursor ← p.goto (← cursorStack.head?) ri.lIdx
  let value ← p.reductor ri.rIdx (ps.valueStack.take ri.rElements).reverse
  return { ps with
    cursorStack := newCursor :: cursorStack
    valueStack := value :: ps.valueStack.drop ri.rElements }

/-- A round of the `while (true)`. -/
def stepWith (ps : ParseState V) : ParseState V ⊕ ParseResult V :=
  match p.getTermWith lexer ps with
  | none => .inr (.noValue (unexpectedChar ps))
  | some (term, termEnd) =>
    let e := p.entry (ps.cursorStack.headD 0) term
    if e.kind = .error then
      if ps.consumeMode then
        -- `consume_term_recovering`
        if term = p.grammar.eofIdx then .inr (.noValue ps.errorStream) else .inl (consumeTerm ps termEnd)
      else
        let ps := if ps.recoveryMode then ps
          else { ps with errorStream := p.syntaxError ps term, recoveryMode := true }
        -- `pop_stacks`
        match ps.cursorStack.tail with
        | [] => .inr (.noValue ps.errorStream)
        | cursorStack => .inl { ps with cursorStack := cursorStack, valueStack := ps.valueStack.tail }
    else
      let ps := { ps with consumeMode := false }
      match e.kind with
      | .shift =>
        -- a resolved conflict leaves this kind for the error recovery token too, which has no functor
        if term = p.grammar.errorRecoveryTokenIdx then .inr .undefined
        else .inl (p.shift ps term termEnd (e.shift.getD 0))
      | .shiftErrorRecoveryToken => .inl { ps with
          cursorStack := e.shift.getD 0 :: ps.cursorStack
          valueStack := p.termValue term [] ps.currentSp :: ps.valueStack
          recoveryMode := false
          consumeMode := true }
      | .success => .inr (ps.valueStack.getLast?.elim .thrown .value)
      | _ => (p.reduce ps (e.reduce.getD 0)).elim (.inr .thrown) .inl

/-- The loop, cut off after `n` rounds. -/
def runWith : Nat → ParseState V → Option (ParseResult V)
  | 0, _ => none
  | n + 1, ps =>
    match p.stepWith lexer ps with
    | .inl ps => runWith n ps
    | .inr r => some r

def parseWith (fuel : Nat) (buffer : ByteString) : Option (ParseResult V) :=
  p.runWith lexer fuel { current := buffer }

/-! With the lexer of its own patterns. -/

def getCurrentTerm : ParseState V → Option (Nat × Nat) := p.getTermWith (dfaMatch p.patterns 0 none)

def step : ParseState V → ParseState V ⊕ ParseResult V := p.stepWith (dfaMatch p.patterns 0 none)

def run : Nat → ParseState V → Option (ParseResult V) := p.runWith (dfaMatch p.patterns 0 none)

def parse : Nat → ByteString → Option (ParseResult V) := p.parseWith (dfaMatch p.patterns 0 none)

theorem run_succ (n : Nat) (ps : ParseState V) : p.run (n + 1) ps =
    match p.step ps with
    | .inl ps => p.run n ps
    | .inr r => some r := rfl

end Parser

end Ctpg
end UdfRunner
