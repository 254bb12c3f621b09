import UdfRunner.Ctpg.Dfa

/-!
# `ctpg.hpp`: regular expressions

The patterns of the terms are taken apart by a parser of the same kind, with a lexer of its own. `createLexer`
makes the automaton of a parser from its patterns.
-/

namespace UdfRunner
namespace Ctpg

/-! ### The characters of a pattern -/

def isPrintable (c : UInt8) : Bool := 0x20 ≤ c ∧ c ≤ 0x7e
def isDecDigit (c : UInt8) : Bool := 48 ≤ c ∧ c ≤ 57
def isHexDigit (c : UInt8) : Bool := isDecDigit c ∨ (97 ≤ c ∧ c ≤ 102) ∨ (65 ≤ c ∧ c ≤ 70)

def hexDigit (d : UInt8) : UInt8 :=
  if 65 ≤ d ∧ d ≤ 70 then 10 + d - 65
  else if 97 ≤ d ∧ d ≤ 102 then 10 + d - 97
  else d - 48

def hexDigitsToChar (d1 d2 : UInt8) : UInt8 := hexDigit d1 * 16 + hexDigit d2

namespace RegexLexer

/-- The length of an escaped character at the front, zero if there is none. -/
def matchEscaped : ByteString → Option Nat
  | 92 :: s =>
    match s with
    | [] => none
    | 120 :: s =>
      match s with
      | [] => some 2
      | c :: s =>
        if ¬isHexDigit c then some 2
        else match s with
          | [] => some 3
          | c :: _ => if ¬isHexDigit c then some 3 else some 4
    | c :: _ => if isPrintable c then some 2 else none
  | _ => some 0

/-- An escaped character or a printable one. Past the end of the pattern there is a NUL. -/
def matchChar (s : ByteString) : Option Nat := do
  let len ← matchEscaped s
  if len = 0 then if isPrintable (s.headD 0) then some 1 else none
  else some len

def matchRangeItem (s : ByteString) : Option Nat := do
  let len ← matchChar s
  match s.drop len with
  | 45 :: s =>
    if s = [] ∨ s.headD 0 = 93 then none
    else return len + 1 + (← matchChar s)
  | _ => some len

/-- The items up to the closing bracket, of which there are no more than characters. -/
def matchRangeItems : Nat → ByteString → Nat → Option Nat
  | 0, _, _ => none
  | fuel + 1, s, len =>
    match s with
    | [] => none
    | 93 :: _ => some (len + 1)
    | s => do
      let itemLen ← matchRangeItem s
      matchRangeItems fuel (s.drop itemLen) (len + itemLen)

def matchRange : ByteString → Option Nat
  | 91 :: s =>
    match s with
    | [] => none
    | 94 :: s => if s = [] then none else matchRangeItems (s.length + 1) s 2
    | s => matchRangeItems (s.length + 1) s 1
  | _ => some 0

def matchPrimary (s : ByteString) : Option Nat := do
  let len ← matchEscaped s
  if len ≠ 0 then return len
  let len ← matchRange s
  if len ≠ 0 then return len
  if isPrintable (s.headD 0) then some 1 else none

/-- `regex_lexer::match`: the specials are the terms from 2 on. -/
def match_ (s : ByteString) : Option (Nat × Nat) :=
  match s with
  | [] => none
  | c :: _ =>
    match (str "*+?|()\x7b\x7d").findIdx? (· = c) with
    | some i => some (i + 2, 1)
    | none => if isDecDigit c then some (0, 1) else (matchPrimary s).map (1, ·)

end RegexLexer

/-- The character at the front, and its length. -/
def regexChar (sv : ByteString) : UInt8 × Nat :=
  if sv.headD 0 = 92 then
    if sv.getD 1 0 = 120 then
      if sv.length = 2 ∨ ¬isHexDigit (sv.getD 2 0) then (0, 2)
      else if sv.length = 3 ∨ ¬isHexDigit (sv.getD 3 0) then (hexDigitsToChar 48 (sv.getD 2 0), 3)
      else (hexDigitsToChar (sv.getD 2 0) (sv.getD 3 0), 4)
    else (sv.getD 1 0, 2)
  else (sv.headD 0, 1)

/-- The loop over the items. The end of a range is not skipped: it is taken for an item again. -/
def subsetItems : Nat → ByteString → CharSubset → CharSubset
  | 0, _, cs => cs
  | fuel + 1, sv, cs =>
    if sv.headD 0 = 93 then cs
    else
      let (c1, len) := regexChar sv
      let sv := sv.drop len
      if sv.headD 0 = 45 then
        let sv := sv.drop 1
        subsetItems fuel sv (cs.addRange c1 (regexChar sv).1)
      else subsetItems fuel sv (cs.set c1.toNat)

def stringViewToSubset (sv : ByteString) : CharSubset :=
  if sv.headD 0 = 46 then CharSubset.flip 0
  else if sv.headD 0 = 91 then
    if sv.getD 1 0 = 94 then (subsetItems sv.length (sv.drop 2) 0).flip else subsetItems sv.length (sv.drop 1) 0
  else CharSubset.set 0 (regexChar sv).1.toNat

/-! ### The parser of patterns -/

inductive RegexNode
  | digit (n : UInt32)
  | subset (s : CharSubset)
  | special
  | number (n : UInt32)
  | regex (e : Regex)
deriving DecidableEq, Repr

namespace RegexParser

abbrev digit09 : Symbol := .term 0
abbrev primaryTerm : Symbol := .term 1
abbrev special (i : Nat) : Symbol := .term (i + 2)

abbrev expr : Symbol := .nterm 0
abbrev alt : Symbol := .nterm 1
abbrev concat : Symbol := .nterm 2
abbrev qExpr : Symbol := .nterm 3
abbrev primary : Symbol := .nterm 4
abbrev number : Symbol := .nterm 5

abbrev RegexFunctor := List RegexNode → Option RegexNode

/-- What is passed on. -/
def passes : RegexFunctor
  | [.regex e] => some (.regex e)
  | _ => none

/-- A quantifier. -/
def quantified (f : Regex → Regex) : RegexFunctor
  | [.regex e, _] => some (.regex (f e))
  | _ => none

def rules : List (Rule × RegexFunctor) := [
  (⟨5, [digit09], 0⟩, fun
    | [.digit n] => some (.number n)
    | _ => none),
  (⟨5, [number, digit09], 0⟩, fun
    | [.number n, .digit x] => some (.number (n * 10 + x))
    | _ => none),
  (⟨4, [digit09], 0⟩, fun
    | [.digit n] => some (.regex (.primary (CharSubset.set 0 (n.toNat + 48))))
    | _ => none),
  (⟨4, [primaryTerm], 0⟩, fun
    | [.subset s] => some (.regex (.primary s))
    | _ => none),
  (⟨4, [special 4, expr, special 5], 0⟩, fun
    | [_, .regex e, _] => some (.regex e)
    | _ => none),
  (⟨3, [primary], 0⟩, passes),
  (⟨3, [primary, special 0], 0⟩, quantified .star),
  (⟨3, [primary, special 1], 0⟩, quantified .plus),
  (⟨3, [primary, special 2], 0⟩, quantified .opt),
  (⟨3, [primary, special 6, number, special 7], 0⟩, fun
    | [.regex e, _, .number n, _] => some (.regex (.rep e n.toNat))
    | _ => none),
  (⟨2, [qExpr], 0⟩, passes),
  (⟨2, [concat, qExpr], 0⟩, fun
    | [.regex e1, .regex e2] => some (.regex (.cat e1 e2))
    | _ => none),
  (⟨1, [concat], 0⟩, passes),
  (⟨1, [alt, special 3, alt], 0⟩, fun
    | [.regex e1, _, .regex e2] => some (.regex (.alt e1 e2))
    | _ => none),
  (⟨0, [alt], 0⟩, passes)]

def grammar : Grammar where
  terms := List.replicate 10 (0, .noAssoc)
  ntermCount := 6
  rules := rules.map Prod.fst
  root := 0

def termNames : List ByteString :=
  [str "regex_digit_09", str "regex_primary"] ++ (str "*+?|()\x7b\x7d").map (fun c => [c]) ++
    [str "<eof>", str "<error_recovery_token>"]

def termValue (idx : Nat) (sv : ByteString) (_ : SourcePoint) : RegexNode :=
  match idx with
  | 0 => .digit ((sv.headD 0).toNat - 48).toUInt32
  | 1 => .subset (stringViewToSubset sv)
  | _ => .special

end RegexParser

/-- The parser of `create_regex_parser`. Its lexer is not made of patterns. -/
def regexParser : Parser RegexNode where
  grammar := RegexParser.grammar
  patterns := []
  termNames := RegexParser.termNames
  termValue := RegexParser.termValue
  reductor := fun i args => (RegexParser.rules[i]?).bind fun r => r.2 args

/-- The expression a pattern stands for. A character of it takes six rounds at most. -/
def parseRegex (pattern : ByteString) : Option Regex :=
  match regexParser.parseWith RegexLexer.match_ (6 * pattern.length + 16) pattern with
  | some (.value (.regex e)) => some e
  | _ => none

/-! ### The lexer of a parser -/

/-- What a term is made from. -/
inductive TermData
  | char (c : UInt8)
  | string (s : ByteString)
  | regex (pattern : ByteString)

/-- `add_term_data_to_dfa`. -/
def TermData.addToDfa (idx : Nat) (sm : Dfa) : TermData → Option Dfa
  | char c =>
    let (s, sm') := sm.primarySubset (CharSubset.set 0 c.toNat)
    sm'.addTerm sm.length idx s
  | string str => do
    let primary := fun c : UInt8 => Regex.primary (CharSubset.set 0 c.toNat)
    let (whole, sm') ← ((str.drop 1).foldl (fun e c => .cat e (primary c)) (primary (str.headD 0))).build sm
    sm'.addTerm sm.length idx whole
  | regex pattern => do
    let (s, sm) ← (← parseRegex pattern).build sm
    sm.addTerm sm.length idx s

def createLexer (terms : List TermData) : Option Dfa :=
  terms.zipIdx.foldlM (fun sm (t, idx) => t.addToDfa idx sm) []

end Ctpg
end UdfRunner
