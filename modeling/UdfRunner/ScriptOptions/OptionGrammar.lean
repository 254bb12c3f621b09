import UdfRunner.Ctpg.Parser

/-!
# `script_option_lines_ctpg.cc`: the grammar of a line

The terms, nonterminals and rules of `option_parser` with their functors, in the order of the source, and
the parse table that comes of them.
-/

namespace UdfRunner
open Ctpg

/-- `struct Option`. -/
structure LineOption where
  key : ByteString
  value : ByteString
  start : SourcePoint
  finish : SourcePoint
deriving DecidableEq, Repr

/-- The values of terms and nonterminals. -/
inductive OptionNode
  | term (text : ByteString) (sp : SourcePoint)
  | string (s : ByteString)
  | option (o : LineOption)
  | options (l : List LineOption)
  | rest
deriving DecidableEq

/-- A property of the bytes of a string is decided byte by byte of the string, not of the type. -/
instance (priority := 2000) {l : ByteString} {P : UInt8 → Prop} [DecidablePred P] : Decidable (∀ c ∈ l, P c) :=
  List.decidableBAll P l

namespace OptionParser

def backslash : UInt8 := 92
def percent : UInt8 := 37
def semicolon : UInt8 := 59

def convertEscapeSeq (escapeSeq : ByteString) : Option ByteString :=
  if escapeSeq = str "\\;" then some (str ";")
  else if escapeSeq = str "\\n" then some (str "\n")
  else if escapeSeq = str "\\r" then some (str "\r")
  else if escapeSeq = str "\\\\" then some (str "\\")
  else none

def convertWhitespaceEscapeSeq (escapeSeq : ByteString) : Option ByteString :=
  if escapeSeq = str "\\ " then some (str " ")
  else if escapeSeq = str "\\t" then some (str "\t")
  else if escapeSeq = str "\\f" then some [0x0c]
  else if escapeSeq = str "\\v" then some [0x0b]
  else none

/-! ### Terms -/

def alphaNumericChars : List UInt8 :=
  str "0123456789abcdefghijklmnopqrstuvwxyzABCDEFGHIJKLMNOPQRSTUVWXYZ_"

def whitespaceChars : List UInt8 := [32, 0x09, 0x0c, 0x0b]

def notSemicolonChars : List UInt8 := ((List.range 256).map UInt8.ofNat).filter (· ≠ semicolon)

def escapeSeqs : List ByteString := [str "\\;", str "\\n", str "\\r", str "\\\\"]
def whitespaceEscapeSeqs : List ByteString := [str "\\ ", str "\\t", str "\\f", str "\\v"]

def patterns : List Pattern :=
  [.literal [percent], .alternatives escapeSeqs, .alternatives whitespaceEscapeSeqs,
    .atLeastOnce (.charSubset whitespaceChars), .literal [semicolon],
    .atLeastOnce (.charSubset alphaNumericChars), .charSubset notSemicolonChars]

def termNames : List ByteString :=
  [str "%", str "escape_seq", str "escape_seq", str "whitespace", str ";", str "alpha_numeric",
    str "not_semicolon", str "<eof>", str "<error_recovery_token>"]

abbrev startOptionToken : Symbol := .term 0
abbrev escapeSeq : Symbol := .term 1
abbrev whitespaceEscapeSeq : Symbol := .term 2
abbrev whitespaces : Symbol := .term 3
abbrev endOptionToken : Symbol := .term 4
abbrev alphaNumeric : Symbol := .term 5
abbrev notSemicolon : Symbol := .term 6

abbrev optionValue : Symbol := .nterm 1
abbrev options : Symbol := .nterm 2
abbrev optionElement : Symbol := .nterm 3
abbrev rest : Symbol := .nterm 4

/-! ### Rules -/

abbrev Functor := List OptionNode → Option OptionNode

def text (right : List Symbol) (f : Functor) : Rule × Functor := (⟨0, right, 0⟩, f)
def toOptionValue (right : List Symbol) (f : Functor) : Rule × Functor := (⟨1, right, 0⟩, f)
def toOptions (right : List Symbol) (f : Functor) : Rule × Functor := (⟨2, right, 0⟩, f)
def toOptionElement (right : List Symbol) (f : Functor) : Rule × Functor := (⟨3, right, 0⟩, f)

/-- What is no option is forgotten. -/
def toRest (right : List Symbol) : Rule × Functor := (⟨4, right, 0⟩, fun _ => some .rest)

def beginValue (f : ByteString → Option ByteString) : Functor
  | [.term s _] => (f s).map .string
  | _ => none

def appendValue (f : ByteString → Option ByteString) : Functor
  | [.string ov, .term v _] => (f v).map fun v => .string (ov ++ v)
  | _ => none

def rules : List (Rule × Functor) := [
  text [rest] fun _ => some (.options []),
  text [options, rest] fun
    | [.options o, _] => some (.options o)
    | _ => none,
  text [options] fun
    | [.options o] => some (.options o)
    | _ => none,
  toOptions [optionElement] fun
    | [.option e] => some (.options [e])
    | _ => none,
  toOptions [options, optionElement] fun
    | [.options ob, .option e] => some (.options (ob ++ [e]))
    | _ => none,
  toOptionElement [startOptionToken, alphaNumeric, whitespaces, optionValue, endOptionToken] fun
    | [.term _ st, .term ok _, _, .string ov, .term _ e] => some (.option ⟨ok, ov, st, e⟩)
    | _ => none,
  toOptionElement [whitespaces, startOptionToken, alphaNumeric, whitespaces, optionValue, endOptionToken] fun
    | [_, .term _ st, .term ok _, _, .string ov, .term _ e] => some (.option ⟨ok, ov, st, e⟩)
    | _ => none,
  toOptionValue [alphaNumeric] (beginValue some),
  toOptionValue [notSemicolon] (beginValue some),
  toOptionValue [whitespaceEscapeSeq] (beginValue convertWhitespaceEscapeSeq),
  toOptionValue [escapeSeq] (beginValue convertEscapeSeq),
  toOptionValue [optionValue, notSemicolon] (appendValue some),
  toOptionValue [optionValue, whitespaceEscapeSeq] (appendValue some),
  toOptionValue [optionValue, escapeSeq] (appendValue convertEscapeSeq),
  toOptionValue [optionValue, startOptionToken] (appendValue fun _ => some (str "%")),
  toOptionValue [optionValue, alphaNumeric] (appendValue some),
  toOptionValue [optionValue, whitespaces] (appendValue some),
  toRest [alphaNumeric],
  toRest [whitespaces],
  toRest [escapeSeq],
  toRest [whitespaceEscapeSeq],
  toRest [endOptionToken],
  toRest [notSemicolon],
  toRest [rest, alphaNumeric],
  toRest [rest, notSemicolon],
  toRest [rest, whitespaces],
  toRest [rest, endOptionToken],
  toRest [rest, startOptionToken],
  toRest [rest, escapeSeq],
  toRest [rest, whitespaceEscapeSeq]]

def grammar : Grammar where
  terms := List.replicate 7 (0, .noAssoc)
  ntermCount := 5
  rules := rules.map Prod.fst
  root := 0

def optionParser : Parser OptionNode where
  grammar := grammar
  patterns := patterns
  termNames := termNames
  termValue := fun _ => .term
  reductor := fun i args => (rules[i]?).bind fun r => r.2 args

/-- `parse`, which throws the text of the error stream. A line takes four rounds a byte at most. -/
def parse (line : ByteString) : Option (Except ByteString (List LineOption)) :=
  match optionParser.parse (4 * line.length + 16) line with
  | some (.value (.options o)) => some (.ok o)
  | some (.noValue errorStream) => some (.error errorStream)
  | _ => none

/-! ### The parse table -/

def error : TableEntry := {}
def shiftTo (n : Nat) : TableEntry := { kind := .shift, shift := some n }
def reduceBy (n : Nat) : TableEntry := { kind := .reduce, reduce := some n }

end OptionParser

end UdfRunner
