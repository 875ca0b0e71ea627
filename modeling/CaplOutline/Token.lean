-- The tokens of a source text: words, literals, brackets and operators, each
-- with its place in the text and with the number of braces that are open there.
import CaplOutline.Position

namespace CaplOutline

/-! ## Keywords -/

/-- The words that have a meaning for the outline. -/
inductive Keyword where
  /-- Opens the header of an event handler. -/
  | on
  /-- Opens a block of variables. -/
  | variableBlock
  | includeBlock
  | struct
  | enum
  /-- Opens a declaration that is always a function: a test case, a test function, an export. -/
  | functionMarker
  /-- A built-in data type or a qualifier of one. -/
  | type
  deriving DecidableEq, Repr, Inhabited

namespace Keyword

def typeWords : List String :=
  ["void", "int", "long", "dword", "word", "byte", "char", "float", "double", "int64", "qword",
    "const", "static", "message", "multiplexed_message", "msTimer", "timer", "signal",
    "diagRequest", "diagResponse", "sysvar", "envVar", "frFrame", "frPDU", "linFrame",
    "ethernetPacket", "mostMessage", "gmLanMessage", "pg", "a429word", "j1587Message"]

/-- The keyword that a word is. Upper and lower case differ. -/
def ofWord? (word : String) : Option Keyword :=
  match word with
  | "on" => some on
  | "variables" => some variableBlock
  | "includes" => some includeBlock
  | "struct" => some struct
  | "enum" => some enum
  | "testcase" | "testfunction" | "export" => some functionMarker
  | _ => if typeWords.contains word then some type else none

end Keyword

/-! ## Kinds of tokens -/

inductive TokenKind where
  | keyword (word : Keyword)
  | identifier
  | number
  | string
  | char
  /-- A word behind a number sign. -/
  | directive
  | openBrace
  | closeBrace
  | openParen
  | closeParen
  | openBracket
  | closeBracket
  | semicolon
  | comma
  /-- One equals sign; two of them are `punct`. -/
  | assign
  | punct
  | unknown
  deriving DecidableEq, Repr, Inhabited

namespace TokenKind

/-- These keywords open an event handler or a block, and never stand inside a declaration. -/
def opensBlock : TokenKind → Bool
  | keyword .on | keyword .variableBlock | keyword .includeBlock => true
  | _ => false

/-- These keywords are the first word of a declaration. -/
def opensDeclaration : TokenKind → Bool
  | keyword .type | keyword .functionMarker | keyword .struct | keyword .enum => true
  | _ => false

/-- Identifiers and keywords are words. -/
def isWord : TokenKind → Bool
  | identifier | keyword _ => true
  | _ => false

theorem isWord_of_opensBlock {kind : TokenKind} (h : kind.opensBlock = true) :
    kind.isWord = true := by
  cases kind <;> simp_all [opensBlock, isWord]

theorem isWord_of_opensDeclaration {kind : TokenKind} (h : kind.opensDeclaration = true) :
    kind.isWord = true := by
  cases kind <;> simp_all [opensDeclaration, isWord]

end TokenKind

/-! ## Tokens -/

/-- The bytes of a text from `start` up to, and not with, `stop`. -/
structure Span where
  start : Nat
  stop : Nat
  deriving DecidableEq, Repr, Inhabited

structure Token where
  kind : TokenKind
  text : String
  span : Span
  range : Range
  /-- The number of open braces outside the token. A brace is not inside itself, so an opening
  brace and the closing brace that belongs to it have one depth. -/
  depth : Nat
  deriving DecidableEq, Repr, Inhabited

namespace Token

def isWord (token : Token) : Bool := token.kind.isWord

/-- The line on which a token starts. -/
def line (token : Token) : Nat := token.range.start.line

end Token

end CaplOutline
