-- The shapes of tokens, and of the gaps between them. Each shape says how many
-- characters it takes from the front of a text, and takes as many as it can.
import CaplOutline.Token
import CaplOutline.Text.Blank

namespace CaplOutline

open Text

/-! ## Runs of characters -/

/-- The number of characters that an automaton takes from the front of a text, added to `taken`.
`next` gets the state, the character and the one behind it, and refuses with `none`. -/
def runLength {σ : Type} (next : σ → Char → Option Char → Option σ) (taken : Nat) (state : σ) :
    List Char → Nat
  | [] => taken
  | c :: cs =>
    match next state c cs.head? with
    | none => taken
    | some state => runLength next (taken + 1) state cs

theorem runLength_eq_add {σ : Type} (next : σ → Char → Option Char → Option σ) (taken : Nat)
    (state : σ) (cs : List Char) :
    runLength next taken state cs = taken + runLength next 0 state cs := by
  induction cs generalizing taken state with
  | nil => rfl
  | cons c cs ih =>
    simp only [runLength]
    split
    · rfl
    · rw [ih, ih (0 + 1)]; omega

theorem runLength_le_length {σ : Type} (next : σ → Char → Option Char → Option σ) (state : σ)
    (cs : List Char) : runLength next 0 state cs ≤ cs.length := by
  induction cs generalizing state with
  | nil => exact Nat.le_refl 0
  | cons c cs ih =>
    simp only [runLength, List.length_cons]
    split
    · exact Nat.zero_le _
    · rename_i state' _
      rw [runLength_eq_add]
      have := ih state'
      omega

/-! ## Gaps -/

/-- Where a run of blanks and comments stands. -/
inductive Gap where
  | blanks
  /-- Inside a line comment. -/
  | lineComment
  /-- Behind the slash that opens a block comment. -/
  | opening
  /-- Inside a block comment. -/
  | blockComment
  /-- Behind the star that closes a block comment. -/
  | closing
  deriving DecidableEq, Repr

namespace Gap

/-- A line comment ends with its line. A block comment ends with the first star and slash behind
its own two opening characters. -/
def next (gap : Gap) (c : Char) (following : Option Char) : Option Gap :=
  match gap with
  | blanks =>
    if isBlank c then some blanks
    else if c == '/' && following == some '/' then some lineComment
    else if c == '/' && following == some '*' then some opening
    else none
  | lineComment => some (if isBreakChar c then blanks else lineComment)
  | opening => some blockComment
  | blockComment => some (if c == '*' && following == some '/' then closing else blockComment)
  | closing => some blanks

/-- The number of characters before the first one of a token. -/
def length (cs : List Char) : Nat := runLength next 0 blanks cs

end Gap

/-! ## Quoted literals -/

/-- Where a quoted literal stands, behind its opening quote. -/
inductive QuotedLiteral where
  | inside
  /-- Behind a backslash. -/
  | escaped
  | closed
  deriving DecidableEq, Repr

namespace QuotedLiteral

/-- A literal ends with its closing quote, or before the end of its line. A backslash takes the
character behind it along, but never a line break. -/
def next (quote : Char) (state : QuotedLiteral) (c : Char) (_ : Option Char) :
    Option QuotedLiteral :=
  match state with
  | inside =>
    if isBreakChar c then none
    else if c == '\\' then some escaped
    else if c == quote then some closed
    else some inside
  | escaped => if isBreakChar c then none else some inside
  | closed => none

/-- The length of a literal behind its opening quote. -/
def length (quote : Char) (cs : List Char) : Nat := runLength (next quote) 0 inside cs

end QuotedLiteral

/-! ## Words and numbers -/

/-- Words are made of the ASCII letters, the ASCII digits and the underscore. -/
def isWordStart (c : Char) : Bool := c.isAlpha || c == '_'

def isWordChar (c : Char) : Bool := c.isAlphanum || c == '_'

/-- A number is read with all letters and points that follow its first digit. -/
def isNumberChar (c : Char) : Bool := isWordChar c || c == '.'

/-- The printable ASCII characters that are neither letters, nor digits, nor the space. -/
def isAsciiPunct (c : Char) : Bool :=
  0x21 ≤ c.toNat && c.toNat ≤ 0x7E && !c.isAlphanum

/-! ## Lexemes -/

/-- The kind of a token, and how many characters it takes behind its first one. -/
structure Lexeme where
  kind : TokenKind
  more : Nat
  deriving DecidableEq, Repr

namespace Lexeme

def length (lexeme : Lexeme) : Nat := lexeme.more + 1

def word (c : Char) (cs : List Char) : Lexeme :=
  let tail := cs.takeWhile isWordChar
  let kind := ((Keyword.ofWord? (String.ofList (c :: tail))).map TokenKind.keyword).getD .identifier
  ⟨kind, tail.length⟩

/-- What starts with a character that is neither blank, nor a quote, nor part of a word. Two equals
signs are one token, and so are two colons. -/
def operator (c : Char) (following : Option Char) : Lexeme :=
  match c with
  | '{' => ⟨.openBrace, 0⟩
  | '}' => ⟨.closeBrace, 0⟩
  | '(' => ⟨.openParen, 0⟩
  | ')' => ⟨.closeParen, 0⟩
  | '[' => ⟨.openBracket, 0⟩
  | ']' => ⟨.closeBracket, 0⟩
  | ';' => ⟨.semicolon, 0⟩
  | ',' => ⟨.comma, 0⟩
  | '=' => if following == some '=' then ⟨.punct, 1⟩ else ⟨.assign, 0⟩
  | ':' => if following == some ':' then ⟨.punct, 1⟩ else ⟨.punct, 0⟩
  | _ => if isAsciiPunct c then ⟨.punct, 0⟩ else ⟨.unknown, 0⟩

/-- The lexeme that starts with the character `c`, which is not part of a gap; `cs` follows it. -/
def read (c : Char) (cs : List Char) : Lexeme :=
  if c == '"' then ⟨.string, QuotedLiteral.length c cs⟩
  else if c == '\'' then ⟨.char, QuotedLiteral.length c cs⟩
  else if c == '#' && cs.head?.any isWordStart then ⟨.directive, (cs.takeWhile isWordChar).length⟩
  else if isWordStart c then word c cs
  else if c.isDigit then ⟨.number, (cs.takeWhile isNumberChar).length⟩
  else operator c cs.head?

end Lexeme

end CaplOutline
