-- The grammar of a source that may lose semicolons. It says which runs of tokens are
-- declarations and behind which of them the semicolon may be missing. It does not say which
-- symbols they stand for: the machine finds the same ones with the semicolons and without.
import CaplOutline.Proofs.Outline.Grammar

namespace CaplOutline

/-- Behind a declaration that ends with `last`, this token ends the braces around it, or begins the
next declaration. -/
def Token.resumes (last token : Token) : Bool :=
  token.kind == .closeBrace || token.kind.opensBlock ||
    (token.kind.opensDeclaration && last.line < token.line)

theorem Token.kind_ne_of_resumes {last token : Token} (h : last.resumes token = true) :
    token.kind ≠ .semicolon := by
  intro hkind
  unfold resumes at h
  rw [hkind] at h
  cases h

namespace Outline

/-! ## Declarations with a body -/

/-- The words, the name and the parameters of a function. -/
inductive Signature : List Token → Prop
  | intro {first name opening closing : Token} {more parameters : List Token} :
      FirstWords first more → name.kind = .identifier → opening.kind = .openParen →
      Parameters parameters → closing.kind = .closeParen →
      Signature (first :: (more ++ name :: opening :: (parameters ++ [closing])))

/-- All that stands before a body of code: the signature of a function, or the line of an event. -/
inductive CodeHead : List Token → Prop
  | function {tokens : List Token} : Signature tokens → CodeHead tokens
  | event {opening : Token} {line : List Token} :
      opening.kind = .keyword .on →
      (∀ token ∈ line, token.kind.isArgument = true ∧ token.line = opening.line) →
      CodeHead (opening :: line)

/-- All that stands before a body of declarations: the word of a block, or a struct or an enum with
its name, if it has one. -/
inductive ContainerHead : List Token → Prop
  | block {word : Token} :
      word.kind = .keyword .variableBlock ∨ word.kind = .keyword .includeBlock →
      ContainerHead [word]
  | aggregate {word : Token} {name : Option Token} :
      word.kind = .keyword .struct ∨ word.kind = .keyword .enum →
      (∀ token ∈ name, token.kind = .identifier) → ContainerHead (word :: name.toList)

/-! ## Variables -/

/-- Tokens and groups, with commas and names outside of the groups as well. No brace opens right
behind an outermost group in parentheses: `afterGroup` says that such a group was just closed. -/
inductive Values : (afterGroup : Bool) → List Token → Prop
  | done {afterGroup : Bool} : Values afterGroup []
  | plain {afterGroup : Bool} {token : Token} {rest : List Token} :
      token.kind.isValue = true → Values false rest → Values afterGroup (token :: rest)
  | group {afterGroup : Bool} {opening closing : Token} {inner rest : List Token} :
      (opening.kind, closing.kind) ∈ TokenKind.allPairs →
      (opening.kind = .openBrace → afterGroup = false) →
      Enclosed inner → Values (closing.kind == .closeParen) rest →
      Values afterGroup (opening :: (inner ++ closing :: rest))

/-- What follows the first name of a declaration, up to the semicolon: array sizes and first values,
and more names behind commas. It is left open which of the commas end a variable, since a first
value may hold some, too. -/
structure Names (tokens : List Token) : Prop where
  values : Values false tokens
  starts : ∀ first ∈ tokens.head?, first.kind ∈ [.openBracket, .assign, .comma]

/-- The variables of one declaration, without the semicolon. -/
inductive VariableList : List Token → Prop
  | intro {first name : Token} {more tokens : List Token} :
      FirstWords first more → first.kind = .keyword .type → name.kind = .identifier →
      Names tokens → VariableList (first :: (more ++ name :: tokens))

/-! ## Sources -/

/-- None of the tokens is lost. -/
def Keeps (lost : Token → Bool) (tokens : List Token) : Prop := ∀ token ∈ tokens, lost token = false

instance (lost : Token → Bool) (tokens : List Token) : Decidable (Keeps lost tokens) :=
  inferInstanceAs (Decidable (∀ token ∈ tokens, lost token = false))

theorem Keeps.filter_eq {lost : Token → Bool} {tokens : List Token} (h : Keeps lost tokens) :
    tokens.filter (!lost ·) = tokens := by
  rw [List.filter_eq_self]
  intro token hmem
  rw [h token hmem]
  rfl

theorem Keeps.mono {lost : Token → Bool} {tokens tokens' : List Token} (h : Keeps lost tokens)
    (hsub : tokens' ⊆ tokens) : Keeps lost tokens' :=
  fun token hmem => h token (hsub hmem)

/-- A list of declarations, with inert tokens between them and with `following` behind them. Only
semicolons of variables are lost, and only where the next token resumes behind the last one of the
declaration. -/
inductive MayLose (lost : Token → Bool) : (following : Option Token) → List Token → Prop
  | done {following : Option Token} : MayLose lost following []
  | inert {following : Option Token} {token : Token} {rest : List Token} :
      token.kind.isInert = true → Keeps lost [token] → MayLose lost following rest →
      MayLose lost following (token :: rest)
  /-- A function or an event, with code in its body. -/
  | code {following : Option Token} {head body rest : List Token} {opening closing : Token} :
      CodeHead head → (opening.kind, closing.kind) = TokenKind.braces → Body body →
      Keeps lost (head ++ opening :: (body ++ [closing])) → MayLose lost following rest →
      MayLose lost following (head ++ opening :: (body ++ closing :: rest))
  /-- A block, a struct or an enum, with declarations in its body. -/
  | container {following : Option Token} {head inner rest : List Token} {opening closing : Token} :
      ContainerHead head → (opening.kind, closing.kind) = TokenKind.braces →
      Keeps lost (head ++ [opening, closing]) → MayLose lost (some closing) inner →
      MayLose lost following rest →
      MayLose lost following (head ++ opening :: (inner ++ closing :: rest))
  | prototype {following : Option Token} {head rest : List Token} {semicolon : Token} :
      Signature head → semicolon.kind = .semicolon → Keeps lost (head ++ [semicolon]) →
      MayLose lost following rest → MayLose lost following (head ++ semicolon :: rest)
  | variableList {following : Option Token} {tokens rest : List Token} {semicolon : Token} :
      VariableList tokens → semicolon.kind = .semicolon → Keeps lost tokens →
      (lost semicolon = true →
        ∃ last ∈ tokens.getLast?, ∃ next ∈ rest.head?.or following, last.resumes next = true) →
      MayLose lost following rest → MayLose lost following (tokens ++ semicolon :: rest)

/-- No other token is lost. -/
theorem MayLose.kind_eq {lost : Token → Bool} {following : Option Token} {tokens : List Token}
    (h : MayLose lost following tokens) :
    ∀ token ∈ tokens, lost token = true → token.kind = .semicolon := by
  intro token hmem hlost
  have hkept : ∀ {piece : List Token}, Keeps lost piece → token ∉ piece := by
    intro piece hpiece hmem
    rw [hpiece token hmem] at hlost
    cases hlost
  induction h with
  | done => cases hmem
  | inert _ hfirst _ ih =>
    rcases List.mem_cons.1 hmem with rfl | hmem
    · exact absurd List.mem_cons_self (hkept hfirst)
    · exact ih hmem
  | code _ _ _ hfirst _ ih =>
    have hnot := hkept hfirst
    grind
  | container _ _ hfirst _ _ ihinner ih =>
    have hnot := hkept hfirst
    grind
  | prototype _ _ hfirst _ ih =>
    have hnot := hkept hfirst
    grind
  | variableList _ hsemicolon hfirst _ _ ih =>
    have hnot := hkept hfirst
    grind

end Outline

end CaplOutline
