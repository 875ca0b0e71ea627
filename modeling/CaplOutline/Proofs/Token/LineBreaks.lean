-- A line break sets the texts around it apart. Whatever token or line comment the text above
-- it is in the middle of, it ends there as it would end with the text. So the tokens of many
-- texts on lines of their own are the tokens of each, and a text can be read again from its
-- tokens alone.
import CaplOutline.Proofs.Token.Lexing

namespace CaplOutline

open Text

/-! ## Texts of one token -/

/-- A token is a token by itself. -/
theorem IsLexeme.alone {kind : TokenKind} {word back : List Char} (h : IsLexeme kind word back) :
    IsLexeme kind word [] := by
  refine ⟨h.spells, ?_, ?_, fun _ _ _ _ _ => nofun⟩
  · intro more after _ hsplit _
    exact (List.append_eq_nil_iff.1 hsplit.symm).1
  · intro hopens
    rw [List.append_nil] at hopens
    obtain ⟨c, cs, rfl⟩ := h.spells.exists_cons
    apply h.opens
    rcases hopens with ⟨d, hd, hblank⟩ | hline | hblock
    · exact Or.inl ⟨d, hd, hblank⟩
    · exact Or.inr (Or.inl (hline.trans (List.prefix_append _ _)))
    · exact Or.inr (Or.inr (hblock.trans (List.prefix_append _ _)))

namespace Token

def spelling (token : Token) : TokenKind × String := (token.kind, token.text)

theorem isMadeOf_ofText (text : String) : IsMadeOf [] text.toList (ofText text) := by
  have hat : Cursor.ofText text = .between [] text.toList 0 := rfl
  exact ((Cursor.reads_scan text).isMadeOf hat).1

/-- The text of a token is read as that token. -/
theorem ofText_of_isLexeme {kind : TokenKind} {text : String}
    (h : IsLexeme kind text.toList []) :
    ∃ token, ofText text = [token] ∧ token.spelling = (kind, text) ∧
      token.span.stop = text.utf8ByteSize := by
  have hmade : IsMadeOf [] ([] ++ (text.toList ++ [])) [between [] text.toList [] kind 0] :=
    IsMadeOf.cons_between (.nil .nil) .nil h 0
  rw [List.nil_append, List.append_nil] at hmade
  have hcontent := (isMadeOf_ofText text).unique hmade
  obtain ⟨token, htoken, hsame⟩ := List.map_eq_singleton_iff.1 hcontent
  simp only [content, between, Prod.mk.injEq] at hsame
  obtain ⟨hkind, htext, hspan⟩ := hsame
  refine ⟨token, htoken, ?_, ?_⟩
  · unfold spelling
    rw [hkind, htext, String.ofList_toList]
  · rw [hspan]
    exact byteLength_toList text

/-! ## The end of the first text -/

/-- A block comment that starts behind the last token does not end. -/
def EndsInOpenComment (text : String) : Prop := Gap.IsOpen (behindLast text)

theorem IsMadeOf.isGap_last {text : String} {front rest : List Char} {tokens : List Token}
    (h : IsMadeOf front rest tokens) (htext : text.toList = front ++ rest) :
    IsGap [] (slice text ((tokens.getLast?.map (·.span.stop)).getD (byteLength front))
      text.utf8ByteSize).toList := by
  induction h with
  | @nil front gap hgap =>
    simp only [List.getLast?_nil, Option.map_none, Option.getD_none]
    rw [slice_back htext, String.toList_ofList]
    exact hgap
  | @cons front gap rest token tokens _ _ hspan _ ih =>
    have hlast := ih (by rw [htext]; simp)
    rw [List.getLast?_cons, Option.map_some, Option.getD_some]
    -- The last token is the last one of those behind this one, or else this one.
    generalize tokens.getLast? = last at hlast ⊢
    cases last with
    | none =>
      rw [Option.getD_none, hspan]
      exact hlast
    | some last => exact hlast

theorem isGap_behindLast (text : String) : IsGap [] (behindLast text) :=
  (isMadeOf_ofText text).isGap_last (List.nil_append _).symm

/-- The automaton knows whether a block comment is open. -/
theorem endsInOpenComment_iff {text : String} :
    EndsInOpenComment text ↔ endsInBlockComment text = true := by
  unfold endsInBlockComment
  constructor
  · intro hopen
    rw [(Gap.takes_of_isOpen hopen).runState_eq]
    rfl
  · obtain ⟨last, htakes, hlast⟩ := Gap.takes_of_isGap (isGap_behindLast text)
    rw [htakes.runState_eq, Option.any_some]
    rcases hlast with rfl | ⟨rfl, -⟩ | ⟨-, -, hopen⟩
    · exact nofun
    · exact nofun
    · exact fun _ => hopen

instance (text : String) : Decidable (EndsInOpenComment text) :=
  decidable_of_iff _ endsInOpenComment_iff.symm

/-- The tokens of the first text end before the line break, and those of the second one are read
behind it. -/
theorem ofText_append_line {first : String} (h : ¬ EndsInOpenComment first) (second : String) :
    ∃ tokens, ofText (first ++ "\n" ++ second) = ofText first ++ tokens ∧
      List.Forall₂ (MovesDown (first.utf8ByteSize + 1)
        (LineTable.of (first ++ "\n")).endPosition.line) (ofText second) tokens := by
  rw [endsInOpenComment_iff, Bool.not_eq_true] at h
  have hsize : (first ++ "\n").utf8ByteSize = first.utf8ByteSize + 1 :=
    String.utf8ByteSize_append
  rw [← hsize]
  exact ofText_join first second h

/-- Nothing follows a token that stands by itself. -/
theorem not_endsInOpenComment_of_isLexeme {kind : TokenKind} {text : String}
    (h : IsLexeme kind text.toList []) : ¬ EndsInOpenComment text := by
  obtain ⟨token, htoken, -, hstop⟩ := ofText_of_isLexeme h
  have hnothing : behindLast text = [] := by
    unfold behindLast
    have hslice := slice_back (List.append_nil text.toList).symm
    rw [byteLength_toList] at hslice
    rw [htoken, List.getLast?_singleton, Option.map_some, Option.getD_some, hstop, hslice,
      String.toList_ofList]
  unfold EndsInOpenComment
  rw [hnothing]
  rintro ⟨front, comment, hsplit, -⟩
  simp at hsplit

/-! ## The tokens of many lines -/

theorem spelling_eq_of_movesDown {bytes lines : Nat} {tokens moved : List Token}
    (h : List.Forall₂ (MovesDown bytes lines) tokens moved) :
    moved.map spelling = tokens.map spelling := by
  induction h with
  | nil => rfl
  | cons hfirst _ ih =>
    rw [List.map_cons, List.map_cons, ih]
    unfold spelling
    rw [hfirst.kind_eq, hfirst.text_eq]

/-- Texts on lines of their own, each of which is a token, are read as these tokens. -/
theorem spelling_ofText_lines (tokens : List Token)
    (h : ∀ token ∈ tokens, IsLexeme token.kind token.text.toList []) :
    (ofText ("\n".intercalate (tokens.map (·.text)))).map spelling = tokens.map spelling := by
  induction tokens with
  | nil =>
    have hnone : ofText "" = [] := by decide +kernel
    exact congrArg (List.map spelling) hnone
  | cons token tokens ih =>
    obtain ⟨hfirst, hrest⟩ := List.forall_mem_cons.1 h
    obtain ⟨first, htext, hspelling, -⟩ := ofText_of_isLexeme hfirst
    have hrest := ih hrest
    cases tokens with
    | nil =>
      rw [List.map_singleton, String.intercalate_singleton, htext]
      exact congrArg (fun spelling => [spelling]) hspelling
    | cons second tokens =>
      obtain ⟨moved, hjoin, hmoved⟩ :=
        ofText_append_line (not_endsInOpenComment_of_isLexeme hfirst)
          ("\n".intercalate (second.text :: tokens.map (·.text)))
      rw [List.map_cons, List.map_cons, String.intercalate_cons_cons, hjoin, htext,
        List.map_append, spelling_eq_of_movesDown hmoved, List.map_singleton, hspelling]
      exact congrArg ((token.kind, token.text) :: ·) hrest

/-- Every token of a text is a token by itself. -/
theorem IsMadeOf.isLexeme {front rest : List Char} {tokens : List Token}
    (h : IsMadeOf front rest tokens) :
    ∀ token ∈ tokens, IsLexeme token.kind token.text.toList [] := by
  induction h with
  | nil _ => exact nofun
  | cons _ hlexeme _ _ ih => exact List.forall_mem_cons.2 ⟨hlexeme.alone, ih⟩

/-! ## The law -/

/-- A line break ends every token and line comment as the end of the text does. Behind it the
second text is read as if nothing stood before it, so many bytes and lines further down. So the
tokens of a text, on lines of their own, are read again. -/
theorem a_line_break_sets_texts_apart :
    (∀ first second, ¬ EndsInOpenComment first →
      ∃ tokens, ofText (first ++ "\n" ++ second) = ofText first ++ tokens ∧
        List.Forall₂ (MovesDown (first.utf8ByteSize + 1)
          (LineTable.of (first ++ "\n")).endPosition.line) (ofText second) tokens) ∧
    ∀ text, (ofText ("\n".intercalate ((ofText text).map (·.text)))).map spelling =
      (ofText text).map spelling := by
  refine ⟨fun first second h => ofText_append_line h second, ?_⟩
  intro text
  exact spelling_ofText_lines _ (isMadeOf_ofText text).isLexeme

theorem a_line_break_ends_a_backslash :
    ¬ EndsInOpenComment "s = \"\\" ∧
      ∃ tokens, ofText ("s = \"\\" ++ "\n" ++ "\";") = ofText "s = \"\\" ++ tokens ∧
        List.Forall₂ (MovesDown ("s = \"\\".utf8ByteSize + 1)
          (LineTable.of ("s = \"\\" ++ "\n")).endPosition.line) (ofText "\";") tokens :=
  have hcloses : ¬ EndsInOpenComment "s = \"\\" := by decide +kernel
  ⟨hcloses, a_line_break_sets_texts_apart.1 _ _ hcloses⟩

end Token

end CaplOutline
