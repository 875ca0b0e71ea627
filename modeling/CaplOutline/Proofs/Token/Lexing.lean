-- A text is its tokens and the gaps between them. Nothing of it is lost, each token is the
-- longest one that can be read at its place, and no other list of tokens is made of the text
-- in this way.
import CaplOutline.Proofs.Token.Bounds
import CaplOutline.Proofs.Token.Spelling

namespace CaplOutline

open Text

namespace Token

/-- What a token says of its text, apart from lines and braces. -/
def content (token : Token) : TokenKind × String × Span := (token.kind, token.text, token.span)

/-- The part `rest` of a text, behind its part `front`, is these tokens in their order, with gaps
around them. -/
inductive IsMadeOf : List Char → List Char → List Token → Prop
  | nil {front gap : List Char} : IsGap [] gap → IsMadeOf front gap []
  | cons {front gap rest : List Char} {token : Token} {tokens : List Token} :
      IsGap (token.text.toList ++ rest) gap → IsLexeme token.kind token.text.toList rest →
      token.span = ⟨byteLength (front ++ gap), byteLength (front ++ gap ++ token.text.toList)⟩ →
      IsMadeOf (front ++ gap ++ token.text.toList) rest tokens →
      IsMadeOf front (gap ++ (token.text.toList ++ rest)) (token :: tokens)

theorem IsMadeOf.cons_between {front gap word rest : List Char} {tokens : List Token}
    {kind : TokenKind} (h : IsMadeOf (front ++ gap ++ word) rest tokens)
    (hgap : IsGap (word ++ rest) gap) (hlexeme : IsLexeme kind word rest) (depth : Nat) :
    IsMadeOf front (gap ++ (word ++ rest))
      (between (front ++ gap) word rest kind depth :: tokens) := by
  have htext : (between (front ++ gap) word rest kind depth).text.toList = word :=
    String.toList_ofList
  have hkind : (between (front ++ gap) word rest kind depth).kind = kind := rfl
  have hspan : (between (front ++ gap) word rest kind depth).span =
      ⟨byteLength (front ++ gap), byteLength (front ++ gap ++ word)⟩ := rfl
  generalize between (front ++ gap) word rest kind depth = token at htext hkind hspan
  subst htext hkind
  exact .cons hgap hlexeme hspan h

theorem IsMadeOf.unique {front rest : List Char} {tokens tokens' : List Token}
    (h : IsMadeOf front rest tokens) (h' : IsMadeOf front rest tokens') :
    tokens.map content = tokens'.map content := by
  have hends : ¬ OpensGap [] := by simp [OpensGap]
  induction h generalizing tokens' with
  | @nil front gap hgap =>
    have hwhole := Gap.length_append hgap hends
    generalize hrest : gap = rest at h'
    cases h' with
    | nil _ => rfl
    | cons hgap' hlexeme' _ _ =>
      -- A token would stand inside the last gap.
      have hfront := Gap.length_append hgap' hlexeme'.opens
      obtain ⟨c, cs, htext⟩ := hlexeme'.spells.exists_cons
      rw [List.append_nil, hrest, hfront] at hwhole
      simp [htext] at hwhole
  | @cons front gap rest token tokens hgap hlexeme hspan _ ih =>
    have hfront := Gap.length_append hgap hlexeme.opens
    generalize hwhole : gap ++ (token.text.toList ++ rest) = whole at h' hfront
    cases h' with
    | nil hgap' =>
      have hlast := Gap.length_append hgap' hends
      obtain ⟨c, cs, htext⟩ := hlexeme.spells.exists_cons
      rw [List.append_nil, hfront, ← hwhole] at hlast
      simp [htext] at hlast
    | @cons _ gap' rest' token' tokens' hgap' hlexeme' hspan' hmade' =>
      rw [Gap.length_append hgap' hlexeme'.opens] at hfront
      obtain ⟨rfl, hback⟩ := List.append_inj hwhole hfront.symm
      obtain ⟨hkind, htext, rfl⟩ := hlexeme.unique hlexeme' hback
      rw [← htext] at hspan' hmade'
      rw [List.map_cons, List.map_cons, ih hmade']
      unfold content
      rw [hkind, hspan, hspan', String.toList_inj.1 htext]

end Token

namespace Cursor

variable {front rest : List Char} {depth : Nat}

theorem next_at_end (front : List Char) (depth : Nat) :
    (between front [] depth).next = (none, between front [] depth) := by
  rw [next_between]
  simp

/-- The tokens that are read, and the end of the text behind them. -/
theorem Reads.isMadeOf {cursor stop : Cursor} {tokens : List Token} (h : cursor.Reads tokens stop)
    (hat : cursor = between front rest depth) :
    Token.IsMadeOf front rest tokens ∧ ∃ depth', stop = between (front ++ rest) [] depth' := by
  induction h generalizing front rest depth with
  | nil hnext =>
    subst hat
    have hgap := Gap.isGap_take rest
    have hsplit := List.take_append_drop (Gap.length rest) rest
    rw [next_between] at hnext
    split at hnext
    · rename_i hdrop
      rw [hdrop, List.append_nil] at hsplit
      rw [hdrop, hsplit] at hgap
      cases hnext
      exact ⟨.nil hgap, depth, rfl⟩
    · cases hnext
  | cons hnext _ ih =>
    subst hat
    obtain ⟨gap, c, word, post, lexeme, rfl, hlength, hread, hmore, -, rfl, rfl⟩ :=
      exists_lexeme hnext
    have hgap := Gap.isGap_take (gap ++ c :: (word ++ post))
    have hopens := Gap.not_opensGap_drop (gap ++ c :: (word ++ post))
    rw [hlength, List.drop_left] at hgap hopens
    rw [List.take_left] at hgap
    have hlexeme := isLexeme_read hopens
    rw [hread, hmore, List.take_left, List.drop_left] at hlexeme
    obtain ⟨hmade, depth', rfl⟩ := ih rfl
    exact ⟨hmade.cons_between hgap hlexeme _, depth', by simp⟩

end Cursor

/-! ## The law -/

namespace Token

theorem StandsIn.slice_span {text : String} {token : Token} (h : token.StandsIn text) :
    slice text token.span.start token.span.stop = token.text := by
  obtain ⟨front, back, h⟩ := h
  rw [h.span_eq, slice_eq h.split, String.ofList_toList]

/-- The reading of a text comes to its end. The text is the tokens that are read, with gaps around
them, and no others. None of them is empty, each is the piece of the text that its span names, and
they stand one behind another. -/
theorem a_text_is_its_tokens_and_its_gaps (text : String) :
    (Cursor.ofText text).Reads (ofText text) (scan text).2 ∧
    (scan text).2.rest = [] ∧ (scan text).2.offset = text.utf8ByteSize ∧
    (scan text).2.next = (none, (scan text).2) ∧
    IsMadeOf [] text.toList (ofText text) ∧
    (∀ tokens, IsMadeOf [] text.toList tokens →
      tokens.map content = (ofText text).map content) ∧
    (∀ token ∈ ofText text, token.text ≠ "" ∧
      slice text token.span.start token.span.stop = token.text ∧
      isBoundary text token.span.start = true ∧ isBoundary text token.span.stop = true) ∧
    (ofText text).Pairwise fun first second => first.span.stop ≤ second.span.start := by
  have hreads := Cursor.reads_scan text
  have hat : Cursor.ofText text = .between [] text.toList 0 := rfl
  obtain ⟨hmade, depth, hstop⟩ := hreads.isMadeOf hat
  refine ⟨hreads, ?_, ?_, ?_, hmade, fun _ h => h.unique hmade, ?_, ?_⟩
  · rw [hstop]
    rfl
  · rw [hstop]
    exact byteLength_toList text
  · rw [hstop]
    exact Cursor.next_at_end _ _
  · intro token hmem
    have hstands := standsIn_of_mem hmem
    refine ⟨?_, hstands.slice_span, hstands.isBoundary⟩
    intro hempty
    obtain ⟨front, back, h⟩ := hstands
    exact h.ne_nil (by rw [hempty]; rfl)
  · exact (pairwise_precedes text).imp fun h => h.bytes

example : (ofText "/*/ on */a1/**/.2\n\"a\\\"b\\\n#x# == = é").map (fun t => (t.kind, t.text)) =
    [(.identifier, "a1"), (.punct, "."), (.number, "2"), (.string, "\"a\\\"b\\"),
      (.directive, "#x"), (.punct, "#"), (.punct, "=="), (.assign, "="), (.unknown, "é")] := by
  decide +kernel

end Token

end CaplOutline
