-- The layout of a text: its blanks, its comments, and where its lines are broken inside
-- them. As long as the same tokens start new lines, the layout does not change the
-- outline. It only moves the symbols along with their tokens.
import CaplOutline.Proofs.Token.Words
import CaplOutline.Proofs.Outline.Alike

namespace CaplOutline

namespace Token

/-! ## What is left of a text without its layout -/

/-- The kinds and the spellings of tokens. -/
def spellings (tokens : List Token) : List (TokenKind × String) :=
  tokens.map fun token => (token.kind, token.text)

/-- For each token but the first, whether it starts on a later line than the one before it. -/
def lineStarts (tokens : List Token) : List Bool :=
  List.zipWith (fun token next => decide (token.line < next.line)) tokens tokens.tail

/-- The two tokens have the same number, each in its own text. -/
def Corresponds (source source' : String) (token token' : Token) : Prop :=
  ∃ i : Nat, (ofText source)[i]? = some token ∧ (ofText source')[i]? = some token'

/-! ## Lines of tokens -/

variable {tokens : List Token} {token token' other other' : Token} {i j : Nat}

theorem line_le_of_le (text : String) (hle : i ≤ j) (h : (ofText text)[i]? = some token)
    (hother : (ofText text)[j]? = some other) : token.line ≤ other.line := by
  rcases Nat.eq_or_lt_of_le hle with rfl | hlt
  · rw [h] at hother
    cases hother
    exact Nat.le_refl _
  · obtain ⟨hi, rfl⟩ := List.getElem?_eq_some_iff.1 h
    obtain ⟨hj, rfl⟩ := List.getElem?_eq_some_iff.1 hother
    have horder := List.pairwise_iff_getElem.1 (pairwise_ofText text) i j hi hj hlt
    have hstop := (standsIn_of_mem (List.getElem_mem hi)).range_stop
    have hline := Position.line_le_of_le horder
    rw [hstop] at hline
    exact hline

theorem lineStarts_getElem? (h : tokens[i]? = some token)
    (hother : tokens[i + 1]? = some other) :
    (lineStarts tokens)[i]? = some (decide (token.line < other.line)) := by
  unfold lineStarts
  rw [List.getElem?_zipWith, h, List.getElem?_tail, hother]

/-- If the same tokens start new lines, then the same tokens are on later lines than others. -/
theorem line_lt_iff_of_le {source source' : String}
    (h : lineStarts (ofText source) = lineStarts (ofText source')) {n : Nat}
    (htoken : (ofText source)[i]? = some token) (htoken' : (ofText source')[i]? = some token')
    (hother : (ofText source)[i + n]? = some other)
    (hother' : (ofText source')[i + n]? = some other') :
    token.line < other.line ↔ token'.line < other'.line := by
  induction n generalizing other other' with
  | zero =>
    rw [Nat.add_zero, htoken] at hother
    rw [Nat.add_zero, htoken'] at hother'
    cases hother
    cases hother'
    simp
  | succ n ih =>
    obtain ⟨last, hlast⟩ : ∃ last, (ofText source)[i + n]? = some last := by
      obtain ⟨hlt, -⟩ := List.getElem?_eq_some_iff.1 hother
      exact ⟨_, List.getElem?_eq_getElem (by omega)⟩
    obtain ⟨last', hlast'⟩ : ∃ last', (ofText source')[i + n]? = some last' := by
      obtain ⟨hlt, -⟩ := List.getElem?_eq_some_iff.1 hother'
      exact ⟨_, List.getElem?_eq_getElem (by omega)⟩
    have hfront := ih hlast hlast'
    have hback : last.line < other.line ↔ last'.line < other'.line := by
      have hstarts := lineStarts_getElem? hlast hother
      rw [h, lineStarts_getElem? hlast' hother'] at hstarts
      simpa using (Option.some.inj hstarts).symm
    have hle := line_le_of_le source (Nat.le_add_right i n) htoken hlast
    have hle' := line_le_of_le source' (Nat.le_add_right i n) htoken' hlast'
    have hstep := line_le_of_le source (Nat.le_succ _) hlast hother
    have hstep' := line_le_of_le source' (Nat.le_succ _) hlast' hother'
    omega

theorem Corresponds.line_lt_iff {source source' : String}
    (h : lineStarts (ofText source) = lineStarts (ofText source'))
    (htoken : Corresponds source source' token token')
    (hother : Corresponds source source' other other') :
    token.line < other.line ↔ token'.line < other'.line := by
  obtain ⟨i, htoken, htoken'⟩ := htoken
  obtain ⟨j, hother, hother'⟩ := hother
  rcases Nat.le_total i j with hle | hle
  · obtain ⟨n, rfl⟩ := Nat.exists_eq_add_of_le hle
    exact line_lt_iff_of_le h htoken htoken' hother hother'
  · have hline := line_le_of_le source hle hother htoken
    have hline' := line_le_of_le source' hle hother' htoken'
    omega

theorem Corresponds.spelling_eq {source source' : String}
    (h : spellings (ofText source) = spellings (ofText source'))
    (htoken : Corresponds source source' token token') :
    token.kind = token'.kind ∧ token.text = token'.text := by
  obtain ⟨i, htoken, htoken'⟩ := htoken
  have hspelling := congrArg (·[i]?) h
  simpa [spellings, htoken, htoken'] using hspelling

theorem Corresponds.mem {source source' : String} (h : Corresponds source source' token token') :
    token ∈ ofText source ∧ token' ∈ ofText source' := by
  obtain ⟨i, htoken, htoken'⟩ := h
  exact ⟨List.mem_of_getElem? htoken, List.mem_of_getElem? htoken'⟩

theorem forall₂_corresponds {source source' : String}
    (h : spellings (ofText source) = spellings (ofText source')) :
    List.Forall₂ (Corresponds source source') (ofText source) (ofText source') := by
  have hlength := congrArg List.length h
  simp only [spellings, List.length_map] at hlength
  rw [List.forall₂_iff_get]
  refine ⟨hlength, ?_⟩
  intro i hi hi'
  exact ⟨i, List.getElem?_eq_getElem hi, List.getElem?_eq_getElem hi'⟩

end Token

namespace Outline

/-! ## The laws -/

/-- Two texts with the same tokens, of which the same ones start new lines, side by side. -/
def Pairing.ofLayouts (source source' : String) (includeLocals : Bool)
    (hspellings : Token.spellings (Token.ofText source) = Token.spellings (Token.ofText source'))
    (hlines : Token.lineStarts (Token.ofText source) = Token.lineStarts (Token.ofText source')) :
    Pairing ⟨includeLocals, false⟩ where
  source
  source'
  pairs := Token.Corresponds source source'
  kind_eq h := (h.spelling_eq hspellings).1
  text_eq h := (h.spelling_eq hspellings).2
  stop_line h := by
    obtain ⟨hmem, hmem'⟩ := h.mem
    rw [(Token.standsIn_of_mem hmem).range_stop, (Token.standsIn_of_mem hmem').range_stop]
    exact ⟨rfl, rfl⟩
  line_lt h hother := h.line_lt_iff hlines hother
  slice_eq h := nomatch h
  stop := (Text.LineTable.of source).endPosition
  stop' := (Text.LineTable.of source').endPosition

/-- Two texts with the same tokens, of which the same ones start new lines, have the same symbols in
the same order inside one another. Each symbol starts, ends and is selected at tokens with the same
numbers, or ends where its text does. -/
theorem layouts_do_not_change_an_outline (source source' : String) (includeLocals : Bool)
    (hspellings : Token.spellings (Token.ofText source) = Token.spellings (Token.ofText source'))
    (hlines : Token.lineStarts (Token.ofText source) = Token.lineStarts (Token.ofText source')) :
    Alike (Token.Corresponds source source') (Text.LineTable.of source).endPosition
      (Text.LineTable.of source').endPosition (extract source ⟨includeLocals, false⟩)
      (extract source' ⟨includeLocals, false⟩) := by
  let pairing := Pairing.ofLayouts source source' includeLocals hspellings hlines
  have hrun := (Machine.alike_start pairing).foldl_feed (Token.forall₂_corresponds hspellings)
  obtain ⟨outline, hroots, halike⟩ := hrun.finish.roots
  unfold extract
  dsimp only
  rw [Token.position_scan, Token.position_scan]
  rw [List.nil_append] at hroots
  rw [← hroots] at halike
  exact halike

theorem the_layouts_of_a_handler :
    let source := "on start // once\n\x7b\n  int  x = 1;\n\x7d"
    let source' := "on  start\n\n\x7b /* the\n first */\nint x = 1 ; \n  \x7d\n"
    Token.spellings (Token.ofText source) = Token.spellings (Token.ofText source') ∧
      Token.lineStarts (Token.ofText source) = Token.lineStarts (Token.ofText source') ∧
      Alike (Token.Corresponds source source') (Text.LineTable.of source).endPosition
        (Text.LineTable.of source').endPosition (extract source ⟨true, false⟩)
        (extract source' ⟨true, false⟩) := by
  intro source source'
  have hspellings :
      Token.spellings (Token.ofText source) = Token.spellings (Token.ofText source') := by
    decide +kernel
  have hlines :
      Token.lineStarts (Token.ofText source) = Token.lineStarts (Token.ofText source') := by
    decide +kernel
  exact ⟨hspellings, hlines, layouts_do_not_change_an_outline _ _ _ hspellings hlines⟩

end Outline

end CaplOutline
