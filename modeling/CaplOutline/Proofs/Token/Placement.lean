-- Where the tokens of a text stand. The cursor counts bytes and columns character by
-- character, through blanks, comments and literals. The line table counts them from
-- the whole text. Both counts are the same, and no token goes over the end of a line.
import Mathlib.Data.List.TakeWhile
import CaplOutline.Proofs.Text.Addressing
import CaplOutline.Proofs.Token.Reading

namespace CaplOutline

open Text

/-! ## Characters of a lexeme -/

/-- An automaton takes no character that it refuses in every state. -/
theorem forall_mem_take_runLength {σ : Type} {next : σ → Char → Option Char → Option σ}
    {p : Char → Prop} (h : ∀ state c following state', next state c following = some state' → p c)
    (state : σ) (cs : List Char) : ∀ c ∈ cs.take (runLength next 0 state cs), p c := by
  induction cs generalizing state with
  | nil => simp
  | cons c cs ih =>
    intro d hd
    rw [runLength] at hd
    split at hd
    · simp at hd
    · rename_i state' hnext
      rw [runLength_eq_add, Nat.add_comm, Nat.zero_add, List.take_succ_cons] at hd
      rcases List.mem_cons.1 hd with rfl | hd
      · exact h _ _ _ _ hnext
      · exact ih state' d hd

/-- An automaton stops before a character that it refuses. -/
theorem next_eq_none_of_drop_runLength {σ : Type} {next : σ → Char → Option Char → Option σ}
    {state : σ} {cs rest : List Char} {c : Char}
    (h : cs.drop (runLength next 0 state cs) = c :: rest) :
    ∃ state', next state' c rest.head? = none := by
  induction cs generalizing state with
  | nil => simp at h
  | cons d cs ih =>
    rw [runLength] at h
    split at h
    · rename_i hnext
      cases h
      exact ⟨state, hnext⟩
    · rw [runLength_eq_add, Nat.add_comm, Nat.zero_add, List.drop_succ_cons] at h
      exact ih h

/-- A gap goes up to a character that is not blank. -/
theorem Gap.isBlank_of_drop_length {cs rest : List Char} {c : Char}
    (h : cs.drop (Gap.length cs) = c :: rest) : isBlank c = false := by
  obtain ⟨gap, hgap⟩ := next_eq_none_of_drop_runLength h
  cases gap with
  | blanks =>
    unfold Gap.next at hgap
    by_cases hblank : isBlank c = true
    · simp [hblank] at hgap
    · simpa using hblank
  | _ => simp [Gap.next] at hgap

theorem QuotedLiteral.isBreakChar_of_next {quote c : Char} {state state' : QuotedLiteral}
    {following : Option Char} (h : next quote state c following = some state') :
    isBreakChar c = false := by
  by_cases hbreak : isBreakChar c = true
  · cases state <;> simp [next, hbreak] at h
  · simpa using hbreak

theorem isBreakChar_of_isWordChar {c : Char} (h : isWordChar c = true) : isBreakChar c = false := by
  simp only [isBreakChar, Bool.or_eq_false_iff, beq_eq_false_iff_ne]
  constructor
  · rintro rfl
    revert h
    decide
  · rintro rfl
    revert h
    decide

theorem isBreakChar_of_isNumberChar {c : Char} (h : isNumberChar c = true) :
    isBreakChar c = false := by
  unfold isNumberChar at h
  rw [Bool.or_eq_true] at h
  rcases h with h | h
  · exact isBreakChar_of_isWordChar h
  · rw [beq_iff_eq] at h
    subst h
    decide

theorem mem_take_length_takeWhile {p : Char → Bool} {cs : List Char} {c : Char}
    (h : c ∈ cs.take (cs.takeWhile p).length) : p c = true := by
  rw [← List.prefix_iff_eq_take.1 (List.takeWhile_prefix p)] at h
  exact List.mem_takeWhile_imp h

theorem Lexeme.mem_take_operator {c d : Char} {cs : List Char}
    (h : d ∈ cs.take (operator c cs.head?).more) : isBreakChar d = false := by
  have htwo : ∀ e : Char, cs.head? = some e → d ∈ cs.take 1 → d = e := by
    intro e he hd
    cases cs with
    | nil => simp at hd
    | cons f cs =>
      simp only [List.head?_cons, Option.some.injEq] at he
      simpa [he] using hd
  unfold operator at h
  split at h
  all_goals try (simp at h; done)
  · split at h
    · rename_i heq
      rw [htwo '=' (by simpa using heq) h]
      decide
    · simp at h
  · split at h
    · rename_i heq
      rw [htwo ':' (by simpa using heq) h]
      decide
    · simp at h
  · split at h <;> simp at h

/-- A lexeme that does not start with a blank holds no line break. -/
theorem Lexeme.isBreakChar_of_mem {c d : Char} {cs : List Char} (hc : isBlank c = false)
    (hd : d ∈ (c :: cs).take (read c cs).length) : isBreakChar d = false := by
  unfold length at hd
  rw [List.take_succ_cons] at hd
  rcases List.mem_cons.1 hd with rfl | hd
  · by_cases hbreak : isBreakChar d = true
    · rw [isBlank_of_isBreakChar hbreak] at hc
      cases hc
    · simpa using hbreak
  · have hquoted : ∀ quote, d ∈ cs.take (QuotedLiteral.length quote cs) →
        isBreakChar d = false := by
      intro quote
      apply forall_mem_take_runLength (p := fun e => isBreakChar e = false)
      intro state e following state' hnext
      exact QuotedLiteral.isBreakChar_of_next hnext
    unfold read at hd
    split at hd
    · exact hquoted _ hd
    · split at hd
      · exact hquoted _ hd
      · split at hd
        · exact isBreakChar_of_isWordChar (mem_take_length_takeWhile hd)
        · split at hd
          · exact isBreakChar_of_isWordChar (mem_take_length_takeWhile hd)
          · split at hd
            · exact isBreakChar_of_isNumberChar (mem_take_length_takeWhile hd)
            · exact mem_take_operator hd

/-! ## The way of a cursor -/

namespace Cursor

/-- The cursor has read `front` of the text, and nothing else. -/
structure Behind (text : String) (front : List Char) (cursor : Cursor) : Prop where
  split : text.toList = front ++ cursor.rest
  offset_eq : cursor.offset = byteLength front
  position_eq : cursor.position = walk .origin front cursor.rest

theorem behind_ofText (text : String) : (ofText text).Behind text [] := ⟨rfl, rfl, rfl⟩

variable {text : String} {front : List Char} {cursor : Cursor}

theorem Behind.bump (h : cursor.Behind text front) :
    cursor.bump.Behind text (front ++ cursor.rest.take 1) := by
  obtain ⟨hsplit, hoffset, hposition⟩ := h
  unfold Cursor.bump
  cases hrest : cursor.rest with
  | nil =>
    rw [hrest] at hsplit hposition
    refine ⟨?_, ?_, ?_⟩
    · simpa [hrest] using hsplit
    · simpa using hoffset
    · simpa [hrest] using hposition
  | cons c cs =>
    rw [hrest] at hsplit hposition
    refine ⟨?_, ?_, ?_⟩
    · simpa using hsplit
    · simp [hoffset]
    · dsimp only
      rw [hposition, List.take_succ_cons, List.take_zero, walk_append]
      rfl

theorem Behind.advance (h : cursor.Behind text front) (n : Nat) :
    (cursor.advance n).Behind text (front ++ cursor.rest.take n) := by
  induction n generalizing cursor front with
  | zero => rwa [List.take_zero, List.append_nil]
  | succ n ih =>
    have hbump := ih h.bump
    rw [rest_bump, List.append_assoc] at hbump
    have htake : cursor.rest.take 1 ++ cursor.rest.tail.take n = cursor.rest.take (n + 1) := by
      cases cursor.rest <;> simp
    rwa [htake] at hbump

/-- The position of the cursor is the one that the line table gives. -/
theorem Behind.positionOf_offset (h : cursor.Behind text front) :
    (LineTable.of text).positionOf cursor.offset = cursor.position := by
  rw [h.offset_eq, h.position_eq]
  exact LineTable.positionOf_byteLength h.split

/-- How many braces are open does not matter. -/
theorem Behind.withDepth (h : cursor.Behind text front) (depth : Nat) :
    { cursor with depth }.Behind text front := ⟨h.split, h.offset_eq, h.position_eq⟩

/-- Without a line break a cursor stays on its line. -/
theorem line_advance {n : Nat} (h : ∀ c ∈ cursor.rest.take n, isBreakChar c = false) :
    (cursor.advance n).position.line = cursor.position.line := by
  induction n generalizing cursor with
  | zero => rfl
  | succ n ih =>
    unfold Cursor.advance
    cases hrest : cursor.rest with
    | nil =>
      have hbump : cursor.bump = cursor := by
        unfold Cursor.bump
        rw [hrest]
      rw [hbump, ih (by simp [hrest])]
    | cons c cs =>
      rw [hrest, List.take_succ_cons] at h
      rw [ih]
      · unfold Cursor.bump
        rw [hrest]
        simp [Text.advance, endsLine_of_not_break (h c List.mem_cons_self)]
      · rw [rest_bump, hrest]
        intro d hd
        exact h d (List.mem_cons_of_mem _ hd)

/-- What is read next, behind a gap that goes over no line break. -/
theorem next_of_read (gap : List Char) {c : Char} {cs : List Char} {lexeme : Lexeme}
    (hrest : cursor.rest = gap ++ c :: cs) (hgap : Gap.length (gap ++ c :: cs) = gap.length)
    (hread : Lexeme.read c cs = lexeme) (hline : ∀ d ∈ gap, isBreakChar d = false) :
    ∃ token cursor', cursor.next = (some token, cursor') ∧ token.kind = lexeme.kind ∧
      token.line = cursor.position.line ∧ cursor'.position.line = cursor.position.line ∧
      cursor'.rest = cs.drop lexeme.more := by
  subst hread
  rw [← hrest] at hgap
  have hdrop : cursor.rest.drop (Gap.length cursor.rest) = c :: cs := by
    rw [hgap, hrest, List.drop_left]
  have hstart : (cursor.advance (Gap.length cursor.rest)).position.line = cursor.position.line := by
    apply line_advance
    rwa [hgap, hrest, List.take_left]
  have hstop : ((cursor.advance (Gap.length cursor.rest)).advance
      (Lexeme.read c cs).length).position.line = cursor.position.line := by
    rw [line_advance, hstart]
    rw [rest_advance, hdrop]
    intro d hd
    exact Lexeme.isBreakChar_of_mem (Gap.isBlank_of_drop_length hdrop) hd
  unfold Cursor.next
  dsimp only
  rw [rest_advance, hdrop]
  refine ⟨_, _, rfl, rfl, hstart, hstop, ?_⟩
  dsimp only
  rw [rest_advance, rest_advance, hdrop]
  rfl

end Cursor

/-! ## One token -/

/-- The token stands in the text between `front` and `back`. -/
structure Token.StandsBetween (text : String) (front back : List Char) (token : Token) : Prop where
  split : text.toList = front ++ token.text.toList ++ back
  span_eq : token.span = ⟨byteLength front, byteLength front + byteLength token.text.toList⟩
  range_eq : token.range =
    ⟨walk .origin front (token.text.toList ++ back), walk .origin (front ++ token.text.toList) back⟩
  ne_nil : token.text.toList ≠ []
  no_break : ∀ c ∈ token.text.toList, isBreakChar c = false

/-- The token stands somewhere in the text. -/
def Token.StandsIn (text : String) (token : Token) : Prop :=
  ∃ front back, token.StandsBetween text front back

namespace Cursor

variable {text : String} {front : List Char} {cursor : Cursor}

theorem Behind.next (h : cursor.Behind text front) {token : Token} {cursor' : Cursor}
    (hnext : cursor.next = (some token, cursor')) :
    token.StandsIn text ∧ ∃ front', cursor'.Behind text front' := by
  have hstart := h.advance (Gap.length cursor.rest)
  have hblank := @Gap.isBlank_of_drop_length cursor.rest
  rw [← rest_advance] at hblank
  unfold Cursor.next at hnext
  dsimp only at hnext
  generalize cursor.advance (Gap.length cursor.rest) = start at hstart hblank hnext
  generalize front ++ cursor.rest.take (Gap.length cursor.rest) = front' at hstart
  split at hnext
  · cases hnext
  · rename_i c cs hrest
    simp only [Prod.mk.injEq, Option.some.injEq] at hnext
    obtain ⟨rfl, rfl⟩ := hnext
    have hstop := hstart.advance (Lexeme.read c cs).length
    have hoffset := hstop.offset_eq
    rw [byteLength_append] at hoffset
    refine ⟨⟨front', (start.advance (Lexeme.read c cs).length).rest, ?_⟩, _, hstop.withDepth _⟩
    refine ⟨?_, ?_, ?_, ?_, ?_⟩
    all_goals dsimp only
    all_goals rw [String.toList_ofList]
    · exact hstop.split
    · rw [hoffset, hstart.offset_eq]
    · rw [hstop.position_eq, hstart.position_eq, rest_advance, List.take_append_drop]
    · rw [hrest, Lexeme.length]
      simp
    · intro d hd
      rw [hrest] at hd
      exact Lexeme.isBreakChar_of_mem (hblank hrest) hd

theorem Behind.stop (h : cursor.Behind text front) {stop : Cursor}
    (hnext : cursor.next = (none, stop)) : stop.Behind text text.toList := by
  have hstart := h.advance (Gap.length cursor.rest)
  unfold Cursor.next at hnext
  dsimp only at hnext
  split at hnext
  · rename_i hrest
    cases hnext
    have hsplit := hstart.split
    rw [hrest, List.append_nil] at hsplit
    rwa [← hsplit] at hstart
  · cases hnext

theorem Behind.reads (h : cursor.Behind text front) {tokens : List Token} {stop : Cursor}
    (hreads : cursor.Reads tokens stop) :
    (∀ token ∈ tokens, token.StandsIn text) ∧ stop.Behind text text.toList := by
  induction hreads generalizing front with
  | nil hnext => exact ⟨nofun, h.stop hnext⟩
  | cons hnext _ ih =>
    obtain ⟨htoken, front', hbehind⟩ := h.next hnext
    obtain ⟨htokens, hstop⟩ := ih hbehind
    refine ⟨?_, hstop⟩
    intro token hmem
    rcases List.mem_cons.1 hmem with rfl | hmem
    · exact htoken
    · exact htokens token hmem

end Cursor

namespace Token

theorem standsIn_of_mem {text : String} {token : Token} (h : token ∈ ofText text) :
    token.StandsIn text :=
  ((Cursor.behind_ofText text).reads (Cursor.reads_scan text)).1 token h

/-! ## What follows for a token -/

variable {text : String} {token : Token}

theorem StandsIn.positionOf_span (h : token.StandsIn text) :
    (LineTable.of text).positionOf token.span.start = token.range.start ∧
      (LineTable.of text).positionOf token.span.stop = token.range.stop := by
  obtain ⟨front, back, h⟩ := h
  rw [h.span_eq, h.range_eq]
  constructor
  · have hsplit := h.split
    rw [List.append_assoc] at hsplit
    exact LineTable.positionOf_byteLength hsplit
  · dsimp only
    rw [← byteLength_append]
    exact LineTable.positionOf_byteLength h.split

theorem StandsIn.isBoundary (h : token.StandsIn text) :
    Text.isBoundary text token.span.start = true ∧ Text.isBoundary text token.span.stop = true := by
  obtain ⟨front, back, h⟩ := h
  rw [h.span_eq]
  have hsplit := h.split
  rw [List.append_assoc] at hsplit
  exact ⟨isBoundary_iff.2 ⟨front, _, hsplit, rfl⟩,
    isBoundary_iff.2 ⟨_, back, h.split, byteLength_append _ _⟩⟩

theorem StandsIn.span_start_lt_stop (h : token.StandsIn text) :
    token.span.start < token.span.stop := by
  obtain ⟨front, back, h⟩ := h
  rw [h.span_eq]
  obtain ⟨c, cs, htext⟩ := List.exists_cons_of_ne_nil h.ne_nil
  have hpos := c.utf8Size_pos
  rw [htext, byteLength_cons]
  dsimp only
  omega

theorem StandsIn.range_stop (h : token.StandsIn text) :
    token.range.stop =
      ⟨token.range.start.line, token.range.start.character + unitLength token.text.toList⟩ := by
  obtain ⟨front, back, h⟩ := h
  rw [h.range_eq]
  dsimp only
  rw [walk_append, walk_of_no_break h.no_break]

/-- A text is read to its end. -/
theorem position_scan (text : String) :
    (scan text).2.position = (LineTable.of text).endPosition := by
  have hstop := ((Cursor.behind_ofText text).reads (Cursor.reads_scan text)).2
  have hposition := hstop.positionOf_offset
  rw [hstop.offset_eq, byteLength_toList] at hposition
  exact hposition.symm

end Token

/-! ## The laws -/

/-- Both ends of every token are where the line table says, no token goes over the end of its line,
and a text that is read to its end is read up to its last position. -/
theorem Token.positions_are_those_of_the_table (text : String) :
    (∀ token ∈ ofText text,
      token.range.start = (LineTable.of text).positionOf token.span.start ∧
      token.range.stop = (LineTable.of text).positionOf token.span.stop ∧
      token.range.stop.line = token.range.start.line ∧
      token.range.stop.character =
        token.range.start.character + unitLength token.text.toList) ∧
    (scan text).2.position = (LineTable.of text).endPosition := by
  refine ⟨?_, position_scan text⟩
  intro token hmem
  have hstands := standsIn_of_mem hmem
  obtain ⟨hstart, hend⟩ := hstands.positionOf_span
  have hline := hstands.range_stop
  refine ⟨hstart.symm, hend.symm, ?_, ?_⟩
  · rw [hline]
  · rw [hline]

end CaplOutline
