-- What the tokens of a text say. A token is cut out of the text by the two ends of its
-- range, as an editor would do it, no two tokens overlap, and a word is spelled as its
-- kind says.
import Mathlib.Data.List.Basic
import CaplOutline.Proofs.Token.Placement

namespace CaplOutline

open Text

/-! ## Cutting a token out of its text -/

namespace Token

variable {text : String} {token : Token}

/-- The two ends of a token are never inside a pair of line breaks, so they lead back to it. -/
theorem StandsIn.offsetOf_range (h : token.StandsIn text) :
    (LineTable.of text).offsetOf token.range.start = token.span.start ∧
      (LineTable.of text).offsetOf token.range.stop = token.span.stop := by
  obtain ⟨front, back, h⟩ := h
  rw [h.range_eq, h.span_eq]
  constructor
  · have hsplit := h.split
    rw [List.append_assoc] at hsplit
    refine LineTable.offsetOf_walk hsplit ?_
    rintro ⟨-, hfeed⟩
    rw [List.head?_append_of_ne_nil _ h.ne_nil] at hfeed
    have hbreak := h.no_break _ (List.mem_of_head? hfeed)
    exact absurd hbreak (by decide)
  · dsimp only
    rw [← byteLength_append]
    refine LineTable.offsetOf_walk h.split ?_
    rintro ⟨hreturn, -⟩
    rw [List.getLast?_append_of_ne_nil _ h.ne_nil] at hreturn
    have hbreak := h.no_break _ (List.mem_of_getLast? hreturn)
    exact absurd hbreak (by decide)

theorem StandsIn.slice_range (h : token.StandsIn text) :
    slice text ((LineTable.of text).offsetOf token.range.start)
      ((LineTable.of text).offsetOf token.range.stop) = token.text := by
  obtain ⟨hstart, hstop⟩ := h.offsetOf_range
  rw [hstart, hstop]
  obtain ⟨front, back, h⟩ := h
  rw [h.span_eq]
  dsimp only
  rw [slice_eq h.split, String.ofList_toList]

theorem StandsIn.start_lt_stop (h : token.StandsIn text) :
    token.range.start < token.range.stop := by
  rw [h.range_stop]
  obtain ⟨front, back, h⟩ := h
  obtain ⟨c, cs, hcs⟩ := List.exists_cons_of_ne_nil h.ne_nil
  have := units_pos c
  refine Or.inr ⟨rfl, ?_⟩
  rw [hcs, unitLength_cons]
  dsimp only
  omega

end Token

/-! ## One token behind another -/

namespace Cursor

theorem Reads.in_order {cursor stop : Cursor} {tokens : List Token}
    (h : cursor.Reads tokens stop) :
    (∀ token ∈ tokens, cursor.position ≤ token.range.start) ∧
      tokens.Pairwise fun first second => first.range.stop ≤ second.range.start := by
  induction h with
  | nil _ => exact ⟨nofun, List.Pairwise.nil⟩
  | cons hnext _ ih =>
    have hyields := yields_of_next hnext
    obtain ⟨hlow, horder⟩ := ih
    rw [hyields.position_eq] at hlow
    refine ⟨?_, List.pairwise_cons.2 ⟨hlow, horder⟩⟩
    intro token hmem
    rcases List.mem_cons.1 hmem with rfl | hmem
    · exact hyields.start_ge
    · exact le_trans hyields.start_ge (le_trans hyields.start_le_stop (hlow token hmem))

/-- What holds of each token that a cursor reads holds of all of them. -/
theorem Reads.forall_mem {P : Token → Prop}
    (h : ∀ cursor token cursor', Cursor.next cursor = (some token, cursor') → P token)
    {cursor stop : Cursor} {tokens : List Token} (hreads : cursor.Reads tokens stop) :
    ∀ token ∈ tokens, P token := by
  induction hreads with
  | nil _ => exact nofun
  | cons hnext _ ih =>
    intro token hmem
    rcases List.mem_cons.1 hmem with rfl | hmem
    · exact h _ _ _ hnext
    · exact ih token hmem

end Cursor

theorem Token.pairwise_ofText (text : String) :
    (ofText text).Pairwise fun first second => first.range.stop ≤ second.range.start :=
  (Cursor.reads_scan text).in_order.2

/-! ## Spelling -/

/-- A word is made of the characters of words, and its kind is the one of its spelling. -/
def Token.Spelled (token : Token) : Prop :=
  token.isWord = true → (∀ c ∈ token.text.toList, isWordChar c = true) ∧
    token.kind = ((Keyword.ofWord? token.text).map TokenKind.keyword).getD .identifier

theorem isWordChar_of_isWordStart {c : Char} (h : isWordStart c = true) : isWordChar c = true := by
  unfold isWordStart at h
  unfold isWordChar Char.isAlphanum
  rw [Bool.or_eq_true] at h ⊢
  rcases h with h | h
  · left
    simp [h]
  · exact Or.inr h

/-- No blank stands in a word. -/
theorem isBlank_of_isWordChar {c : Char} (h : isWordChar c = true) : isBlank c = false := by
  have hrange : 48 ≤ c.toNat ∧ c.toNat ≤ 122 := by
    change (((decide (65 ≤ c.val ∧ c.val ≤ 90) ||
      (decide (97 ≤ c.val) && decide (c.val ≤ 122))) ||
        (decide (48 ≤ c.val) && decide (c.val ≤ 57))) || c == '_') = true at h
    simp only [Bool.or_eq_true, Bool.and_eq_true, decide_eq_true_eq, beq_iff_eq,
      UInt32.le_iff_toNat_le] at h
    rcases h with ((h | h) | h) | rfl
    · exact ⟨Nat.le_trans (by decide) h.1, Nat.le_trans h.2 (by decide)⟩
    · exact ⟨Nat.le_trans (by decide) h.1, Nat.le_trans h.2 (by decide)⟩
    · exact ⟨Nat.le_trans (by decide) h.1, Nat.le_trans h.2 (by decide)⟩
    · decide
  simp only [isBlank, blankRanges, List.any_cons, List.any_nil, Bool.or_false, Bool.or_eq_false_iff,
    Bool.and_eq_false_iff, decide_eq_false_iff_not]
  omega

theorem Lexeme.isWord_kind_operator (c : Char) (following : Option Char) :
    (operator c following).kind.isWord = false := by
  unfold operator
  split <;> first | rfl | (split <;> rfl)

/-- Only what starts like a word is a word. -/
theorem Lexeme.read_of_isWord {c : Char} {cs : List Char} (h : (read c cs).kind.isWord = true) :
    isWordStart c = true ∧ read c cs = word c cs := by
  unfold read at h ⊢
  split at h
  · cases h
  · split at h
    · cases h
    · split at h
      · cases h
      · split at h
        · rename_i hquote hchar hdirective hstart
          rw [if_neg hquote, if_neg hchar, if_neg hdirective, if_pos hstart]
          exact ⟨hstart, rfl⟩
        · split at h
          · cases h
          · rw [isWord_kind_operator] at h
            cases h

theorem Cursor.spelled_of_next (cursor : Cursor) (token : Token) (cursor' : Cursor)
    (h : cursor.next = (some token, cursor')) : token.Spelled := by
  intro hword
  unfold Cursor.next at h
  dsimp only at h
  split at h
  · cases h
  · rename_i c cs hrest
    simp only [Prod.mk.injEq, Option.some.injEq] at h
    obtain ⟨rfl, -⟩ := h
    obtain ⟨hstart, hread⟩ := Lexeme.read_of_isWord hword
    have htake : (c :: cs).take (Lexeme.word c cs).length = c :: cs.takeWhile isWordChar := by
      unfold Lexeme.length Lexeme.word
      rw [List.take_succ_cons, ← List.prefix_iff_eq_take.1 (List.takeWhile_prefix isWordChar)]
    dsimp only
    rw [hread, hrest, htake]
    refine ⟨?_, rfl⟩
    rw [String.toList_ofList]
    intro d hd
    rcases List.mem_cons.1 hd with rfl | hd
    · exact isWordChar_of_isWordStart hstart
    · exact List.mem_takeWhile_imp hd

/-- The keywords that may stand for a name have one spelling each. -/
theorem Keyword.spelling_of_ofWord? {word : String} {keyword : Keyword}
    (h : ofWord? word = some keyword) (hkeyword : keyword ∈ [on, struct, enum]) :
    word ∈ ["on", "struct", "enum"] := by
  unfold ofWord? at h
  split at h
  case h_9 =>
    split at h
    · cases h
      simp at hkeyword
    · cases h
  all_goals
    cases h
    simp at hkeyword ⊢

theorem Token.spelled_of_mem {text : String} {token : Token} (h : token ∈ ofText text) :
    token.Spelled :=
  (Cursor.reads_scan text).forall_mem Cursor.spelled_of_next token h

end CaplOutline
