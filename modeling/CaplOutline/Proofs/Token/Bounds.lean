-- How far a cursor gets. No count that it keeps goes over the number of bytes that it has
-- passed, every token that it reads stands behind those that it has read, and the source can
-- be cut at both ends of each.
import Mathlib.Algebra.GroupWithZero.Nat
import CaplOutline.Proofs.Token.Words

namespace CaplOutline

/-! ## Pieces that can be cut out -/

namespace Text

/-- The piece lies in the text, is not inverted, and cuts no character in two. -/
structure Sliceable (text : String) (span : Span) : Prop where
  ordered : span.start ≤ span.stop
  inside : span.stop ≤ text.utf8ByteSize
  start_boundary : isBoundary text span.start = true
  stop_boundary : isBoundary text span.stop = true

theorem sliceable_of_isBoundary {text : String} {start stop : Nat} (hle : start ≤ stop)
    (hstart : isBoundary text start = true) (hstop : isBoundary text stop = true) :
    Sliceable text ⟨start, stop⟩ :=
  ⟨hle, le_size_of_isBoundary hstop, hstart, hstop⟩

/-! ## Lines and columns -/

theorem units_le_utf8Size (c : Char) : units c ≤ c.utf8Size := by
  have hpos := c.utf8Size_pos
  unfold units
  split
  · exact hpos
  · rename_i hlarge
    have hlow : ∀ bound : UInt32, bound.toNat < 0x10000 → ¬ c.val ≤ bound := by
      intro bound hbound hle
      have hval : c.toNat ≤ bound.toNat := UInt32.le_iff_toNat_le.1 hle
      omega
    unfold Char.utf8Size
    rw [if_neg (hlow _ (by decide)), if_neg (hlow _ (by decide)), if_neg (hlow _ (by decide))]
    decide

/-- Every character takes at least as many bytes as it adds to the line and the column. -/
theorem place_walk_le (p : Position) (cs post : List Char) :
    (walk p cs post).line + (walk p cs post).character ≤
      p.line + p.character + byteLength cs := by
  induction cs generalizing p with
  | nil => exact Nat.le_refl _
  | cons c cs ih =>
    have hunits := units_le_utf8Size c
    have hpos := c.utf8Size_pos
    refine Nat.le_trans (ih _) ?_
    rw [byteLength_cons, Text.advance]
    split <;> dsimp only <;> omega

end Text

open Text

/-! ## One token behind another -/

namespace Token

/-- The first token ends before the second one starts. -/
structure Precedes (first second : Token) : Prop where
  bytes : first.span.stop ≤ second.span.start
  places : first.range.stop ≤ second.range.start

/-- The token stands in the text, in front of the cursor. -/
structure Passed (text : String) (cursor : Cursor) (token : Token) : Prop where
  stands : token.StandsIn text
  bytes : token.span.stop ≤ cursor.offset
  places : token.range.stop ≤ cursor.position

end Token

namespace Cursor

theorem offset_le_advance (n : Nat) (cursor : Cursor) :
    cursor.offset ≤ (cursor.advance n).offset := by
  induction n generalizing cursor with
  | zero => exact Nat.le_refl _
  | succ n ih =>
    refine Nat.le_trans ?_ (ih cursor.bump)
    unfold bump
    split
    · exact Nat.le_refl _
    · exact Nat.le_add_right _ _

/-- The token is read from the text between the two cursors. -/
structure Delivers (text : String) (cursor : Cursor) (token : Token) (cursor' : Cursor) : Prop
    extends cursor.Yields token cursor' where
  stands : token.StandsIn text
  offset_le : cursor.offset ≤ token.span.start
  offset_eq : cursor'.offset = token.span.stop

variable {text : String} {front : List Char} {cursor cursor' : Cursor} {first token : Token}

theorem Behind.delivers (h : cursor.Behind text front)
    (hnext : cursor.next = (some token, cursor')) : cursor.Delivers text token cursor' := by
  have hspan : cursor.offset ≤ token.span.start ∧ cursor'.offset = token.span.stop := by
    unfold Cursor.next at hnext
    dsimp only at hnext
    split at hnext
    · cases hnext
    · cases hnext
      exact ⟨offset_le_advance _ _, rfl⟩
  exact ⟨yields_of_next hnext, (h.next hnext).1, hspan.1, hspan.2⟩

theorem Delivers.offset_lt (h : cursor.Delivers text token cursor') :
    cursor.offset < cursor'.offset := by
  have hle := h.offset_le
  have hlt := h.stands.span_start_lt_stop
  rw [h.offset_eq]
  omega

theorem Delivers.passed (h : cursor.Delivers text token cursor') : token.Passed text cursor' :=
  ⟨h.stands, Nat.le_of_eq h.offset_eq.symm, le_of_eq h.position_eq.symm⟩

theorem Delivers.passed_of_passed (h : cursor.Delivers text token cursor')
    (hfirst : first.Passed text cursor) : first.Passed text cursor' := by
  refine ⟨hfirst.stands, Nat.le_trans hfirst.bytes (Nat.le_of_lt h.offset_lt), ?_⟩
  rw [h.position_eq]
  exact le_trans hfirst.places (le_trans h.start_ge h.start_le_stop)

theorem Delivers.precedes (h : cursor.Delivers text token cursor')
    (hfirst : first.Passed text cursor) : first.Precedes token :=
  ⟨Nat.le_trans hfirst.bytes h.offset_le, le_trans hfirst.places h.start_ge⟩

theorem Behind.reads_in_order {text : String} {front : List Char} {cursor stop : Cursor}
    {tokens : List Token} (h : cursor.Behind text front) (hreads : cursor.Reads tokens stop) :
    (∀ token ∈ tokens, cursor.offset ≤ token.span.start) ∧ tokens.Pairwise Token.Precedes := by
  induction hreads generalizing front with
  | nil _ => exact ⟨nofun, List.Pairwise.nil⟩
  | cons hnext hreads ih =>
    have hdelivers := h.delivers hnext
    obtain ⟨-, front', hbehind⟩ := h.next hnext
    obtain ⟨hlow, horder⟩ := ih hbehind
    have hplaces := hreads.in_order.1
    rw [hdelivers.position_eq] at hplaces
    rw [hdelivers.offset_eq] at hlow
    refine ⟨?_, List.pairwise_cons.2 ⟨fun other hmem => ⟨hlow other hmem, hplaces other hmem⟩,
      horder⟩⟩
    intro other hmem
    rcases List.mem_cons.1 hmem with rfl | hmem
    · exact hdelivers.offset_le
    · exact Nat.le_trans hdelivers.offset_le
        (Nat.le_trans hdelivers.stands.span_start_lt_stop.le (hlow other hmem))

/-! ## What a cursor counts -/

/-- The line and the column are no larger than the text, wherever the cursor goes. -/
theorem Behind.place_le (h : cursor.Behind text front) :
    cursor.position.line + cursor.position.character ≤ text.utf8ByteSize := by
  have hplace := place_walk_le .origin front cursor.rest
  have hsize : text.utf8ByteSize = byteLength front + byteLength cursor.rest := by
    rw [← byteLength_toList, h.split, byteLength_append]
  rw [← h.position_eq] at hplace
  simp only [Position.origin] at hplace
  omega

theorem Behind.offset_le_size (h : cursor.Behind text front) :
    cursor.offset ≤ text.utf8ByteSize := by
  rw [h.offset_eq, ← byteLength_toList, h.split, byteLength_append]
  exact Nat.le_add_right _ _

theorem Delivers.size_eq (h : cursor.Delivers text token cursor') :
    token.span.start + token.text.utf8ByteSize = cursor'.offset := by
  obtain ⟨front, back, hstands⟩ := h.stands
  rw [h.offset_eq, hstands.span_eq, byteLength_toList]

/-- The tokens that are read take their bytes from the text between the two cursors. -/
theorem Behind.size_reads_le {stop : Cursor} {tokens : List Token} (h : cursor.Behind text front)
    (hreads : cursor.Reads tokens stop) :
    cursor.offset + (tokens.map (·.text.utf8ByteSize)).sum ≤ text.utf8ByteSize := by
  induction hreads generalizing front with
  | nil _ => simpa using h.offset_le_size
  | cons hnext _ ih =>
    have hdelivers := h.delivers hnext
    obtain ⟨-, front', hbehind⟩ := h.next hnext
    have hrest := ih hbehind
    have hsize := hdelivers.size_eq
    have hstart := hdelivers.offset_le
    rw [List.map_cons, List.sum_cons]
    omega

/-- A brace takes a byte. -/
theorem Delivers.depth_le (h : cursor.Delivers text token cursor')
    (hdepth : cursor.depth ≤ cursor.offset) : cursor'.depth ≤ cursor'.offset := by
  have hlt := h.offset_lt
  rw [h.depth_after]
  unfold depthAfter
  split <;> omega

end Cursor

/-- No byte of a text belongs to two tokens. -/
theorem Token.size_ofText_le (text : String) :
    ((ofText text).map (·.text.utf8ByteSize)).sum ≤ text.utf8ByteSize := by
  have hsize := (Cursor.behind_ofText text).size_reads_le (Cursor.reads_scan text)
  change 0 + _ ≤ _ at hsize
  rwa [Nat.zero_add] at hsize

/-- The tokens of a text stand one behind another. -/
theorem Token.pairwise_precedes (text : String) : (ofText text).Pairwise Precedes :=
  ((Cursor.behind_ofText text).reads_in_order (Cursor.reads_scan text)).2

end CaplOutline
