-- A text with a blank in the place of one character. If the character takes one byte and
-- one column, as the blank does, then all that stands before and behind it keeps its place.
import CaplOutline.Proofs.Text.Addressing

namespace CaplOutline.Text

/-- The text with a blank for the byte at `offset`. -/
def blankAt (text : String) (offset : Nat) : String :=
  slice text 0 offset ++ " " ++ slice text (offset + 1) text.utf8ByteSize

/-! ## The characters of both texts -/

section

variable {text : String} {pre post : List Char} {c : Char}

theorem toList_blankAt (h : text.toList = pre ++ c :: post) (hsize : c.utf8Size = 1) :
    (blankAt text (byteLength pre)).toList = pre ++ ' ' :: post := by
  have hbehind : text.toList = (pre ++ [c]) ++ post := by simp [h]
  have hplace : byteLength pre + 1 = byteLength (pre ++ [c]) := by simp [hsize]
  unfold blankAt
  rw [slice_front h, hplace, slice_back hbehind]
  simp [String.toList_append]

/-- A front of the text ends before the character or takes it in. -/
theorem exists_blanked_front {front back : List Char} (h : pre ++ c :: post = front ++ back)
    (hsize : c.utf8Size = 1) :
    ∃ front' back', pre ++ ' ' :: post = front' ++ back' ∧ byteLength front' = byteLength front ∧
      (byteLength front ≤ byteLength pre → front' = front) ∧
      (byteLength pre < byteLength front → back' = back) := by
  rcases List.append_eq_append_iff.1 h with ⟨middle, rfl, hback⟩ | ⟨middle, rfl, rfl⟩
  · cases middle with
    | nil =>
      refine ⟨pre, ' ' :: post, rfl, by simp, by simp, ?_⟩
      intro hlt
      simp at hlt
    | cons d middle =>
      obtain ⟨rfl, rfl⟩ := List.cons.inj hback
      refine ⟨pre ++ ' ' :: middle, back, by simp, ?_, ?_, fun _ => rfl⟩
      · rw [byteLength_append, byteLength_append, byteLength_cons, byteLength_cons, hsize]
        rfl
      · intro hle
        rw [byteLength_append, byteLength_cons, hsize] at hle
        omega
  · refine ⟨front, middle ++ ' ' :: post, by simp, rfl, fun _ => rfl, ?_⟩
    intro hlt
    rw [byteLength_append] at hlt
    omega

theorem isBoundary_blankAt (h : text.toList = pre ++ c :: post) (hsize : c.utf8Size = 1)
    {offset : Nat} (hoffset : isBoundary text offset = true) :
    isBoundary (blankAt text (byteLength pre)) offset = true := by
  obtain ⟨front, back, hsplit, rfl⟩ := isBoundary_iff.1 hoffset
  obtain ⟨front', back', hblank, hplace, -⟩ := exists_blanked_front (h.symm.trans hsplit) hsize
  rw [← toList_blankAt h hsize] at hblank
  exact isBoundary_iff.2 ⟨front', back', hblank, hplace⟩

end

theorem slice_of_ge {text : String} {start stop : Nat} (h : stop ≤ start) :
    slice text start stop = "" := by
  unfold slice String.Pos.Raw.extract
  exact if_pos h

/-- A piece of the text without the character is the same piece. -/
theorem slice_blankAt {text : String} {pre post : List Char} {c : Char} {start stop : Nat}
    (h : text.toList = pre ++ c :: post) (hsize : c.utf8Size = 1)
    (hstart : isBoundary text start = true) (hstop : isBoundary text stop = true)
    (haway : byteLength pre < start ∨ stop ≤ byteLength pre) :
    slice (blankAt text (byteLength pre)) start stop = slice text start stop := by
  rcases Nat.le_total stop start with hle | hle
  · rw [slice_of_ge hle, slice_of_ge hle]
  obtain ⟨front, middle, back, hsplit, rfl, rfl⟩ := exists_pieces hstart hstop hle
  rcases haway with hlt | hge
  · have hpieces : pre ++ c :: post = front ++ (middle ++ back) := by
      rw [← h, hsplit, List.append_assoc]
    obtain ⟨front', back', hblank, hplace, -, hback⟩ := exists_blanked_front hpieces hsize
    rw [hback hlt, ← toList_blankAt h hsize, ← List.append_assoc] at hblank
    have hstop' : byteLength (front ++ middle) = byteLength (front' ++ middle) := by
      simp [hplace]
    rw [slice_middle hsplit, hstop', ← hplace, slice_middle hblank]
  · obtain ⟨front', back', hblank, -, hfront, -⟩ :=
      exists_blanked_front (h.symm.trans hsplit) hsize
    rw [hfront hge, ← toList_blankAt h hsize] at hblank
    rw [slice_middle hsplit, slice_middle hblank]

/-! ## Positions -/

section

variable {c : Char} (hc : isBreakChar c = false) (hunits : units c = 1)

include hc

theorem endsLine_blank (d : Char) (pre post rest : List Char) :
    endsLine d (pre ++ ' ' :: post ++ rest) = endsLine d (pre ++ c :: post ++ rest) := by
  cases pre with
  | nil =>
    have hfeed : c ≠ '\n' := by
      rintro rfl
      cases hc
    have hhead : (some c != some '\n') = true := by simpa using hfeed
    change _ = (d == '\n' || d == '\r' && (some c != some '\n'))
    rw [hhead]
    rfl
  | cons _ _ => rfl

include hunits

/-- A walk over the blank is a walk over the character. -/
theorem walk_blank (p : Position) (pre post rest : List Char) :
    walk p (pre ++ ' ' :: post) rest = walk p (pre ++ c :: post) rest := by
  induction pre generalizing p with
  | nil =>
    have hblank : advance p ' ' (post ++ rest) = advance p c (post ++ rest) := by
      unfold advance
      rw [endsLine_of_not_break hc, endsLine_of_not_break (by decide), hunits]
      rfl
    rw [List.nil_append, List.nil_append, walk, walk, hblank]
  | cons d pre ih =>
    have hstep : advance p d (pre ++ ' ' :: post ++ rest) =
        advance p d (pre ++ c :: post ++ rest) := by
      unfold advance
      rw [endsLine_blank hc]
    rw [List.cons_append, List.cons_append, walk, walk, hstep, ih]

end

end CaplOutline.Text
