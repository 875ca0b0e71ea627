-- Edits that are addressed in one text and applied in another. The place of a position
-- depends on the text only up to the character behind it. So edits of pieces that do not touch
-- may all be addressed in the first text, if the last piece is edited first, and an edit is
-- undone by the edit that puts the old piece back.
import Mathlib.Data.List.Chain
import CaplOutline.Document
import CaplOutline.Proofs.Text.Clamping

namespace CaplOutline.Text

/-! ## Addresses in another text -/

/-- Texts that are alike up to the character behind a place agree on where it is. -/
theorem LineTable.offsetOf_positionOf_of_alike {text edited : String} {front back back' : List Char}
    (htext : text.toList = front ++ back) (hedited : edited.toList = front ++ back')
    (hhead : back.head? = back'.head?) (hcut : IsCut text (byteLength front)) :
    (of edited).offsetOf ((of text).positionOf (byteLength front)) = byteLength front := by
  rw [positionOf_byteLength htext, walk_congr hhead]
  apply offsetOf_walk hedited
  rw [← hhead]
  exact (isCut_byteLength_iff htext).1 hcut

/-- A piece of a text, between two byte offsets, and what is put in its place. -/
structure Splice where
  start : Nat
  stop : Nat
  replacement : String
  deriving DecidableEq, Repr

namespace Splice

/-- The edit that does this, addressed in `text`. -/
def edit (text : String) (splice : Splice) : Change :=
  let table := LineTable.of text
  .rangeEdit ⟨table.positionOf splice.start, table.positionOf splice.stop⟩ splice.replacement

/-- The text may be cut at both ends of the piece, and they are in order. -/
structure Fits (text : String) (splice : Splice) : Prop where
  start : IsCut text splice.start
  stop : IsCut text splice.stop
  inOrder : splice.start ≤ splice.stop

instance (text : String) (splice : Splice) : Decidable (splice.Fits text) :=
  decidable_of_iff (_ ∧ _ ∧ _) ⟨fun h => ⟨h.1, h.2.1, h.2.2⟩, fun h => ⟨h.1, h.2, h.3⟩⟩

variable {text edited : String} {splice : Splice} {front middle back back' : List Char}

/-- The edit does the same to every text that is alike up to the character behind the piece. -/
theorem apply_edit (hfits : splice.Fits text) (htext : text.toList = front ++ middle ++ back)
    (hstart : byteLength front = splice.start) (hstop : byteLength (front ++ middle) = splice.stop)
    (hedited : edited.toList = front ++ middle ++ back') (hhead : back.head? = back'.head?) :
    (splice.edit text).apply edited =
      String.ofList front ++ splice.replacement ++ String.ofList back' := by
  have hfirst : (LineTable.of edited).offsetOf ((LineTable.of text).positionOf splice.start) =
      byteLength front := by
    have hcut : IsCut text (byteLength front) := hstart ▸ hfits.start
    have hrest : text.toList = front ++ (middle ++ back) := by simp [htext]
    have hrest' : edited.toList = front ++ (middle ++ back') := by simp [hedited]
    have hnext : (middle ++ back).head? = (middle ++ back').head? := by
      simp [List.head?_append, hhead]
    rw [← hstart]
    exact LineTable.offsetOf_positionOf_of_alike hrest hrest' hnext hcut
  have hlast : (LineTable.of edited).offsetOf ((LineTable.of text).positionOf splice.stop) =
      byteLength (front ++ middle) := by
    have hcut : IsCut text (byteLength (front ++ middle)) := hstop ▸ hfits.stop
    rw [← hstop]
    exact LineTable.offsetOf_positionOf_of_alike htext hedited hhead hcut
  have hle : byteLength front ≤ byteLength (front ++ middle) := by
    rw [byteLength_append]
    omega
  apply Change.apply_of_pieces hedited
  · rw [hfirst, hlast, Nat.min_eq_left hle]
  · rw [hfirst, hlast, Nat.max_eq_right hle]

end Splice

/-! ## All pieces at once -/

/-- The text from byte `low` on, with every piece replaced. The pieces are in order. -/
def substituteFrom (text : String) (low : Nat) : List Splice → String
  | [] => slice text low text.utf8ByteSize
  | splice :: splices =>
    slice text low splice.start ++ splice.replacement ++ substituteFrom text splice.stop splices

/-- Between a piece and the next one there is something left of the text. -/
def Apart (splices : List Splice) : Prop := splices.IsChain (·.stop < ·.start)

section Pieces

variable {text : String} {splices : List Splice} {front back : List Char} {low : Nat}

/-- In front of the first piece the text stays as it is. -/
theorem head?_substituteFrom (hsplit : text.toList = front ++ back)
    (hfits : ∀ splice ∈ splices, splice.Fits text)
    (hlow : ∀ splice ∈ splices.head?, byteLength front < splice.start) :
    (substituteFrom text (byteLength front) splices).toList.head? = back.head? := by
  cases splices with
  | nil => rw [substituteFrom, slice_back hsplit, String.toList_ofList]
  | cons splice splices =>
    have hlt := hlow splice rfl
    have hstart := (hfits splice List.mem_cons_self).start.boundary
    obtain ⟨gap, rest, rfl, hplace⟩ := exists_middle hsplit hstart (Nat.le_of_lt hlt)
    have hgap : gap ≠ [] := by
      rintro rfl
      simp at hplace
      omega
    rw [← List.append_assoc] at hsplit
    rw [substituteFrom, ← hplace, slice_middle hsplit]
    simp [List.head?_append, List.head?_eq_some_head hgap]

theorem Change.applyAll_concat (text : String) (changes : List Change) (change : Change) :
    applyAll text (changes ++ [change]) = change.apply (applyAll text changes) := by
  simp [applyAll]

/-- The edit of a piece, when all pieces behind it are replaced already. -/
theorem apply_edit_first {splice : Splice} (hfit : splice.Fits text)
    (hfits : ∀ later ∈ splices, later.Fits text)
    (hnext : ∀ later ∈ splices.head?, splice.stop < later.start) :
    (splice.edit text).apply
        (slice text 0 splice.stop ++ substituteFrom text splice.stop splices) =
      slice text 0 splice.start ++ splice.replacement ++
        substituteFrom text splice.stop splices := by
  obtain ⟨front, middle, back, hsplit, hstart, hstop⟩ :=
    exists_pieces hfit.start.boundary hfit.stop.boundary hfit.inOrder
  have hfront : text.toList = front ++ (middle ++ back) := by simp [hsplit]
  have hhead : back.head? = (substituteFrom text splice.stop splices).toList.head? := by
    rw [← hstop] at hnext ⊢
    exact (head?_substituteFrom hsplit hfits hnext).symm
  have hedited : (slice text 0 splice.stop ++ substituteFrom text splice.stop splices).toList =
      front ++ middle ++ (substituteFrom text splice.stop splices).toList := by
    rw [← hstop, slice_front hsplit]
    simp
  rw [Splice.apply_edit hfit hsplit hstart hstop hedited hhead, String.ofList_toList, ← hstart,
    slice_front hfront]

/-- By induction on the pieces: the text in front of those that are replaced is still the old
one. -/
theorem applyAll_edits (hfits : ∀ splice ∈ splices, splice.Fits text) (hapart : Apart splices)
    (hlow : isBoundary text low = true) (hfirst : ∀ splice ∈ splices.head?, low ≤ splice.start) :
    Change.applyAll text (splices.map (Splice.edit text)).reverse =
      slice text 0 low ++ substituteFrom text low splices := by
  induction splices generalizing low with
  | nil =>
    have hsize := le_size_of_isBoundary hlow
    rw [substituteFrom, slice_append_slice hlow (isBoundary_size text) hsize, slice_all]
    rfl
  | cons splice splices ih =>
    have hfit := hfits splice List.mem_cons_self
    have hrest : ∀ later ∈ splices, later.Fits text := by
      intro later hlater
      exact hfits later (List.mem_cons_of_mem _ hlater)
    obtain ⟨hnext, hapart⟩ := List.isChain_cons.1 hapart
    have hbehind := ih hrest hapart hfit.stop.boundary fun later hlater =>
      Nat.le_of_lt (hnext later hlater)
    have hgap := slice_append_slice hlow hfit.start.boundary (hfirst splice rfl)
    rw [List.map_cons, List.reverse_cons, Change.applyAll_concat, hbehind,
      apply_edit_first hfit hrest hnext, substituteFrom, ← hgap]
    simp [String.append_assoc]

end Pieces

/-! ## The way back -/

/-- The place is in the middle of a pair of carriage return and line feed. -/
def IsInPair (text : String) (offset : Nat) : Prop :=
  (slice text 0 offset).toList.getLast? = some '\r' ∧
    (slice text offset text.utf8ByteSize).toList.head? = some '\n'

instance (text : String) (offset : Nat) : Decidable (IsInPair text offset) :=
  inferInstanceAs (Decidable (_ ∧ _))

/-- What took the place of a piece can be taken out again, if it does not begin or end in the middle
of a pair. -/
theorem apply_undo {text edited replacement : String} {front middle back : List Char}
    (htext : text.toList = front ++ middle ++ back)
    (hedited : edited.toList = front ++ replacement.toList ++ back)
    (hstart : ¬ IsInPair edited (byteLength front))
    (hstop : ¬ IsInPair edited (byteLength (front ++ replacement.toList))) :
    (Splice.edit edited ⟨byteLength front, byteLength (front ++ replacement.toList),
      String.ofList middle⟩).apply edited = text := by
  have hfront : edited.toList = front ++ (replacement.toList ++ back) := by simp [hedited]
  have hfits : Splice.Fits edited ⟨byteLength front, byteLength (front ++ replacement.toList),
      String.ofList middle⟩ := by
    refine ⟨⟨isBoundary_iff.2 ⟨_, _, hfront, rfl⟩, hstart⟩,
      ⟨isBoundary_iff.2 ⟨_, _, hedited, rfl⟩, hstop⟩, ?_⟩
    simp
  rw [Splice.apply_edit hfits hedited rfl rfl hedited rfl]
  apply String.toList_injective
  simp [htext]

theorem Change.apply_swap (text replacement : String) (p q : Position) :
    (rangeEdit ⟨q, p⟩ replacement).apply text = (rangeEdit ⟨p, q⟩ replacement).apply text := by
  unfold apply
  dsimp only
  rw [Nat.min_comm, Nat.max_comm]

/-! ## The laws -/

/-- Pieces of a document that do not touch are all replaced at once by the batch that edits the last
piece first, with each edit addressed in the text before the batch. -/
theorem edits_from_the_last_to_the_first_replace_all_pieces (document : Document) (version : Int)
    (splices : List Splice) (hversion : document.version < version)
    (hfits : ∀ splice ∈ splices, splice.Fits document.text) (hapart : Apart splices) :
    document.change version (splices.map (Splice.edit document.text)).reverse =
      (.applied version,
        { document with text := substituteFrom document.text 0 splices, version }) := by
  have hempty : slice document.text 0 0 = "" := by
    have hsplit : document.text.toList = [] ++ document.text.toList := rfl
    exact slice_front hsplit
  have hall := applyAll_edits hfits hapart (isBoundary_zero document.text) fun _ _ => Nat.zero_le _
  rw [hempty, String.empty_append] at hall
  unfold Document.change
  rw [if_neg (Int.not_le.2 hversion), hall]

/-- The second piece ends behind a line break, and the first one leaves a line break behind. -/
theorem two_pieces_next_to_line_breaks :
    (Document.new "node" "a\r\nb😀c\rd" 1).change 2
        [.rangeEdit ⟨⟨1, 3⟩, ⟨2, 0⟩⟩ "x", .rangeEdit ⟨⟨1, 0⟩, ⟨1, 1⟩⟩ "\n"] =
      (.applied 2, Document.new "node" "a\r\n\n😀xd" 2) := by
  have hall := edits_from_the_last_to_the_first_replace_all_pieces
    (Document.new "node" "a\r\nb😀c\rd" 1) 2 [⟨3, 4, "\n"⟩, ⟨8, 10, "x"⟩] (by decide)
    (by decide +kernel) (by simp [Apart])
  have hedits : ([⟨3, 4, "\n"⟩, ⟨8, 10, "x"⟩].map (Splice.edit "a\r\nb😀c\rd")).reverse =
      [.rangeEdit ⟨⟨1, 3⟩, ⟨2, 0⟩⟩ "x", .rangeEdit ⟨⟨1, 0⟩, ⟨1, 1⟩⟩ "\n"] := by decide +kernel
  have htext : substituteFrom "a\r\nb😀c\rd" 0 [⟨3, 4, "\n"⟩, ⟨8, 10, "x"⟩] = "a\r\n\n😀xd" := by
    decide +kernel
  dsimp only [Document.new] at hall ⊢
  rw [← hedits, hall, htext]

/-- An edit is undone by the edit that puts the old piece back, addressed in the text after the
edit, if neither end of what was put in is in the middle of a pair. And the two ends of a range may
come in either order. -/
theorem every_edit_can_be_undone (text replacement : String) (p q : Position) :
    let low := min ((LineTable.of text).offsetOf p) ((LineTable.of text).offsetOf q)
    let high := max ((LineTable.of text).offsetOf p) ((LineTable.of text).offsetOf q)
    let edited := (Change.rangeEdit ⟨p, q⟩ replacement).apply text
    (¬ IsInPair edited low → ¬ IsInPair edited (low + replacement.utf8ByteSize) →
      (Splice.edit edited ⟨low, low + replacement.utf8ByteSize, slice text low high⟩).apply edited =
        text) ∧
    (Change.rangeEdit ⟨q, p⟩ replacement).apply text = edited := by
  intro low high edited
  refine ⟨?_, Change.apply_swap text replacement p q⟩
  intro hstart hstop
  obtain ⟨front, middle, back, hsplit, hlow, hhigh, happly⟩ :=
    Change.exists_pieces text ⟨p, q⟩ replacement
  have hedited : edited.toList = front ++ replacement.toList ++ back := by
    change ((Change.rangeEdit ⟨p, q⟩ replacement).apply text).toList = _
    rw [happly]
    simp
  have hpiece : slice text low high = String.ofList middle := by
    change slice text (min _ _) (max _ _) = _
    rw [← hlow, ← hhigh, slice_middle hsplit]
  have hfirst : low = byteLength front := hlow.symm
  have hlast : low + replacement.utf8ByteSize = byteLength (front ++ replacement.toList) := by
    rw [byteLength_append, byteLength_toList, hfirst]
  rw [hpiece]
  rw [hlast] at hstop ⊢
  rw [hfirst] at hstart ⊢
  exact apply_undo hsplit hedited hstart hstop

/-- The range begins behind the text and ends in front of a pair. -/
theorem an_edit_of_an_inverted_range_is_undone :
    (Change.rangeEdit ⟨⟨7, 0⟩, ⟨0, 1⟩⟩ "😀\r").apply "a\r\nb" = "a😀\r" ∧
      (Change.rangeEdit ⟨⟨0, 1⟩, ⟨1, 0⟩⟩ "\r\nb").apply "a😀\r" = "a\r\nb" := by
  have hedited : (Change.rangeEdit ⟨⟨7, 0⟩, ⟨0, 1⟩⟩ "😀\r").apply "a\r\nb" = "a😀\r" := by
    decide +kernel
  obtain ⟨hundo, -⟩ := every_edit_can_be_undone "a\r\nb" "😀\r" ⟨7, 0⟩ ⟨0, 1⟩
  have hback := hundo (by decide +kernel) (by decide +kernel)
  have hedit : Splice.edit "a😀\r" ⟨1, 6, "\r\nb"⟩ =
      .rangeEdit ⟨⟨0, 1⟩, ⟨1, 0⟩⟩ "\r\nb" := by decide +kernel
  refine ⟨hedited, ?_⟩
  rw [← hedit]
  rw [hedited] at hback
  exact hback

end CaplOutline.Text
