-- What a detail can be. It is the words of its source on one line, and if that line is too
-- long, its longest front for which there is room. So a detail is never much longer than what
-- it may show, and it is empty only if there is no word.
import Mathlib.Order.Bounds.Defs
import CaplOutline.Outline.Detail
import CaplOutline.Proofs.Text.Words

namespace CaplOutline.Outline

open Text

/-! ## Fronts that fit -/

theorem fit_isPrefix (room : Nat) (word : List Char) : fit room word <+: word := by
  induction word generalizing room with
  | nil => exact List.nil_prefix
  | cons c cs ih =>
    unfold fit
    split
    · exact List.cons_prefix_cons.2 ⟨rfl, ih _⟩
    · exact List.nil_prefix

theorem byteLength_fit_le (room : Nat) (word : List Char) : byteLength (fit room word) ≤ room := by
  induction word generalizing room with
  | nil => exact Nat.zero_le _
  | cons c cs ih =>
    unfold fit
    split
    · rename_i hroom
      have hrest := ih (room - c.utf8Size)
      rw [byteLength_cons]
      omega
    · exact Nat.zero_le _

/-- No longer front of the word has room. -/
theorem byteLength_le_fit {room : Nat} {front word : List Char} (h : front <+: word)
    (hroom : byteLength front ≤ room) : byteLength front ≤ byteLength (fit room word) := by
  induction front generalizing room word with
  | nil => exact Nat.zero_le _
  | cons c front ih =>
    obtain ⟨back, rfl⟩ := h
    rw [byteLength_cons] at hroom
    have hroom' : byteLength front ≤ room - c.utf8Size := by omega
    have hrest := ih (List.prefix_append front back) hroom'
    rw [List.cons_append, fit, if_pos (by omega), byteLength_cons, byteLength_cons]
    omega

theorem fit_append {room : Nat} {front : List Char} (h : byteLength front ≤ room)
    (cs : List Char) : fit room (front ++ cs) = front ++ fit (room - byteLength front) cs := by
  induction front generalizing room with
  | nil => rfl
  | cons c front ih =>
    rw [byteLength_cons] at h
    rw [List.cons_append, fit, if_pos (by omega), ih (by omega), byteLength_cons,
      Nat.sub_sub, List.cons_append]

/-- What follows a word that does not fit is not seen. -/
theorem fit_append_of_lt {room : Nat} {word : List Char} (h : room < byteLength word)
    (cs : List Char) : fit room (word ++ cs) = fit room word := by
  induction word generalizing room with
  | nil => exact absurd h (Nat.not_lt_zero room)
  | cons c word ih =>
    rw [byteLength_cons] at h
    rw [List.cons_append, fit, fit]
    split
    · rw [ih (by omega)]
    · rfl

/-- A word is cut between two characters, at the last such place for which there is room. -/
theorem fit_cuts_at_the_last_boundary (room : Nat) (word : List Char) :
    slice (String.ofList word) 0 (byteLength (fit room word)) = String.ofList (fit room word) ∧
      isBoundary (String.ofList word) (byteLength (fit room word)) = true ∧
      byteLength (fit room word) ≤ room ∧
      ∀ offset, isBoundary (String.ofList word) offset = true → offset ≤ room →
        offset ≤ byteLength (fit room word) := by
  obtain ⟨back, hword⟩ := fit_isPrefix room word
  have hsplit : (String.ofList word).toList = [] ++ fit room word ++ back := by
    rw [String.toList_ofList, List.nil_append, hword]
  refine ⟨?_, isBoundary_iff.2 ⟨_, back, hsplit, rfl⟩, byteLength_fit_le room word, ?_⟩
  · have hslice := slice_eq hsplit
    rwa [byteLength_nil, Nat.zero_add] at hslice
  · intro offset hoffset hroom
    obtain ⟨front, rest, hfront, rfl⟩ := isBoundary_iff.1 hoffset
    rw [String.toList_ofList] at hfront
    exact byteLength_le_fit ⟨rest, hfront.symm⟩ hroom

/-! ## Lines that are cut -/

/-- A line as a detail shows it. -/
def shorten (line : List Char) : String :=
  if byteLength line ≤ maxDetail then String.ofList line
  else String.ofList (fit maxDetail line) ++ ellipsis

theorem shorten_of_le {line : List Char} (h : byteLength line ≤ maxDetail) :
    shorten line = String.ofList line := if_pos h

/-- The line is cut in this word. -/
theorem shorten_of_lt {done word : List Char} (h : byteLength done ≤ maxDetail)
    (hfull : maxDetail - byteLength done < byteLength word) (cs : List Char) :
    shorten (done ++ (word ++ cs)) =
      String.ofList done ++ String.ofList (fit (maxDetail - byteLength done) word) ++ ellipsis := by
  unfold shorten
  rw [if_neg, fit_append h, fit_append_of_lt hfull, String.ofList_append]
  rw [byteLength_append, byteLength_append]
  omega

/-- A line that is too long is cut at the last place between two characters that has room. -/
theorem shorten_of_gt {line : String} (h : maxDetail < line.utf8ByteSize) :
    ∃ cut, IsGreatest {offset | isBoundary line offset = true ∧ offset ≤ maxDetail} cut ∧
      shorten line.toList = slice line 0 cut ++ ellipsis := by
  have hcut := fit_cuts_at_the_last_boundary maxDetail line.toList
  rw [String.ofList_toList] at hcut
  obtain ⟨hslice, hboundary, hroom, hlast⟩ := hcut
  refine ⟨_, ⟨⟨hboundary, hroom⟩, fun offset hoffset => hlast offset hoffset.1 hoffset.2⟩, ?_⟩
  rw [hslice, shorten, if_neg (by rw [byteLength_toList]; omega)]

/-! ## Words on one line -/

/-- Words behind others on a line. -/
def spaced (words : List (List Char)) : List Char := words.flatMap (' ' :: ·)

theorem joinWords_eq_shorten {done : List Char} (hne : done ≠ [])
    (h : byteLength done ≤ maxDetail) (words : List (List Char)) :
    joinWords (String.ofList done) words = shorten (done ++ spaced words) := by
  induction words generalizing done with
  | nil =>
    rw [spaced, List.flatMap_nil, List.append_nil, shorten_of_le h]
    rfl
  | cons word words ih =>
    have hspaced : spaced (word :: words) = [' '] ++ (word ++ spaced words) := rfl
    have hspace : byteLength [' '] = 1 := rfl
    have hempty : String.ofList done ≠ "" := by simpa using hne
    have hnext : String.ofList done ++ " " = String.ofList (done ++ [' ']) :=
      String.ofList_append.symm
    rw [joinWords, hspaced, ← byteLength_eq_utf8ByteSize]
    simp only [hempty, ne_eq, not_false_eq_true, true_and, if_false, hnext,
      ← byteLength_eq_utf8ByteSize]
    -- Not even the space has room, or the word is cut behind it, or all of the word has room.
    split
    · rename_i hfull
      have hnone : fit (maxDetail - byteLength done) [' '] = [] := if_neg (by
        have hsize : ' '.utf8Size = 1 := rfl
        omega)
      rw [shorten_of_lt h (by omega), hnone, String.ofList_nil, String.append_empty]
    · rename_i hroom
      have hle : byteLength (done ++ [' ']) ≤ maxDetail := by
        rw [byteLength_append]
        omega
      rw [← List.append_assoc]
      split
      · rename_i hlong
        rw [shorten_of_lt hle hlong]
      · rename_i hshort
        have hfits : byteLength (done ++ [' '] ++ word) ≤ maxDetail := by
          rw [byteLength_append]
          omega
        rw [← String.ofList_append, ih (by simp) hfits, List.append_assoc (done ++ [' '])]

/-- The words on one line, with single spaces between them. -/
def lineOf (words : List (List Char)) : String := " ".intercalate (words.map String.ofList)

theorem lineOf_cons (word : List Char) (words : List (List Char)) :
    lineOf (word :: words) = String.ofList (word ++ spaced words) := by
  unfold lineOf
  induction words generalizing word with
  | nil => simp [spaced]
  | cons next words ih =>
    have hspaced : spaced (next :: words) = [' '] ++ (next ++ spaced words) := rfl
    have hspace : " " = String.ofList [' '] := rfl
    rw [List.map_cons, List.map_cons, String.intercalate_cons_cons, ← List.map_cons, ih next,
      hspaced, hspace, ← String.ofList_append, ← String.ofList_append, List.append_assoc]

/-- A detail is the line of all its words, cut once. -/
theorem detailOf_eq_shorten (source : String) :
    detailOf source = shorten (lineOf (words source.toList)).toList := by
  unfold detailOf
  cases hwords : words source.toList with
  | nil => rfl
  | cons word others =>
    have hblank : ∀ c ∈ ([] : List Char), isBlank c = false := nofun
    have hmem : word ∈ words source.toList := by
      rw [hwords]
      exact List.mem_cons_self
    have hword : word ≠ [] := (mem_wordsFrom hblank hmem).1
    rw [lineOf_cons, String.toList_ofList, joinWords, if_neg (by simp)]
    simp only [if_true]
    split
    · rename_i hlong
      have hnone : byteLength ([] : List Char) ≤ maxDetail := Nat.zero_le _
      exact (shorten_of_lt hnone hlong (spaced others)).symm
    · rename_i hshort
      rw [String.empty_append]
      exact joinWords_eq_shorten hword (Nat.le_of_not_lt hshort) others

/-! ## The length of a detail -/

theorem size_shorten_le (line : List Char) :
    (shorten line).utf8ByteSize ≤ maxDetail + ellipsis.utf8ByteSize := by
  unfold shorten
  split
  · rename_i hle
    rw [← byteLength_eq_utf8ByteSize]
    exact Nat.le_add_right_of_le hle
  · rw [String.utf8ByteSize_append, ← byteLength_eq_utf8ByteSize]
    exact Nat.add_le_add_right (byteLength_fit_le _ _) _

/-- A detail is not longer than what it may show of the source, and what stands behind that if it
was cut. -/
theorem size_detailOf_le (source : String) :
    (detailOf source).utf8ByteSize ≤ maxDetail + ellipsis.utf8ByteSize := by
  rw [detailOf_eq_shorten]
  exact size_shorten_le _

/-! ## Details that are not empty -/

theorem shorten_ne_empty {line : List Char} (h : line ≠ []) : shorten line ≠ "" := by
  unfold shorten
  split
  · simpa using h
  · simp [ellipsis]

/-- The detail of a piece of source that starts with a word is not empty. -/
theorem detailOf_ne_empty {source : String} {c : Char} {cs : List Char}
    (h : source.toList = c :: cs) (hblank : isBlank c = false) : detailOf source ≠ "" := by
  rw [detailOf_eq_shorten]
  have hwords := areWords_words source.toList
  generalize words source.toList = ws at hwords ⊢
  generalize source.toList = all at h hwords
  cases hwords with
  | nil hblanks =>
    subst h
    rw [hblanks c List.mem_cons_self] at hblank
    cases hblank
  | cons _ hword _ _ _ =>
    rw [lineOf_cons, String.toList_ofList]
    exact shorten_ne_empty (List.append_ne_nil_of_left_ne_nil hword _)

end CaplOutline.Outline
