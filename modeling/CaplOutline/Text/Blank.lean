-- The blank characters: the 25 code points that Unicode lists as White_Space.
-- Tokens are set apart by them, and the words of a detail are too.

namespace CaplOutline.Text

/-- The code points of the blank characters, as ranges with both ends. -/
def blankRanges : List (Nat × Nat) :=
  [(0x09, 0x0D), (0x20, 0x20), (0x85, 0x85), (0xA0, 0xA0), (0x1680, 0x1680), (0x2000, 0x200A),
    (0x2028, 0x2029), (0x202F, 0x202F), (0x205F, 0x205F), (0x3000, 0x3000)]

/-- A character is blank if its code point is in one of the ranges. -/
def isBlank (c : Char) : Bool := blankRanges.any fun (low, high) => low ≤ c.toNat && c.toNat ≤ high

/-- Line feed and carriage return: the characters of which line breaks are made. -/
def isBreakChar (c : Char) : Bool := c == '\n' || c == '\r'

theorem isBlank_of_isBreakChar {c : Char} (h : isBreakChar c = true) : isBlank c = true := by
  simp only [isBreakChar, Bool.or_eq_true, beq_iff_eq] at h
  rcases h with rfl | rfl <;> decide

/-- The words of a text: its longest runs of characters that are not blank. -/
def wordsFrom (done : Array (List Char)) (word : List Char) : List Char → List (List Char)
  | [] => (if word.isEmpty then done else done.push word.reverse).toList
  | c :: cs =>
    if isBlank c then
      wordsFrom (if word.isEmpty then done else done.push word.reverse) [] cs
    else
      wordsFrom done (c :: word) cs

def words (cs : List Char) : List (List Char) := wordsFrom #[] [] cs

theorem wordsFrom_eq_append (done : Array (List Char)) (word cs : List Char) :
    wordsFrom done word cs = done.toList ++ wordsFrom #[] word cs := by
  induction cs generalizing done word with
  | nil => unfold wordsFrom; split <;> simp
  | cons c cs ih =>
    simp only [wordsFrom]
    split
    · rw [ih, ih (if word.isEmpty then #[] else _)]
      split <;> simp
    · exact ih done (c :: word)

/-- Words hold no blank and are not empty. -/
theorem mem_wordsFrom {word cs w : List Char} (hword : ∀ c ∈ word, isBlank c = false)
    (h : w ∈ wordsFrom #[] word cs) : w ≠ [] ∧ ∀ c ∈ w, isBlank c = false := by
  induction cs generalizing word with
  | nil =>
    unfold wordsFrom at h
    split at h
    · simp at h
    · rename_i hne
      simp only [Array.toList_push, List.nil_append, List.mem_singleton] at h
      subst h
      exact ⟨by simpa using hne, by simpa using hword⟩
  | cons c cs ih =>
    simp only [wordsFrom] at h
    split at h
    · rw [wordsFrom_eq_append, List.mem_append] at h
      rcases h with h | h
      · split at h
        · simp at h
        · rename_i hne
          simp only [Array.toList_push, List.nil_append, List.mem_singleton] at h
          subst h
          exact ⟨by simpa using hne, by simpa using hword⟩
      · exact ih (by simp) h
    · rename_i hc
      refine ih ?_ h
      intro d hd
      rcases List.mem_cons.1 hd with rfl | hd
      · simpa using hc
      · exact hword d hd

end CaplOutline.Text
