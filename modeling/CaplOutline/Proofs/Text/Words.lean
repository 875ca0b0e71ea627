-- The words of a text. A word is a run of characters that are not blank, with a blank or an end
-- of the text on each side of it, and a text has only one list of them.
import CaplOutline.Text.Blank

namespace CaplOutline.Text

/-- The text is these words in their order, with blanks around them. -/
inductive AreWords : List Char → List (List Char) → Prop
  | nil {blanks : List Char} : (∀ c ∈ blanks, isBlank c = true) → AreWords blanks []
  | cons {blanks word rest : List Char} {words : List (List Char)} :
      (∀ c ∈ blanks, isBlank c = true) → word ≠ [] → (∀ c ∈ word, isBlank c = false) →
      (∀ c ∈ rest.head?, isBlank c = true) → AreWords rest words →
      AreWords (blanks ++ (word ++ rest)) (word :: words)

theorem words_append_of_blanks {blanks : List Char} (h : ∀ c ∈ blanks, isBlank c = true)
    (cs : List Char) : words (blanks ++ cs) = words cs := by
  induction blanks with
  | nil => rfl
  | cons c blanks ih =>
    obtain ⟨hc, hblanks⟩ := List.forall_mem_cons.1 h
    rw [words, List.cons_append, wordsFrom, if_pos hc]
    exact ih hblanks

theorem wordsFrom_append_of_word {word : List Char} (h : ∀ c ∈ word, isBlank c = false)
    (seen cs : List Char) :
    wordsFrom #[] seen (word ++ cs) = wordsFrom #[] (word.reverse ++ seen) cs := by
  induction word generalizing seen with
  | nil => rfl
  | cons c word ih =>
    obtain ⟨hc, hword⟩ := List.forall_mem_cons.1 h
    rw [List.cons_append, wordsFrom, if_neg (by simp [hc]), ih hword, List.reverse_cons,
      List.append_assoc, List.singleton_append]

/-- A word ends before a blank, or with the text. -/
theorem wordsFrom_of_end {seen cs : List Char} (hseen : seen ≠ [])
    (h : ∀ c ∈ cs.head?, isBlank c = true) :
    wordsFrom #[] seen cs = seen.reverse :: words cs := by
  cases cs with
  | nil => simp [words, wordsFrom, hseen]
  | cons c cs =>
    have hc := h c rfl
    rw [wordsFrom, if_pos hc, if_neg (by simpa using hseen), wordsFrom_eq_append, words,
      wordsFrom, if_pos hc]
    rfl

theorem words_append_of_word {word cs : List Char} (hne : word ≠ [])
    (hword : ∀ c ∈ word, isBlank c = false) (h : ∀ c ∈ cs.head?, isBlank c = true) :
    words (word ++ cs) = word :: words cs := by
  rw [words, wordsFrom_append_of_word hword, List.append_nil,
    wordsFrom_of_end (by simpa using hne) h, List.reverse_reverse]

theorem AreWords.eq_words {cs : List Char} {ws : List (List Char)} (h : AreWords cs ws) :
    ws = words cs := by
  induction h with
  | @nil blanks hblanks =>
    have hall := words_append_of_blanks hblanks []
    rw [List.append_nil] at hall
    rw [hall]
    rfl
  | cons hblanks hne hword hend _ ih =>
    rw [words_append_of_blanks hblanks, words_append_of_word hne hword hend, ih]

theorem AreWords.cons_blank {c : Char} {cs : List Char} {ws : List (List Char)}
    (h : AreWords cs ws) (hc : isBlank c = true) : AreWords (c :: cs) ws := by
  cases h with
  | nil hblanks => exact .nil (List.forall_mem_cons.2 ⟨hc, hblanks⟩)
  | @cons blanks _ _ _ hblanks hne hword hend hrest =>
    have hfront : ∀ d ∈ c :: blanks, isBlank d = true := List.forall_mem_cons.2 ⟨hc, hblanks⟩
    exact .cons hfront hne hword hend hrest

theorem AreWords.cons_word {word cs : List Char} {ws : List (List Char)} (h : AreWords cs ws)
    (hne : word ≠ []) (hword : ∀ c ∈ word, isBlank c = false)
    (hend : ∀ c ∈ cs.head?, isBlank c = true) : AreWords (word ++ cs) (word :: ws) := by
  have hnone : ∀ c ∈ ([] : List Char), isBlank c = true := nofun
  exact .cons hnone hne hword hend h

/-- A character that is not blank makes the word behind it longer, or else is a word. -/
theorem AreWords.exists_cons_of_not_blank {c : Char} {cs : List Char} {ws : List (List Char)}
    (h : AreWords cs ws) (hc : isBlank c = false) : ∃ ws', AreWords (c :: cs) ws' := by
  have halone : (∀ d ∈ cs.head?, isBlank d = true) → AreWords (c :: cs) ([c] :: ws) :=
    h.cons_word (List.cons_ne_nil c []) (by simpa using hc)
  cases h with
  | nil hblanks => exact ⟨_, halone fun d hd => hblanks d (List.mem_of_mem_head? hd)⟩
  | @cons blanks word _ _ hblanks _ hword hend hrest =>
    cases blanks with
    | nil =>
      have hlonger : ∀ d ∈ c :: word, isBlank d = false := List.forall_mem_cons.2 ⟨hc, hword⟩
      exact ⟨_, hrest.cons_word (List.cons_ne_nil c word) hlonger hend⟩
    | cons d _ =>
      refine ⟨_, halone fun e he => hblanks e ?_⟩
      obtain rfl : d = e := Option.some.inj he
      exact List.mem_cons_self

theorem areWords_words (cs : List Char) : AreWords cs (words cs) := by
  have hsome : ∃ ws, AreWords cs ws := by
    induction cs with
    | nil => exact ⟨[], .nil nofun⟩
    | cons c cs ih =>
      obtain ⟨ws, h⟩ := ih
      cases hc : isBlank c with
      | true => exact ⟨ws, h.cons_blank hc⟩
      | false => exact h.exists_cons_of_not_blank hc
  obtain ⟨ws, h⟩ := hsome
  rwa [h.eq_words] at h

end CaplOutline.Text
