-- How tokens are spelled. Each kind has texts of its own, and no text is of two kinds. Where
-- no gap starts a token does, and what is read there is the longest text of a token.
import CaplOutline.Proofs.Token.Gaps
import CaplOutline.Proofs.Token.Words

namespace CaplOutline

open Text

/-! ## The texts of tokens -/

/-- What may stand behind the opening quote of a literal, up to its closing quote or without one. A
backslash takes the character behind it along, but never a line break. -/
inductive IsLiteral (quote : Char) : Bool → List Char → Prop
  | unclosed : IsLiteral quote false []
  | backslash : IsLiteral quote false ['\\']
  | closed : IsLiteral quote true [quote]
  | plain {closed : Bool} {c : Char} {cs : List Char} :
      c ≠ quote → c ≠ '\\' → isBreakChar c = false → IsLiteral quote closed cs →
      IsLiteral quote closed (c :: cs)
  | escaped {closed : Bool} {c : Char} {cs : List Char} :
      isBreakChar c = false → IsLiteral quote closed cs → IsLiteral quote closed ('\\' :: c :: cs)

/-- The characters that are tokens of a kind of their own. -/
def marks : List (Char × TokenKind) :=
  [('{', .openBrace), ('}', .closeBrace), ('(', .openParen), (')', .closeParen),
    ('[', .openBracket), (']', .closeBracket), (';', .semicolon), (',', .comma), ('=', .assign)]

/-- The texts of the tokens of each kind, whatever stands behind them. -/
inductive Spells : List Char → TokenKind → Prop
  | keyword {c : Char} {cs : List Char} {keyword : Keyword} :
      isWordStart c = true → (∀ d ∈ cs, isWordChar d = true) →
      Keyword.ofWord? (String.ofList (c :: cs)) = some keyword → Spells (c :: cs) (.keyword keyword)
  | identifier {c : Char} {cs : List Char} :
      isWordStart c = true → (∀ d ∈ cs, isWordChar d = true) →
      Keyword.ofWord? (String.ofList (c :: cs)) = none → Spells (c :: cs) .identifier
  | number {c : Char} {cs : List Char} :
      c.isDigit = true → (∀ d ∈ cs, isNumberChar d = true) → Spells (c :: cs) .number
  | directive {c : Char} {cs : List Char} :
      isWordStart c = true → (∀ d ∈ cs, isWordChar d = true) → Spells ('#' :: c :: cs) .directive
  | string {closed : Bool} {cs : List Char} : IsLiteral '"' closed cs → Spells ('"' :: cs) .string
  | char {closed : Bool} {cs : List Char} : IsLiteral '\'' closed cs → Spells ('\'' :: cs) .char
  | mark {c : Char} {kind : TokenKind} : (c, kind) ∈ marks → Spells [c] kind
  | equals : Spells ['=', '='] .punct
  | colons : Spells [':', ':'] .punct
  | punct {c : Char} :
      isAsciiPunct c = true → isWordStart c = false → c ∉ ['"', '\''] →
      c ∉ marks.map Prod.fst → Spells [c] .punct
  | unknown {c : Char} :
      isBlank c = false → isWordStart c = false → c.isDigit = false → isAsciiPunct c = false →
      Spells [c] .unknown

/-- A token of this kind has the text `word`, if `back` follows it: it is no gap, no longer front of
the text spells a token, and a literal without its closing quote ends with its line. -/
structure IsLexeme (kind : TokenKind) (word back : List Char) : Prop where
  spells : Spells word kind
  longest : ∀ more after kind', back = more ++ after → Spells (word ++ more) kind' → more = []
  opens : ¬ OpensGap (word ++ back)
  ends : ∀ quote cs, quote ∈ ['"', '\''] → word = quote :: cs → IsLiteral quote false cs →
    AtLineEnd back

/-! ## What is read is spelled so -/

/-- What is left of a literal from a state on. -/
def QuotedLiteral.Covers (quote : Char) : QuotedLiteral → List Char → Prop
  | inside, cs => ∃ closed, IsLiteral quote closed cs
  | escaped, cs => ∃ closed, IsLiteral quote closed ('\\' :: cs)
  | closed, cs => cs = []

theorem QuotedLiteral.covers_take (quote : Char) (state : QuotedLiteral) (cs : List Char) :
    Covers quote state (cs.take (runLength (next quote) 0 state cs)) := by
  induction cs generalizing state with
  | nil =>
    cases state with
    | inside => exact ⟨false, .unclosed⟩
    | escaped => exact ⟨false, .backslash⟩
    | closed => rfl
  | cons c cs ih =>
    cases hnext : next quote state c cs.head? with
    | none =>
      rw [runLength_cons_of_none hnext]
      cases state with
      | inside => exact ⟨false, .unclosed⟩
      | escaped => exact ⟨false, .backslash⟩
      | closed => rfl
    | some state' =>
      rw [runLength_cons_of_some hnext, List.take_succ_cons]
      have hrest := ih state'
      have hbreak := isBreakChar_of_next hnext
      unfold next at hnext
      cases state with
      | inside =>
        simp only [hbreak, Bool.false_eq_true, if_false] at hnext
        split at hnext
        · rename_i hback
          cases hnext
          rw [beq_iff_eq.1 hback]
          exact hrest
        · rename_i hback
          split at hnext
          · rename_i hquote
            cases hnext
            rw [show cs.take _ = [] from hrest, beq_iff_eq.1 hquote]
            exact ⟨true, .closed⟩
          · rename_i hquote
            cases hnext
            obtain ⟨closed, hrest⟩ := hrest
            exact ⟨closed, .plain (by simpa using hquote) (by simpa using hback) hbreak hrest⟩
      | escaped =>
        simp only [hbreak, Bool.false_eq_true, if_false] at hnext
        cases hnext
        obtain ⟨closed, hrest⟩ := hrest
        exact ⟨closed, .escaped hbreak hrest⟩
      | closed => cases hnext

namespace Lexeme

variable {c : Char} {cs : List Char}

theorem read_of_isWordStart (h : isWordStart c = true) : read c cs = word c cs := by
  have hne : ∀ d, isWordStart d = false → c ≠ d := by
    rintro d hd rfl
    rw [h] at hd
    cases hd
  unfold read
  simp [hne '"' (by decide), hne '\'' (by decide), hne '#' (by decide), h]

theorem read_of_isDigit (h : c.isDigit = true) (hword : isWordStart c = false) :
    read c cs = ⟨.number, (cs.takeWhile isNumberChar).length⟩ := by
  have hne : ∀ d, d.isDigit = false → c ≠ d := by
    rintro d hd rfl
    rw [h] at hd
    cases hd
  unfold read
  simp [hne '"' (by decide), hne '\'' (by decide), hne '#' (by decide), hword, h]

theorem read_directive (h : cs.head?.any isWordStart = true) :
    read '#' cs = ⟨.directive, (cs.takeWhile isWordChar).length⟩ := by
  unfold read
  simp [h]

theorem read_eq_operator (hquote : c ∉ ['"', '\'']) (hword : isWordStart c = false)
    (hdigit : c.isDigit = false) (hdirective : ¬ (c = '#' ∧ cs.head?.any isWordStart = true)) :
    read c cs = operator c cs.head? := by
  simp only [List.mem_cons, List.not_mem_nil, or_false, not_or] at hquote
  unfold read
  rw [if_neg (by simpa using hquote.1), if_neg (by simpa using hquote.2),
    if_neg (by simpa using hdirective), if_neg (by simp [hword]), if_neg (by simp [hdigit])]

theorem spells_word (h : isWordStart c = true) :
    Spells (c :: cs.takeWhile isWordChar) (word c cs).kind := by
  have hall : ∀ d ∈ cs.takeWhile isWordChar, isWordChar d = true :=
    fun d hd => List.mem_takeWhile_imp hd
  unfold word
  dsimp only
  cases hkeyword : Keyword.ofWord? (String.ofList (c :: cs.takeWhile isWordChar)) with
  | none => exact .identifier h hall hkeyword
  | some keyword => exact .keyword h hall hkeyword

theorem spells_operator (hblank : isBlank c = false) (hquote : c ∉ ['"', '\''])
    (hword : isWordStart c = false) (hdigit : c.isDigit = false) :
    Spells (c :: cs.take (operator c cs.head?).more) (operator c cs.head?).kind := by
  have htwo : ∀ d, (cs.head? == some d) = true → cs.take 1 = [d] := by
    intro d hd
    cases cs with
    | nil => cases hd
    | cons e cs => simpa using hd
  unfold operator
  split
  iterate 8 exact .mark (by simp [marks])
  · split
    · rename_i hnext
      rw [htwo '=' hnext]
      exact .equals
    · exact .mark (by simp [marks])
  · split
    · rename_i hnext
      rw [htwo ':' hnext]
      exact .colons
    · exact .punct (by decide) (by decide) (by decide) (by decide)
  · split
    · rename_i hpunct
      refine .punct hpunct hword hquote ?_
      simp only [marks, List.map_cons, List.map_nil, List.mem_cons, List.not_mem_nil, or_false,
        not_or]
      exact ⟨‹_›, ‹_›, ‹_›, ‹_›, ‹_›, ‹_›, ‹_›, ‹_›, ‹_›⟩
    · rename_i hpunct
      exact .unknown hblank hword hdigit (by simpa using hpunct)

theorem spells_read (hblank : isBlank c = false) :
    Spells (c :: cs.take (read c cs).more) (read c cs).kind := by
  have htake : ∀ p : Char → Bool, cs.take (cs.takeWhile p).length = cs.takeWhile p :=
    fun p => (List.prefix_iff_eq_take.1 (List.takeWhile_prefix p)).symm
  by_cases hstring : c = '"'
  · subst hstring
    obtain ⟨closed, hliteral⟩ := QuotedLiteral.covers_take '"' .inside cs
    exact .string hliteral
  by_cases hchar : c = '\''
  · subst hchar
    obtain ⟨closed, hliteral⟩ := QuotedLiteral.covers_take '\'' .inside cs
    exact .char hliteral
  by_cases hdirective : c = '#' ∧ cs.head?.any isWordStart = true
  · obtain ⟨rfl, hstart⟩ := hdirective
    rw [read_directive hstart]
    dsimp only
    rw [htake]
    cases cs with
    | nil => cases hstart
    | cons d cs =>
      rw [List.takeWhile_cons_of_pos (isWordChar_of_isWordStart hstart)]
      exact .directive hstart fun e he => List.mem_takeWhile_imp he
  by_cases hword : isWordStart c = true
  · rw [read_of_isWordStart hword]
    have hmore : cs.take (word c cs).more = cs.takeWhile isWordChar := htake isWordChar
    rw [hmore]
    exact spells_word hword
  rw [Bool.not_eq_true] at hword
  by_cases hdigit : c.isDigit = true
  · rw [read_of_isDigit hdigit hword]
    dsimp only
    rw [htake]
    exact .number hdigit fun d hd => List.mem_takeWhile_imp hd
  rw [Bool.not_eq_true] at hdigit
  have hquote : c ∉ ['"', '\''] := by simp [hstring, hchar]
  rw [read_eq_operator hquote hword hdigit hdirective]
  exact spells_operator hblank hquote hword hdigit

end Lexeme

/-! ## What is spelled so is read -/

theorem QuotedLiteral.length_le {quote : Char} {closed : Bool} {cs : List Char}
    (hquote : quote ∈ ['"', '\'']) (h : IsLiteral quote closed cs) (back : List Char) :
    cs.length ≤ QuotedLiteral.length quote (cs ++ back) := by
  have hback : quote ≠ '\\' := by
    rintro rfl
    exact absurd hquote (by decide)
  have hbreak : isBreakChar quote = false := by
    simp only [List.mem_cons, List.not_mem_nil, or_false] at hquote
    rcases hquote with rfl | rfl <;> decide
  unfold QuotedLiteral.length
  induction h with
  | unclosed => exact Nat.zero_le _
  | backslash =>
    have hnext : next quote inside '\\' back.head? = some .escaped := rfl
    rw [List.singleton_append, runLength_cons_of_some hnext]
    exact Nat.le_add_left 1 _
  | closed =>
    have hnext : next quote inside quote back.head? = some .closed := by
      simp [next, hback, hbreak]
    rw [List.singleton_append, runLength_cons_of_some hnext]
    exact Nat.le_add_left 1 _
  | @plain _ c cs hne hplain hline _ ih =>
    have hnext : next quote inside c (cs ++ back).head? = some .inside := by
      simp [next, hne, hplain, hline]
    rw [List.cons_append, runLength_cons_of_some hnext]
    exact Nat.succ_le_succ ih
  | @escaped _ c cs hline _ ih =>
    have hfirst : next quote inside '\\' (c :: (cs ++ back)).head? = some .escaped := rfl
    have hsecond : next quote .escaped c (cs ++ back).head? = some .inside := by
      simp [next, hline]
    rw [List.cons_append, List.cons_append, runLength_cons_of_some hfirst,
      runLength_cons_of_some hsecond]
    exact Nat.succ_le_succ (Nat.succ_le_succ ih)

namespace Lexeme

theorem length_le_takeWhile {p : Char → Bool} {cs : List Char} (h : ∀ c ∈ cs, p c = true)
    (back : List Char) : cs.length ≤ ((cs ++ back).takeWhile p).length := by
  rw [List.takeWhile_append_of_pos h, List.length_append]
  exact Nat.le_add_right _ _

theorem isWordStart_of_isDigit {c : Char} (h : c.isDigit = true) : isWordStart c = false := by
  have hdigit : 48 ≤ c.toNat ∧ c.toNat ≤ 57 := by
    change (decide (48 ≤ c.val) && decide (c.val ≤ 57)) = true at h
    simpa [UInt32.le_iff_toNat_le] using h
  rw [Bool.eq_false_iff]
  intro hstart
  change ((decide (65 ≤ c.val ∧ c.val ≤ 90) ||
    (decide (97 ≤ c.val) && decide (c.val ≤ 122))) || c == '_') = true at hstart
  simp only [Bool.or_eq_true, Bool.and_eq_true, decide_eq_true_eq, beq_iff_eq,
    UInt32.le_iff_toNat_le] at hstart
  rcases hstart with (hupper | hlower) | rfl
  · exact absurd (Nat.le_trans hupper.1 hdigit.2) (by decide)
  · exact absurd (Nat.le_trans hlower.1 hdigit.2) (by decide)
  · exact absurd h (by decide)

theorem operator_of_isAsciiPunct {c : Char} (hpunct : isAsciiPunct c = true)
    (hmark : c ∉ marks.map Prod.fst) : operator c none = ⟨.punct, 0⟩ := by
  simp only [marks, List.map_cons, List.map_nil, List.mem_cons, List.not_mem_nil, or_false,
    not_or] at hmark
  unfold operator
  split <;> simp_all

theorem operator_of_not_isAsciiPunct {c : Char} (hpunct : isAsciiPunct c = false)
    (following : Option Char) : operator c following = ⟨.unknown, 0⟩ := by
  unfold operator
  split
  iterate 10 exact absurd hpunct (by decide)
  rw [if_neg (by simp [hpunct])]

/-- What is read takes no less than a text that spells a token, and has the kind of that text if
nothing follows it. -/
theorem read_of_spells {c : Char} {cs : List Char} {kind : TokenKind} (h : Spells (c :: cs) kind)
    (back : List Char) :
    cs.length ≤ (read c (cs ++ back)).more ∧ (back = [] → (read c (cs ++ back)).kind = kind) := by
  have hword : ∀ cs : List Char, (∀ d ∈ cs, isWordChar d = true) →
      (cs ++ []).takeWhile isWordChar = cs := by
    intro cs hall
    rw [List.append_nil]
    exact List.takeWhile_eq_self_iff.2 hall
  cases h with
  | keyword hstart hall hkeyword =>
    rw [read_of_isWordStart hstart]
    refine ⟨length_le_takeWhile hall back, ?_⟩
    rintro rfl
    unfold word
    dsimp only
    rw [hword cs hall, hkeyword]
    rfl
  | identifier hstart hall hkeyword =>
    rw [read_of_isWordStart hstart]
    refine ⟨length_le_takeWhile hall back, ?_⟩
    rintro rfl
    unfold word
    dsimp only
    rw [hword cs hall, hkeyword]
    rfl
  | number hdigit hall =>
    rw [read_of_isDigit hdigit (isWordStart_of_isDigit hdigit)]
    exact ⟨length_le_takeWhile hall back, fun _ => rfl⟩
  | directive hstart hall =>
    rw [read_directive (by exact hstart)]
    refine ⟨?_, fun _ => rfl⟩
    exact length_le_takeWhile (List.forall_mem_cons.2 ⟨isWordChar_of_isWordStart hstart, hall⟩) back
  | string hliteral => exact ⟨QuotedLiteral.length_le (by decide) hliteral back, fun _ => rfl⟩
  | char hliteral => exact ⟨QuotedLiteral.length_le (by decide) hliteral back, fun _ => rfl⟩
  | mark hmark =>
    refine ⟨Nat.zero_le _, ?_⟩
    rintro rfl
    simp only [marks, List.mem_cons, Prod.mk.injEq, List.not_mem_nil, or_false] at hmark
    rcases hmark with ⟨rfl, rfl⟩ | ⟨rfl, rfl⟩ | ⟨rfl, rfl⟩ | ⟨rfl, rfl⟩ | ⟨rfl, rfl⟩ | ⟨rfl, rfl⟩ |
      ⟨rfl, rfl⟩ | ⟨rfl, rfl⟩ | ⟨rfl, rfl⟩ <;> rfl
  | equals => exact ⟨Nat.le_refl 1, fun _ => rfl⟩
  | colons => exact ⟨Nat.le_refl 1, fun _ => rfl⟩
  | punct hpunct hstart hquote hmark =>
    refine ⟨Nat.zero_le _, ?_⟩
    rintro rfl
    have hdigit : c.isDigit = false := by
      simp only [isAsciiPunct, Char.isAlphanum, Bool.and_eq_true, Bool.not_eq_true',
        Bool.or_eq_false_iff] at hpunct
      exact hpunct.2.2
    rw [read_eq_operator hquote hstart hdigit (by simp), List.nil_append, List.head?_nil,
      operator_of_isAsciiPunct hpunct hmark]
  | unknown hblank hstart hdigit hpunct =>
    refine ⟨Nat.zero_le _, fun _ => ?_⟩
    have hne : ∀ d, isAsciiPunct d = true → c ≠ d := by
      rintro d hd rfl
      rw [hpunct] at hd
      cases hd
    have hquote : c ∉ ['"', '\''] := by simp [hne '"' (by decide), hne '\'' (by decide)]
    rw [read_eq_operator hquote hstart hdigit (fun h => hne '#' (by decide) h.1),
      operator_of_not_isAsciiPunct hpunct]

end Lexeme

theorem Spells.exists_cons {word : List Char} {kind : TokenKind} (h : Spells word kind) :
    ∃ c cs, word = c :: cs := by
  cases h <;> exact ⟨_, _, rfl⟩

/-- A text does not spell two kinds. -/
theorem Spells.unique {word : List Char} {kind kind' : TokenKind} (h : Spells word kind)
    (h' : Spells word kind') : kind = kind' := by
  obtain ⟨c, cs, rfl⟩ := h.exists_cons
  exact ((Lexeme.read_of_spells h []).2 rfl).symm.trans ((Lexeme.read_of_spells h' []).2 rfl)

/-! ## The longest text of a token -/

/-- A literal without its closing quote goes on over every character of its line. -/
theorem IsLiteral.concat {quote c : Char} {cs : List Char} (h : IsLiteral quote false cs)
    (hc : isBreakChar c = false) : ∃ closed, IsLiteral quote closed (cs ++ [c]) := by
  generalize hclosed : false = closed at h
  induction h with
  | unclosed =>
    by_cases hquote : c = quote
    · rw [hquote]
      exact ⟨true, .closed⟩
    · by_cases hback : c = '\\'
      · rw [hback]
        exact ⟨false, .backslash⟩
      · exact ⟨false, .plain hquote hback hc .unclosed⟩
  | backslash => exact ⟨false, .escaped hc .unclosed⟩
  | closed => cases hclosed
  | plain hquote hback hline _ ih =>
    obtain ⟨closed, h⟩ := ih hclosed
    exact ⟨closed, .plain hquote hback hline h⟩
  | escaped hline _ ih =>
    obtain ⟨closed, h⟩ := ih hclosed
    exact ⟨closed, .escaped hline h⟩

theorem atLineEnd_of_longest {quote : Char} {cs back : List Char} (hquote : quote ∈ ['"', '\''])
    (h : IsLiteral quote false cs)
    (hlongest : ∀ more after kind, back = more ++ after → Spells (quote :: cs ++ more) kind →
      more = []) : AtLineEnd back := by
  intro c hc
  by_contra hline
  rw [Bool.not_eq_true] at hline
  obtain ⟨after, rfl⟩ := List.head?_eq_some_iff.1 hc
  obtain ⟨closed, hliteral⟩ := h.concat hline
  have hspells : ∃ kind, Spells (quote :: cs ++ [c]) kind := by
    simp only [List.mem_cons, List.not_mem_nil, or_false] at hquote
    rcases hquote with rfl | rfl
    · exact ⟨_, .string hliteral⟩
    · exact ⟨_, .char hliteral⟩
  obtain ⟨kind, hspells⟩ := hspells
  exact absurd (hlongest [c] after kind rfl hspells) (by simp)

/-- What is read where no gap starts is a token. -/
theorem isLexeme_read {c : Char} {cs : List Char} (hopens : ¬ OpensGap (c :: cs)) :
    IsLexeme (Lexeme.read c cs).kind (c :: cs.take (Lexeme.read c cs).more)
      (cs.drop (Lexeme.read c cs).more) := by
  have hblank : isBlank c = false := by
    rw [opensGap_cons, not_or] at hopens
    simpa using hopens.1
  have hlongest : ∀ more after kind, cs.drop (Lexeme.read c cs).more = more ++ after →
      Spells (c :: cs.take (Lexeme.read c cs).more ++ more) kind → more = [] := by
    intro more after kind hsplit hspells
    rw [List.cons_append] at hspells
    have hle := (Lexeme.read_of_spells hspells after).1
    have hmore := Lexeme.more_read_le c cs
    rw [List.append_assoc, ← hsplit, List.take_append_drop, List.length_append,
      List.length_take] at hle
    exact List.eq_nil_of_length_eq_zero (by omega)
  refine ⟨Lexeme.spells_read hblank, hlongest, ?_, ?_⟩
  · rwa [List.cons_append, List.take_append_drop]
  · rintro quote inside hquote hword hliteral
    rw [hword] at hlongest
    exact atLineEnd_of_longest hquote hliteral hlongest

/-- Only one front of a text is a token. -/
theorem IsLexeme.unique {kind kind' : TokenKind} {word word' back back' : List Char}
    (h : IsLexeme kind word back) (h' : IsLexeme kind' word' back')
    (hsplit : word ++ back = word' ++ back') : kind = kind' ∧ word = word' ∧ back = back' := by
  have hsame : word = word' ∧ back = back' := by
    rcases List.append_eq_append_iff.1 hsplit with ⟨more, rfl, hback⟩ | ⟨more, rfl, hback⟩
    · obtain rfl := h.longest more back' kind' hback h'.spells
      exact ⟨(List.append_nil _).symm, hback⟩
    · obtain rfl := h'.longest more back kind hback h.spells
      exact ⟨List.append_nil _, hback.symm⟩
  obtain ⟨rfl, rfl⟩ := hsame
  exact ⟨h.spells.unique h'.spells, rfl, rfl⟩

end CaplOutline
