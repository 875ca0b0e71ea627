-- What stands between the tokens of a text. A gap is a run of blanks and comments: a line
-- comment goes to the end of its line, and a block comment to the first star and slash behind
-- its two opening characters, or else to the end of the text. The automaton takes exactly
-- the longest gap.
import Mathlib.Data.List.Infix
import CaplOutline.Proofs.Token.Joining

namespace CaplOutline

open Text

/-! ## Gaps without an automaton -/

/-- A line ends here, or the text does. -/
def AtLineEnd (cs : List Char) : Prop := ∀ c ∈ cs.head?, isBreakChar c = true

/-- The characters hold the end of a block comment. -/
def HoldsCommentEnd (cs : List Char) : Prop := ['*', '/'] <:+: cs

/-- A run of blanks and comments, if `back` follows it. -/
inductive IsGap (back : List Char) : List Char → Prop
  | nil : IsGap back []
  | blank {c : Char} {gap : List Char} :
      isBlank c = true → IsGap back gap → IsGap back (c :: gap)
  | lineComment {comment gap : List Char} :
      (∀ c ∈ comment, isBreakChar c = false) → AtLineEnd (gap ++ back) → IsGap back gap →
      IsGap back ('/' :: '/' :: (comment ++ gap))
  | blockComment {comment gap : List Char} :
      ¬ HoldsCommentEnd comment → IsGap back gap →
      IsGap back ('/' :: '*' :: (comment ++ '*' :: '/' :: gap))
  /-- Only the end of the text leaves a block comment open. -/
  | openComment {comment : List Char} :
      ¬ HoldsCommentEnd comment → back = [] → IsGap back ('/' :: '*' :: comment)

/-- A blank or a comment starts here. -/
def OpensGap (cs : List Char) : Prop :=
  (∃ c ∈ cs.head?, isBlank c = true) ∨ ['/', '/'] <+: cs ∨ ['/', '*'] <+: cs

theorem opensGap_cons {c : Char} {cs : List Char} :
    OpensGap (c :: cs) ↔
      isBlank c = true ∨ c = '/' ∧ (cs.head? = some '/' ∨ cs.head? = some '*') := by
  unfold OpensGap
  cases cs with
  | nil => simp
  | cons d cs =>
    simp only [List.head?_cons, Option.mem_def, Option.some.injEq, exists_eq_left',
      List.cons_prefix_cons, List.nil_prefix, and_true]
    rw [← and_or_left, eq_comm (a := '/'), eq_comm (a := '/'), eq_comm (a := '*')]

theorem holdsCommentEnd_cons {c : Char} {cs : List Char} :
    HoldsCommentEnd (c :: cs) ↔ (c = '*' ∧ cs.head? = some '/') ∨ HoldsCommentEnd cs := by
  unfold HoldsCommentEnd
  rw [List.infix_cons_iff]
  refine or_congr_left ?_
  cases cs with
  | nil => simp
  | cons d cs => simp [List.cons_prefix_cons, eq_comm]

/-! ## Runs of the automaton -/

section

variable {σ : Type} {next : σ → Char → Option Char → Option σ} {state state' : σ} {c : Char}
  {cs : List Char}

theorem runLength_cons_of_none (h : next state c cs.head? = none) :
    runLength next 0 state (c :: cs) = 0 := by
  rw [runLength, h]

theorem runLength_cons_of_some (h : next state c cs.head? = some state') :
    runLength next 0 state (c :: cs) = runLength next 0 state' cs + 1 := by
  rw [runLength, h]
  dsimp only
  rw [runLength_eq_add, Nat.add_comm, Nat.zero_add]

/-- The automaton takes all of `cs` if `back` follows, and gets from one state to another. -/
inductive Takes (next : σ → Char → Option Char → Option σ) (back : List Char) :
    σ → List Char → σ → Prop
  | nil {state : σ} : Takes next back state [] state
  | cons {state between last : σ} {c : Char} {cs : List Char} :
      next state c (cs ++ back).head? = some between → Takes next back between cs last →
      Takes next back state (c :: cs) last

theorem Takes.append {back ds : List Char} {last : σ} (h : Takes next (ds ++ back) state cs state')
    (h' : Takes next back state' ds last) : Takes next back state (cs ++ ds) last := by
  induction h with
  | nil => exact h'
  | cons hnext _ ih =>
    rw [← List.append_assoc] at hnext
    exact .cons hnext (ih h')

theorem Takes.runLength_append {back : List Char} (h : Takes next back state cs state') :
    runLength next 0 state (cs ++ back) = cs.length + runLength next 0 state' back := by
  induction h with
  | nil => exact (Nat.zero_add _).symm
  | cons hnext _ ih =>
    rw [List.cons_append, runLength_cons_of_some hnext, ih, List.length_cons]
    omega

theorem Takes.runState_eq (h : Takes next [] state cs state') :
    runState next state cs = some state' := by
  induction h with
  | nil => rfl
  | cons hnext _ ih =>
    rw [List.append_nil] at hnext
    rw [runState, hnext]
    exact ih

/-- Characters that leave the state alone are taken. -/
theorem Takes.of_forall {back : List Char}
    (h : ∀ c ∈ cs, ∀ following, next state c following = some state) :
    Takes next back state cs state := by
  induction cs with
  | nil => exact .nil
  | cons c cs ih =>
    exact .cons (h c List.mem_cons_self _) (ih fun d hd => h d (List.mem_cons_of_mem _ hd))

end

namespace Gap

/-! ## What is taken is a gap -/

/-- What is left of a gap inside a block comment, if `back` follows it. -/
def IsCommentTail (back cs : List Char) : Prop :=
  (¬ HoldsCommentEnd cs ∧ back = []) ∨
    ∃ comment gap, cs = comment ++ '*' :: '/' :: gap ∧ ¬ HoldsCommentEnd comment ∧ IsGap back gap

/-- What the automaton takes from a state on, if `back` follows it. -/
def Covers (back : List Char) : Gap → List Char → Prop
  | blanks, cs => IsGap back cs
  | lineComment, cs => ∃ comment gap, cs = comment ++ gap ∧
      (∀ c ∈ comment, isBreakChar c = false) ∧ AtLineEnd (gap ++ back) ∧ IsGap back gap
  | opening, cs => ∃ rest, cs = '*' :: rest ∧ IsCommentTail back rest
  | blockComment, cs => IsCommentTail back cs
  | closing, cs => ∃ gap, cs = '/' :: gap ∧ IsGap back gap

/-- The character that the automaton has seen in front of it. -/
def expected : Gap → Option Char
  | opening => some '*'
  | closing => some '/'
  | _ => none

variable {back cs : List Char} {c : Char}

/-- Behind its two slashes a line comment goes on to the end of the line. -/
theorem covers_blanks_of_lineComment (hslash : (cs ++ back).head? = some '/')
    (h : Covers back lineComment cs) : Covers back blanks ('/' :: cs) := by
  obtain ⟨comment, gap, rfl, hcomment, hend, hgap⟩ := h
  cases comment with
  | nil => exact absurd (hend '/' hslash) (by decide)
  | cons c comment =>
    obtain rfl : c = '/' := Option.some.inj hslash
    exact .lineComment (fun d hd => hcomment d (List.mem_cons_of_mem _ hd)) hend hgap

theorem covers_blanks_of_opening (h : Covers back opening cs) :
    Covers back blanks ('/' :: cs) := by
  obtain ⟨rest, rfl, ⟨hopen, hback⟩ | ⟨comment, gap, rfl, hcomment, hgap⟩⟩ := h
  · exact .openComment hopen hback
  · exact .blockComment hcomment hgap

theorem covers_lineComment_cons (hc : isBreakChar c = false) (h : Covers back lineComment cs) :
    Covers back lineComment (c :: cs) := by
  obtain ⟨comment, gap, rfl, hcomment, hend, hgap⟩ := h
  exact ⟨c :: comment, gap, rfl, List.forall_mem_cons.2 ⟨hc, hcomment⟩, hend, hgap⟩

/-- A line comment ends before the break, which is a blank. -/
theorem covers_lineComment_of_break (hc : isBreakChar c = true) (h : Covers back blanks cs) :
    Covers back lineComment (c :: cs) := by
  refine ⟨[], c :: cs, rfl, nofun, ?_, .blank (isBlank_of_isBreakChar hc) h⟩
  intro d hd
  obtain rfl : c = d := Option.some.inj hd
  exact hc

theorem covers_blockComment_cons (hc : ¬ (c = '*' ∧ (cs ++ back).head? = some '/'))
    (h : Covers back blockComment cs) : Covers back blockComment (c :: cs) := by
  have hcons : ∀ comment, ¬ HoldsCommentEnd comment →
      (comment.head? = some '/' → (cs ++ back).head? = some '/') →
      ¬ HoldsCommentEnd (c :: comment) := by
    intro comment hcomment hhead hend
    rcases holdsCommentEnd_cons.1 hend with ⟨hstar, hslash⟩ | hend
    · exact hc ⟨hstar, hhead hslash⟩
    · exact hcomment hend
  rcases h with ⟨hopen, rfl⟩ | ⟨comment, gap, rfl, hcomment, hgap⟩
  · refine Or.inl ⟨hcons cs hopen ?_, rfl⟩
    rw [List.append_nil]
    exact id
  · refine Or.inr ⟨c :: comment, gap, rfl, hcons comment hcomment ?_, hgap⟩
    cases comment with
    | nil => exact nofun
    | cons _ _ => exact id

theorem covers_blockComment_of_closing (h : Covers back closing cs) :
    Covers back blockComment ('*' :: cs) := by
  obtain ⟨gap, rfl, hgap⟩ := h
  exact Or.inr ⟨[], gap, rfl, by simp [HoldsCommentEnd], hgap⟩

theorem expected_of_next {gap gap' : Gap} {following : Option Char}
    (h : gap.next c following = some gap') : ∀ d ∈ gap'.expected, following = some d := by
  cases gap with
  | blanks =>
    unfold next at h
    dsimp only at h
    split at h
    · cases h
      exact nofun
    · split at h
      · cases h
        exact nofun
      · split at h
        · rename_i hblock
          simp only [Bool.and_eq_true, beq_iff_eq] at hblock
          cases h
          rw [hblock.2]
          exact fun _ hd => hd
        · cases h
  | lineComment =>
    cases h
    split <;> exact nofun
  | opening =>
    cases h
    exact nofun
  | blockComment =>
    cases h
    split
    · rename_i hclose
      simp only [Bool.and_eq_true, beq_iff_eq] at hclose
      rw [hclose.2]
      exact fun _ hd => hd
    · exact nofun
  | closing =>
    cases h
    exact nofun

/-- One step of the automaton. -/
theorem covers_cons {gap gap' : Gap} (hseen : ∀ d ∈ gap.expected, c = d)
    (hnext : gap.next c (cs ++ back).head? = some gap') (h : Covers back gap' cs) :
    Covers back gap (c :: cs) := by
  cases gap with
  | blanks =>
    unfold next at hnext
    dsimp only at hnext
    split at hnext
    · rename_i hblank
      cases hnext
      exact .blank hblank h
    · split at hnext
      · rename_i hline
        simp only [Bool.and_eq_true, beq_iff_eq] at hline
        obtain ⟨rfl, hslash⟩ := hline
        cases hnext
        exact covers_blanks_of_lineComment hslash h
      · split at hnext
        · rename_i hblock
          simp only [Bool.and_eq_true, beq_iff_eq] at hblock
          obtain ⟨rfl, -⟩ := hblock
          cases hnext
          exact covers_blanks_of_opening h
        · cases hnext
  | lineComment =>
    cases hnext
    by_cases hbreak : isBreakChar c = true
    · rw [if_pos hbreak] at h
      exact covers_lineComment_of_break hbreak h
    · rw [if_neg hbreak] at h
      exact covers_lineComment_cons (by simpa using hbreak) h
  | opening =>
    cases hnext
    obtain rfl : c = '*' := hseen '*' rfl
    exact ⟨cs, rfl, h⟩
  | blockComment =>
    cases hnext
    by_cases hclose : (c == '*' && (cs ++ back).head? == some '/') = true
    · rw [if_pos hclose] at h
      simp only [Bool.and_eq_true, beq_iff_eq] at hclose
      obtain ⟨rfl, -⟩ := hclose
      exact covers_blockComment_of_closing h
    · rw [if_neg hclose] at h
      simp only [Bool.and_eq_true, beq_iff_eq] at hclose
      exact covers_blockComment_cons hclose h
  | closing =>
    cases hnext
    obtain rfl : c = '/' := hseen '/' rfl
    exact ⟨cs, rfl, h⟩

theorem covers_take (gap : Gap) (cs : List Char) (hseen : ∀ d ∈ gap.expected, cs.head? = some d) :
    Covers (cs.drop (runLength next 0 gap cs)) gap (cs.take (runLength next 0 gap cs)) := by
  induction cs generalizing gap with
  | nil =>
    cases gap with
    | blanks => exact .nil
    | lineComment => exact ⟨[], [], rfl, nofun, nofun, .nil⟩
    | blockComment => exact Or.inl ⟨by simp [HoldsCommentEnd], rfl⟩
    | opening => cases hseen _ rfl
    | closing => cases hseen _ rfl
  | cons c cs ih =>
    cases hnext : gap.next c cs.head? with
    | none =>
      rw [runLength_cons_of_none hnext]
      cases gap with
      | blanks => exact .nil
      | _ => cases hnext
    | some gap' =>
      rw [runLength_cons_of_some hnext, List.take_succ_cons, List.drop_succ_cons]
      have hrest := ih gap' (expected_of_next hnext)
      rw [← List.take_append_drop (runLength next 0 gap' cs) cs] at hnext
      exact covers_cons (fun d hd => Option.some.inj (hseen d hd)) hnext hrest

/-- What stands in front of a token is a gap. -/
theorem isGap_take (cs : List Char) : IsGap (cs.drop (length cs)) (cs.take (length cs)) :=
  covers_take blanks cs nofun

/-! ## What is a gap is taken -/

theorem next_blanks_eq_none_iff : blanks.next c cs.head? = none ↔ ¬ OpensGap (c :: cs) := by
  rw [opensGap_cons]
  unfold next
  by_cases hslash : c = '/'
  · have hblank : isBlank '/' = false := by decide
    subst hslash
    by_cases hline : cs.head? = some '/' <;> simp [hblank, hline]
  · simp [hslash]

/-- Behind the gap no other one starts. -/
theorem not_opensGap_drop (cs : List Char) : ¬ OpensGap (cs.drop (length cs)) := by
  cases hdrop : cs.drop (length cs) with
  | nil => simp [OpensGap]
  | cons c rest =>
    obtain ⟨gap, hnext⟩ := next_eq_none_of_drop_runLength hdrop
    cases gap with
    | blanks => exact next_blanks_eq_none_iff.1 hnext
    | _ => cases hnext

theorem length_eq_zero (h : ¬ OpensGap cs) : length cs = 0 := by
  cases cs with
  | nil => rfl
  | cons c cs => exact runLength_cons_of_none (next_blanks_eq_none_iff.2 h)

/-- A comment that does not end is taken up to where it stops. -/
theorem takes_comment (hcomment : ¬ HoldsCommentEnd cs) (hback : back.head? ≠ some '/') :
    Takes next back blockComment cs blockComment := by
  induction cs with
  | nil => exact .nil
  | cons c cs ih =>
    rw [holdsCommentEnd_cons, not_or] at hcomment
    have hclose : ¬ (c == '*' && (cs ++ back).head? == some '/') = true := by
      simp only [Bool.and_eq_true, beq_iff_eq]
      rintro ⟨hstar, hslash⟩
      cases cs with
      | nil => exact hback hslash
      | cons _ _ => exact hcomment.1 ⟨hstar, hslash⟩
    exact .cons (congrArg some (if_neg hclose)) (ih hcomment.2)

/-- At the end of its line a line comment goes on as the blanks behind it. -/
theorem takes_lineComment {last : Gap} (hend : AtLineEnd (cs ++ back))
    (h : Takes next back blanks cs last) :
    Takes next back lineComment cs last ∨ cs = [] := by
  cases h with
  | nil => exact Or.inr rfl
  | @cons _ between _ c cs hnext hrest =>
    have hbreak : isBreakChar c = true := hend c rfl
    have hblanks : blanks.next c (cs ++ back).head? = some blanks :=
      if_pos (isBlank_of_isBreakChar hbreak)
    rw [hblanks] at hnext
    cases hnext
    refine Or.inl (.cons ?_ hrest)
    unfold next
    dsimp only
    rw [if_pos hbreak]

/-- Behind a first gap the characters are in a block comment that does not end. -/
def IsOpen (cs : List Char) : Prop :=
  ∃ front comment, cs = front ++ '/' :: '*' :: comment ∧
    IsGap ('/' :: '*' :: comment) front ∧ ¬ HoldsCommentEnd comment

/-- A comment stays open if more blanks and comments stand before it. -/
theorem IsOpen.append {gap : List Char} (h : IsOpen gap) (before : List Char)
    (hbefore : ∀ front back, gap = front ++ back → IsGap back front →
      IsGap back (before ++ front)) : IsOpen (before ++ gap) := by
  obtain ⟨front, comment, rfl, hfront, hcomment⟩ := h
  exact ⟨before ++ front, comment, (List.append_assoc _ _ _).symm, hbefore _ _ rfl hfront, hcomment⟩

/-- The automaton takes a gap. It is then between comments, or in a line comment that ends here, or
in a block comment that is open at the end of the text. -/
theorem takes_of_isGap {gap : List Char} (h : IsGap back gap) :
    ∃ last, Takes next back blanks gap last ∧
      (last = blanks ∨ last = lineComment ∧ AtLineEnd back ∨
        last = blockComment ∧ back = [] ∧ IsOpen gap) := by
  induction h with
  | nil => exact ⟨blanks, .nil, Or.inl rfl⟩
  | @blank c gap hblank _ ih =>
    obtain ⟨last, htakes, hlast⟩ := ih
    refine ⟨last, .cons (if_pos hblank) htakes, hlast.imp_right (Or.imp_right ?_)⟩
    rintro ⟨rfl, hback, hopen⟩
    exact ⟨rfl, hback, hopen.append [c] fun _ _ _ hfront => .blank hblank hfront⟩
  | @lineComment comment gap hline hend _ ih =>
    obtain ⟨last, htakes, hlast⟩ := ih
    have hstays : Takes next (gap ++ back) lineComment comment lineComment := by
      refine .of_forall fun c hc _ => congrArg some (if_neg ?_)
      simp [hline c hc]
    rcases takes_lineComment hend htakes with hrest | rfl
    · refine ⟨last, .cons rfl (.cons rfl (hstays.append hrest)),
        hlast.imp_right (Or.imp_right ?_)⟩
      rintro ⟨rfl, rfl, hopen⟩
      rw [List.append_nil] at hend
      refine ⟨rfl, rfl, hopen.append ('/' :: '/' :: comment) fun front back hsplit hfront => ?_⟩
      exact .lineComment hline (hsplit ▸ hend) hfront
    · refine ⟨lineComment, .cons rfl (.cons rfl (hstays.append .nil)), ?_⟩
      exact Or.inr (Or.inl ⟨rfl, hend⟩)
  | @blockComment comment gap hcomment _ ih =>
    obtain ⟨last, htakes, hlast⟩ := ih
    have hinside : Takes next ('*' :: '/' :: gap ++ back) blockComment comment blockComment :=
      takes_comment hcomment (by simp)
    refine ⟨last, .cons rfl (.cons rfl (hinside.append (.cons rfl (.cons rfl htakes)))),
      hlast.imp_right (Or.imp_right ?_)⟩
    rintro ⟨rfl, hback, hopen⟩
    have hlonger := hopen.append ('/' :: '*' :: (comment ++ ['*', '/'])) fun front back _ hfront =>
      show IsGap back ('/' :: '*' :: (comment ++ ['*', '/'] ++ front)) by
        rw [List.append_assoc]
        exact .blockComment hcomment hfront
    refine ⟨rfl, hback, ?_⟩
    simpa using hlonger
  | @openComment comment hcomment hback =>
    subst hback
    have hinside : Takes next [] blockComment comment blockComment :=
      takes_comment hcomment (by simp)
    refine ⟨blockComment, .cons rfl (.cons rfl hinside), Or.inr (Or.inr ⟨rfl, rfl, ?_⟩)⟩
    exact ⟨[], comment, rfl, .nil, hcomment⟩

theorem takes_of_isOpen (h : IsOpen cs) : Takes next [] blanks cs blockComment := by
  obtain ⟨front, comment, rfl, hfront, hcomment⟩ := h
  have hinside : Takes next [] blockComment comment blockComment :=
    takes_comment hcomment (by simp)
  obtain ⟨last, htakes, rfl | ⟨-, hend⟩ | ⟨-, hback, -⟩⟩ := takes_of_isGap hfront
  · rw [← List.append_nil ('/' :: '*' :: comment)] at htakes
    exact htakes.append (.cons rfl (.cons rfl hinside))
  · exact absurd (hend '/' rfl) (by decide)
  · cases hback

/-- A gap that no other one follows is the longest one. -/
theorem length_append {gap : List Char} (h : IsGap back gap) (hback : ¬ OpensGap back) :
    length (gap ++ back) = gap.length := by
  obtain ⟨last, htakes, hlast⟩ := takes_of_isGap h
  have hstop : runLength next 0 last back = 0 := by
    rcases hlast with rfl | ⟨rfl, hend⟩ | ⟨rfl, rfl, -⟩
    · exact length_eq_zero hback
    · cases back with
      | nil => rfl
      | cons c back =>
        have hblank := isBlank_of_isBreakChar (hend c rfl)
        exact absurd (Or.inl ⟨c, rfl, hblank⟩) hback
    · rfl
  rw [length, htakes.runLength_append, hstop, Nat.add_zero]

end Gap

end CaplOutline
