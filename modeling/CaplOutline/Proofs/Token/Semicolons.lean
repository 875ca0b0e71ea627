-- A text in which semicolons were replaced by blanks. A semicolon is a token by itself and
-- sets apart what stands on both sides of it, and so does a blank. So the text has lost
-- these tokens, and all others are what they were and where they were.
import Mathlib.Data.List.Nodup
import CaplOutline.Proofs.Text.Blanking
import CaplOutline.Proofs.Token.Joining
import CaplOutline.Proofs.Token.Bounds

namespace CaplOutline

open Text

/-! ## Lexemes before a semicolon -/

/-- An automaton that stops before a character does not see whether another one stands there. -/
theorem runLength_congr_of_lt {σ : Type} {next : σ → Char → Option Char → Option σ} {state : σ}
    {d d' : Char} {cs rest : List Char}
    (hblind : ∀ state c, next state c none = next state c (some d))
    (hblind' : ∀ state c, next state c none = next state c (some d'))
    (h : runLength next 0 state (cs ++ d :: rest) < cs.length) (rest' : List Char) :
    runLength next 0 state (cs ++ d' :: rest') = runLength next 0 state (cs ++ d :: rest) := by
  have hlt : runLength next 0 state cs < cs.length := by
    by_contra hge
    obtain ⟨state', hstate⟩ := exists_runState (Nat.le_of_not_lt hge)
    rw [runLength_append_of_runState hblind hstate] at h
    omega
  rw [runLength_append_of_lt hblind hlt, runLength_append_of_lt hblind' hlt]

theorem QuotedLiteral.length_blank {quote : Char} {cs rest : List Char}
    (h : length quote (cs ++ ';' :: rest) ≤ cs.length) :
    length quote (cs ++ ' ' :: rest) = length quote (cs ++ ';' :: rest) := by
  unfold length at h ⊢
  rcases Nat.lt_or_ge (runLength (next quote) 0 inside cs) cs.length with hlt | hge
  · rw [runLength_append_of_lt (fun _ _ => rfl) hlt, runLength_append_of_lt (fun _ _ => rfl) hlt]
  · obtain ⟨state, hstate⟩ := exists_runState hge
    rw [runLength_append_of_runState (fun _ _ => rfl) hstate] at h
    rw [runLength_append_of_runState (fun _ _ => rfl) hstate,
      runLength_append_of_runState (fun _ _ => rfl) hstate]
    -- A literal that is still open takes the semicolon along.
    cases state with
    | inside =>
      have hnext : ∃ state', next quote inside ';' rest.head? = some state' := by
        change ∃ state', (if (';' == quote) = true then some closed else some inside) = some state'
        split <;> exact ⟨_, rfl⟩
      obtain ⟨state', hnext⟩ := hnext
      rw [runLength, hnext] at h
      dsimp only at h
      rw [runLength_eq_add] at h
      omega
    | escaped =>
      have hone : runLength (next quote) 0 escaped (';' :: rest) =
          0 + 1 + runLength (next quote) 0 inside rest :=
        runLength_eq_add (next quote) (0 + 1) inside rest
      omega
    | closed => rfl

theorem Gap.length_blank {cs rest : List Char} (h : length (cs ++ ';' :: rest) < cs.length) :
    length (cs ++ ' ' :: rest) = length (cs ++ ';' :: rest) :=
  runLength_congr_of_lt (next_blind (by decide) (by decide)) (next_blind (by decide) (by decide)) h
    rest

/-- A gap that ends at a semicolon goes on over a blank. -/
theorem Gap.length_append_blank {cs rest : List Char}
    (h : length (cs ++ ';' :: rest) = cs.length) :
    length (cs ++ ' ' :: rest) = cs.length + 1 + length rest := by
  have hblind := next_blind (d := ';') (by decide) (by decide)
  have hblind' := next_blind (d := ' ') (by decide) (by decide)
  unfold length at h ⊢
  obtain ⟨gap, hstate⟩ : ∃ gap, runState next blanks cs = some gap := by
    apply exists_runState
    by_contra hlt
    rw [runLength_append_of_lt hblind (by omega)] at h
    omega
  rw [runLength_append_of_runState hblind hstate] at h
  rw [runLength_append_of_runState hblind' hstate, Nat.add_assoc]
  have hone : ∀ gap', runLength next (0 + 1) gap' rest = 0 + 1 + runLength next 0 gap' rest :=
    fun gap' => runLength_eq_add ..
  -- Inside a comment the semicolon is taken along.
  cases gap with
  | blanks => exact congrArg (cs.length + ·) (hone blanks)
  | lineComment =>
    change cs.length + runLength next (0 + 1) lineComment rest = _ at h
    rw [hone] at h
    omega
  | opening =>
    change cs.length + runLength next (0 + 1) blockComment rest = _ at h
    rw [hone] at h
    omega
  | blockComment =>
    change cs.length + runLength next (0 + 1) blockComment rest = _ at h
    rw [hone] at h
    omega
  | closing =>
    change cs.length + runLength next (0 + 1) blanks rest = _ at h
    rw [hone] at h
    omega

/-- A lexeme that ends before a semicolon ends before a blank as well. -/
theorem Lexeme.read_blank {c : Char} {cs rest : List Char}
    (h : (read c (cs ++ ';' :: rest)).more ≤ cs.length) :
    read c (cs ++ ' ' :: rest) = read c (cs ++ ';' :: rest) := by
  have hword : (cs ++ ' ' :: rest).takeWhile isWordChar =
      (cs ++ ';' :: rest).takeWhile isWordChar := by
    rw [takeWhile_append_of_not (by decide), takeWhile_append_of_not (by decide)]
  have hnumber : (cs ++ ' ' :: rest).takeWhile isNumberChar =
      (cs ++ ';' :: rest).takeWhile isNumberChar := by
    rw [takeWhile_append_of_not (by decide), takeWhile_append_of_not (by decide)]
  have hstart : (cs ++ ' ' :: rest).head?.any isWordStart =
      (cs ++ ';' :: rest).head?.any isWordStart := by
    cases cs with
    | nil => exact (by decide : isWordStart ' ' = isWordStart ';')
    | cons _ _ => rfl
  have hoperator : operator c (cs ++ ' ' :: rest).head? =
      operator c (cs ++ ';' :: rest).head? := by
    cases cs with
    | nil =>
      change operator c (some ' ') = operator c (some ';')
      unfold operator
      split <;> rfl
    | cons _ _ => rfl
  have hquoted : c = '"' ∨ c = '\'' →
      QuotedLiteral.length c (cs ++ ' ' :: rest) = QuotedLiteral.length c (cs ++ ';' :: rest) := by
    rintro (rfl | rfl) <;> exact QuotedLiteral.length_blank h
  unfold read word
  rw [hword, hnumber, hstart, hoperator]
  by_cases hc : c = '"' ∨ c = '\''
  · rw [hquoted hc]
  · obtain ⟨hdouble, hsingle⟩ := not_or.1 hc
    rw [beq_eq_false_iff_ne.2 hdouble, beq_eq_false_iff_ne.2 hsingle]
    rfl

theorem Lexeme.eq_of_kind_read {c : Char} {cs : List Char} (h : (read c cs).kind = .semicolon) :
    c = ';' := by
  unfold read word at h
  repeat' split at h
  all_goals try cases h
  · dsimp only at h
    generalize Keyword.ofWord? _ = word at h
    cases word <;> cases h
  · unfold operator at h
    repeat' split at h
    all_goals first | rfl | cases h

/-- It does not matter for a token whether a semicolon or a blank is in front of it. -/
theorem Token.between_blank (front mid word back : List Char) (kind : TokenKind) (depth : Nat) :
    between (front ++ ' ' :: mid) word back kind depth =
      between (front ++ ';' :: mid) word back kind depth := by
  unfold between
  rw [List.append_assoc, List.append_assoc, List.cons_append, List.cons_append,
    walk_blank (c := ';') (by decide) (by decide), walk_blank (c := ';') (by decide) (by decide)]
  simp [byteLength_append, Char.utf8Size]

namespace Cursor

variable {front gap mid rest post : List Char} {depth : Nat} {token : Token}
  {cursor stop : Cursor} {tokens : List Token}

/-! ## One token -/

/-- What the cursor reads before a semicolon, it reads before a blank as well. -/
theorem next_between_before (h : (between front rest depth).next = (some token, cursor)) :
    ∃ taken rest' depth', rest = taken ++ rest' ∧
      cursor = between (front ++ taken) rest' depth' ∧
      ∀ cs post, rest' = cs ++ ';' :: post →
        (between front (taken ++ (cs ++ ' ' :: post)) depth).next =
          (some token, between (front ++ taken) (cs ++ ' ' :: post) depth') := by
  obtain ⟨gap, c, word, back, lexeme, rfl, hgap, hread, hmore, hline, rfl, rfl⟩ :=
    exists_lexeme h
  refine ⟨gap ++ c :: word, back, depthAfter depth lexeme.kind, by simp, by simp, ?_⟩
  rintro cs post rfl
  have hgap' : Gap.length (gap ++ c :: (word ++ (cs ++ ' ' :: post))) = gap.length := by
    have hsplit : ∀ d : Char, gap ++ c :: (word ++ (cs ++ d :: post)) =
        (gap ++ c :: (word ++ cs)) ++ d :: post := by simp
    have hlt : gap.length < (gap ++ c :: (word ++ cs)).length := by simp
    rw [hsplit] at hgap ⊢
    rw [← hgap] at hlt
    exact (Gap.length_blank hlt).trans hgap
  have hread' : Lexeme.read c (word ++ (cs ++ ' ' :: post)) = lexeme := by
    rw [← hread, ← List.append_assoc, ← List.append_assoc]
    apply Lexeme.read_blank
    rw [List.append_assoc, hread, hmore, List.length_append]
    exact Nat.le_add_right _ _
  rw [List.append_assoc, List.cons_append, next_of_lexeme hgap' hread' hmore,
    Token.between_congr (by simp) hline, ← List.append_assoc]

/-- A semicolon is read where the gap before it ends, and a blank goes on with that gap. -/
theorem next_between_semicolon (h : (between front rest depth).next = (some token, cursor))
    (hkind : token.kind = .semicolon) :
    ∃ gap post, rest = gap ++ ';' :: post ∧ token.span.start = byteLength (front ++ gap) ∧
      cursor = between (front ++ gap ++ [';']) post depth ∧
      (between front (gap ++ ' ' :: post) depth).next =
        (between (front ++ gap ++ [' ']) post depth).next := by
  obtain ⟨gap, c, word, back, lexeme, rfl, hgap, hread, hmore, -, rfl, rfl⟩ := exists_lexeme h
  subst hread
  obtain rfl := Lexeme.eq_of_kind_read hkind
  obtain rfl := List.eq_nil_of_length_eq_zero hmore.symm
  exact ⟨gap, back, rfl, rfl, rfl, next_between_skip (Gap.length_append_blank hgap)⟩

/-- Behind a blank everything is read as it is behind a semicolon. -/
theorem next_between_behind
    (h : (between (front ++ ';' :: mid) rest depth).next = (some token, cursor)) :
    ∃ mid' rest' depth', cursor = between (front ++ ';' :: mid') rest' depth' ∧
      (between (front ++ ' ' :: mid) rest depth).next =
        (some token, between (front ++ ' ' :: mid') rest' depth') := by
  obtain ⟨gap, c, word, back, lexeme, rfl, hgap, hread, hmore, -, rfl, rfl⟩ := exists_lexeme h
  refine ⟨mid ++ gap ++ c :: word, back, depthAfter depth lexeme.kind, by simp, ?_⟩
  have hsplit : ∀ d : Char, front ++ d :: mid ++ gap = front ++ d :: (mid ++ gap) := by simp
  rw [next_of_lexeme hgap hread hmore, hsplit, hsplit, Token.between_blank]
  simp

theorem Reads.behind_blank (h : cursor.Reads tokens stop)
    (hat : cursor = between (front ++ ';' :: mid) rest depth) :
    ∃ stop', (between (front ++ ' ' :: mid) rest depth).Reads tokens stop' := by
  induction h generalizing mid rest depth with
  | nil hnext =>
    subst hat
    rw [next_between] at hnext
    split at hnext
    · rename_i hdrop
      refine ⟨between (front ++ ' ' :: mid ++ rest) [] depth, .nil ?_⟩
      rw [next_between, hdrop]
    · cases hnext
  | cons hnext _ ih =>
    subst hat
    obtain ⟨mid', rest', depth', rfl, hblank⟩ := next_between_behind hnext
    obtain ⟨stop', hreads⟩ := ih rfl
    exact ⟨stop', .cons hblank hreads⟩

/-- With a blank for the semicolon behind `before`, all other tokens are read. -/
theorem Reads.blank {before after : List Token} {semicolon : Token}
    (h : cursor.Reads (before ++ semicolon :: after) stop)
    (hat : cursor = between front rest depth) (hkind : semicolon.kind = .semicolon) :
    ∃ gap post stop', rest = gap ++ ';' :: post ∧
      semicolon.span.start = byteLength (front ++ gap) ∧
      (between front (gap ++ ' ' :: post) depth).Reads (before ++ after) stop' := by
  induction before generalizing cursor front rest depth with
  | nil =>
    subst hat
    cases h with
    | cons hnext hreads =>
      obtain ⟨gap, post, rfl, hplace, rfl, hskip⟩ := next_between_semicolon hnext hkind
      rw [List.append_assoc] at hreads hskip
      have hat : between (front ++ (gap ++ [';'])) post depth =
          between (front ++ gap ++ ';' :: []) post depth := by simp
      obtain ⟨stop', hreads'⟩ := hreads.behind_blank hat
      rw [List.append_assoc] at hreads'
      exact ⟨gap, post, stop', rfl, hplace, hreads'.of_next_eq hskip⟩
  | cons token before ih =>
    subst hat
    cases h with
    | cons hnext hreads =>
      obtain ⟨taken, rest', depth', rfl, rfl, hblank⟩ := next_between_before hnext
      obtain ⟨gap, post, stop', rfl, hplace, hreads'⟩ := ih hreads rfl
      refine ⟨taken ++ gap, post, stop', by simp, ?_, ?_⟩
      · rw [hplace, List.append_assoc]
      · rw [List.append_assoc]
        exact .cons (hblank gap post rfl) hreads'

end Cursor

/-! ## All tokens -/

namespace Token

/-- The text with a blank in the place of every token that is lost. -/
def blankOut (lost : Token → Bool) (text : String) : String :=
  ((ofText text).filter lost).foldl (fun text token => blankAt text token.span.start) text

variable {text : String} {before after : List Token} {semicolon : Token}

/-- The semicolon is one character of the text, and without it all other tokens are left. -/
theorem exists_semicolon (h : ofText text = before ++ semicolon :: after)
    (hkind : semicolon.kind = .semicolon) :
    ∃ pre post, text.toList = pre ++ ';' :: post ∧ semicolon.span.start = byteLength pre ∧
      ofText (blankAt text semicolon.span.start) = before ++ after := by
  have hreads := Cursor.reads_scan text
  rw [h] at hreads
  have hat : Cursor.ofText text = .between [] text.toList 0 := rfl
  obtain ⟨pre, post, stop, hsplit, hplace, hreads'⟩ := hreads.blank hat hkind
  rw [List.nil_append] at hplace
  refine ⟨pre, post, hsplit, hplace, ?_⟩
  have hblank := toList_blankAt hsplit rfl
  have hscan := Cursor.reads_scan (blankAt text semicolon.span.start)
  unfold Cursor.ofText at hscan
  rw [hplace, hblank] at hscan
  rw [hplace]
  exact hscan.unique hreads'

/-- Losing semicolons leaves all other tokens, and every piece of the text that holds none of
them. -/
theorem blankOut_from (lost : Token → Bool)
    (hlost : ∀ token ∈ after, lost token = true → token.kind = .semicolon)
    (h : ofText text = before ++ after) :
    let blanked :=
      (after.filter lost).foldl (fun text token => blankAt text token.span.start) text
    ofText blanked = before ++ after.filter (!lost ·) ∧
      ∀ start stop, isBoundary text start = true → isBoundary text stop = true →
        (∀ token ∈ after, lost token = true → token.span.start < start ∨ stop ≤ token.span.start) →
        slice blanked start stop = slice text start stop := by
  induction after generalizing before text with
  | nil => exact ⟨h, fun _ _ _ _ _ => rfl⟩
  | cons token after ih =>
    have hrest : ∀ other ∈ after, lost other = true → other.kind = .semicolon :=
      fun other hmem => hlost other (List.mem_cons_of_mem _ hmem)
    cases hlosing : lost token with
    | false =>
      rw [List.append_cons] at h
      obtain ⟨htokens, hslices⟩ := ih hrest h
      rw [List.filter_cons_of_neg (by simp [hlosing]),
        List.filter_cons_of_pos (by simp [hlosing]), List.append_cons]
      refine ⟨htokens, fun start stop hstart hstop haway => hslices start stop hstart hstop ?_⟩
      exact fun other hmem => haway other (List.mem_cons_of_mem _ hmem)
    | true =>
      obtain ⟨pre, post, hsplit, hplace, hblank⟩ :=
        exists_semicolon h (hlost token List.mem_cons_self hlosing)
      obtain ⟨htokens, hslices⟩ := ih hrest hblank
      rw [List.filter_cons_of_pos hlosing, List.filter_cons_of_neg (by simp [hlosing]),
        List.foldl_cons]
      refine ⟨htokens, ?_⟩
      intro start stop hstart hstop haway
      have hfirst := haway token List.mem_cons_self hlosing
      rw [hslices start stop]
      · rw [hplace] at hfirst ⊢
        exact slice_blankAt hsplit rfl hstart hstop hfirst
      · rw [hplace]
        exact isBoundary_blankAt hsplit rfl hstart
      · rw [hplace]
        exact isBoundary_blankAt hsplit rfl hstop
      · exact fun other hmem => haway other (List.mem_cons_of_mem _ hmem)

variable {lost : Token → Bool}

theorem ofText_blankOut (h : ∀ token ∈ ofText text, lost token = true → token.kind = .semicolon) :
    ofText (blankOut lost text) = (ofText text).filter (!lost ·) :=
  (blankOut_from lost h (List.nil_append _).symm).1

/-- A piece of tokens, of which none is lost, covers the same piece of both texts. -/
theorem slice_blankOut (h : ∀ token ∈ ofText text, lost token = true → token.kind = .semicolon)
    {piece : List Token} (hpiece : piece <:+: ofText text)
    (hkept : ∀ token ∈ piece, lost token = false) {first last : Token} (hfirst : first ∈ piece)
    (hlast : last ∈ piece) :
    slice (blankOut lost text) first.span.start last.span.start =
        slice text first.span.start last.span.start ∧
      slice (blankOut lost text) first.span.start last.span.stop =
        slice text first.span.start last.span.stop := by
  have hslices := (blankOut_from lost h (List.nil_append _).symm).2
  have hstands : ∀ token ∈ piece, token.StandsIn text :=
    fun token hmem => standsIn_of_mem (hpiece.subset hmem)
  have haway : ∀ token ∈ ofText text, lost token = true →
      token.span.start < first.span.start ∨ last.span.stop ≤ token.span.start := by
    intro token hmem hlosing
    -- The lost token is above the piece or below it.
    have horder := pairwise_precedes text
    obtain ⟨above, below, hsplit⟩ := hpiece
    rw [← hsplit] at hmem horder
    obtain ⟨habove, -, hbelow⟩ := List.pairwise_append.1 horder
    obtain ⟨-, -, habove⟩ := List.pairwise_append.1 habove
    rcases List.mem_append.1 hmem with hmem | hmem
    · rcases List.mem_append.1 hmem with hmem | hmem
      · have hbytes := (habove token hmem first hfirst).bytes
        have hstands : token.StandsIn text := standsIn_of_mem (by simp [← hsplit, hmem])
        have hlt := hstands.span_start_lt_stop
        exact Or.inl (by omega)
      · rw [hkept token hmem] at hlosing
        cases hlosing
    · exact Or.inr (hbelow last (List.mem_append_right _ hlast) token hmem).bytes
  have hstart := (hstands first hfirst).isBoundary.1
  have hstop := (hstands last hlast).isBoundary
  refine ⟨hslices _ _ hstart hstop.1 ?_, hslices _ _ hstart hstop.2 haway⟩
  intro token hmem hlosing
  have hlt := (hstands last hlast).span_start_lt_stop
  rcases haway token hmem hlosing with hbefore | hbehind
  · exact Or.inl hbefore
  · exact Or.inr (by omega)

/-! ## The end of a declaration -/

/-- Where a declaration ends that ended at `stop` before. If that was behind a lost semicolon, it
ends behind the token before the semicolon. -/
def retreat (lost : Token → Bool) : List Token → Position → Position
  | last :: semicolon :: rest, stop =>
    if lost semicolon && semicolon.range.stop == stop then last.range.stop
    else retreat lost (semicolon :: rest) stop
  | _, stop => stop

theorem retreat_of_ne {tokens : List Token} {stop : Position}
    (h : ∀ token ∈ tokens, lost token = true → token.range.stop ≠ stop) :
    retreat lost tokens stop = stop := by
  fun_induction retreat lost tokens stop with
  | case1 last semicolon rest stop hsemicolon =>
    simp only [Bool.and_eq_true, beq_iff_eq] at hsemicolon
    exact absurd hsemicolon.2 (h semicolon (by simp) hsemicolon.1)
  | case2 last semicolon rest stop _ ih =>
    exact ih fun token hmem => h token (List.mem_cons_of_mem _ hmem)
  | case3 => rfl

theorem retreat_append (above : List Token) {last semicolon : Token} (below : List Token)
    (hlost : lost semicolon = true)
    (hapart : ∀ token ∈ above ++ [last], token.range.stop ≠ semicolon.range.stop) :
    retreat lost (above ++ last :: semicolon :: below) semicolon.range.stop = last.range.stop := by
  induction above with
  | nil => exact if_pos (by simp [hlost])
  | cons first above ih =>
    obtain ⟨second, rest, hrest, hmem⟩ : ∃ second rest,
        above ++ last :: semicolon :: below = second :: rest ∧ second ∈ above ++ [last] := by
      cases above with
      | nil => exact ⟨last, semicolon :: below, rfl, by simp⟩
      | cons second above => exact ⟨second, above ++ last :: semicolon :: below, rfl, by simp⟩
    have hother : second.range.stop ≠ semicolon.range.stop :=
      hapart second (List.mem_cons_of_mem _ hmem)
    rw [List.cons_append, hrest, retreat, if_neg (by simp [hother]), ← hrest]
    exact ih fun token hmem => hapart token (List.mem_cons_of_mem _ hmem)

/-- Of two tokens the second one ends further down. -/
theorem pairwise_stop_lt (text : String) :
    (ofText text).Pairwise fun first second => first.range.stop < second.range.stop := by
  refine (pairwise_ofText text).imp_of_mem ?_
  intro first second _ hsecond hle
  exact lt_of_le_of_lt hle (standsIn_of_mem hsecond).start_lt_stop

theorem retreat_kept {token : Token} (hmem : token ∈ ofText text) (hkept : lost token = false) :
    retreat lost (ofText text) token.range.stop = token.range.stop := by
  have hnodup : ((ofText text).map (·.range.stop)).Nodup :=
    List.pairwise_map.2 ((pairwise_stop_lt text).imp ne_of_lt)
  apply retreat_of_ne
  intro other hother hlost heq
  rw [List.inj_on_of_nodup_map hnodup hother hmem heq, hkept] at hlost
  cases hlost

theorem retreat_lost {last : Token} (hends : [last, semicolon] <:+: ofText text)
    (hlost : lost semicolon = true) :
    retreat lost (ofText text) semicolon.range.stop = last.range.stop := by
  obtain ⟨above, below, hsplit⟩ := hends
  have horder := pairwise_stop_lt text
  have htokens : ofText text = above ++ last :: semicolon :: below := by
    rw [← hsplit]
    simp
  rw [htokens] at horder ⊢
  apply retreat_append above below hlost
  intro token hmem
  rw [List.append_cons] at horder
  exact ne_of_lt ((List.pairwise_append.1 horder).2.2 token hmem semicolon List.mem_cons_self)

end Token

end CaplOutline
