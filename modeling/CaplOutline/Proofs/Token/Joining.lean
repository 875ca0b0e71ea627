-- Two texts with a line break between them. No lexeme goes over a line break, and a gap
-- does so in a known state. So the tokens of both texts together are the tokens of the
-- first one, and those of the second one further down, unless the first text ends inside
-- a block comment.
import Mathlib.Data.List.Forall2
import CaplOutline.Proofs.Token.Placement

namespace CaplOutline

open Text

/-! ## Places further down -/

/-- The position with so many more lines above it. -/
def Position.moveDown (lines : Nat) (p : Position) : Position := ⟨p.line + lines, p.character⟩

def Range.moveDown (lines : Nat) (range : Range) : Range :=
  ⟨range.start.moveDown lines, range.stop.moveDown lines⟩

/-- The token with so many more bytes and lines before it. The braces that are open outside it may
be others. -/
structure Token.MovesDown (bytes lines : Nat) (token token' : Token) : Prop where
  kind_eq : token'.kind = token.kind
  text_eq : token'.text = token.text
  span_eq : token'.span = ⟨token.span.start + bytes, token.span.stop + bytes⟩
  range_eq : token'.range = token.range.moveDown lines

namespace Text

theorem walk_moveDown (lines : Nat) (p : Position) (cs post : List Char) :
    walk (p.moveDown lines) cs post = (walk p cs post).moveDown lines := by
  induction cs generalizing p with
  | nil => rfl
  | cons c cs ih =>
    have hadvance : advance (p.moveDown lines) c (cs ++ post) =
        (advance p c (cs ++ post)).moveDown lines := by
      unfold advance Position.moveDown
      split
      · simp only [Nat.add_right_comm]
      · rfl
    unfold walk
    rw [hadvance, ih]

/-- Behind a line feed a walk begins a new line, whatever comes next. -/
theorem walk_lineFeed (p : Position) (cs post : List Char) :
    walk p (cs ++ ['\n']) post = ⟨(walk p (cs ++ ['\n']) []).line, 0⟩ := by
  have hcs : walk p cs (['\n'] ++ post) = walk p cs (['\n'] ++ []) := walk_congr rfl
  rw [walk_append, walk_append, hcs]
  rfl

/-- Behind a text and a line feed a walk goes as it goes from the origin, further down. -/
theorem walk_behind_lineFeed (above cs post : List Char) :
    walk .origin (above ++ ['\n'] ++ cs) post =
      (walk .origin cs post).moveDown (walk .origin (above ++ ['\n']) []).line := by
  rw [walk_append, walk_lineFeed, ← walk_moveDown]
  unfold Position.moveDown Position.origin
  rw [Nat.zero_add]

/-- Without a line break at the end of a run it does not matter what follows. -/
theorem walk_append_of_no_break {p : Position} {cs ds post post' : List Char}
    (hne : ds ≠ []) (h : ∀ c ∈ ds, isBreakChar c = false) :
    walk p (cs ++ ds) post = walk p (cs ++ ds) post' := by
  have hhead : (ds ++ post).head? = (ds ++ post').head? := by
    rw [List.head?_append_of_ne_nil _ hne, List.head?_append_of_ne_nil _ hne]
  rw [walk_append, walk_append, walk_of_no_break h, walk_of_no_break h, walk_congr hhead]

theorem LineTable.endPosition_eq_walk (text : String) :
    (LineTable.of text).endPosition = walk .origin text.toList [] := by
  have h := positionOf_byteLength (List.append_nil text.toList).symm
  rwa [byteLength_toList] at h

end Text

/-! ## Automata at the end of a text -/

/-- The state behind all characters, if the automaton takes all of them. -/
def runState {σ : Type} (next : σ → Char → Option Char → Option σ) (state : σ) :
    List Char → Option σ
  | [] => some state
  | c :: cs =>
    match next state c cs.head? with
    | none => none
    | some state => runState next state cs

section

variable {σ : Type} {next : σ → Char → Option Char → Option σ} {state state' : σ} {d : Char}
  {cs : List Char}

theorem next_append (hblind : ∀ state c, next state c none = next state c (some d)) (state : σ)
    (c : Char) (cs rest : List Char) :
    next state c (cs ++ d :: rest).head? = next state c cs.head? := by
  cases cs with
  | nil => exact (hblind state c).symm
  | cons _ _ => rfl

/-- An automaton that stops before the end of a text stops there as well if the text goes on. -/
theorem runLength_append_of_lt (hblind : ∀ state c, next state c none = next state c (some d))
    (h : runLength next 0 state cs < cs.length) (rest : List Char) :
    runLength next 0 state (cs ++ d :: rest) = runLength next 0 state cs := by
  induction cs generalizing state with
  | nil => cases h
  | cons c cs ih =>
    rw [runLength] at h
    rw [List.cons_append, runLength, runLength, next_append hblind]
    split
    · rfl
    · rename_i state' hnext
      rw [hnext] at h
      dsimp only at h
      rw [runLength_eq_add, List.length_cons] at h
      rw [runLength_eq_add, runLength_eq_add next (0 + 1), ih (by omega)]

/-- An automaton that takes all of a text goes on from where it stands. -/
theorem runLength_append_of_runState (hblind : ∀ state c, next state c none = next state c (some d))
    (h : runState next state cs = some state') (rest : List Char) :
    runLength next 0 state (cs ++ d :: rest) = cs.length + runLength next 0 state' (d :: rest) := by
  induction cs generalizing state with
  | nil =>
    cases h
    exact (Nat.zero_add _).symm
  | cons c cs ih =>
    rw [runState] at h
    rw [List.cons_append, runLength, next_append hblind, List.length_cons]
    split
    · rename_i hnext
      rw [hnext] at h
      cases h
    · rename_i hnext
      rw [hnext] at h
      rw [runLength_eq_add, ih h]
      omega

/-- An automaton that stops nowhere has a state at the end. -/
theorem exists_runState (h : cs.length ≤ runLength next 0 state cs) :
    ∃ state', runState next state cs = some state' := by
  induction cs generalizing state with
  | nil => exact ⟨state, rfl⟩
  | cons c cs ih =>
    rw [runLength, List.length_cons] at h
    rw [runState]
    cases hnext : next state c cs.head? with
    | none =>
      rw [hnext] at h
      dsimp only at h
      omega
    | some state' =>
      rw [hnext] at h
      dsimp only at h ⊢
      rw [runLength_eq_add] at h
      exact ih (by omega)

end

/-! ## Lexemes before a line break -/

theorem QuotedLiteral.length_append (quote : Char) (cs rest : List Char) :
    length quote (cs ++ '\n' :: rest) = length quote cs := by
  unfold length
  rcases Nat.lt_or_ge (runLength (next quote) 0 inside cs) cs.length with h | h
  · exact runLength_append_of_lt (fun _ _ => rfl) h rest
  · obtain ⟨state, hstate⟩ := exists_runState h
    have hstop : runLength (next quote) 0 state ('\n' :: rest) = 0 := by
      cases state <;> rfl
    have hle := runLength_le_length (next quote) inside cs
    rw [runLength_append_of_runState (fun _ _ => rfl) hstate, hstop]
    omega

theorem takeWhile_append_of_not {p : Char → Bool} {d : Char} (h : p d = false)
    (cs rest : List Char) : (cs ++ d :: rest).takeWhile p = cs.takeWhile p := by
  induction cs with
  | nil => exact List.takeWhile_cons_of_neg (by simp [h])
  | cons c cs ih => simp only [List.cons_append, List.takeWhile_cons, ih]

theorem Lexeme.operator_lineFeed (c : Char) : operator c (some '\n') = operator c none := by
  unfold operator
  split <;> rfl

/-- A lexeme ends before a line break just as it ends with its text. -/
theorem Lexeme.read_append (c : Char) (cs rest : List Char) :
    read c (cs ++ '\n' :: rest) = read c cs := by
  have hword : (cs ++ '\n' :: rest).takeWhile isWordChar = cs.takeWhile isWordChar :=
    takeWhile_append_of_not (by decide) cs rest
  have hnumber : (cs ++ '\n' :: rest).takeWhile isNumberChar = cs.takeWhile isNumberChar :=
    takeWhile_append_of_not (by decide) cs rest
  have hstart : (cs ++ '\n' :: rest).head?.any isWordStart = cs.head?.any isWordStart := by
    cases cs with
    | nil => exact (by decide : isWordStart '\n' = false)
    | cons _ _ => rfl
  have hoperator : operator c (cs ++ '\n' :: rest).head? = operator c cs.head? := by
    cases cs with
    | nil => exact operator_lineFeed c
    | cons _ _ => rfl
  unfold read word
  simp only [QuotedLiteral.length_append, hword, hnumber, hstart, hoperator]

/-- A lexeme does not go over the end of its text. -/
theorem Lexeme.more_read_le (c : Char) (cs : List Char) : (read c cs).more ≤ cs.length := by
  have htake : ∀ p : Char → Bool, (cs.takeWhile p).length ≤ cs.length :=
    fun p => (List.takeWhile_prefix p).length_le
  have htwo : ∀ d, cs.head? = some d → 1 ≤ cs.length := by
    intro d hd
    cases cs with
    | nil => cases hd
    | cons _ _ => exact Nat.succ_le_succ (Nat.zero_le _)
  unfold read
  split
  · exact runLength_le_length _ _ _
  · split
    · exact runLength_le_length _ _ _
    · split
      · exact htake _
      · split
        · exact htake _
        · split
          · exact htake _
          · unfold operator
            split
            iterate 8 exact Nat.zero_le _
            · split
              · rename_i heq
                exact htwo '=' (beq_iff_eq.1 heq)
              · exact Nat.zero_le _
            · split
              · rename_i heq
                exact htwo ':' (beq_iff_eq.1 heq)
              · exact Nat.zero_le _
            · split <;> exact Nat.zero_le _

/-! ## Gaps before a line break -/

namespace Gap

/-- The gap is at a place inside a block comment, its first slash and its last one included. -/
def isInBlockComment : Gap → Bool
  | opening | blockComment | closing => true
  | blanks | lineComment => false

/-- Behind a slash or a star only these two characters matter. -/
theorem next_blind {d : Char} (hslash : d ≠ '/') (hstar : d ≠ '*') (gap : Gap) (c : Char) :
    gap.next c none = gap.next c (some d) := by
  cases gap <;> simp [next, hslash, hstar]

theorem length_append_of_lt {cs : List Char} (h : length cs < cs.length) (rest : List Char) :
    length (cs ++ '\n' :: rest) = length cs :=
  runLength_append_of_lt (next_blind (by decide) (by decide)) h rest

/-- A gap that is not inside a block comment goes on behind the line break. -/
theorem length_append_of_runState {cs : List Char} {gap : Gap}
    (h : runState next blanks cs = some gap) (hgap : gap.isInBlockComment = false)
    (rest : List Char) : length (cs ++ '\n' :: rest) = cs.length + 1 + length rest := by
  have hfeed : runLength next 0 gap ('\n' :: rest) = 1 + length rest := by
    cases gap with
    | blanks => exact runLength_eq_add next (0 + 1) blanks rest
    | lineComment => exact runLength_eq_add next (0 + 1) blanks rest
    | _ => cases hgap
  unfold length
  rw [runLength_append_of_runState (next_blind (by decide) (by decide)) h, hfeed, Nat.add_assoc]
  rfl

end Gap

/-! ## The cursor at a place of a text -/

/-- The characters of a text behind its last token. -/
def Token.behindLast (text : String) : List Char :=
  (slice text (((ofText text).getLast?.map (·.span.stop)).getD 0) text.utf8ByteSize).toList

/-- A text ends inside a block comment if what follows its last token does. -/
def Token.endsInBlockComment (text : String) : Bool :=
  (runState Gap.next .blanks (behindLast text)).any (·.isInBlockComment)

/-- The token between `front` and `back`. -/
def Token.between (front word back : List Char) (kind : TokenKind) (depth : Nat) : Token :=
  { kind
    text := String.ofList word
    span := ⟨byteLength front, byteLength (front ++ word)⟩
    range := ⟨walk .origin front (word ++ back), walk .origin (front ++ word) back⟩
    depth }

/-- A token on one line does not depend on what follows it. -/
theorem Token.between_congr {word : List Char} (hne : word ≠ [])
    (h : ∀ c ∈ word, isBreakChar c = false) (front back back' : List Char) (kind : TokenKind)
    (depth : Nat) : between front word back kind depth = between front word back' kind depth := by
  have hstart : walk .origin front (word ++ back) = walk .origin front (word ++ back') := by
    apply walk_congr
    rw [List.head?_append_of_ne_nil _ hne, List.head?_append_of_ne_nil _ hne]
  unfold between
  rw [hstart, walk_append_of_no_break hne h]

theorem Token.movesDown_between (above front word back : List Char) (kind : TokenKind)
    (depth depth' : Nat) :
    (between front word back kind depth).MovesDown (byteLength (above ++ ['\n']))
      (walk .origin (above ++ ['\n']) []).line
      (between (above ++ ['\n'] ++ front) word back kind depth') := by
  refine ⟨rfl, rfl, ?_, ?_⟩
  · unfold between
    simp only [byteLength_append, Span.mk.injEq]
    omega
  · unfold between Range.moveDown
    dsimp only
    rw [← walk_behind_lineFeed, ← walk_behind_lineFeed, List.append_assoc (above ++ ['\n'])]

namespace Cursor

/-- The cursor between `front` and `rest`. -/
def between (front rest : List Char) (depth : Nat) : Cursor :=
  ⟨rest, byteLength front, walk .origin front rest, depth⟩

theorem bump_between (front rest : List Char) (depth : Nat) :
    (between front rest depth).bump = between (front ++ rest.take 1) (rest.drop 1) depth := by
  unfold bump between
  cases rest with
  | nil => simp
  | cons c cs => simp [walk_append, walk]

theorem advance_between (n : Nat) (front rest : List Char) (depth : Nat) :
    (between front rest depth).advance n = between (front ++ rest.take n) (rest.drop n) depth := by
  induction n generalizing front rest with
  | zero => simp [advance]
  | succ n ih =>
    rw [advance, bump_between, ih, List.drop_drop, List.append_assoc, Nat.add_comm 1 n]
    cases rest <;> simp

/-- What is read next at a place of a text. -/
theorem next_between (front rest : List Char) (depth : Nat) :
    (between front rest depth).next =
      match rest.drop (Gap.length rest) with
      | [] => (none, between (front ++ rest) [] depth)
      | c :: cs =>
        let front := front ++ rest.take (Gap.length rest)
        let lexeme := Lexeme.read c cs
        let word := (c :: cs).take lexeme.length
        let back := (c :: cs).drop lexeme.length
        (some (.between front word back lexeme.kind (depthAt depth lexeme.kind)),
          between (front ++ word) back (depthAfter depth lexeme.kind)) := by
  have hstop := fun n front cs => advance_between n front cs depth
  unfold next
  dsimp only
  rw [hstop]
  have hfront := List.take_append_drop (Gap.length rest) rest
  dsimp only [between]
  generalize rest.drop (Gap.length rest) = after at hfront ⊢
  cases after with
  | nil =>
    rw [List.append_nil] at hfront
    dsimp only
    rw [hfront]
  | cons c cs =>
    unfold between at hstop
    unfold Token.between
    dsimp only
    rw [hstop, List.take_append_drop]

/-! ## Gaps and lexemes -/

section

variable {front gap rest post : List Char} {depth : Nat} {token : Token} {cursor : Cursor}

/-- A gap and a lexeme are what is read next. -/
theorem next_of_lexeme {word : List Char} {c : Char} {lexeme : Lexeme}
    (hgap : Gap.length (gap ++ c :: (word ++ post)) = gap.length)
    (hread : Lexeme.read c (word ++ post) = lexeme) (hmore : lexeme.more = word.length) :
    (between front (gap ++ c :: (word ++ post)) depth).next =
      (some (.between (front ++ gap) (c :: word) post lexeme.kind (depthAt depth lexeme.kind)),
        between (front ++ gap ++ c :: word) post (depthAfter depth lexeme.kind)) := by
  have hlength : lexeme.length = (c :: word).length := by
    rw [Lexeme.length, hmore]
    rfl
  rw [next_between, hgap, List.drop_left, List.take_left]
  dsimp only
  rw [hread, hlength, ← List.cons_append, List.take_left, List.drop_left]

/-- What is read next is a lexeme behind a gap, on one line. -/
theorem exists_lexeme (h : (between front rest depth).next = (some token, cursor)) :
    ∃ gap c word post lexeme, rest = gap ++ c :: (word ++ post) ∧ Gap.length rest = gap.length ∧
      Lexeme.read c (word ++ post) = lexeme ∧ lexeme.more = word.length ∧
      (∀ d ∈ c :: word, isBreakChar d = false) ∧
      token = .between (front ++ gap) (c :: word) post lexeme.kind (depthAt depth lexeme.kind) ∧
      cursor = between (front ++ gap ++ c :: word) post (depthAfter depth lexeme.kind) := by
  rw [next_between] at h
  split at h
  · cases h
  · rename_i c after hdrop
    have hrest := List.take_append_drop (Gap.length rest) rest
    have hlength : (rest.take (Gap.length rest)).length = Gap.length rest := by
      have hlt : Gap.length rest < rest.length := by
        by_contra hge
        rw [List.drop_eq_nil_of_le (by omega)] at hdrop
        cases hdrop
      rw [List.length_take]
      omega
    have hafter := List.take_append_drop (Lexeme.read c after).more after
    have hmore : (after.take (Lexeme.read c after).more).length = (Lexeme.read c after).more := by
      have hle := Lexeme.more_read_le c after
      rw [List.length_take]
      omega
    cases h
    refine ⟨rest.take (Gap.length rest), c, after.take (Lexeme.read c after).more,
      after.drop (Lexeme.read c after).more, Lexeme.read c after, ?_, hlength.symm, ?_, hmore.symm,
      ?_, rfl, rfl⟩
    · rw [hafter, ← hdrop, hrest]
    · rw [hafter]
    · intro d hd
      exact Lexeme.isBreakChar_of_mem (Gap.isBlank_of_drop_length hdrop) hd

/-- A character that goes on with the gap is passed over. -/
theorem next_between_skip {d : Char}
    (h : Gap.length (gap ++ d :: post) = gap.length + 1 + Gap.length post) :
    (between front (gap ++ d :: post) depth).next =
      (between (front ++ gap ++ [d]) post depth).next := by
  have hsplit : gap ++ d :: post = (gap ++ [d]) ++ post := by simp
  have hsize : gap.length + 1 = (gap ++ [d]).length := by simp
  rw [next_between, next_between, h, hsplit, hsize, List.drop_length_add_append,
    List.take_length_add_append]
  split <;> simp

end

/-! ## The tokens of the first text -/

/-- What the cursor reads next in the first text, it reads as well if the text goes on behind a line
break. -/
theorem next_between_append (second : List Char) {front rest : List Char} {depth : Nat}
    {token : Token} {cursor : Cursor} (h : (between front rest depth).next = (some token, cursor)) :
    ∃ front' rest' depth', front ++ rest = front' ++ rest' ∧
      cursor = between front' rest' depth' ∧ token.span.stop = byteLength front' ∧
      (between front (rest ++ '\n' :: second) depth).next =
        (some token, between front' (rest' ++ '\n' :: second) depth') := by
  obtain ⟨gap, c, word, post, lexeme, rfl, hgap, hread, hmore, hline, rfl, rfl⟩ := exists_lexeme h
  refine ⟨front ++ gap ++ c :: word, post, depthAfter depth lexeme.kind, by simp, rfl, rfl, ?_⟩
  have hsplit : gap ++ c :: (word ++ post) ++ '\n' :: second =
      gap ++ c :: (word ++ (post ++ '\n' :: second)) := by simp
  have hgap' : Gap.length (gap ++ c :: (word ++ (post ++ '\n' :: second))) = gap.length := by
    have hlt : Gap.length (gap ++ c :: (word ++ post)) < (gap ++ c :: (word ++ post)).length := by
      rw [hgap]
      simp
    rw [← hsplit, Gap.length_append_of_lt hlt, hgap]
  have hread' : Lexeme.read c (word ++ (post ++ '\n' :: second)) = lexeme := by
    rw [← List.append_assoc, Lexeme.read_append, hread]
  rw [hsplit, next_of_lexeme hgap' hread' hmore, Token.between_congr (by simp) hline]

/-- A gap at the end of the first text goes over the line break. -/
theorem next_between_gap {front rest : List Char} {gap : Gap}
    (h : runState Gap.next .blanks rest = some gap) (hgap : gap.isInBlockComment = false)
    (second : List Char) (depth : Nat) :
    (between front (rest ++ '\n' :: second) depth).next =
      (between (front ++ rest ++ ['\n']) second depth).next :=
  next_between_skip (Gap.length_append_of_runState h hgap second)

theorem Reads.of_next_eq {cursor cursor' stop : Cursor} {tokens : List Token}
    (h : cursor.Reads tokens stop) (hnext : cursor'.next = cursor.next) :
    cursor'.Reads tokens stop := by
  cases h with
  | nil hend => exact .nil (hnext.trans hend)
  | cons hfirst hreads => exact .cons (hnext.trans hfirst) hreads

/-- All tokens of a text are read as well if it goes on behind a line break, and then those that
follow. -/
theorem Reads.join {text : String} {second : List Char} {P : List Token → Prop}
    (hsecond : ∀ depth, ∃ tokens stop,
      (between (text.toList ++ ['\n']) second depth).Reads tokens stop ∧ P tokens)
    {cursor stop : Cursor} {tokens : List Token} (h : cursor.Reads tokens stop)
    {front rest : List Char} {depth : Nat} (hat : cursor = between front rest depth)
    (htext : text.toList = front ++ rest)
    (hend : (runState Gap.next .blanks (slice text ((tokens.getLast?.map (·.span.stop)).getD
      (byteLength front)) text.utf8ByteSize).toList).any (·.isInBlockComment) = false) :
    ∃ tokens' stop',
      (between front (rest ++ '\n' :: second) depth).Reads (tokens ++ tokens') stop' ∧
        P tokens' := by
  induction h generalizing front rest depth with
  | nil hnext =>
    subst hat
    have hslice : (slice text (byteLength front) text.utf8ByteSize).toList = rest := by
      have hsplit : text.toList = front ++ rest ++ [] := by rw [htext, List.append_nil]
      rw [← byteLength_toList, htext, byteLength_append, slice_eq hsplit, String.toList_ofList]
    obtain ⟨gap, hgap⟩ : ∃ gap, runState Gap.next .blanks rest = some gap := by
      apply exists_runState
      rw [next_between] at hnext
      split at hnext
      · rename_i hdrop
        exact List.drop_eq_nil_iff.1 hdrop
      · cases hnext
    simp only [List.getLast?_nil, Option.map_none, Option.getD_none] at hend
    rw [hslice, hgap] at hend
    obtain ⟨tokens', stop', hreads, hP⟩ := hsecond depth
    refine ⟨tokens', stop', ?_, hP⟩
    rw [htext] at hreads
    exact hreads.of_next_eq (next_between_gap hgap hend second depth)
  | @cons _ _ _ token tokens hnext _ ih =>
    subst hat
    obtain ⟨front', rest', depth', hsplit, rfl, hspan, hjoined⟩ :=
      next_between_append second hnext
    rw [List.getLast?_cons, Option.map_some, Option.getD_some] at hend
    have hlast : ∀ last : Option Token,
        (last.map (·.span.stop)).getD (byteLength front') = (last.getD token).span.stop := by
      rintro (_ | last)
      · exact hspan.symm
      · rfl
    rw [← hlast] at hend
    obtain ⟨tokens', stop', hreads', hP⟩ := ih rfl (htext.trans hsplit) hend
    exact ⟨tokens', stop', .cons hjoined hreads', hP⟩

/-! ## The tokens of the second text -/

/-- What the cursor reads next in a text, it reads as well if another text and a line feed stand
before it. -/
theorem next_between_moveDown (above front rest : List Char) (depth depth' : Nat) {token : Token}
    {cursor : Cursor} (h : (between front rest depth).next = (some token, cursor)) :
    ∃ front' rest' token' after after', cursor = between front' rest' after ∧
      (between (above ++ ['\n'] ++ front) rest depth').next =
        (some token', between (above ++ ['\n'] ++ front') rest' after') ∧
      token.MovesDown (byteLength (above ++ ['\n'])) (walk .origin (above ++ ['\n']) []).line
        token' := by
  obtain ⟨gap, c, word, post, lexeme, rfl, hgap, hread, hmore, -, rfl, rfl⟩ := exists_lexeme h
  refine ⟨front ++ gap ++ c :: word, post, _, _, depthAfter depth' lexeme.kind, rfl, ?_,
    Token.movesDown_between above _ _ _ _ _ (depthAt depth' lexeme.kind)⟩
  rw [next_of_lexeme hgap hread hmore]
  simp only [List.append_assoc]

theorem Reads.moveDown (above : List Char) {cursor stop : Cursor} {tokens : List Token}
    (h : cursor.Reads tokens stop) {front rest : List Char} {depth : Nat}
    (hat : cursor = between front rest depth) (depth' : Nat) :
    ∃ tokens' stop', (between (above ++ ['\n'] ++ front) rest depth').Reads tokens' stop' ∧
      List.Forall₂ (Token.MovesDown (byteLength (above ++ ['\n']))
        (walk .origin (above ++ ['\n']) []).line) tokens tokens' := by
  induction h generalizing front rest depth depth' with
  | nil hnext =>
    subst hat
    rw [next_between] at hnext
    split at hnext
    · rename_i hdrop
      refine ⟨[], between (above ++ ['\n'] ++ front ++ rest) [] depth', .nil ?_, .nil⟩
      rw [next_between, hdrop]
    · cases hnext
  | cons hnext _ ih =>
    subst hat
    obtain ⟨front', rest', token', after, after', rfl, hmoved, htoken⟩ :=
      next_between_moveDown above front rest depth depth' hnext
    obtain ⟨tokens', stop', hreads, htokens⟩ := ih rfl after'
    exact ⟨token' :: tokens', stop', .cons hmoved hreads, .cons htoken htokens⟩

end Cursor

/-! ## The tokens of both texts -/

/-- The tokens of two texts with a line feed between them are the tokens of the first one, and those
of the second one with so many more bytes and lines before them. -/
theorem Token.ofText_join (first second : String) (h : endsInBlockComment first = false) :
    ∃ tokens, ofText (first ++ "\n" ++ second) = ofText first ++ tokens ∧
      List.Forall₂ (MovesDown (first ++ "\n").utf8ByteSize
        (LineTable.of (first ++ "\n")).endPosition.line) (ofText second) tokens := by
  have hlines : (first ++ "\n").toList = first.toList ++ ['\n'] := String.toList_append
  rw [LineTable.endPosition_eq_walk, hlines, ← byteLength_toList, hlines]
  have hat : ∀ text, Cursor.ofText text = .between [] text.toList 0 := fun _ => rfl
  have hsecond := (Cursor.reads_scan second).moveDown first.toList (hat second)
  rw [List.append_nil] at hsecond
  obtain ⟨tokens, stop, hreads, htokens⟩ :=
    (Cursor.reads_scan first).join hsecond (hat first) (List.nil_append _).symm h
  refine ⟨tokens, ?_, htokens⟩
  have hjoined : Cursor.ofText (first ++ "\n" ++ second) =
      .between [] (first.toList ++ '\n' :: second.toList) 0 := by
    unfold Cursor.ofText
    rw [String.toList_append, hlines, List.append_assoc]
    rfl
  rw [← hjoined] at hreads
  exact (Cursor.reads_scan _).unique hreads

theorem Token.position_scan_join (first second : String) :
    (scan (first ++ "\n" ++ second)).2.position =
      (scan second).2.position.moveDown (LineTable.of (first ++ "\n")).endPosition.line := by
  have hlines : (first ++ "\n").toList = first.toList ++ ['\n'] := String.toList_append
  rw [position_scan, position_scan, LineTable.endPosition_eq_walk, LineTable.endPosition_eq_walk,
    LineTable.endPosition_eq_walk, String.toList_append, hlines, walk_behind_lineFeed]

end CaplOutline
