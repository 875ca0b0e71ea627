-- The lines of a text. A text is split at its line breaks, and every place that is
-- not inside a break is on one of the lines, at a column of that line. Byte offsets and
-- positions name these places in one order, and each leads to the other.
import CaplOutline.Proofs.Position
import CaplOutline.Proofs.Text.Addressing

namespace CaplOutline.Text

/-! ## Splitting a text -/

/-- What the lines of a text hold, each without its line break. -/
def lines : List Char → List (List Char)
  | [] => [[]]
  | '\r' :: '\n' :: cs => [] :: lines cs
  | c :: cs => if isBreakChar c then [] :: lines cs else (lines cs).modifyHead (c :: ·)

/-- A line of a text, and the break that ends it. The last line has none. -/
structure Line where
  content : List Char
  ending : List Char
  deriving DecidableEq, Repr

/-- The characters of a line, with those of its break. -/
def Line.all (line : Line) : List Char := line.content ++ line.ending

/-- The lines of a text with their breaks. -/
def brokenLines : List Char → List Line
  | [] => [⟨[], []⟩]
  | '\r' :: '\n' :: cs => ⟨[], ['\r', '\n']⟩ :: brokenLines cs
  | c :: cs =>
    if isBreakChar c then ⟨[], [c]⟩ :: brokenLines cs
    else (brokenLines cs).modifyHead fun line => { line with content := c :: line.content }

/-- The text in front of a line. -/
def textBefore (cs : List Char) (number : Nat) : List Char :=
  ((brokenLines cs).take number).flatMap Line.all

theorem brokenLines_ne_nil (cs : List Char) : brokenLines cs ≠ [] := by
  fun_induction brokenLines cs with
  | case1 => simp
  | case2 => simp
  | case3 => simp
  | case4 c cs hpair hbreak ih => simpa using ih

theorem map_content_brokenLines (cs : List Char) :
    (brokenLines cs).map (·.content) = lines cs := by
  fun_induction brokenLines cs with
  | case1 => rfl
  | case2 cs ih => rw [List.map_cons, ih, lines]
  | case3 c cs hpair hbreak ih => rw [List.map_cons, ih, lines, if_pos hbreak]; exact hpair
  | case4 c cs hpair hbreak ih =>
    rw [lines, if_neg hbreak, ← ih]
    · cases brokenLines cs <;> rfl
    · exact hpair

/-- A line stands between two parts of a text, and the second one is empty or starts with the break
that ends the line. -/
structure LineBetween (cs front line back : List Char) : Prop where
  split : cs = front ++ line ++ back
  no_break : ∀ c ∈ line, isBreakChar c = false
  ends : ∀ c, back.head? = some c → isBreakChar c = true

/-- The line has this number in the text. -/
structure IsLine (cs : List Char) (number : Nat) (front line back : List Char) : Prop
    extends LineBetween cs front line back where
  start : walk .origin front (line ++ back) = ⟨number, 0⟩

/-- The line is that many lines behind the position `p`, at which the text starts. -/
structure LineFrom (p : Position) (cs : List Char) (number : Nat) (front line back : List Char) :
    Prop extends LineBetween cs front line back where
  start : walk p front (line ++ back) = ⟨p.line + number, if number = 0 then p.character else 0⟩
  first : number = 0 → front = []

section Lines

variable {p : Position} {cs front line back : List Char} {number : Nat} {c : Char}

/-- A break that is not the first half of a pair ends its line. -/
theorem endsLine_of_isBreakChar (h : isBreakChar c = true)
    (hpair : ∀ cs', c = '\r' → cs = '\n' :: cs' → False) : endsLine c cs = true := by
  simp only [isBreakChar, Bool.or_eq_true, beq_iff_eq] at h
  rcases h with rfl | rfl
  · rfl
  · cases cs with
    | nil => rfl
    | cons d cs =>
      by_cases hd : d = '\n'
      · exact (hpair cs rfl (by rw [hd])).elim
      · simp [endsLine, hd]

theorem lineFrom_nil (h : ∀ c, back.head? = some c → isBreakChar c = true) :
    LineFrom p back 0 [] [] back :=
  ⟨⟨rfl, nofun, h⟩, rfl, fun _ => rfl⟩

/-- Behind a line break a line is one further down. -/
theorem LineFrom.behind_break {ending : List Char}
    (h : LineFrom ⟨p.line + 1, 0⟩ cs number front line back)
    (hending : walk p ending cs = ⟨p.line + 1, 0⟩) :
    LineFrom p (ending ++ cs) (number + 1) (ending ++ front) line back := by
  refine ⟨⟨by simp [h.split], h.no_break, h.ends⟩, ?_, nofun⟩
  rw [h.split, List.append_assoc] at hending
  rw [walk_append, hending, h.start, ite_self, if_neg (Nat.succ_ne_zero number), Nat.add_right_comm,
    Nat.add_assoc]

/-- A character that is no break is part of the first line. -/
theorem LineFrom.cons_first {p' : Position} (h : LineFrom p' cs 0 front line back)
    (hc : isBreakChar c = false) : LineFrom p (c :: cs) 0 [] (c :: line) back := by
  obtain rfl := h.first rfl
  refine ⟨⟨by simp [h.split], ?_, h.ends⟩, rfl, fun _ => rfl⟩
  intro d hd
  rcases List.mem_cons.1 hd with rfl | hd
  · exact hc
  · exact h.no_break d hd

/-- And it is in front of the others. -/
theorem LineFrom.cons_later
    (h : LineFrom ⟨p.line, p.character + units c⟩ cs (number + 1) front line back)
    (hc : isBreakChar c = false) : LineFrom p (c :: cs) (number + 1) (c :: front) line back := by
  refine ⟨⟨by simp [h.split], h.no_break, h.ends⟩, ?_, nofun⟩
  unfold walk advance
  rw [endsLine_of_not_break hc, if_neg Bool.false_ne_true, h.start,
    if_neg (Nat.succ_ne_zero number), if_neg (Nat.succ_ne_zero number)]

theorem exists_lineFrom (p : Position) {line : Line} (h : (brokenLines cs)[number]? = some line) :
    ∃ back, LineFrom p cs number (textBefore cs number) line.content back := by
  unfold textBefore
  fun_induction brokenLines cs generalizing p number line with
  | case1 =>
    cases number with
    | zero =>
      cases h
      exact ⟨[], lineFrom_nil nofun⟩
    | succ number => cases h
  | case2 cs ih =>
    cases number with
    | zero =>
      cases h
      refine ⟨'\r' :: '\n' :: cs, lineFrom_nil ?_⟩
      rintro c ⟨⟩
      rfl
    | succ number =>
      obtain ⟨back, hline⟩ := ih ⟨p.line + 1, 0⟩ h
      have hending : walk p ['\r', '\n'] cs = ⟨p.line + 1, 0⟩ := rfl
      exact ⟨back, hline.behind_break hending⟩
  | case3 c cs hpair hbreak ih =>
    cases number with
    | zero =>
      cases h
      refine ⟨c :: cs, lineFrom_nil ?_⟩
      rintro d ⟨⟩
      exact hbreak
    | succ number =>
      obtain ⟨back, hline⟩ := ih ⟨p.line + 1, 0⟩ h
      have hending : walk p [c] cs = ⟨p.line + 1, 0⟩ := by
        unfold walk advance
        rw [List.nil_append, endsLine_of_isBreakChar hbreak hpair, if_pos rfl]
        rfl
      exact ⟨back, hline.behind_break hending⟩
  | case4 c cs hpair hbreak ih =>
    have hc : isBreakChar c = false := by simpa using hbreak
    cases hlines : brokenLines cs with
    | nil => exact absurd hlines (brokenLines_ne_nil cs)
    | cons first rest =>
      rw [hlines, List.modifyHead_cons] at h
      rw [hlines] at ih
      rw [List.modifyHead_cons]
      cases number with
      | zero =>
        cases h
        obtain ⟨back, hline⟩ := ih p (rfl : (first :: rest)[0]? = some first)
        exact ⟨back, hline.cons_first hc⟩
      | succ number =>
        have hlater : (first :: rest)[number + 1]? = some line := h
        obtain ⟨back, hline⟩ := ih ⟨p.line, p.character + units c⟩ hlater
        exact ⟨back, hline.cons_later hc⟩

theorem isLine_of_getElem? {line : Line} (h : (brokenLines cs)[number]? = some line) :
    ∃ back, IsLine cs number (textBefore cs number) line.content back := by
  obtain ⟨back, hline⟩ := exists_lineFrom .origin h
  refine ⟨back, hline.toLineBetween, ?_⟩
  rw [hline.start]
  simp [Position.origin]

theorem exists_isLine (h : (lines cs)[number]? = some line) :
    ∃ front back, IsLine cs number front line back := by
  rw [← map_content_brokenLines, List.getElem?_map, Option.map_eq_some_iff] at h
  obtain ⟨broken, hbroken, rfl⟩ := h
  obtain ⟨back, hline⟩ := isLine_of_getElem? hbroken
  exact ⟨_, back, hline⟩

end Lines

/-! ## The table along the lines -/

namespace LineTable

theorem startsIn_append_of_no_break {offset : Nat} {line back : List Char}
    (h : ∀ c ∈ line, isBreakChar c = false) :
    startsIn offset (line ++ back) = startsIn (offset + byteLength line) back := by
  induction line generalizing offset with
  | nil => rfl
  | cons c line ih =>
    have hc := endsLine_of_not_break (h c List.mem_cons_self) (line ++ back)
    rw [List.cons_append, startsIn_cons, hc, if_neg Bool.false_ne_true, List.nil_append,
      ih fun d hd => h d (List.mem_cons_of_mem _ hd), byteLength_cons, Nat.add_assoc]

end LineTable

namespace IsLine

open LineTable

variable {text : String} {number : Nat} {front line back : List Char}

/-- The table has the start of the line, and what the line holds. -/
theorem starts_and_content (h : IsLine text.toList number front line back) :
    (of text).starts[number]? = some (byteLength front) ∧ (of text).content number = line := by
  obtain ⟨⟨hsplit, hline, hback⟩, hwalk⟩ := h
  obtain ⟨earlier, front', line', rfl, hstarts, -, hplace, -⟩ := exists_line front (line ++ back)
  rw [hwalk, Position.mk.injEq] at hplace
  obtain ⟨rfl, hcolumn⟩ := hplace
  have hnil : line' = [] := by
    cases line' with
    | nil => rfl
    | cons c cs =>
      have := units_pos c
      rw [unitLength_cons] at hcolumn
      omega
  subst hnil
  rw [List.append_nil] at hsplit hstarts ⊢
  have htable : (of text).starts =
      earlier ++ byteLength front' :: startsIn (byteLength (front' ++ line)) back := by
    rw [starts_of, hsplit, List.append_assoc, hstarts, startsIn_append_of_no_break hline,
      byteLength_append]
  obtain ⟨hstart, hcontent⟩ := exists_content hsplit htable hline
  have hnone : back.takeWhile (!isBreakChar ·) = [] := by
    cases back with
    | nil => rfl
    | cons c back =>
      have hc := hback c rfl
      rw [List.takeWhile_cons_of_neg (by simp [hc])]
  rw [hcontent, hnone, List.append_nil]
  exact ⟨hstart, rfl⟩

/-- A column of the line leads to its byte, and a column behind the line to the end of the line. -/
theorem offsetOf_eq (h : IsLine text.toList number front line back) (column : Nat) :
    (of text).offsetOf ⟨number, column⟩ =
      byteLength front + (byteOfUnits? column line).getD (byteLength line) := by
  obtain ⟨hstart, hcontent⟩ := h.starts_and_content
  unfold offsetOf
  dsimp only
  rw [hstart]
  dsimp only
  rw [hcontent]

/-- The place behind a front of the line has the units of that front as its column. -/
theorem walk_eq {before after : List Char} (h : IsLine text.toList number front line back)
    (hline : line = before ++ after) :
    walk .origin (front ++ before) (after ++ back) = ⟨number, unitLength before⟩ := by
  have hbefore : ∀ c ∈ before, isBreakChar c = false := by
    intro c hc
    apply h.no_break
    rw [hline]
    exact List.mem_append_left _ hc
  have hstart := h.start
  rw [hline, List.append_assoc] at hstart
  rw [walk_append, hstart, walk_of_no_break hbefore, Nat.zero_add]

end IsLine

/-! ## Columns -/

/-- The column lies between the two units of a character. -/
def SplitsPair (line : List Char) (column : Nat) : Prop :=
  ∃ before c after, line = before ++ c :: after ∧
    unitLength before < column ∧ column < unitLength before + units c

theorem exists_front_of_column {line : List Char} {column : Nat} (hle : column ≤ unitLength line)
    (hpair : ¬ SplitsPair line column) :
    ∃ before after, line = before ++ after ∧ unitLength before = column := by
  induction line generalizing column with
  | nil =>
    rw [unitLength_nil, Nat.le_zero] at hle
    exact ⟨[], [], rfl, hle.symm⟩
  | cons c line ih =>
    by_cases hzero : column = 0
    · exact ⟨[], c :: line, rfl, hzero.symm⟩
    · have hunits : units c ≤ column := by
        rw [← Nat.not_lt]
        intro hlt
        apply hpair
        exact ⟨[], c, line, rfl, Nat.pos_of_ne_zero hzero, by simpa using hlt⟩
      have hrest : column - units c ≤ unitLength line := by
        rw [unitLength_cons] at hle
        omega
      have hwhole : ¬ SplitsPair line (column - units c) := by
        rintro ⟨before, d, after, rfl, hlow, hhigh⟩
        apply hpair
        refine ⟨c :: before, d, after, rfl, ?_, ?_⟩
        · rw [unitLength_cons]
          omega
        · rw [unitLength_cons]
          omega
      obtain ⟨before, after, rfl, hcolumn⟩ := ih hrest hwhole
      refine ⟨c :: before, after, rfl, ?_⟩
      rw [unitLength_cons, hcolumn]
      omega

theorem byteOfUnits?_eq_none {wanted : Nat} {cs : List Char} (h : unitLength cs < wanted) :
    byteOfUnits? wanted cs = none := by
  unfold byteOfUnits?
  induction cs generalizing wanted with
  | nil =>
    obtain ⟨n, rfl⟩ := Nat.exists_eq_succ_of_ne_zero (Nat.ne_of_gt h)
    rfl
  | cons c cs ih =>
    rw [unitLength_cons] at h
    obtain ⟨n, rfl⟩ := Nat.exists_eq_succ_of_ne_zero (show wanted ≠ 0 by omega)
    rw [byteOfUnitsFrom?, byteOfUnitsFrom?_eq, byteOfUnits?, ih (by omega)]
    rfl

/-! ## Both ways -/

/-- A walk over at least one character goes on. -/
theorem lt_walk {p : Position} {cs post : List Char} (h : cs ≠ []) : p < walk p cs post := by
  induction cs generalizing p with
  | nil => exact absurd rfl h
  | cons c cs ih =>
    have hfirst := lt_advance p c (cs ++ post)
    cases cs with
    | nil => exact hfirst
    | cons d cs => exact lt_trans hfirst (ih nofun)

namespace LineTable

variable {text : String} {i j : Nat}

theorem positionOf_lt_positionOf (hi : isBoundary text i = true) (hj : isBoundary text j = true)
    (hlt : i < j) : (of text).positionOf i < (of text).positionOf j := by
  obtain ⟨front, middle, back, hsplit, rfl, rfl⟩ := exists_pieces hi hj (Nat.le_of_lt hlt)
  have hmiddle : middle ≠ [] := by
    rintro rfl
    simp at hlt
  have hfront : text.toList = front ++ (middle ++ back) := by
    rw [hsplit, List.append_assoc]
  rw [positionOf_byteLength hfront, positionOf_byteLength hsplit, walk_append]
  exact lt_walk hmiddle

/-- The position between the two characters of a pair leads to the place before the pair. -/
theorem offsetOf_positionOf_of_pair (hi : isBoundary text i = true) (hpair : ¬ IsCut text i) :
    (of text).offsetOf ((of text).positionOf i) = i - 1 := by
  obtain ⟨pre, post, hsplit, rfl⟩ := isBoundary_iff.1 hi
  rw [isCut_byteLength_iff hsplit, not_not] at hpair
  obtain ⟨⟨before, rfl⟩, ⟨after, rfl⟩⟩ :=
    And.imp List.getLast?_eq_some_iff.1 List.head?_eq_some_iff.1 hpair
  rw [List.append_assoc, List.singleton_append] at hsplit
  obtain ⟨earlier, front, line, rfl, -, -, hwalk, hline⟩ :=
    exists_line before ('\r' :: '\n' :: after)
  have hno_break : ∀ c ∈ line, isBreakChar c = false := by
    apply hline.no_break
    rintro ⟨-, hhead⟩
    cases hhead
  have hisLine : IsLine text.toList earlier.length front line ('\r' :: '\n' :: after) := by
    refine ⟨⟨hsplit, hno_break, ?_⟩, ?_⟩
    · rintro c ⟨⟩
      rfl
    · rw [walk_append, walk_of_no_break hno_break, Position.mk.injEq] at hwalk
      obtain ⟨hnumber, hcolumn⟩ := hwalk
      exact (Position.mk.injEq ..).mpr ⟨hnumber, by simpa using hcolumn⟩
  have hplace : (of text).positionOf (byteLength (front ++ line ++ ['\r'])) =
      ⟨earlier.length, unitLength line + 1⟩ := by
    have hbehind : text.toList = (front ++ line ++ ['\r']) ++ '\n' :: after := by
      rw [hsplit, List.append_assoc _ ['\r'], List.singleton_append]
    rw [positionOf_byteLength hbehind, walk_append, List.singleton_append, hwalk]
    rfl
  rw [hplace, hisLine.offsetOf_eq, byteOfUnits?_eq_none (Nat.lt_succ_self _), Option.getD_none,
    byteLength_append, byteLength_append]
  rfl

theorem positionOf_offsetOf {position : Position} {line : List Char}
    (hline : (lines text.toList)[position.line]? = some line)
    (hle : position.character ≤ unitLength line) (hpair : ¬ SplitsPair line position.character) :
    (of text).positionOf ((of text).offsetOf position) = position := by
  obtain ⟨front, back, hisLine⟩ := exists_isLine hline
  obtain ⟨before, after, hbefore, hcolumn⟩ := exists_front_of_column hle hpair
  have hoffset : (of text).offsetOf position = byteLength (front ++ before) := by
    rw [hisLine.offsetOf_eq, ← hcolumn, hbefore, byteOfUnits?_unitLength, Option.getD_some,
      byteLength_append]
  have hsplit := hisLine.split
  rw [hbefore, ← List.append_assoc, List.append_assoc] at hsplit
  rw [hoffset, positionOf_byteLength hsplit, hisLine.walk_eq hbefore, hcolumn]

end LineTable

/-! ## The laws -/

/-- Positions go up with byte offsets. An offset leads to its position and back, but from the middle
of a pair to the place before it. A column that is on its line leads to its offset and back, but
from the middle of a character. -/
theorem offsets_and_positions_are_in_one_order (text : String) :
    (∀ i j, isBoundary text i = true → isBoundary text j = true → i < j →
      (LineTable.of text).positionOf i < (LineTable.of text).positionOf j) ∧
    (∀ i, isBoundary text i = true →
      (LineTable.of text).offsetOf ((LineTable.of text).positionOf i) =
        if IsCut text i then i else i - 1) ∧
    (∀ position line, (lines text.toList)[position.line]? = some line →
      position.character ≤ unitLength line → ¬ SplitsPair line position.character →
      (LineTable.of text).positionOf ((LineTable.of text).offsetOf position) = position) := by
  refine ⟨?_, ?_, ?_⟩
  · intro i j hi hj hlt
    exact LineTable.positionOf_lt_positionOf hi hj hlt
  · intro i hi
    split
    · rename_i hcut
      exact LineTable.offsetOf_positionOf hcut
    · rename_i hpair
      exact LineTable.offsetOf_positionOf_of_pair hi hpair
  · intro position line hline hle hpair
    exact LineTable.positionOf_offsetOf hline hle hpair

end CaplOutline.Text
