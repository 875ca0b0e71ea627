-- What a position stands for that is not in the text. A line behind the last one leads to
-- the end of the text, a column behind its line to the end of the line, and a column inside
-- a character to the end of that character. So each position leads to a place where the
-- text may be cut, and positions in order lead to places in order.
import Mathlib.Order.Bounds.Defs
import CaplOutline.Proofs.Text.Lines
import CaplOutline.Text.Change

namespace CaplOutline.Text

/-! ## Columns -/

/-- Of the places between two characters of the line, the offset is the first one that has at least
`column` units in front of it. If the line has fewer units, the offset is the end of the line. -/
def IsColumn (line : List Char) (column offset : Nat) : Prop :=
  if column ≤ unitLength line then
    IsLeast {place | ∃ before after, line = before ++ after ∧ column ≤ unitLength before ∧
      byteLength before = place} offset
  else offset = byteLength line

theorem byteOfUnits?_cons {wanted : Nat} (c : Char) (cs : List Char) (h : wanted ≠ 0) :
    byteOfUnits? wanted (c :: cs) =
      (byteOfUnits? (wanted - units c) cs).map (c.utf8Size + ·) := by
  obtain ⟨n, rfl⟩ := Nat.exists_eq_succ_of_ne_zero h
  unfold byteOfUnits?
  rw [byteOfUnitsFrom?, byteOfUnitsFrom?_eq, Nat.zero_add]
  rfl

/-- The byte of a number of units is behind the shortest front that has as many. -/
theorem exists_shortest_front {wanted : Nat} {cs : List Char} (h : wanted ≤ unitLength cs) :
    ∃ before after, cs = before ++ after ∧ wanted ≤ unitLength before ∧
      byteOfUnits? wanted cs = some (byteLength before) ∧
      ∀ before' after', cs = before' ++ after' → wanted ≤ unitLength before' →
        byteLength before ≤ byteLength before' := by
  induction cs generalizing wanted with
  | nil =>
    obtain rfl := Nat.le_zero.1 h
    exact ⟨[], [], rfl, Nat.le_refl 0, rfl, fun _ _ _ _ => Nat.zero_le _⟩
  | cons c cs ih =>
    by_cases hzero : wanted = 0
    · subst hzero
      exact ⟨[], c :: cs, rfl, Nat.le_refl 0, rfl, fun _ _ _ _ => Nat.zero_le _⟩
    · rw [unitLength_cons] at h
      have hrest : wanted - units c ≤ unitLength cs := by omega
      obtain ⟨before, after, rfl, hunits, hbyte, hleast⟩ := ih hrest
      refine ⟨c :: before, after, rfl, ?_, ?_, ?_⟩
      · rw [unitLength_cons]
        omega
      · rw [byteOfUnits?_cons c _ hzero, hbyte, byteLength_cons]
        rfl
      · intro before' after' hsplit hunits'
        cases before' with
        | nil =>
          rw [unitLength_nil] at hunits'
          omega
        | cons d before' =>
          rw [List.cons_append] at hsplit
          obtain ⟨rfl, hrest⟩ := List.cons.inj hsplit
          rw [unitLength_cons] at hunits'
          have hle := hleast before' after' hrest (by omega)
          rw [byteLength_cons, byteLength_cons]
          omega

theorem isColumn_byteOfUnits? (line : List Char) (column : Nat) :
    IsColumn line column ((byteOfUnits? column line).getD (byteLength line)) := by
  unfold IsColumn
  by_cases h : column ≤ unitLength line
  · rw [if_pos h]
    obtain ⟨before, after, hsplit, hunits, hbyte, hleast⟩ := exists_shortest_front h
    rw [hbyte, Option.getD_some]
    refine ⟨⟨before, after, hsplit, hunits, rfl⟩, ?_⟩
    rintro _ ⟨before', after', hsplit', hunits', rfl⟩
    exact hleast before' after' hsplit' hunits'
  · rw [if_neg h, byteOfUnits?_eq_none (by omega), Option.getD_none]

namespace IsColumn

variable {line : List Char} {column column' offset offset' : Nat}

theorem exists_front (h : IsColumn line column offset) :
    ∃ before after, line = before ++ after ∧ byteLength before = offset := by
  unfold IsColumn at h
  split at h
  · obtain ⟨⟨before, after, hsplit, -, hbytes⟩, -⟩ := h
    exact ⟨before, after, hsplit, hbytes⟩
  · exact ⟨line, [], (List.append_nil line).symm, h.symm⟩

theorem le_byteLength (h : IsColumn line column offset) : offset ≤ byteLength line := by
  obtain ⟨before, after, rfl, rfl⟩ := h.exists_front
  rw [byteLength_append]
  exact Nat.le_add_right _ _

/-- A column further to the right is not further to the left in bytes. -/
theorem le_of_le (h : IsColumn line column offset) (h' : IsColumn line column' offset')
    (hle : column ≤ column') : offset ≤ offset' := by
  by_cases hunits : column' ≤ unitLength line
  · unfold IsColumn at h h'
    rw [if_pos hunits] at h'
    rw [if_pos (Nat.le_trans hle hunits)] at h
    obtain ⟨before, after, hsplit, hcolumn, hbytes⟩ := h'.1
    exact h.2 ⟨before, after, hsplit, Nat.le_trans hle hcolumn, hbytes⟩
  · have hend := h.le_byteLength
    unfold IsColumn at h'
    rw [if_neg hunits] at h'
    omega

end IsColumn

/-! ## The starts of lines -/

section Lines

variable {cs : List Char} {number number' : Nat}

theorem flatMap_brokenLines (cs : List Char) : (brokenLines cs).flatMap Line.all = cs := by
  fun_induction brokenLines cs with
  | case1 => rfl
  | case2 cs ih => rw [List.flatMap_cons, ih]; rfl
  | case3 c cs hpair hbreak ih => rw [List.flatMap_cons, ih]; rfl
  | case4 c cs hpair hbreak ih =>
    cases hlines : brokenLines cs with
    | nil => exact absurd hlines (brokenLines_ne_nil cs)
    | cons first rest =>
      rw [hlines] at ih
      rw [List.modifyHead_cons, List.flatMap_cons, ← ih]
      rfl

theorem textBefore_succ {line : Line} (h : (brokenLines cs)[number]? = some line) :
    textBefore cs (number + 1) = textBefore cs number ++ line.all := by
  unfold textBefore
  rw [List.take_add_one, h, List.flatMap_append]
  simp

theorem byteLength_textBefore_mono (h : number ≤ number') :
    byteLength (textBefore cs number) ≤ byteLength (textBefore cs number') := by
  obtain ⟨n, rfl⟩ := Nat.exists_eq_add_of_le h
  unfold textBefore
  rw [List.take_add, List.flatMap_append, byteLength_append]
  exact Nat.le_add_right _ _

/-- A line ends before the next one starts. -/
theorem byteLength_line_le {line : Line} (h : (brokenLines cs)[number]? = some line)
    (hlt : number < number') :
    byteLength (textBefore cs number) + byteLength line.content ≤
      byteLength (textBefore cs number') := by
  have hnext : byteLength (textBefore cs (number + 1)) ≤ byteLength (textBefore cs number') :=
    byteLength_textBefore_mono hlt
  rw [textBefore_succ h, Line.all, byteLength_append, byteLength_append] at hnext
  omega

theorem LineTable.length_startsIn (offset : Nat) (cs : List Char) :
    (startsIn offset cs).length + 1 = (brokenLines cs).length := by
  fun_induction brokenLines cs generalizing offset with
  | case1 => rfl
  | case2 cs ih =>
    have hreturn : endsLine '\r' ('\n' :: cs) = false := rfl
    have hfeed : endsLine '\n' cs = true := rfl
    rw [startsIn_cons, hreturn, startsIn_cons, hfeed, List.length_cons,
      ← ih (offset + '\r'.utf8Size + '\n'.utf8Size)]
    simp
  | case3 c cs hpair hbreak ih =>
    rw [startsIn_cons, endsLine_of_isBreakChar hbreak hpair, List.length_cons,
      ← ih (offset + c.utf8Size)]
    simp
  | case4 c cs hpair hbreak ih =>
    have hc : isBreakChar c = false := by simpa using hbreak
    rw [startsIn_cons, endsLine_of_not_break hc, List.length_modifyHead,
      ← ih (offset + c.utf8Size)]
    simp

theorem LineTable.lineCount_eq (text : String) :
    (of text).lineCount = (brokenLines text.toList).length := by
  rw [lineCount, starts_of, List.length_cons, length_startsIn]

end Lines

/-! ## The places of positions -/

/-- No place on a line is in the middle of a pair. -/
theorem IsLine.unpaired {cs front line back before after : List Char} {number : Nat}
    (h : IsLine cs number front line back) (hline : line = before ++ after) :
    ¬ ((front ++ before).getLast? = some '\r' ∧ (after ++ back).head? = some '\n') := by
  rintro ⟨hlast, hhead⟩
  rw [List.getLast?_append] at hlast
  cases hbefore : before.getLast? with
  | some c =>
    rw [hbefore] at hlast
    cases hlast
    have hmem : '\r' ∈ line := by
      rw [hline]
      exact List.mem_append_left _ (List.mem_of_getLast? hbefore)
    exact absurd (h.no_break _ hmem) (by decide)
  | none =>
    -- The line feed of the pair would still belong to the line before.
    obtain rfl := List.getLast?_eq_none_iff.1 hbefore
    rw [hbefore] at hlast
    obtain ⟨earlier, rfl⟩ := List.getLast?_eq_some_iff.1 hlast
    obtain ⟨rest, hrest⟩ := List.head?_eq_some_iff.1 hhead
    have hstart := h.start
    rw [hline, List.nil_append, hrest, walk_append] at hstart
    have hcolumn : (walk .origin earlier ('\r' :: '\n' :: rest)).character + units '\r' = 0 :=
      congrArg Position.character hstart
    have hunits := units_pos '\r'
    omega

namespace LineTable

variable {text : String} {position p q : Position} {line : Line}

theorem offsetOf_of_no_line (h : (brokenLines text.toList)[position.line]? = none) :
    (of text).offsetOf position = text.utf8ByteSize := by
  have hstart : (of text).starts[position.line]? = none := by
    rw [List.getElem?_eq_none_iff] at h ⊢
    rw [← lineCount_eq] at h
    exact h
  unfold offsetOf
  rw [hstart]
  rfl

/-- On a line the column is looked for in what the line holds. -/
theorem exists_column (h : (brokenLines text.toList)[position.line]? = some line) :
    ∃ offset, IsColumn line.content position.character offset ∧
      (of text).offsetOf position =
        byteLength (textBefore text.toList position.line) + offset := by
  obtain ⟨back, hisLine⟩ := isLine_of_getElem? h
  exact ⟨_, isColumn_byteOfUnits? _ _, hisLine.offsetOf_eq position.character⟩

theorem isCut_offsetOf (text : String) (position : Position) :
    IsCut text ((of text).offsetOf position) := by
  cases h : (brokenLines text.toList)[position.line]? with
  | none =>
    rw [offsetOf_of_no_line h, ← byteLength_toList,
      isCut_byteLength_iff (List.append_nil text.toList).symm]
    rintro ⟨-, hhead⟩
    cases hhead
  | some line =>
    obtain ⟨back, hisLine⟩ := isLine_of_getElem? h
    obtain ⟨offset, hcolumn, hoffset⟩ := exists_column h
    obtain ⟨before, after, hline, rfl⟩ := hcolumn.exists_front
    have hsplit := hisLine.split
    rw [hline, ← List.append_assoc, List.append_assoc] at hsplit
    rw [hoffset, ← byteLength_append, isCut_byteLength_iff hsplit]
    exact hisLine.unpaired hline

theorem offsetOf_le_size (text : String) (position : Position) :
    (of text).offsetOf position ≤ text.utf8ByteSize :=
  le_size_of_isBoundary (isCut_offsetOf text position).boundary

theorem offsetOf_le_offsetOf (h : p ≤ q) : (of text).offsetOf p ≤ (of text).offsetOf q := by
  cases hq : (brokenLines text.toList)[q.line]? with
  | none =>
    rw [offsetOf_of_no_line hq]
    exact offsetOf_le_size text p
  | some line =>
    obtain ⟨offset, hcolumn, hoffset⟩ := exists_column hq
    rw [hoffset]
    rcases h with hlt | ⟨heq, hle⟩
    · obtain ⟨earlier, hearlier⟩ :
          ∃ earlier, (brokenLines text.toList)[p.line]? = some earlier := by
        obtain ⟨hlength, -⟩ := List.getElem?_eq_some_iff.1 hq
        exact ⟨_, List.getElem?_eq_getElem (by omega)⟩
      obtain ⟨offset', hcolumn', hoffset'⟩ := exists_column hearlier
      have hend := byteLength_line_le hearlier hlt
      have hinside := hcolumn'.le_byteLength
      omega
    · rw [← heq] at hq
      obtain ⟨offset', hcolumn', hoffset'⟩ := exists_column hq
      rw [hoffset', heq]
      exact Nat.add_le_add_left (hcolumn'.le_of_le hcolumn hle) _

end LineTable

/-- The offset is where a position leads: on the line of the position if there is such a line, and
else at the end of the text. -/
def IsPlace (text : String) (position : Position) (offset : Nat) : Prop :=
  match (brokenLines text.toList)[position.line]? with
  | none => offset = text.utf8ByteSize
  | some line => ∃ column, IsColumn line.content position.character column ∧
      offset = byteLength (textBefore text.toList position.line) + column

theorem LineTable.isPlace_offsetOf (text : String) (position : Position) :
    IsPlace text position ((of text).offsetOf position) := by
  unfold IsPlace
  cases h : (brokenLines text.toList)[position.line]? with
  | none => exact offsetOf_of_no_line h
  | some line => exact exists_column h

/-! ## Edits -/

/-- What is in front of the two places stays, and so does what is behind them. -/
theorem Change.apply_of_pieces {text replacement : String} {range : Range}
    {front middle back : List Char} (hsplit : text.toList = front ++ middle ++ back)
    (hstart : byteLength front =
      min ((LineTable.of text).offsetOf range.start) ((LineTable.of text).offsetOf range.stop))
    (hstop : byteLength (front ++ middle) =
      max ((LineTable.of text).offsetOf range.start) ((LineTable.of text).offsetOf range.stop)) :
    (rangeEdit range replacement).apply text =
      String.ofList front ++ replacement ++ String.ofList back := by
  have hfront : text.toList = front ++ (middle ++ back) := by simp [hsplit]
  unfold apply
  dsimp only
  rw [← hstart, ← hstop, slice_front hfront, slice_back hsplit]

/-- An edit of a range replaces the piece of the text between its two places. -/
theorem Change.exists_pieces (text : String) (range : Range) (replacement : String) :
    ∃ front middle back, text.toList = front ++ middle ++ back ∧
      byteLength front =
        min ((LineTable.of text).offsetOf range.start) ((LineTable.of text).offsetOf range.stop) ∧
      byteLength (front ++ middle) =
        max ((LineTable.of text).offsetOf range.start) ((LineTable.of text).offsetOf range.stop) ∧
      (rangeEdit range replacement).apply text =
        String.ofList front ++ replacement ++ String.ofList back := by
  obtain ⟨front, middle, back, hsplit, hstart, hstop⟩ :=
    exists_pieces_of_any_order (LineTable.isCut_offsetOf text range.start).boundary
      (LineTable.isCut_offsetOf text range.stop).boundary
  exact ⟨front, middle, back, hsplit, hstart, hstop, apply_of_pieces hsplit hstart hstop⟩

/-! ## The laws -/

/-- The table has the lines of the text. Every position leads to one place: on its line, as far as
its column goes, or at the end of the text. There the text may be cut, and positions in order lead
to places in order. So every edit of a range takes out the piece between two such places. -/
theorem every_position_is_clamped_to_its_line (text : String) :
    (brokenLines text.toList).flatMap Line.all = text.toList ∧
    (LineTable.of text).lineCount = (brokenLines text.toList).length ∧
    (∀ number line, (brokenLines text.toList)[number]? = some line →
      (LineTable.of text).starts[number]? = some (byteLength (textBefore text.toList number)) ∧
      (LineTable.of text).content number = line.content ∧
      ∃ back, text.toList = textBefore text.toList number ++ line.content ++ back) ∧
    (∀ position, IsPlace text position ((LineTable.of text).offsetOf position)) ∧
    (∀ position, IsCut text ((LineTable.of text).offsetOf position) ∧
      (LineTable.of text).offsetOf position ≤ text.utf8ByteSize) ∧
    (∀ p q, p ≤ q → (LineTable.of text).offsetOf p ≤ (LineTable.of text).offsetOf q) ∧
    (∀ range replacement, ∃ front middle back, text.toList = front ++ middle ++ back ∧
      byteLength front =
        min ((LineTable.of text).offsetOf range.start) ((LineTable.of text).offsetOf range.stop) ∧
      byteLength (front ++ middle) =
        max ((LineTable.of text).offsetOf range.start) ((LineTable.of text).offsetOf range.stop) ∧
      (Change.rangeEdit range replacement).apply text =
        String.ofList front ++ replacement ++ String.ofList back) := by
  refine ⟨?_, ?_, ?_, ?_, ?_, ?_, ?_⟩
  · exact flatMap_brokenLines text.toList
  · exact LineTable.lineCount_eq text
  · intro number line hline
    obtain ⟨back, hisLine⟩ := isLine_of_getElem? hline
    obtain ⟨hstart, hcontent⟩ := hisLine.starts_and_content
    exact ⟨hstart, hcontent, back, hisLine.split⟩
  · intro position
    exact LineTable.isPlace_offsetOf text position
  · intro position
    exact ⟨LineTable.isCut_offsetOf text position, LineTable.offsetOf_le_size text position⟩
  · intro p q hle
    exact LineTable.offsetOf_le_offsetOf hle
  · intro range replacement
    exact Change.exists_pieces text range replacement

/-- A column in a pair of units, one behind its line, and a line behind the last one. -/
example :
    [Position.mk 1 1, ⟨0, 7⟩, ⟨5, 0⟩].map (LineTable.of "a\r\n😀b").offsetOf = [7, 1, 8] := by
  decide +kernel

end CaplOutline.Text
