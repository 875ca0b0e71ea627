-- How bytes and positions of a text address each other. A position is what is
-- reached by walking over the front of a text, one character after another. The
-- table finds it without a walk, and finds the way back, for every place but the
-- middle of a pair of carriage return and line feed.
import Mathlib.Data.List.Induction
import CaplOutline.Text.LineTable

namespace CaplOutline.Text

/-! ## Walking over a text -/

/-- The position behind `pre`, if it starts at `p` and `post` follows it. -/
def walk (p : Position) : List Char → List Char → Position
  | [], _ => p
  | c :: cs, post => walk (advance p c (cs ++ post)) cs post

theorem walk_append (p : Position) (cs ds post : List Char) :
    walk p (cs ++ ds) post = walk (walk p cs (ds ++ post)) ds post := by
  induction cs generalizing p with
  | nil => rfl
  | cons c cs ih =>
    simp only [List.cons_append, walk]
    rw [ih, List.append_assoc]

/-- Of what follows only the first character matters. -/
theorem walk_congr {p : Position} {cs post post' : List Char} (h : post.head? = post'.head?) :
    walk p cs post = walk p cs post' := by
  induction cs generalizing p with
  | nil => rfl
  | cons c cs ih =>
    have hhead : (cs ++ post).head? = (cs ++ post').head? := by
      rw [List.head?_append, List.head?_append, h]
    unfold walk advance endsLine
    rw [hhead, ih]

theorem endsLine_of_not_break {c : Char} (h : isBreakChar c = false) (rest : List Char) :
    endsLine c rest = false := by
  simp only [isBreakChar, Bool.or_eq_false_iff] at h
  simp [endsLine, h]

/-- Without a line break a walk stays on its line. -/
theorem walk_of_no_break {p : Position} {cs post : List Char}
    (h : ∀ c ∈ cs, isBreakChar c = false) :
    walk p cs post = ⟨p.line, p.character + unitLength cs⟩ := by
  induction cs generalizing p with
  | nil => rfl
  | cons c cs ih =>
    have hc := endsLine_of_not_break (h c List.mem_cons_self) (cs ++ post)
    rw [walk, ih fun d hd => h d (List.mem_cons_of_mem _ hd), advance, hc]
    simp [Nat.add_assoc]

/-- No character of the run ends a line, if `post` follows it. -/
def OnOneLine : List Char → List Char → Prop
  | [], _ => True
  | c :: cs, post => endsLine c (cs ++ post) = false ∧ OnOneLine cs post

theorem OnOneLine.concat {cs post : List Char} {c : Char} (h : OnOneLine cs (c :: post))
    (hc : endsLine c post = false) : OnOneLine (cs ++ [c]) post := by
  induction cs with
  | nil => exact ⟨hc, trivial⟩
  | cons d cs ih =>
    refine ⟨?_, ih h.2⟩
    change endsLine d ((cs ++ [c]) ++ post) = false
    rw [List.append_assoc]
    exact h.1

/-- Only the carriage return of a pair may stand on a line as if it were no break. -/
theorem OnOneLine.no_break {cs post : List Char} (h : OnOneLine cs post)
    (hpair : ¬ (cs.getLast? = some '\r' ∧ post.head? = some '\n')) :
    ∀ c ∈ cs, isBreakChar c = false := by
  induction cs with
  | nil => exact nofun
  | cons c cs ih =>
    obtain ⟨hc, hcs⟩ := h
    have hrest : ∀ d ∈ cs, isBreakChar d = false := by
      apply ih hcs
      rintro ⟨hlast, hhead⟩
      apply hpair
      cases cs with
      | nil => cases hlast
      | cons d cs => exact ⟨hlast, hhead⟩
    intro d hd
    rcases List.mem_cons.1 hd with rfl | hd
    · simp only [endsLine, Bool.or_eq_false_iff, Bool.and_eq_false_iff, beq_eq_false_iff_ne,
        bne_eq_false_iff_eq] at hc
      obtain ⟨hfeed, hreturn⟩ := hc
      simp only [isBreakChar, Bool.or_eq_false_iff, beq_eq_false_iff_ne]
      refine ⟨hfeed, ?_⟩
      rintro rfl
      rcases hreturn with hne | hnext
      · exact hne rfl
      · cases cs with
        | nil => exact hpair ⟨rfl, hnext⟩
        | cons d cs =>
          cases hnext
          exact absurd (hrest '\n' (by simp)) (by decide)
    · exact hrest d hd

/-! ## The table along a walk -/

namespace LineTable

/-- The offsets behind the line breaks of `cs`, which begins at `offset`. -/
def startsIn (offset : Nat) (cs : List Char) : List Nat := (startsFrom #[] offset cs).toList

theorem startsIn_cons (offset : Nat) (c : Char) (cs : List Char) :
    startsIn offset (c :: cs) =
      (if endsLine c cs then [offset + c.utf8Size] else []) ++
        startsIn (offset + c.utf8Size) cs := by
  unfold startsIn
  rw [startsFrom, toList_startsFrom]
  split <;> rfl

theorem starts_of (text : String) : (of text).starts = 0 :: startsIn 0 text.toList := by
  unfold of startsIn
  rw [toList_startsFrom]
  rfl

theorem lt_of_mem_startsIn {offset start : Nat} {cs : List Char} (h : start ∈ startsIn offset cs) :
    offset < start := by
  induction cs generalizing offset with
  | nil => cases h
  | cons c cs ih =>
    have hpos := c.utf8Size_pos
    rw [startsIn_cons, List.mem_append] at h
    rcases h with h | h
    · split at h
      · cases List.mem_singleton.1 h; omega
      · cases h
    · have := ih h; omega

/-- The next line starts behind the first line break, if there is one. -/
theorem exists_next_start (offset : Nat) (cs : List Char) :
    ∃ content ending later, cs = content ++ ending ++ later ∧
      (∀ c ∈ content, isBreakChar c = false) ∧
      (startsIn offset cs = [] ∧ ending = [] ∧ later = [] ∨
        (startsIn offset cs).head? = some (offset + byteLength (content ++ ending)) ∧
          ending ∈ [['\n'], ['\r'], ['\r', '\n']]) := by
  induction cs generalizing offset with
  | nil => exact ⟨[], [], [], rfl, nofun, .inl ⟨rfl, rfl, rfl⟩⟩
  | cons c cs ih =>
    rw [startsIn_cons]
    by_cases hends : endsLine c cs = true
    · refine ⟨[], [c], cs, rfl, nofun, .inr ⟨by simp [hends], ?_⟩⟩
      simp only [endsLine, Bool.or_eq_true, Bool.and_eq_true, beq_iff_eq] at hends
      rcases hends with rfl | ⟨rfl, -⟩ <;> simp
    · obtain ⟨content, ending, later, rfl, hcontent, hnext⟩ := ih (offset + c.utf8Size)
      rw [if_neg hends, List.nil_append]
      by_cases hbreak : isBreakChar c = true
      · -- It is the carriage return of a pair, and the line feed stands behind it.
        simp only [endsLine, Bool.or_eq_true, Bool.and_eq_true, beq_iff_eq, bne_iff_ne, not_or,
          not_and, not_not] at hends
        simp only [isBreakChar, Bool.or_eq_true, beq_iff_eq] at hbreak
        obtain rfl := hbreak.resolve_left hends.1
        have hhead := hends.2 rfl
        cases content with
        | cons d content =>
          cases hhead
          exact absurd (hcontent '\n' (by simp)) (by decide)
        | nil =>
          rcases hnext with ⟨-, rfl, rfl⟩ | ⟨hstart, hmem⟩
          · cases hhead
          · simp only [List.mem_cons, List.not_mem_nil, or_false] at hmem
            rcases hmem with rfl | rfl | rfl
            · refine ⟨[], ['\r', '\n'], later, rfl, nofun, .inr ⟨?_, by simp⟩⟩
              simpa [Nat.add_assoc] using hstart
            · cases hhead
            · cases hhead
      · refine ⟨c :: content, ending, later, rfl, ?_, ?_⟩
        · rw [Bool.not_eq_true] at hbreak
          exact List.forall_mem_cons.2 ⟨hbreak, hcontent⟩
        · simpa [Nat.add_assoc] using hnext

/-- What the table knows of the place between `pre` and `post`: the line on which it is starts
behind `front`, and holds `line` up to there. -/
theorem exists_line (pre post : List Char) :
    ∃ (earlier : List Nat) (front line : List Char), pre = front ++ line ∧
      0 :: startsIn 0 (pre ++ post) =
        earlier ++ byteLength front :: startsIn (byteLength pre) post ∧
      (∀ start ∈ earlier, start ≤ byteLength pre) ∧
      walk .origin pre post = ⟨earlier.length, unitLength line⟩ ∧ OnOneLine line post := by
  induction pre using List.reverseRecOn generalizing post with
  | nil => exact ⟨[], [], [], rfl, rfl, nofun, rfl, trivial⟩
  | append_singleton pre c ih =>
    obtain ⟨earlier, front, line, hpre, hstarts, hle, hwalk, hline⟩ := ih (c :: post)
    have hstep : walk .origin (pre ++ [c]) post =
        advance ⟨earlier.length, unitLength line⟩ c post := by
      rw [walk_append, List.singleton_append, hwalk]
      rfl
    rw [startsIn_cons] at hstarts
    by_cases hends : endsLine c post = true
    · refine ⟨earlier ++ [byteLength front], pre ++ [c], [], by simp, ?_, ?_, ?_, trivial⟩
      · rw [if_pos hends] at hstarts
        simpa using hstarts
      · intro start hstart
        have hfront : byteLength front ≤ byteLength pre := by rw [hpre]; simp
        rcases List.mem_append.1 hstart with h | h
        · have := hle start h
          rw [byteLength_append]; omega
        · cases List.mem_singleton.1 h
          rw [byteLength_append]; omega
      · rw [hstep, advance, if_pos hends]
        simp
    · refine ⟨earlier, front, line ++ [c], by simp [hpre], ?_, ?_, ?_, hline.concat ?_⟩
      · rw [if_neg hends] at hstarts
        simpa using hstarts
      · intro start hstart
        have := hle start hstart
        rw [byteLength_append]; omega
      · rw [hstep, advance, if_neg hends]
        simp
      · simpa using hends

/-! ## From bytes to positions -/

theorem takeWhile_append_of_sorted {earlier later : List Nat} {offset : Nat}
    (hearlier : ∀ start ∈ earlier, start ≤ offset) (hlater : ∀ start ∈ later, offset < start) :
    (earlier ++ later).takeWhile (· ≤ offset) = earlier := by
  induction earlier with
  | nil =>
    cases later with
    | nil => rfl
    | cons start later =>
      have := hlater start (by simp)
      rw [List.nil_append, List.takeWhile_cons_of_neg (by simpa using this)]
  | cons start earlier ih =>
    have := hearlier start (by simp)
    rw [List.cons_append, List.takeWhile_cons_of_pos (by simpa using this)]
    rw [ih fun start hstart => hearlier start (by simp [hstart])]

/-- The table gives the position that is reached by walking. -/
theorem positionOf_byteLength {text : String} {pre post : List Char}
    (h : text.toList = pre ++ post) :
    (of text).positionOf (byteLength pre) = walk .origin pre post := by
  obtain ⟨earlier, front, line, hpre, hstarts, hle, hwalk, -⟩ := exists_line pre post
  have hsize : byteLength pre ≤ text.utf8ByteSize := by
    rw [← byteLength_toList, h, byteLength_append]
    omega
  have hboundary : isBoundary text (byteLength pre) = true :=
    isBoundary_iff.2 ⟨pre, post, h, rfl⟩
  have hfront : byteLength front ≤ byteLength pre := by rw [hpre]; simp
  have htable : (of text).starts =
      (earlier ++ [byteLength front]) ++ startsIn (byteLength pre) post := by
    rw [starts_of, h, hstarts]
    simp
  have htake : ((of text).starts.takeWhile (· ≤ byteLength pre)).length = earlier.length + 1 := by
    rw [htable, takeWhile_append_of_sorted _ fun start => lt_of_mem_startsIn]
    · simp
    · intro start hstart
      rcases List.mem_append.1 hstart with hstart | hstart
      · exact hle start hstart
      · cases List.mem_singleton.1 hstart; exact hfront
  have hstart : (of text).starts.getD earlier.length 0 = byteLength front := by
    rw [htable]
    simp
  have hslice : slice text (byteLength front) (byteLength pre) = String.ofList line := by
    rw [hpre, byteLength_append]
    exact slice_eq (h.trans (by rw [hpre]))
  unfold positionOf
  dsimp only
  rw [show (of text).text = text from rfl, Nat.min_eq_left hsize, htake, Nat.add_sub_cancel, hstart,
    if_pos hboundary, hslice, String.toList_ofList, hwalk]

/-! ## From positions to bytes -/

/-- The units of a run lead to the byte behind it. -/
theorem byteOfUnits?_unitLength (cs rest : List Char) :
    byteOfUnits? (unitLength cs) (cs ++ rest) = some (byteLength cs) := by
  unfold byteOfUnits?
  induction cs with
  | nil => cases rest <;> rfl
  | cons c cs ih =>
    obtain ⟨n, hn⟩ := Nat.exists_eq_succ_of_ne_zero (Nat.ne_of_gt (units_pos c))
    rw [unitLength_cons, byteLength_cons, hn, Nat.succ_add, List.cons_append, byteOfUnitsFrom?]
    rw [hn, show n + unitLength cs + 1 - n.succ = unitLength cs by omega, byteOfUnitsFrom?_eq]
    unfold byteOfUnits?
    rw [ih]
    simp

/-- Behind what holds no line break, no carriage return ends. -/
theorem charAt?_pred_ne {text : String} {front content back : List Char}
    (hsplit : text.toList = front ++ content ++ back)
    (hcontent : ∀ c ∈ content, isBreakChar c = false)
    (hlt : byteLength front < byteLength (front ++ content)) :
    charAt? text (byteLength (front ++ content) - 1) ≠ some '\r' := by
  intro hreturn
  obtain ⟨pre, post, hpre, hplace⟩ := charAt?_eq_some_iff.1 hreturn
  have hwhole : (pre ++ ['\r']) ++ post = (front ++ content) ++ back := by
    rw [← hsplit, hpre]
    simp
  have hfront : pre ++ ['\r'] = front ++ content := by
    apply front_eq_of_byteLength_eq hwhole
    have hsize : byteLength ['\r'] = 1 := rfl
    rw [byteLength_append pre, hsize]
    omega
  have hlast := congrArg List.getLast? hfront
  cases content using List.reverseRecOn with
  | nil => simp at hlt
  | append_singleton content c =>
    rw [← List.append_assoc, List.getLast?_concat, List.getLast?_concat, Option.some_inj] at hlast
    have hbreak := hcontent c (by simp)
    rw [← hlast] at hbreak
    cases hbreak

/-- Trimmed off at its end, a line holds what stands in front of its first line break. -/
theorem contentEnd_eq {text : String} {number : Nat} {front content ending later : List Char}
    (hsplit : text.toList = front ++ content ++ ending ++ later)
    (hcontent : ∀ c ∈ content, isBreakChar c = false)
    (hstart : (of text).starts.getD number 0 = byteLength front)
    (hnext : (of text).starts[number + 1]? = none ∧ ending = [] ∧ later = [] ∨
      (of text).starts[number + 1]? = some (byteLength (front ++ content ++ ending)) ∧
        ending ∈ [['\n'], ['\r'], ['\r', '\n']]) :
    (of text).contentEnd number = byteLength (front ++ content) := by
  unfold contentEnd
  rw [hstart, show (of text).text = text from rfl]
  rcases hnext with ⟨hnone, rfl, rfl⟩ | ⟨hsome, hmem⟩
  · rw [hnone, ← byteLength_toList, hsplit]
    simp
  · rw [hsome]
    dsimp only
    have hchar (c : Char) (pre post : List Char) (h : text.toList = pre ++ c :: post) :
        charAt? text (byteLength pre) = some c := charAt?_eq_some_iff.2 ⟨pre, post, h, rfl⟩
    simp only [List.mem_cons, List.not_mem_nil, or_false] at hmem
    rcases hmem with rfl | rfl | rfl
    · have hsize : byteLength (front ++ content ++ ['\n']) - 1 = byteLength (front ++ content) := by
        rw [byteLength_append _ ['\n']]
        rfl
      rw [hsize, if_neg]
      simp only [Bool.and_eq_true, beq_iff_eq, decide_eq_true_eq, not_and]
      intro hfeed
      exact charAt?_pred_ne (by rw [hsplit, List.append_assoc]) hcontent hfeed.2
    · have hsize : byteLength (front ++ content ++ ['\r']) - 1 = byteLength (front ++ content) := by
        rw [byteLength_append _ ['\r']]
        rfl
      rw [hsize, hchar '\r' (front ++ content) later (by simp [hsplit])]
      rfl
    · have hsize : byteLength (front ++ content ++ ['\r', '\n']) - 1 =
          byteLength (front ++ content ++ ['\r']) := by
        rw [byteLength_append _ ['\r', '\n'], byteLength_append _ ['\r']]
        rfl
      have hsize' :
          byteLength (front ++ content ++ ['\r']) - 1 = byteLength (front ++ content) := by
        rw [byteLength_append _ ['\r']]
        rfl
      have hlt : byteLength front < byteLength (front ++ content ++ ['\r']) := by
        have hreturn : byteLength ['\r'] = 1 := rfl
        rw [byteLength_append _ ['\r'], byteLength_append, hreturn]
        omega
      rw [hsize, hsize', hchar '\n' (front ++ content ++ ['\r']) later (by simp [hsplit]),
        hchar '\r' (front ++ content) ('\n' :: later) (by simp [hsplit]), if_pos]
      simpa using hlt

/-- What the table knows of a line of which `line` is the front: where it starts, and what it
holds, up to its first line break. -/
theorem exists_content {text : String} {earlier : List Nat} {front line post : List Char}
    (hsplit : text.toList = front ++ line ++ post)
    (htable : (of text).starts =
      earlier ++ byteLength front :: startsIn (byteLength (front ++ line)) post)
    (hline : ∀ c ∈ line, isBreakChar c = false) :
    (of text).starts[earlier.length]? = some (byteLength front) ∧
      (of text).content earlier.length = line ++ post.takeWhile (!isBreakChar ·) := by
  obtain ⟨rest, ending, later, rfl, hrest, hnext⟩ :=
    exists_next_start (byteLength (front ++ line)) post
  have hstart : (of text).starts[earlier.length]? = some (byteLength front) := by
    rw [htable]
    simp
  have hhead : (of text).starts[earlier.length + 1]? =
      (startsIn (byteLength (front ++ line)) (rest ++ ending ++ later)).head? := by
    rw [htable, List.getElem?_append_right (by omega),
      show earlier.length + 1 - earlier.length = 0 + 1 by omega, List.getElem?_cons_succ,
      ← List.head?_eq_getElem?]
  have hcontent : ∀ c ∈ line ++ rest, isBreakChar c = false := by
    intro c hc
    exact (List.mem_append.1 hc).elim (hline c) (hrest c)
  have hstop : (of text).contentEnd earlier.length = byteLength (front ++ (line ++ rest)) := by
    have hpieces : text.toList = front ++ (line ++ rest) ++ ending ++ later := by simp [hsplit]
    refine contentEnd_eq hpieces hcontent ?_ ?_
    · simp [List.getD_eq_getElem?_getD, hstart]
    · rw [hhead]
      refine hnext.imp (fun ⟨hnil, hends⟩ => ⟨by rw [hnil]; rfl, hends⟩) (fun ⟨hsome, hmem⟩ => ?_)
      exact ⟨by rw [hsome]; simp [Nat.add_assoc], hmem⟩
  have hfirst : (ending ++ later).takeWhile (!isBreakChar ·) = [] := by
    rcases hnext with ⟨-, rfl, rfl⟩ | ⟨-, hmem⟩
    · rfl
    · simp only [List.mem_cons, List.not_mem_nil, or_false] at hmem
      rcases hmem with rfl | rfl | rfl <;> rfl
  refine ⟨hstart, ?_⟩
  unfold content
  rw [hstart]
  dsimp only
  have hwhole : text.toList = front ++ (line ++ rest) ++ (ending ++ later) := by simp [hsplit]
  rw [hstop, byteLength_append, show (of text).text = text from rfl, slice_eq hwhole,
    String.toList_ofList, List.append_assoc, List.takeWhile_append_of_pos (by simpa using hrest),
    hfirst, List.append_nil]

/-- The way back from the position that is reached by walking, but into the middle of a pair. -/
theorem offsetOf_walk {text : String} {pre post : List Char} (h : text.toList = pre ++ post)
    (hpair : ¬ (pre.getLast? = some '\r' ∧ post.head? = some '\n')) :
    (of text).offsetOf (walk .origin pre post) = byteLength pre := by
  obtain ⟨earlier, front, line, rfl, hstarts, -, hwalk, hline⟩ := exists_line pre post
  have htable : (of text).starts =
      earlier ++ byteLength front :: startsIn (byteLength (front ++ line)) post := by
    rw [starts_of, h, hstarts]
  have hbreak : ∀ c ∈ line, isBreakChar c = false := by
    apply hline.no_break
    rintro ⟨hlast, hhead⟩
    apply hpair
    rw [List.getLast?_append, hlast]
    exact ⟨rfl, hhead⟩
  obtain ⟨hstart, hcontent⟩ := exists_content h htable hbreak
  unfold offsetOf
  rw [hwalk]
  dsimp only
  rw [hstart]
  dsimp only
  rw [hcontent, byteOfUnits?_unitLength, Option.getD_some, byteLength_append]

end LineTable

/-! ## Pieces of a text -/

section Pieces

variable {text : String} {front middle back : List Char} {i j : Nat}

theorem slice_front (h : text.toList = front ++ back) :
    slice text 0 (byteLength front) = String.ofList front := by
  have hwhole : text.toList = [] ++ front ++ back := h
  simpa using slice_eq hwhole

theorem slice_middle (h : text.toList = front ++ middle ++ back) :
    slice text (byteLength front) (byteLength (front ++ middle)) = String.ofList middle := by
  rw [byteLength_append]
  exact slice_eq h

theorem slice_back (h : text.toList = front ++ back) :
    slice text (byteLength front) text.utf8ByteSize = String.ofList back := by
  have hwhole : text.toList = front ++ back ++ [] := by simp [h]
  rw [← byteLength_toList, h]
  exact slice_middle hwhole

theorem slice_all (text : String) : slice text 0 text.utf8ByteSize = text := by
  have hsplit : text.toList = text.toList ++ [] := by simp
  rw [← byteLength_toList, slice_front hsplit, String.ofList_toList]

theorem isBoundary_zero (text : String) : isBoundary text 0 = true :=
  isBoundary_iff.2 ⟨[], text.toList, rfl, rfl⟩

theorem isBoundary_size (text : String) : isBoundary text text.utf8ByteSize = true :=
  isBoundary_iff.2 ⟨text.toList, [], by simp, by simp⟩

theorem le_size_of_isBoundary (h : isBoundary text i = true) : i ≤ text.utf8ByteSize := by
  obtain ⟨pre, post, hsplit, rfl⟩ := isBoundary_iff.1 h
  rw [← byteLength_toList, hsplit, byteLength_append]
  exact Nat.le_add_right _ _

/-- A place behind the front of a text splits the rest. -/
theorem exists_middle (h : text.toList = front ++ back) (hj : isBoundary text j = true)
    (hle : byteLength front ≤ j) :
    ∃ middle rest, back = middle ++ rest ∧ byteLength (front ++ middle) = j := by
  obtain ⟨pre, post, hsplit, rfl⟩ := isBoundary_iff.1 hj
  rcases List.append_eq_append_iff.1 (h.symm.trans hsplit) with
    ⟨middle, rfl, rfl⟩ | ⟨rest, rfl, rfl⟩
  · exact ⟨middle, post, rfl, rfl⟩
  · -- The place is not in front of the front, so nothing is between them.
    rw [byteLength_append] at hle
    refine ⟨[], back, rfl, ?_⟩
    rw [List.append_nil, byteLength_append]
    omega

theorem exists_pieces (hi : isBoundary text i = true) (hj : isBoundary text j = true)
    (hle : i ≤ j) :
    ∃ front middle back, text.toList = front ++ middle ++ back ∧ byteLength front = i ∧
      byteLength (front ++ middle) = j := by
  obtain ⟨front, back, hsplit, rfl⟩ := isBoundary_iff.1 hi
  obtain ⟨middle, rest, rfl, hplace⟩ := exists_middle hsplit hj hle
  exact ⟨front, middle, rest, by simp [hsplit], rfl, hplace⟩

theorem exists_pieces_of_any_order (hi : isBoundary text i = true) (hj : isBoundary text j = true) :
    ∃ front middle back, text.toList = front ++ middle ++ back ∧ byteLength front = min i j ∧
      byteLength (front ++ middle) = max i j := by
  rcases Nat.le_total i j with hle | hle
  · rw [Nat.min_eq_left hle, Nat.max_eq_right hle]
    exact exists_pieces hi hj hle
  · rw [Nat.min_eq_right hle, Nat.max_eq_left hle]
    exact exists_pieces hj hi hle

theorem slice_append_slice (hi : isBoundary text i = true) (hj : isBoundary text j = true)
    (hle : i ≤ j) : slice text 0 i ++ slice text i j = slice text 0 j := by
  obtain ⟨front, middle, back, hsplit, rfl, rfl⟩ := exists_pieces hi hj hle
  have hfront : text.toList = front ++ (middle ++ back) := by simp [hsplit]
  rw [slice_front hfront, slice_middle hsplit, slice_front hsplit, String.ofList_append]

end Pieces

/-! ## There and back -/

/-- A place where a text may be cut: between two characters, but not in the middle of a pair. -/
structure IsCut (text : String) (offset : Nat) : Prop where
  boundary : isBoundary text offset = true
  unpaired : ¬ ((slice text 0 offset).toList.getLast? = some '\r' ∧
    (slice text offset text.utf8ByteSize).toList.head? = some '\n')

instance (text : String) (offset : Nat) : Decidable (IsCut text offset) :=
  decidable_of_iff (_ ∧ _) ⟨fun h => ⟨h.1, h.2⟩, fun h => ⟨h.boundary, h.unpaired⟩⟩

theorem isCut_byteLength_iff {text : String} {pre post : List Char}
    (h : text.toList = pre ++ post) :
    IsCut text (byteLength pre) ↔ ¬ (pre.getLast? = some '\r' ∧ post.head? = some '\n') := by
  constructor
  · rintro ⟨-, hunpaired⟩
    rwa [slice_front h, slice_back h, String.toList_ofList, String.toList_ofList] at hunpaired
  · intro hunpaired
    refine ⟨isBoundary_iff.2 ⟨pre, post, h, rfl⟩, ?_⟩
    rwa [slice_front h, slice_back h, String.toList_ofList, String.toList_ofList]

theorem IsCut.exists_split {text : String} {offset : Nat} (h : IsCut text offset) :
    ∃ pre post, text.toList = pre ++ post ∧ byteLength pre = offset ∧
      ¬ (pre.getLast? = some '\r' ∧ post.head? = some '\n') := by
  obtain ⟨pre, post, hsplit, rfl⟩ := isBoundary_iff.1 h.boundary
  exact ⟨pre, post, hsplit, rfl, (isCut_byteLength_iff hsplit).1 h⟩

/-- The position of a cut leads back to the cut. -/
theorem LineTable.offsetOf_positionOf {text : String} {offset : Nat} (h : IsCut text offset) :
    (of text).offsetOf ((of text).positionOf offset) = offset := by
  obtain ⟨pre, post, hsplit, rfl, hunpaired⟩ := h.exists_split
  rw [positionOf_byteLength hsplit]
  exact offsetOf_walk hsplit hunpaired

end CaplOutline.Text
