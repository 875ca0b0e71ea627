-- Two texts with a line break between them. If nothing is open behind the first text, then
-- the machine starts afresh on the second one: nothing that it remembers of the first text
-- has to do with the second. So the outline of both is the outline of the first one and,
-- further down, the outline of the second one.
import CaplOutline.Proofs.Token.Joining
import CaplOutline.Proofs.Outline.Alike

namespace CaplOutline

open Text

/-! ## Outlines further down -/

mutual

/-- The symbol with so many more lines above it. -/
def Symbol.moveDown (lines : Nat) : Symbol → Symbol
  | ⟨name, detail, kind, range, selection, children⟩ =>
    ⟨name, detail, kind, range.moveDown lines, selection.moveDown lines,
      Outline.moveDown lines children⟩

def Outline.moveDown (lines : Nat) : List Symbol → List Symbol
  | [] => []
  | symbol :: symbols => symbol.moveDown lines :: Outline.moveDown lines symbols

end

mutual

theorem Symbol.moveDown_zero : (symbol : Symbol) → symbol.moveDown 0 = symbol
  | ⟨_, _, _, _, _, children⟩ => by
    rw [Symbol.moveDown, Outline.moveDown_zero children]
    rfl

theorem Outline.moveDown_zero : (outline : List Symbol) → Outline.moveDown 0 outline = outline
  | [] => rfl
  | symbol :: symbols => by
    rw [Outline.moveDown, Symbol.moveDown_zero symbol, Outline.moveDown_zero symbols]

end

namespace Outline

/-- An outline whose tokens are the moved tokens of another one is the moved outline. -/
theorem Alike.eq_moveDown {pairs : Token → Token → Prop} {stop stop' : Position} {lines : Nat}
    (hrange : ∀ {token token'}, pairs token token' → token'.range = token.range.moveDown lines)
    (hstop : stop' = stop.moveDown lines) {outline outline' : Outline}
    (h : Alike pairs stop stop' outline outline') : outline' = moveDown lines outline := by
  induction h with
  | nil => rfl
  | @cons symbol symbol' _ _ hname hkind hdetail hstart hend hselection _ _ ihchildren ih =>
    obtain ⟨name, detail, kind, ⟨start, last⟩, selection, children⟩ := symbol
    obtain ⟨name', detail', kind', ⟨start', last'⟩, selection', children'⟩ := symbol'
    have hstarts : start' = start.moveDown lines := by
      obtain ⟨token, token', hpair, rfl, rfl⟩ := hstart
      rw [hrange hpair]
      rfl
    have hstops : last' = last.moveDown lines := by
      rcases hend with ⟨token, token', hpair, rfl, rfl⟩ | ⟨rfl, rfl⟩
      · rw [hrange hpair]
        rfl
      · exact hstop
    have hselections : selection' = selection.moveDown lines := by
      obtain ⟨token, token', hpair, rfl, rfl⟩ := hselection
      exact hrange hpair
    dsimp only at hname hkind hdetail ihchildren
    rw [moveDown, Symbol.moveDown, ih, ihchildren, hname, hkind, hdetail, hstarts, hstops,
      hselections]
    rfl

end Outline

/-! ## Pieces of a part of a text -/

namespace Text

/-- What lies between two places does not depend on what follows them. -/
theorem slice_of_splits {text : String} {pre post pre' post' : List Char}
    (h : text.toList = pre ++ post) (h' : text.toList = pre' ++ post') :
    slice text (byteLength pre) (byteLength pre') = String.ofList (pre'.drop pre.length) := by
  rcases List.append_eq_append_iff.1 (h.symm.trans h') with ⟨mid, rfl, rfl⟩ | ⟨mid, rfl, rfl⟩
  · rw [byteLength_append, List.drop_left]
    exact slice_eq (by rw [h, List.append_assoc])
  · rw [List.drop_eq_nil_of_le (by simp)]
    unfold slice String.Pos.Raw.extract
    dsimp only
    rw [if_pos (by rw [byteLength_append]; omega)]

/-- A piece of a text is the same piece of a text around it. -/
theorem slice_within {text : String} {start stop : Nat} (hstart : isBoundary text start = true)
    (hstop : isBoundary text stop = true) (above below : String) :
    slice (above ++ text ++ below) (above.utf8ByteSize + start) (above.utf8ByteSize + stop) =
      slice text start stop := by
  obtain ⟨pre, post, h, rfl⟩ := isBoundary_iff.1 hstart
  obtain ⟨pre', post', h', rfl⟩ := isBoundary_iff.1 hstop
  have hwhole : ∀ front back, text.toList = front ++ back →
      (above ++ text ++ below).toList = (above.toList ++ front) ++ (back ++ below.toList) := by
    intro front back hsplit
    simp [String.toList_append, hsplit]
  rw [← byteLength_toList, ← byteLength_append, ← byteLength_append,
    slice_of_splits (hwhole _ _ h) (hwhole _ _ h'), slice_of_splits h h', List.length_append,
    List.drop_length_add_append]

end Text

namespace Outline

/-- The tokens of a text, beside those of a longer text of which it is a part. -/
def Pairing.ofPart (options : Options) (above text below : String) (lines : Nat)
    (stop stop' : Position) : Pairing options where
  source := text
  source' := above ++ text ++ below
  pairs token token' := token ∈ Token.ofText text ∧ token.MovesDown above.utf8ByteSize lines token'
  kind_eq h := h.2.kind_eq.symm
  text_eq h := h.2.text_eq.symm
  stop_line h := by
    have hline := (Token.standsIn_of_mem h.1).range_stop
    unfold Token.line
    rw [h.2.range_eq]
    unfold Range.moveDown Position.moveDown
    dsimp only
    rw [hline]
    exact ⟨rfl, rfl⟩
  line_lt h hother := by
    unfold Token.line
    rw [h.2.range_eq, hother.2.range_eq]
    exact (Nat.add_lt_add_iff_right).symm
  slice_eq _ hfirst hlast := by
    obtain ⟨hstart, -⟩ := (Token.standsIn_of_mem hfirst.1).isBoundary
    obtain ⟨hstart', hstop'⟩ := (Token.standsIn_of_mem hlast.1).isBoundary
    rw [hfirst.2.span_eq, hlast.2.span_eq]
    dsimp only
    rw [Nat.add_comm _ above.utf8ByteSize, Nat.add_comm _ above.utf8ByteSize,
      Nat.add_comm _ above.utf8ByteSize]
    exact ⟨(slice_within hstart hstart' _ _).symm, (slice_within hstart hstop' _ _).symm⟩
  stop
  stop'

namespace Machine

/-! ## Nothing is open -/

/-- The machine is outside all headers and all braces. -/
def isIdle (machine : Machine) : Bool :=
  match machine.phase with
  | .topLevel => machine.stack.isEmpty
  | _ => false

variable {machine : Machine}

theorem phase_of_isIdle (h : machine.isIdle = true) :
    machine.phase = .topLevel ∧ machine.stack = #[] := by
  unfold isIdle at h
  split at h
  · exact ⟨‹_›, by simpa using h⟩
  · cases h

theorem Alike.isIdle_eq {options : Options} {pairing : Pairing options} {before : Outline}
    {machine' : Machine} (h : machine.Alike pairing before machine') :
    machine.isIdle = machine'.isIdle := by
  have hphase := h.phase
  unfold isIdle
  rw [Array.isEmpty, Array.isEmpty, h.size_stack_eq]
  generalize machine.phase = phase at hphase ⊢
  generalize machine'.phase = phase' at hphase ⊢
  cases hphase <;> rfl

/-- There is nothing to close at the end. -/
theorem finish_of_isIdle (h : machine.isIdle = true) (stop : Position) :
    machine.finish stop = machine := by
  obtain ⟨hphase, hstack⟩ := phase_of_isIdle h
  have hend : machine.endHeader = machine.leave :=
    endHeader_eq_iff.2 (.outside (by simp [hphase]))
  have hleave : machine.leave = machine := by
    unfold leave
    rw [← hphase]
  unfold finish
  rw [hend, hleave]
  dsimp only
  rw [hstack]
  rfl

/-- Where nothing is open, a machine is to one that starts as it would be to itself, but for the
symbols that it has found. -/
theorem alike_of_isIdle {options : Options} (pairing : Pairing options)
    (hsource : machine.source = pairing.source') (hoptions : machine.options = options)
    (h : machine.isIdle = true) :
    (start pairing.source options).Alike pairing machine.roots.toList machine := by
  obtain ⟨hphase, hstack⟩ := phase_of_isIdle h
  refine ⟨rfl, hsource, rfl, hoptions, ?_, ?_, [], (List.append_nil _).symm, .nil⟩
  · rw [hphase]
    exact .topLevel
  · rw [hstack]
    exact .nil

end Machine

/-! ## The laws -/

/-- What the machine makes of the first text does not depend on what follows it. -/
theorem run_below (options : Options) (first below : String)
    (hidle : (Machine.run first options (Token.ofText first)).isIdle = true) :
    let machine := Machine.run (first ++ below) options (Token.ofText first)
    machine.isIdle = true ∧ machine.source = first ++ below ∧ machine.options = options ∧
      machine.roots.toList = extract first options := by
  let pairing := Pairing.ofPart options "" first below 0 .origin .origin
  have hwhole : pairing.source' = first ++ below := by
    change "" ++ first ++ below = _
    rw [String.empty_append]
  have htokens : List.Forall₂ pairing.pairs (Token.ofText first) (Token.ofText first) :=
    List.forall₂_same.2 fun token hmem => ⟨hmem, rfl, rfl, rfl, rfl⟩
  have hrun := (Machine.alike_start pairing).foldl_feed htokens
  rw [hwhole] at hrun
  refine ⟨?_, hrun.source_eq'.trans hwhole, hrun.options_eq', ?_⟩
  · exact hrun.isIdle_eq.symm.trans hidle
  · obtain ⟨outline, hroots, halike⟩ := hrun.roots
    have houtline : outline = moveDown 0 (Machine.run first options _).roots.toList :=
      halike.eq_moveDown (fun h => h.2.range_eq) rfl
    rw [moveDown_zero] at houtline
    refine hroots.trans ?_
    rw [List.nil_append, houtline]
    unfold extract
    dsimp only
    exact congrArg (·.roots.toList) (Machine.finish_of_isIdle hidle _).symm

/-- If nothing is open behind the first text, and it does not end inside a block comment, then a
second text behind a line break adds its own outline to that of the first, further down. -/
theorem outlines_go_on_behind_a_line_break (first second : String) (options : Options)
    (hidle : (Machine.run first options (Token.ofText first)).isIdle = true)
    (hcomment : Token.endsInBlockComment first = false) :
    extract (first ++ "\n" ++ second) options =
      extract first options ++
        moveDown (Text.LineTable.of (first ++ "\n")).endPosition.line (extract second options) := by
  obtain ⟨tokens, htext, hmoved⟩ := Token.ofText_join first second hcomment
  let pairing := Pairing.ofPart options (first ++ "\n") second ""
    (Text.LineTable.of (first ++ "\n")).endPosition.line (Token.scan second).2.position
    (Token.scan (first ++ "\n" ++ second)).2.position
  have hwhole : pairing.source' = first ++ "\n" ++ second := String.append_empty
  have htokens : List.Forall₂ pairing.pairs (Token.ofText second) tokens :=
    (List.forall₂_and_left _ _).2 ⟨fun _ hmem => hmem, hmoved⟩
  obtain ⟨hidle', hsource, hoptions, hroots⟩ := run_below options first ("\n" ++ second) hidle
  rw [← String.append_assoc] at hidle' hsource hoptions hroots
  have hstart := Machine.alike_of_isIdle pairing (hsource.trans hwhole.symm) hoptions hidle'
  rw [hroots] at hstart
  obtain ⟨outline, hfound, halike⟩ := (hstart.foldl_feed htokens).finish.roots
  have houtline :=
    halike.eq_moveDown (fun h => h.2.range_eq) (Token.position_scan_join first second)
  rw [houtline] at hfound
  refine Eq.trans ?_ hfound
  unfold extract
  dsimp only
  rw [show (Token.scan (first ++ "\n" ++ second)).1 = _ from htext]
  unfold Machine.run
  rw [List.foldl_append]
  rfl

theorem a_function_behind_a_stray_brace :
    let first := "on start \x7b int x; \x7d \x7d \"open\\\r"
    let second := "void f(int a)\n\x7b\n\x7d"
    (Machine.run first {} (Token.ofText first)).isIdle = true ∧
      Token.endsInBlockComment first = false ∧
      extract (first ++ "\n" ++ second) {} =
        extract first {} ++
          moveDown (Text.LineTable.of (first ++ "\n")).endPosition.line (extract second {}) := by
  intro first second
  have hidle : (Machine.run first {} (Token.ofText first)).isIdle = true := by
    decide +kernel
  have hcomment : Token.endsInBlockComment first = false := by
    decide +kernel
  exact ⟨hidle, hcomment, outlines_go_on_behind_a_line_break _ _ _ hidle hcomment⟩

end Outline

end CaplOutline
