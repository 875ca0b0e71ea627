-- Nothing can go wrong while an outline is made. What a header keeps are places in the source
-- that follow one another and were passed by the cursor, and counts that are no larger than
-- what was read. So all that is cut out of the source is there, and no count goes over 32 bits.
import CaplOutline.Proofs.Outline.Braces
import CaplOutline.Proofs.Outline.Detail
import CaplOutline.Proofs.Outline.Pieces
import CaplOutline.Proofs.Outline.Ranges
import CaplOutline.Proofs.Outline.Regular
import CaplOutline.Proofs.Token.Bounds

namespace CaplOutline.Outline

open Text

/-! ## What a header keeps -/

/-- The first token of a header, its name, if it has one, and its last token stand in this order in
front of the cursor. -/
structure Bounds (source : String) (cursor : Cursor) (first : Token) (name : Option Token)
    (last : Token) : Prop where
  first_passed : first.Passed source cursor
  last_passed : last.Passed source cursor
  in_order : first = last ∨ first.Precedes last
  name : ∀ token, name = some token →
    token.Passed source cursor ∧ first.Precedes token ∧ (token = last ∨ token.Precedes last)

/-- What a header keeps is in order, and its counts are no larger than what was read. -/
def Header.Bounded (source : String) (cursor : Cursor) : Header → Prop
  | .event header =>
    Bounds source cursor header.first header.name header.last ∧
      ∀ start, header.arguments = some start → isBoundary source start = true ∧
        header.first.span.stop ≤ start ∧ start ≤ header.last.span.stop
  | .declaration header =>
    Bounds source cursor header.first header.name header.last ∧
      (header.name.isSome ↔ 2 ≤ header.words) ∧ 1 ≤ header.words ∧
      header.words ≤ cursor.offset
  | .parameters list =>
    Bounds source cursor list.first none list.last ∧ 1 ≤ list.parens ∧
      list.parens ≤ cursor.offset
  | .awaitBody _ last => last.Passed source cursor
  | .declarators list =>
    list.last.Passed source cursor ∧ list.parens ≤ cursor.offset ∧ list.braces ≤ cursor.offset

theorem Bounds.withoutName {source : String} {cursor : Cursor} {first last : Token}
    {name : Option Token} (h : Bounds source cursor first name last) :
    Bounds source cursor first none last :=
  ⟨h.first_passed, h.last_passed, h.in_order, nofun⟩

/-- A header is not inverted. -/
theorem Bounds.start_le_stop {source : String} {cursor : Cursor} {first last : Token}
    {name : Option Token} (h : Bounds source cursor first name last) :
    first.span.start ≤ last.span.stop := by
  have hfirst := h.first_passed.stands.span_start_lt_stop
  rcases h.in_order with heq | hprecedes
  · rw [← heq]
    exact hfirst.le
  · have hbytes := hprecedes.bytes
    have hlast := h.last_passed.stands.span_start_lt_stop
    omega

section Reading

variable {source : String} {cursor cursor' : Cursor} {first last token : Token}
  {name : Option Token} (hd : cursor.Delivers source token cursor')

include hd

/-- A header of one token. -/
theorem bounds_of_first : Bounds source cursor' token none token :=
  ⟨hd.passed, hd.passed, Or.inl rfl, nofun⟩

/-- One more token of a header. -/
theorem Bounds.read (h : Bounds source cursor first name last) :
    Bounds source cursor' first name token := by
  refine ⟨hd.passed_of_passed h.first_passed, hd.passed, Or.inr (hd.precedes h.first_passed), ?_⟩
  intro word hword
  obtain ⟨hpassed, hfirst, -⟩ := h.name word hword
  exact ⟨hd.passed_of_passed hpassed, hfirst, Or.inr (hd.precedes hpassed)⟩

/-- One more token of a header, which gives it a name. -/
theorem Bounds.rename (h : Bounds source cursor first name last) :
    Bounds source cursor' first (some token) token := by
  have hprecedes := hd.precedes h.first_passed
  refine ⟨hd.passed_of_passed h.first_passed, hd.passed, Or.inr hprecedes, ?_⟩
  rintro word ⟨⟩
  exact ⟨hd.passed, hprecedes, Or.inl rfl⟩

end Reading

/-- Neither count goes up by more than one. -/
theorem DeclaratorList.add_le (list : DeclaratorList) (token : Token) :
    (list.add token).parens ≤ list.parens + 1 ∧ (list.add token).braces ≤ list.braces + 1 := by
  unfold add
  dsimp only
  constructor
  · split <;> omega
  · split <;> omega

namespace Machine

/-- The machine reads this source, and its header is bounded. -/
structure Bounded (source : String) (cursor : Cursor) (machine : Machine) : Prop where
  source_eq : machine.source = source
  header : ∀ header, machine.phase = .inHeader header → header.Bounded source cursor

variable {source : String} {cursor cursor' : Cursor} {machine : Machine} {token : Token}

/-! ## Operations -/

theorem bounded_settle (h : machine.source = source) : machine.settle.Bounded source cursor :=
  ⟨h, fun header hphase => absurd hphase (settle_phase_ne machine header)⟩

theorem bounded_readHeader (h : machine.source = source) {header : Header}
    (hheader : header.Bounded source cursor) :
    (machine.readHeader header).Bounded source cursor := by
  refine ⟨h, ?_⟩
  rintro header' ⟨⟩
  exact hheader

theorem bounded_push (h : machine.source = source) (symbol : Option Draft) (scope : Scope) :
    (machine.push symbol scope).Bounded source cursor :=
  ⟨h, fun _ hphase => by cases hphase⟩

theorem bounded_close (h : machine.source = source) (draft : Draft) (stop : Position) :
    (machine.close draft stop).Bounded source cursor :=
  bounded_settle ((source_attach machine draft stop).trans h)

theorem bounded_pop (h : machine.source = source) (stop : Position) :
    (machine.pop stop).Bounded source cursor := by
  have hdrop : machine.dropFrame.source = source := h
  rw [pop_eq]
  split
  · exact bounded_settle h
  · split
    · exact bounded_settle hdrop
    · exact bounded_close hdrop _ _

theorem source_report (list : DeclaratorList) (stop : Position) :
    (machine.report list stop).source = machine.source := by
  unfold report
  split
  · split
    · exact source_attach _ _ _
    · rfl
  · rfl

/-! ## One step -/

section Rules

variable {step : Step} (hd : cursor.Delivers source token cursor')

include hd

theorem ScanRule.bounded {next : Machine} (hrule : machine.ScanRule token next)
    (h : machine.source = source) : next.Bounded source cursor' := by
  cases hrule with
  | event => exact bounded_readHeader h ⟨bounds_of_first hd, nofun⟩
  | block => exact bounded_readHeader h hd.passed
  | declaration =>
    have hlt := hd.offset_lt
    refine bounded_readHeader h ⟨bounds_of_first hd, ?_, Nat.le_refl 1, ?_⟩
    · simp [DeclarationHeader.ofToken]
    · dsimp only [DeclarationHeader.ofToken]
      omega
  | opens => exact bounded_push h _ _
  | closes => exact bounded_pop h _
  | passes => exact bounded_settle h

theorem EventRule.bounded {header : EventHeader} (hrule : machine.EventRule header token step)
    (hsource : machine.source = source) (h : (Header.event header).Bounded source cursor) :
    step.Ends (Bounded source cursor) (Bounded source cursor') := by
  obtain ⟨hbounds, harguments⟩ := h
  have hlast := hd.precedes hbounds.last_passed
  have hspan := hd.stands.span_start_lt_stop
  cases hrule with
  | body => exact bounded_push hsource _ _
  | semicolon | ends => exact bounded_close hsource _ _
  | more =>
    refine bounded_readHeader hsource ?_
    unfold EventHeader.add
    split
    · rename_i hname
      refine ⟨hbounds.rename hd, ?_⟩
      intro start hstart
      dsimp only at hstart
      simp [hstart] at hname
    · refine ⟨hbounds.read hd, ?_⟩
      intro start hstart
      dsimp only at hstart ⊢
      cases hfound : header.arguments with
      | none =>
        rw [hfound] at hstart
        cases hstart
        exact ⟨hd.stands.isBoundary.1, (hd.precedes hbounds.first_passed).bytes, hspan.le⟩
      | some found =>
        rw [hfound] at hstart
        cases hstart
        obtain ⟨hboundary, hfirst, hle⟩ := harguments _ hfound
        have hbytes := hlast.bytes
        exact ⟨hboundary, hfirst, by omega⟩

theorem DeclarationRule.bounded {header : DeclarationHeader}
    (hrule : machine.DeclarationRule header token step) (hsource : machine.source = source)
    (h : (Header.declaration header).Bounded source cursor) :
    step.Ends (Bounded source cursor) (Bounded source cursor') := by
  obtain ⟨hbounds, hname, hpositive, hwords⟩ := h
  have hlt := hd.offset_lt
  cases hrule with
  | var =>
    exact bounded_readHeader hsource ⟨hbounds.last_passed, Nat.zero_le _, Nat.zero_le _⟩
  | word =>
    refine bounded_readHeader hsource ⟨hbounds.rename hd, ?_, ?_, ?_⟩
    · simp [DeclarationHeader.addWord, hpositive]
    · simp [DeclarationHeader.addWord]
    · dsimp only [DeclarationHeader.addWord]
      omega
  | connector =>
    exact bounded_readHeader hsource
      ⟨hbounds.read hd, hname, hpositive, Nat.le_trans hwords hlt.le⟩
  | function =>
    exact bounded_readHeader hsource
      ⟨(hbounds.read hd).withoutName, Nat.le_refl 1, Nat.lt_of_le_of_lt (Nat.zero_le _) hlt⟩
  | aggregate => exact bounded_push hsource _ _
  | nothing => exact bounded_settle hsource

theorem ParametersRule.bounded {list : ParameterList}
    (hrule : machine.ParametersRule list token step) (hsource : machine.source = source)
    (h : (Header.parameters list).Bounded source cursor) :
    step.Ends (Bounded source cursor) (Bounded source cursor') := by
  obtain ⟨hbounds, hpositive, hparens⟩ := h
  have hlt := hd.offset_lt
  have hread := hbounds.read hd
  cases hrule with
  | opens =>
    refine bounded_readHeader hsource ⟨hread, Nat.le_add_left _ _, ?_⟩
    dsimp only
    omega
  | ends => exact bounded_readHeader hsource hd.passed
  | closes =>
    refine bounded_readHeader hsource ⟨hread, ?_, ?_⟩
    · dsimp only
      omega
    · dsimp only
      omega
  | cut => exact bounded_readHeader hsource hbounds.last_passed
  | takes => exact bounded_readHeader hsource ⟨hread, hpositive, Nat.le_trans hparens hlt.le⟩

omit hd in
theorem BodyRule.bounded {draft : Draft} {last : Token}
    (hrule : machine.BodyRule draft last token step) (hsource : machine.source = source) :
    step.Ends (Bounded source cursor) (Bounded source cursor') := by
  cases hrule with
  | body => exact bounded_push hsource _ _
  | semicolon | ends => exact bounded_close hsource _ _

theorem DeclaratorsRule.bounded {list : DeclaratorList}
    (hrule : machine.DeclaratorsRule list token step) (hsource : machine.source = source)
    (h : (Header.declarators list).Bounded source cursor) :
    step.Ends (Bounded source cursor) (Bounded source cursor') := by
  obtain ⟨-, hparens, hbraces⟩ := h
  have hlt := hd.offset_lt
  have hreport : ∀ stop, (machine.report list stop).source = source :=
    fun stop => (source_report list stop).trans hsource
  have hadd : ∀ current,
      (Header.declarators ({ list with current }.add token)).Bounded source cursor' := by
    intro current
    obtain ⟨hparens', hbraces'⟩ := DeclaratorList.add_le { list with current } token
    refine ⟨hd.passed, ?_, ?_⟩
    · dsimp only at hparens' ⊢
      omega
    · dsimp only at hbraces' ⊢
      omega
  cases hrule with
  | semicolon | ends => exact bounded_settle (hreport _)
  | comma => exact bounded_readHeader (hreport _) (hadd none)
  | name => exact bounded_readHeader hsource (hadd _)
  | takes => exact bounded_readHeader hsource (hadd list.current)

theorem Rule.bounded (hrule : machine.Rule token step) (h : machine.Bounded source cursor) :
    step.Ends (Bounded source cursor) (Bounded source cursor') := by
  obtain ⟨hsource, hheader⟩ := h
  cases hrule with
  | scan _ hrule => exact hrule.bounded hd hsource
  | event hphase hrule => exact hrule.bounded hd hsource (hheader _ hphase)
  | declaration hphase hrule => exact hrule.bounded hd hsource (hheader _ hphase)
  | parameters hphase hrule => exact hrule.bounded hd hsource (hheader _ hphase)
  | body _ hrule => exact hrule.bounded hsource
  | declarators hphase hrule => exact hrule.bounded hd hsource (hheader _ hphase)

theorem bounded_step (h : machine.Bounded source cursor) :
    (machine.step token).Ends (Bounded source cursor) (Bounded source cursor') :=
  (machine.step_rule token).bounded hd ⟨h.source_eq, h.header⟩

end Rules

/-! ## The owners of frames -/

/-- Each owner that a frame keeps is the index of a frame with a symbol, and not above it. -/
def Owned (machine : Machine) : Prop :=
  ∀ (index : Nat) (frame : Frame) (owner : Nat), machine.stack[index]? = some frame →
    frame.owner = some owner → owner ≤ index ∧
      ∃ (holder : Frame) (draft : Draft),
        machine.stack[owner]? = some holder ∧ holder.symbol = some draft

theorem owned_of_stacked (h : Stacked machine.frames) : machine.Owned := by
  intro index frame owner hframe howner
  have hreverse : machine.frames.reverse = machine.stack.toList := List.reverse_reverse _
  rw [← Array.getElem?_toList, ← hreverse] at hframe
  obtain ⟨hle, holder, draft, hholder, hdraft⟩ := h.exists_owner hframe howner
  refine ⟨hle, holder, draft, ?_, hdraft⟩
  rwa [← Array.getElem?_toList, ← hreverse]

/-! ## The states of a run -/

/-- Where the cursor and the machine get: a token is read and handled again and again until it is
used up, and then the next one is read. -/
inductive Reached (source : String) (options : Options) : Cursor → Machine → Prop
  | start : Reached source options (.ofText source) (start source options)
  | retry {cursor cursor' : Cursor} {machine machine' : Machine} {token : Token} :
      Reached source options cursor machine → cursor.next = (some token, cursor') →
      machine.step token = .retry machine' → Reached source options cursor machine'
  | consumed {cursor cursor' : Cursor} {machine machine' : Machine} {token : Token} :
      Reached source options cursor machine → cursor.next = (some token, cursor') →
      machine.step token = .consumed machine' → Reached source options cursor' machine'

variable {options : Options}

theorem Reached.feed (h : Reached source options cursor machine)
    (hnext : cursor.next = (some token, cursor')) :
    Reached source options cursor' (machine.feed token) := by
  refine feed_ends (P := Reached source options cursor) ?_ h
  intro machine h
  cases hstep : machine.step token with
  | consumed machine' => exact .consumed h hnext hstep
  | retry machine' => exact .retry h hnext hstep

/-- The run over all tokens ends in such a state. -/
theorem Reached.reads {tokens : List Token} {stop : Cursor}
    (h : Reached source options cursor machine) (hreads : cursor.Reads tokens stop) :
    ∃ last, Reached source options last (tokens.foldl Machine.feed machine) ∧
      last.next = (none, stop) := by
  induction hreads generalizing machine with
  | nil hnext => exact ⟨_, h, hnext⟩
  | cons hnext _ ih => exact ih (h.feed hnext)

theorem Reached.invariant (h : Reached source options cursor machine) :
    (∃ front, cursor.Behind source front) ∧ cursor.depth ≤ cursor.offset ∧
      machine.InPlace cursor.position ∧ machine.Bounded source cursor := by
  induction h with
  | start =>
    exact ⟨⟨[], Cursor.behind_ofText source⟩, Nat.le_refl 0, inPlace_start source options, rfl,
      fun _ hphase => by cases hphase⟩
  | retry _ hnext hstep ih =>
    obtain ⟨⟨front, hbehind⟩, hdepth, hplace, hbounded⟩ := ih
    have hd := hbehind.delivers hnext
    have hplace' := inPlace_step hd.toYields hplace
    have hbounded' := bounded_step hd hbounded
    rw [hstep] at hplace' hbounded'
    exact ⟨⟨front, hbehind⟩, hdepth, hplace', hbounded'⟩
  | consumed _ hnext hstep ih =>
    obtain ⟨⟨front, hbehind⟩, hdepth, hplace, hbounded⟩ := ih
    have hd := hbehind.delivers hnext
    have hplace' := inPlace_step hd.toYields hplace
    have hbounded' := bounded_step hd hbounded
    rw [hstep] at hplace' hbounded'
    refine ⟨(hbehind.next hnext).2, hd.depth_le hdepth, ?_, hbounded'⟩
    rw [hd.position_eq]
    exact hplace'

end Machine

/-! ## What is cut out of the source -/

/-- The symbol that a header is about. -/
def Header.draft? : Header → Option Draft
  | .event header => some (.ofTokens .event header.first header.name)
  | .declaration header => some (.ofTokens .var header.first header.name)
  | .parameters list => some list.draft
  | .awaitBody draft _ => some draft
  | .declarators list => list.current

theorem Header.InPlace.fits {spine : Spine} {header : Header} (h : header.InPlace spine)
    {draft : Draft} (hdraft : header.draft? = some draft) : draft.Fits header.last.range.stop := by
  cases header with
  | event header =>
    cases hdraft
    exact Spine.Awaits.fits h
  | declaration header =>
    cases hdraft
    exact Spine.Awaits.fits h
  | parameters list =>
    cases hdraft
    exact Spine.Awaits.fits h
  | awaitBody draft last =>
    cases hdraft
    exact Spine.Awaits.fits h
  | declarators list =>
    have hcurrent : list.current = some draft := hdraft
    unfold Header.InPlace at h
    dsimp only at h
    rw [hcurrent] at h
    exact Spine.Awaits.fits h

/-- All that may be cut out of the source can be. -/
theorem Header.Bounded.sliceable {source : String} {cursor : Cursor} {header : Header}
    (h : header.Bounded source cursor) {following : Option Token}
    (hfollowing : ∀ token, following = some token →
      token.StandsIn source ∧ cursor.offset ≤ token.span.start) :
    ∀ span ∈ header.pieces following, Sliceable source span := by
  intro span hspan
  cases header with
  | event header =>
    obtain ⟨hbounds, harguments⟩ := h
    obtain ⟨start, hstart, rfl⟩ := List.mem_map.1 hspan
    obtain ⟨hboundary, -, hle⟩ := harguments start (Option.mem_toList.1 hstart)
    exact sliceable_of_isBoundary hle hboundary hbounds.last_passed.stands.isBoundary.2
  | declaration header =>
    obtain ⟨hbounds, -⟩ := h
    obtain ⟨name, hname, rfl⟩ := List.mem_map.1 hspan
    obtain ⟨hpassed, hprecedes, -⟩ := hbounds.name name (Option.mem_toList.1 hname)
    have hfirst := hbounds.first_passed.stands
    exact sliceable_of_isBoundary (Nat.le_trans hfirst.span_start_lt_stop.le hprecedes.bytes)
      hfirst.isBoundary.1 hpassed.stands.isBoundary.1
  | parameters list =>
    obtain ⟨hbounds, -⟩ := h
    have hfirst := hbounds.first_passed.stands
    have hlast := hbounds.last_passed
    have hle := hbounds.start_le_stop
    rcases List.mem_cons.1 hspan with rfl | hspan
    · exact sliceable_of_isBoundary hle hfirst.isBoundary.1 hlast.stands.isBoundary.2
    · obtain ⟨token, htoken, rfl⟩ := List.mem_map.1 hspan
      obtain ⟨hstands, hoffset⟩ := hfollowing token (Option.mem_toList.1 htoken)
      have hbytes := hlast.bytes
      have hlt := hstands.span_start_lt_stop
      exact sliceable_of_isBoundary (by omega) hfirst.isBoundary.1 hstands.isBoundary.2
  | awaitBody draft last => cases hspan
  | declarators list => cases hspan

/-! ## The law -/

/-- Nothing goes wrong in the step that is taken next, whatever it is. -/
structure Machine.Sound (source : String) (cursor : Cursor) (machine : Machine) : Prop where
  /-- What is cut out is there. -/
  pieces : ∀ following cursor', cursor.next = (following, cursor') →
    ∀ span ∈ machine.pieces following, Sliceable source span
  /-- Nothing else is cut out. -/
  reads : ∀ other following, SameAt other source (machine.pieces following) →
    (∀ token, following = some token →
      (machine.withSource other).step token = (machine.step token).withSource other) ∧
    (following = none →
      (machine.withSource other).endHeader = machine.endHeader.withSource other)
  owned : machine.Owned
  header : ∀ header, machine.phase = .inHeader header → header.Bounded source cursor ∧
    ∀ draft, header.draft? = some draft → draft.Fits header.last.range.stop
  braces : ∀ list token, machine.phase = .inHeader (.declarators list) →
    token.kind = .closeBrace → list.endsBefore token = false → 0 < list.braces
  counts : cursor.offset < Nat.pow 2 32 ∧ cursor.depth < Nat.pow 2 32 ∧
    ∀ n, (cursor.advance n).position.line < Nat.pow 2 32 ∧
      (cursor.advance n).position.character < Nat.pow 2 32

theorem Machine.Reached.sound {source : String} {options : Options} {cursor : Cursor}
    {machine : Machine} (hsize : source.utf8ByteSize < Nat.pow 2 32)
    (h : Reached source options cursor machine) : machine.Sound source cursor := by
  obtain ⟨⟨front, hbehind⟩, hdepth, ⟨hstacked, hplace⟩, hsource, hheader⟩ := h.invariant
  have hoffset := hbehind.offset_le_size
  refine ⟨?_, ?_, owned_of_stacked hstacked, ?_, ?_, ?_⟩
  · intro following cursor' hnext span hspan
    unfold Machine.pieces at hspan
    split at hspan
    · rename_i header hphase
      refine (hheader header hphase).sliceable ?_ span hspan
      rintro token rfl
      have hd := hbehind.delivers hnext
      exact ⟨hd.stands, hd.offset_le⟩
    · cases hspan
  · rintro other following hsame
    rw [← hsource] at hsame
    constructor
    · rintro token rfl
      exact step_withSource hsame
    · rintro rfl
      exact endHeader_withSource hsame
  · intro header hphase
    rw [hphase] at hplace
    exact ⟨hheader header hphase, fun draft hdraft => hplace.1.fits hdraft⟩
  · intro list token _ hkind hends
    exact DeclaratorList.braces_pos hends hkind
  · refine ⟨by omega, by omega, ?_⟩
    intro n
    have hplace := (hbehind.advance n).place_le
    omega

/-- In every state that is reached the next step cuts out of the source only what is there, finds
all frames that it looks for, and counts neither below zero nor over 32 bits. The run ends in such
a state, and the frames keep their owners while they are closed at the end of the text. A word of a
detail is cut between two characters, at the last such place for which there is room. -/
theorem no_step_goes_wrong (source : String) (options : Options)
    (hsize : source.utf8ByteSize < Nat.pow 2 32) :
    (∀ cursor machine, Machine.Reached source options cursor machine →
      machine.Sound source cursor) ∧
    (∃ cursor machine stop, Machine.Reached source options cursor machine ∧
      cursor.next = (none, stop) ∧
      extract source options = (machine.finish stop.position).roots.toList ∧
      ∀ n, (Nat.repeat (Machine.pop stop.position) n machine.endHeader).Owned) ∧
    ∀ room word,
      slice (String.ofList word) 0 (byteLength (fit room word)) = String.ofList (fit room word) ∧
      Sliceable (String.ofList word) ⟨0, byteLength (fit room word)⟩ ∧
      byteLength (fit room word) ≤ room ∧
      ∀ offset, isBoundary (String.ofList word) offset = true → offset ≤ room →
        offset ≤ byteLength (fit room word) := by
  refine ⟨fun cursor machine h => h.sound hsize, ?_, ?_⟩
  · obtain ⟨last, hreaches, hnext⟩ :=
      Machine.Reached.reads (.start : Machine.Reached source options _ _)
        (Cursor.reads_scan source)
    obtain ⟨⟨front, hbehind⟩, -, hplace, -⟩ := hreaches.invariant
    refine ⟨last, _, _, hreaches, hnext, rfl, ?_⟩
    intro n
    obtain ⟨hstacked, -⟩ := Machine.inPlace_endHeader hplace
    exact Machine.owned_of_stacked (Machine.stacked_repeat_pop hstacked _ n)
  · intro room word
    obtain ⟨hslice, hboundary, hle, hlongest⟩ := fit_cuts_at_the_last_boundary room word
    refine ⟨hslice, sliceable_of_isBoundary (Nat.zero_le _) ?_ hboundary, hle, hlongest⟩
    exact isBoundary_iff.2 ⟨[], word, by simp, rfl⟩

/-- A handler with arguments, and a function in it of which the parameters do not end. -/
def cutOffText : String := "on key 'ä' \x7b int f(byte b, int c"

theorem the_end_of_a_cut_off_text :
    cutOffText.utf8ByteSize < Nat.pow 2 32 ∧
      ∃ cursor machine stop, Machine.Reached cutOffText {} cursor machine ∧
        cursor.next = (none, stop) ∧ machine.Sound cutOffText cursor := by
  have hsize : cutOffText.utf8ByteSize < Nat.pow 2 32 := by decide +kernel
  obtain ⟨hsound, ⟨cursor, machine, stop, hreaches, hnext, -⟩, -⟩ :=
    no_step_goes_wrong cutOffText {} hsize
  exact ⟨hsize, cursor, machine, stop, hreaches, hnext, hsound cursor machine hreaches⟩

end CaplOutline.Outline
