-- The ranges of an outline. A symbol lies inside the symbol that holds it, behind
-- the symbol before it, and around its own name. This is so for every text, since
-- a symbol never ends behind the token that is read, and never starts before the
-- end of what was closed already.
import Mathlib.Data.List.Chain
import CaplOutline.Proofs.Outline.Run

namespace CaplOutline

/-! ## Well-formed outlines -/

/-- A range that is not inverted lies inside another one. -/
def Range.Within (inner outer : Range) : Prop :=
  outer.start ≤ inner.start ∧ inner.start ≤ inner.stop ∧ inner.stop ≤ outer.stop

/-- Each symbol starts no earlier than the one before it ends. -/
def Outline.InOrder (symbols : List Symbol) : Prop :=
  symbols.IsChain fun first second => first.range.stop ≤ second.range.start

/-- A symbol with all that it holds. -/
inductive Symbol.WellFormed : Symbol → Prop
  | intro {symbol : Symbol} (name_ne : symbol.name ≠ "")
      (start_le_stop : symbol.range.start ≤ symbol.range.stop)
      (selection : symbol.selection.Within symbol.range)
      (within : ∀ child ∈ symbol.children, child.range.Within symbol.range)
      (in_order : Outline.InOrder symbol.children)
      (children : ∀ child ∈ symbol.children, child.WellFormed) : symbol.WellFormed

theorem Symbol.WellFormed.start_le_stop {symbol : Symbol} (h : symbol.WellFormed) :
    symbol.range.start ≤ symbol.range.stop := by
  cases h; assumption

structure Outline.WellFormed (outline : Outline) : Prop where
  symbols : ∀ symbol ∈ outline, symbol.WellFormed
  in_order : Outline.InOrder outline

namespace Outline

/-! ## Symbols between two positions -/

/-- Well-formed symbols that stand one behind another between two positions. -/
def Sits : Position → List Symbol → Position → Prop
  | low, [], high => low ≤ high
  | low, symbol :: symbols, high =>
    low ≤ symbol.range.start ∧ symbol.WellFormed ∧ Sits symbol.range.stop symbols high

theorem Sits.le {low high : Position} {symbols : List Symbol} (h : Sits low symbols high) :
    low ≤ high := by
  induction symbols generalizing low with
  | nil => exact h
  | cons symbol symbols ih =>
    obtain ⟨hlow, hsymbol, hrest⟩ := h
    exact le_trans hlow (le_trans hsymbol.start_le_stop (ih hrest))

theorem Sits.mono {low high high' : Position} {symbols : List Symbol} (h : Sits low symbols high)
    (hle : high ≤ high') : Sits low symbols high' := by
  induction symbols generalizing low with
  | nil => exact le_trans h hle
  | cons symbol symbols ih => exact ⟨h.1, h.2.1, ih h.2.2⟩

theorem Sits.concat {low : Position} {symbols : List Symbol} {symbol : Symbol}
    (h : Sits low symbols symbol.range.start) (hsymbol : symbol.WellFormed) :
    Sits low (symbols ++ [symbol]) symbol.range.stop := by
  induction symbols generalizing low with
  | nil => exact ⟨h, hsymbol, le_refl _⟩
  | cons first symbols ih => exact ⟨h.1, h.2.1, ih h.2.2⟩

theorem Sits.inOrder {low high : Position} {symbols : List Symbol} (h : Sits low symbols high) :
    InOrder symbols := by
  induction symbols generalizing low with
  | nil => exact List.IsChain.nil
  | cons symbol symbols ih =>
    cases symbols with
    | nil => exact List.IsChain.singleton _
    | cons second symbols => exact List.IsChain.cons_cons h.2.2.1 (ih h.2.2)

theorem Sits.of_mem {low high : Position} {symbols : List Symbol} (h : Sits low symbols high)
    {symbol : Symbol} (hmem : symbol ∈ symbols) :
    symbol.WellFormed ∧ symbol.range.Within ⟨low, high⟩ := by
  induction symbols generalizing low with
  | nil => cases hmem
  | cons first symbols ih =>
    obtain ⟨hlow, hfirst, hrest⟩ := h
    rcases List.mem_cons.1 hmem with rfl | hmem
    · exact ⟨hfirst, hlow, hfirst.start_le_stop, hrest.le⟩
    · obtain ⟨hsymbol, hstart, hstop⟩ := ih hrest hmem
      exact ⟨hsymbol, le_trans hlow (le_trans hfirst.start_le_stop hstart), hstop⟩

theorem Sits.wellFormed {low high : Position} {symbols : List Symbol} (h : Sits low symbols high) :
    WellFormed symbols :=
  ⟨fun _ hmem => (h.of_mem hmem).1, h.inOrder⟩

/-! ## Open symbols -/

/-- An open symbol has a name, and was selected inside itself before the position `stop`. -/
structure Draft.Fits (draft : Draft) (stop : Position) : Prop where
  name_ne : draft.name ≠ ""
  start_le : draft.start ≤ draft.selection.start
  selection_le : draft.selection.start ≤ draft.selection.stop
  stop_le : draft.selection.stop ≤ stop

theorem Draft.Fits.mono {draft : Draft} {stop stop' : Position} (h : draft.Fits stop)
    (hle : stop ≤ stop') : draft.Fits stop' :=
  ⟨h.name_ne, h.start_le, h.selection_le, le_trans h.stop_le hle⟩

theorem Draft.Fits.adopt {draft : Draft} {stop : Position} (h : draft.Fits stop)
    (child : Symbol) : (draft.adopt child).Fits stop :=
  ⟨h.name_ne, h.start_le, h.selection_le, h.stop_le⟩

theorem Draft.Fits.start_le_stop {draft : Draft} {stop : Position} (h : draft.Fits stop) :
    draft.start ≤ stop :=
  le_trans h.start_le (le_trans h.selection_le h.stop_le)

theorem Draft.Fits.wellFormed_finish {draft : Draft} {stop : Position} (h : draft.Fits stop)
    (hchildren : Sits draft.start draft.children.toList stop) (includeDetails : Bool) :
    (draft.finish includeDetails stop).WellFormed :=
  .intro h.name_ne h.start_le_stop ⟨h.start_le, h.selection_le, h.stop_le⟩
    (fun _ hmem => (hchildren.of_mem hmem).2) hchildren.inOrder
    (fun _ hmem => (hchildren.of_mem hmem).1)

/-- Each open symbol starts behind all that the symbol around it holds already, and nothing goes
further than `high`. -/
def Nested (roots : List Symbol) : List Draft → Position → Prop
  | [], high => Sits .origin roots high
  | draft :: drafts, high =>
    draft.Fits high ∧ Sits draft.start draft.children.toList high ∧
      Nested roots drafts draft.start

namespace Spine

def InPlace (spine : Spine) (high : Position) : Prop := Nested spine.roots spine.drafts high

theorem InPlace.mono {spine : Spine} {high high' : Position} (h : spine.InPlace high)
    (hle : high ≤ high') : spine.InPlace high' := by
  obtain ⟨roots, drafts⟩ := spine
  cases drafts with
  | nil => exact Sits.mono h hle
  | cons draft drafts => exact ⟨h.1.mono hle, h.2.1.mono hle, h.2.2⟩

theorem InPlace.attach {spine : Spine} (symbol : Symbol)
    (h : spine.InPlace symbol.range.start) (hsymbol : symbol.WellFormed) :
    (spine.attach symbol).InPlace symbol.range.stop := by
  obtain ⟨roots, drafts⟩ := spine
  cases drafts with
  | nil => exact Sits.concat h hsymbol
  | cons draft drafts =>
    refine ⟨(h.1.mono hsymbol.start_le_stop).adopt symbol, ?_, h.2.2⟩
    have hchildren := h.2.1.concat hsymbol
    simpa [Draft.adopt] using hchildren

theorem InPlace.pop {spine : Spine} {stop : Position} (h : spine.InPlace stop)
    (includeDetails : Bool) : (spine.pop includeDetails stop).InPlace stop := by
  obtain ⟨roots, drafts⟩ := spine
  cases drafts with
  | nil => exact h
  | cons draft drafts =>
    obtain ⟨hfits, hchildren, hrest⟩ := h
    exact InPlace.attach (draft.finish includeDetails stop) hrest
      (hfits.wellFormed_finish hchildren _)

/-- A symbol whose header is being read: it starts behind all that is closed, and its header goes
up to `stop`. -/
structure Awaits (spine : Spine) (draft : Draft) (stop : Position) : Prop where
  in_place : spine.InPlace draft.start
  fits : draft.Fits stop
  children : draft.children = #[]

theorem Awaits.mono {spine : Spine} {draft : Draft} {stop stop' : Position}
    (h : spine.Awaits draft stop) (hle : stop ≤ stop') : spine.Awaits draft stop' :=
  ⟨h.in_place, h.fits.mono hle, h.children⟩

theorem Awaits.inPlace {spine : Spine} {draft : Draft} {stop : Position}
    (h : spine.Awaits draft stop) : spine.InPlace stop :=
  h.in_place.mono h.fits.start_le_stop

/-- The detail and the kind of a symbol do not matter for its place. -/
theorem Awaits.retag {spine : Spine} {draft : Draft} {stop : Position}
    (h : spine.Awaits draft stop) (detail : Option String) (kind : SymbolKind) :
    spine.Awaits { draft with detail, kind } stop :=
  ⟨h.in_place, ⟨h.fits.name_ne, h.fits.start_le, h.fits.selection_le, h.fits.stop_le⟩, h.children⟩

theorem Awaits.attach {spine : Spine} {draft : Draft} {stop : Position}
    (h : spine.Awaits draft stop) (includeDetails : Bool) :
    (spine.attach (draft.finish includeDetails stop)).InPlace stop := by
  refine InPlace.attach (draft.finish includeDetails stop) h.in_place ?_
  refine h.fits.wellFormed_finish ?_ _
  rw [h.children]
  exact h.fits.start_le_stop

theorem Awaits.push {spine : Spine} {draft : Draft} {stop : Position}
    (h : spine.Awaits draft stop) : (spine.push draft).InPlace stop := by
  unfold Spine.push
  split
  · refine ⟨h.fits, ?_, h.in_place⟩
    rw [h.children]
    exact h.fits.start_le_stop
  · exact h.inPlace

/-- The first token of a header. -/
theorem awaits_first {spine : Spine} {first : Token} (kind : SymbolKind)
    (h : spine.InPlace first.range.start) (hle : first.range.start ≤ first.range.stop) :
    spine.Awaits (.ofTokens kind first none) first.range.stop :=
  ⟨h, ⟨by simp [Draft.ofTokens, unnamed], le_refl _, hle, le_refl _⟩, rfl⟩

/-- A token that is all of a header, and its name. -/
theorem awaits_self {spine : Spine} {token : Token} (kind : SymbolKind)
    (h : spine.InPlace token.range.start) (hle : token.range.start ≤ token.range.stop)
    (hne : token.text ≠ "") :
    spine.Awaits (.ofTokens kind token (some token)) token.range.stop :=
  ⟨h, ⟨hne, le_refl _, hle, le_refl _⟩, rfl⟩

/-- A token that gives the header a new name. -/
theorem Awaits.rename {spine : Spine} {kind kind' : SymbolKind} {first token : Token}
    {name : Option Token} {stop : Position} (h : spine.Awaits (.ofTokens kind first name) stop)
    (hstop : stop ≤ token.range.start) (hle : token.range.start ≤ token.range.stop)
    (hne : token.text ≠ "") :
    spine.Awaits (.ofTokens kind' first (some token)) token.range.stop :=
  ⟨h.in_place, ⟨hne, le_trans h.fits.start_le_stop hstop, hle, le_refl _⟩, rfl⟩

end Spine

/-! ## Headers -/

def Header.last : Header → Token
  | .event header => header.last
  | .declaration header => header.last
  | .parameters list => list.last
  | .awaitBody _ last => last
  | .declarators list => list.last

/-- The symbol that a header is about, if there is one, starts behind all that is closed. -/
def Header.InPlace (spine : Spine) : Header → Prop
  | .event header => spine.Awaits (.ofTokens .event header.first header.name) header.last.range.stop
  | .declaration header =>
    spine.Awaits (.ofTokens .var header.first header.name) header.last.range.stop
  | .parameters list => spine.Awaits list.draft list.last.range.stop
  | .awaitBody draft last => spine.Awaits draft last.range.stop
  | .declarators list =>
    match list.current with
    | some draft => spine.Awaits draft list.last.range.stop
    | none => spine.InPlace list.last.range.stop

theorem Header.InPlace.spine {spine : Spine} {header : Header} (h : header.InPlace spine) :
    spine.InPlace header.last.range.stop := by
  cases header with
  | declarators list =>
    unfold Header.InPlace at h
    dsimp only at h
    split at h
    · exact h.inPlace
    · exact h
  | _ => exact Spine.Awaits.inPlace h

namespace Machine

/-- Nothing that the machine holds goes further than `stop`. -/
def InPlace (stop : Position) (machine : Machine) : Prop :=
  Stacked machine.frames ∧
    match machine.phase with
    | .inHeader header => header.InPlace machine.spine ∧ header.last.range.stop ≤ stop
    | _ => machine.spine.InPlace stop

variable {machine : Machine} {token : Token} {stop : Position} {step : Step}

theorem InPlace.mono {stop' : Position} (h : machine.InPlace stop) (hle : stop ≤ stop') :
    machine.InPlace stop' := by
  obtain ⟨hstacked, h⟩ := h
  refine ⟨hstacked, ?_⟩
  split at h
  · exact ⟨h.1, le_trans h.2 hle⟩
  · exact h.mono hle

theorem InPlace.header {header : Header} (h : machine.InPlace stop)
    (hphase : machine.phase = .inHeader header) :
    header.InPlace machine.spine ∧ header.last.range.stop ≤ stop := by
  obtain ⟨-, h⟩ := h
  rwa [hphase] at h

theorem InPlace.spine_of_no_header (h : machine.InPlace stop)
    (hphase : ∀ header, machine.phase ≠ .inHeader header) : machine.spine.InPlace stop := by
  obtain ⟨-, h⟩ := h
  split at h
  · exact absurd ‹_› (hphase _)
  · exact h

theorem inPlace_settle (hstacked : Stacked machine.frames) (h : machine.spine.InPlace stop) :
    machine.settle.InPlace stop := by
  refine ⟨hstacked, ?_⟩
  unfold settle
  dsimp only
  by_cases he : machine.stack.isEmpty
  · simp only [he, if_true]; exact h
  · simp only [he, if_false, Bool.false_eq_true]; exact h

theorem inPlace_close (hstacked : Stacked machine.frames) {draft : Draft}
    (h : machine.spine.Awaits draft stop) : (machine.close draft stop).InPlace stop := by
  refine inPlace_settle (stacked_attach hstacked _ _) ?_
  rw [spine_attach hstacked]
  exact h.attach _

theorem inPlace_push (hstacked : Stacked machine.frames) {draft : Draft} (scope : Scope)
    (h : machine.spine.Awaits draft stop) : (machine.push (some draft) scope).InPlace stop := by
  refine ⟨stacked_push hstacked _ _, ?_⟩
  change (machine.push (some draft) scope).spine.InPlace stop
  rw [spine_push_some hstacked]
  exact h.push

theorem inPlace_pop (hstacked : Stacked machine.frames) (h : machine.spine.InPlace stop) :
    (machine.pop stop).InPlace stop := by
  have hspine : (machine.pop stop).spine.InPlace stop := by
    rcases spine_pop hstacked stop with he | he
    · rw [he]; exact h
    · rw [he]; exact h.pop _
  have hpop := inPlace_settle (stacked_pop hstacked stop) hspine
  rwa [settle_pop] at hpop

/-- The variable that a list of declarators is at is reported up to any place behind it. -/
theorem inPlace_report {list : DeclaratorList} (hstacked : Stacked machine.frames)
    (h : (Header.declarators list).InPlace machine.spine) (hle : list.last.range.stop ≤ stop) :
    Stacked (machine.report list stop).frames ∧ (machine.report list stop).spine.InPlace stop := by
  have hspine := Spine.InPlace.mono (Header.InPlace.spine h) hle
  unfold Header.InPlace at h
  unfold report
  dsimp only at h
  cases hcurrent : list.current with
  | none => exact ⟨hstacked, hspine⟩
  | some draft =>
    rw [hcurrent] at h
    dsimp only
    split
    · refine ⟨stacked_attach hstacked _ _, ?_⟩
      rw [spine_attach hstacked]
      exact ((h.mono hle).retag _ _).attach _
    · exact ⟨hstacked, hspine⟩

/-! ## One step -/

section Step

variable {cursor cursor' : Cursor} (hy : cursor.Yields token cursor')

include hy

theorem ScanRule.inPlace {next : Machine} (hrule : machine.ScanRule token next)
    (hstacked : Stacked machine.frames) (h : machine.spine.InPlace cursor.position) :
    next.InPlace token.range.stop := by
  have hstart : machine.spine.InPlace token.range.start := h.mono hy.start_ge
  have hstop : machine.spine.InPlace token.range.stop := hstart.mono hy.start_le_stop
  cases hrule with
  | event => exact ⟨hstacked, Spine.awaits_first .event hstart hy.start_le_stop, le_refl _⟩
  | block =>
    exact ⟨hstacked, Spine.awaits_self .container hstart hy.start_le_stop hy.text_ne, le_refl _⟩
  | declaration => exact ⟨hstacked, Spine.awaits_first .var hstart hy.start_le_stop, le_refl _⟩
  | opens =>
    refine ⟨stacked_push hstacked _ _, ?_⟩
    change (machine.push none _).spine.InPlace _
    rw [spine_push_none hstacked]
    exact hstop
  | closes => exact inPlace_pop hstacked hstop
  | passes => exact inPlace_settle hstacked hstop

theorem EventRule.inPlace {header : EventHeader} (hrule : machine.EventRule header token step)
    (hstacked : Stacked machine.frames) (h : (Header.event header).InPlace machine.spine)
    (hlast : header.last.range.stop ≤ cursor.position) :
    step.Ends (InPlace cursor.position) (InPlace token.range.stop) := by
  have hdraft : machine.spine.Awaits (header.draft machine.source) header.last.range.stop :=
    h.retag _ _
  have hstart := le_trans hlast hy.start_ge
  have hstop := le_trans hstart hy.start_le_stop
  cases hrule with
  | body => exact inPlace_push hstacked _ (hdraft.mono hstop)
  | semicolon => exact inPlace_close hstacked (hdraft.mono hstop)
  | ends => exact (inPlace_close hstacked hdraft).mono hlast
  | more =>
    unfold EventHeader.add
    split
    · exact ⟨hstacked, h.rename hstart hy.start_le_stop hy.text_ne, le_refl _⟩
    · exact ⟨hstacked, h.mono hstop, le_refl _⟩

theorem DeclarationRule.inPlace {header : DeclarationHeader}
    (hrule : machine.DeclarationRule header token step) (hstacked : Stacked machine.frames)
    (h : (Header.declaration header).InPlace machine.spine)
    (hlast : header.last.range.stop ≤ cursor.position) :
    step.Ends (InPlace cursor.position) (InPlace token.range.stop) := by
  have hstart := le_trans hlast hy.start_ge
  have hstop := le_trans hstart hy.start_le_stop
  cases hrule with
  | var => exact ⟨hstacked, h, hlast⟩
  | word => exact ⟨hstacked, h.rename hstart hy.start_le_stop hy.text_ne, le_refl _⟩
  | connector => exact ⟨hstacked, h.mono hstop, le_refl _⟩
  | function => exact ⟨hstacked, (h.mono hstop).retag _ _, le_refl _⟩
  | aggregate => exact inPlace_push hstacked _ ((h.mono hstop).retag _ _)
  | nothing => exact inPlace_settle hstacked (Spine.InPlace.mono (Header.InPlace.spine h) hlast)

theorem ParametersRule.inPlace {list : ParameterList}
    (hrule : machine.ParametersRule list token step) (hstacked : Stacked machine.frames)
    (h : (Header.parameters list).InPlace machine.spine)
    (hlast : list.last.range.stop ≤ cursor.position) :
    step.Ends (InPlace cursor.position) (InPlace token.range.stop) := by
  have hstop := le_trans (le_trans hlast hy.start_ge) hy.start_le_stop
  have hread : machine.spine.Awaits list.draft token.range.stop := h.mono hstop
  cases hrule with
  | opens => exact ⟨hstacked, hread, le_refl _⟩
  | ends => exact ⟨hstacked, hread.retag _ _, le_refl _⟩
  | closes => exact ⟨hstacked, hread, le_refl _⟩
  | cut => exact ⟨hstacked, h.retag _ _, hlast⟩
  | takes => exact ⟨hstacked, hread, le_refl _⟩

theorem BodyRule.inPlace {draft : Draft} {last : Token}
    (hrule : machine.BodyRule draft last token step) (hstacked : Stacked machine.frames)
    (h : (Header.awaitBody draft last).InPlace machine.spine)
    (hlast : last.range.stop ≤ cursor.position) :
    step.Ends (InPlace cursor.position) (InPlace token.range.stop) := by
  have hstop := le_trans (le_trans hlast hy.start_ge) hy.start_le_stop
  cases hrule with
  | body => exact inPlace_push hstacked _ (h.mono hstop)
  | semicolon => exact inPlace_close hstacked (h.mono hstop)
  | ends => exact (inPlace_close hstacked h).mono hlast

theorem DeclaratorsRule.inPlace {list : DeclaratorList}
    (hrule : machine.DeclaratorsRule list token step) (hstacked : Stacked machine.frames)
    (h : (Header.declarators list).InPlace machine.spine)
    (hlast : list.last.range.stop ≤ cursor.position) :
    step.Ends (InPlace cursor.position) (InPlace token.range.stop) := by
  have hstart := le_trans hlast hy.start_ge
  have hstop := le_trans hstart hy.start_le_stop
  cases hrule with
  | semicolon =>
    obtain ⟨hstacked', h'⟩ := inPlace_report hstacked h hstop
    exact inPlace_settle hstacked' h'
  | ends =>
    obtain ⟨hstacked', h'⟩ := inPlace_report hstacked h (le_refl _)
    exact (inPlace_settle hstacked' h').mono hlast
  | comma =>
    obtain ⟨hstacked', h'⟩ := inPlace_report hstacked h (le_refl _)
    exact ⟨hstacked', h'.mono hstop, le_refl _⟩
  | name =>
    refine ⟨hstacked, ?_, le_refl _⟩
    have hspine := Spine.InPlace.mono (Header.InPlace.spine h) hstart
    exact Spine.awaits_self .var hspine hy.start_le_stop hy.text_ne
  | takes =>
    refine ⟨hstacked, ?_, le_refl _⟩
    unfold Header.InPlace DeclaratorList.add at *
    dsimp only at h ⊢
    cases hcurrent : list.current with
    | none =>
      rw [hcurrent] at h
      exact Spine.InPlace.mono h hstop
    | some draft =>
      rw [hcurrent] at h
      exact Spine.Awaits.mono h hstop

theorem Rule.inPlace (hrule : machine.Rule token step) (h : machine.InPlace cursor.position) :
    step.Ends (InPlace cursor.position) (InPlace token.range.stop) := by
  obtain ⟨hstacked, -⟩ := id h
  cases hrule with
  | scan hphase hrule => exact hrule.inPlace hy hstacked (h.spine_of_no_header hphase)
  | event hphase hrule => exact hrule.inPlace hy hstacked (h.header hphase).1 (h.header hphase).2
  | declaration hphase hrule =>
    exact hrule.inPlace hy hstacked (h.header hphase).1 (h.header hphase).2
  | parameters hphase hrule =>
    exact hrule.inPlace hy hstacked (h.header hphase).1 (h.header hphase).2
  | body hphase hrule => exact hrule.inPlace hy hstacked (h.header hphase).1 (h.header hphase).2
  | declarators hphase hrule =>
    exact hrule.inPlace hy hstacked (h.header hphase).1 (h.header hphase).2

theorem inPlace_step (h : machine.InPlace cursor.position) :
    (machine.step token).Ends (InPlace cursor.position) (InPlace token.range.stop) :=
  (machine.step_rule token).inPlace hy h

end Step

/-! ## The whole text -/

theorem inPlace_start (source : String) (options : Options) :
    (start source options).InPlace .origin :=
  ⟨trivial, le_refl _⟩

theorem EndRule.inPlace {next : Machine} (hrule : machine.EndRule next)
    (h : machine.InPlace stop) : Stacked next.frames ∧ next.spine.InPlace stop := by
  obtain ⟨hstacked, -⟩ := id h
  have hattach : ∀ {draft : Draft} {last : Position}, machine.spine.Awaits draft last →
      last ≤ stop → Stacked (machine.leave.attach draft last).frames ∧
        (machine.leave.attach draft last).spine.InPlace stop := by
    intro draft last hdraft hle
    have hleave : Stacked machine.leave.frames := hstacked
    refine ⟨stacked_attach hleave _ _, ?_⟩
    rw [spine_attach hleave]
    exact (hdraft.attach _).mono hle
  cases hrule with
  | outside hphase => exact ⟨hstacked, h.spine_of_no_header hphase⟩
  | event hphase =>
    obtain ⟨hplace, hlast⟩ := h.header hphase
    exact hattach (hplace.retag _ _) hlast
  | word hphase | hidden hphase =>
    obtain ⟨hplace, hlast⟩ := h.header hphase
    exact ⟨hstacked, Spine.InPlace.mono (Header.InPlace.spine hplace) hlast⟩
  | function hphase =>
    obtain ⟨hplace, hlast⟩ := h.header hphase
    exact hattach (hplace.retag _ _) hlast
  | var hphase =>
    obtain ⟨hplace, hlast⟩ := h.header hphase
    exact hattach hplace hlast
  | parameters hphase =>
    obtain ⟨hplace, hlast⟩ := h.header hphase
    exact hattach (hplace.retag _ _) hlast
  | body hphase =>
    obtain ⟨hplace, hlast⟩ := h.header hphase
    exact hattach hplace hlast
  | declarators hphase =>
    obtain ⟨hplace, hlast⟩ := h.header hphase
    have hleave : Stacked machine.leave.frames := hstacked
    obtain ⟨hstacked', hplace'⟩ := inPlace_report hleave hplace (le_refl _)
    exact ⟨hstacked', hplace'.mono hlast⟩

theorem inPlace_endHeader (h : machine.InPlace stop) :
    Stacked machine.endHeader.frames ∧ machine.endHeader.spine.InPlace stop :=
  machine.end_rule.inPlace h

end Machine

/-! ## The laws -/

/-- The outline of every text is well formed, whatever the text is like. -/
theorem every_outline_is_well_formed (source : String) (options : Options) :
    (extract source options).WellFormed := by
  obtain ⟨last, hle, -, hrun⟩ := Machine.run_invariant source options
    (P := fun _ cursor machine => machine.InPlace cursor.position)
    (fun _ cursor token cursor' machine hy h => by
      rw [hy.position_eq]
      exact Machine.feed_ends (fun _ => Machine.inPlace_step hy) h)
    (Machine.inPlace_start source options)
  obtain ⟨hstacked, hplace⟩ := Machine.inPlace_endHeader (hrun.mono hle)
  have hroots := Machine.finish_invariant _ (P := fun spine => spine.InPlace _)
    (fun _ h => h.pop _) hstacked hplace
  exact Sits.wellFormed hroots

end Outline

end CaplOutline
