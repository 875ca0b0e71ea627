-- What the machine reads of its source besides the tokens: the pieces from which it makes the
-- details. A machine that had another source with the same pieces would take the same step.
import CaplOutline.Proofs.Outline.Run

namespace CaplOutline.Outline

open Text

/-- The pieces of the source that are cut out when a token comes after the header, or the end of
the text. -/
def Header.pieces (following : Option Token) : Header → List Span
  | .event header =>
    header.arguments.toList.map fun start => ⟨start, header.last.span.stop⟩
  | .declaration header =>
    header.name.toList.map fun name => ⟨header.first.span.start, name.span.start⟩
  | .parameters list =>
    ⟨list.first.span.start, list.last.span.stop⟩ ::
      following.toList.map fun token => ⟨list.first.span.start, token.span.stop⟩
  | .awaitBody _ _ | .declarators _ => []

/-- Two sources have the same text at these pieces. -/
def SameAt (source source' : String) (pieces : List Span) : Prop :=
  ∀ span ∈ pieces, slice source span.start span.stop = slice source' span.start span.stop

def Machine.pieces (following : Option Token) (machine : Machine) : List Span :=
  match machine.phase with
  | .inHeader header => header.pieces following
  | _ => []

/-- The machine with another source. -/
def Machine.withSource (source : String) (machine : Machine) : Machine := { machine with source }

def Step.withSource (source : String) : Step → Step
  | .consumed machine => .consumed (machine.withSource source)
  | .retry machine => .retry (machine.withSource source)

namespace Machine

variable {source : String} {machine : Machine} {token : Token} {step : Step}

/-! ## Operations that read nothing -/

theorem settle_withSource (machine : Machine) (source : String) :
    (machine.withSource source).settle = machine.settle.withSource source := rfl

theorem readHeader_withSource (machine : Machine) (source : String) (header : Header) :
    (machine.withSource source).readHeader header =
      (machine.readHeader header).withSource source := rfl

@[simp]
theorem attach_withSource (draft : Draft) (stop : Position) :
    (machine.withSource source).attach draft stop =
      (machine.attach draft stop).withSource source := by
  unfold attach withSource
  dsimp only
  split <;> rfl

theorem close_withSource (draft : Draft) (stop : Position) :
    (machine.withSource source).close draft stop =
      (machine.close draft stop).withSource source := by
  unfold close
  rw [attach_withSource]
  rfl

theorem pop_withSource (stop : Position) :
    (machine.withSource source).pop stop = (machine.pop stop).withSource source := by
  have hclose : ∀ draft, (machine.dropFrame.withSource source).close draft stop =
      (machine.dropFrame.close draft stop).withSource source := fun _ => close_withSource _ _
  rw [pop_eq, pop_eq, show (machine.withSource source).frames = machine.frames from rfl]
  split
  · rfl
  · split
    · rfl
    · exact hclose _

theorem report_withSource (list : DeclaratorList) (stop : Position) :
    (machine.withSource source).report list stop =
      (machine.report list stop).withSource source := by
  unfold report
  split
  · split
    · exact attach_withSource _ _
    · rfl
  · rfl

/-! ## One step -/

theorem draft_congr {header : EventHeader} {following : Option Token}
    (h : SameAt source machine.source ((Header.event header).pieces following)) :
    header.draft source = header.draft machine.source := by
  unfold EventHeader.draft
  cases harguments : header.arguments with
  | none => rfl
  | some start =>
    have hslice := h ⟨start, header.last.span.stop⟩ (by simp [Header.pieces, harguments])
    dsimp only [Option.map_some]
    rw [hslice]

theorem signed_congr {list : ParameterList} {stop : Nat} {pieces : List Span}
    (h : SameAt source machine.source pieces) (hmem : ⟨list.first.span.start, stop⟩ ∈ pieces) :
    list.signed source stop = list.signed machine.source stop := by
  unfold ParameterList.signed
  rw [h _ hmem]

theorem readDeclarators_withSource {header : DeclarationHeader} {following : Option Token}
    (h : SameAt source machine.source ((Header.declaration header).pieces following)) :
    (machine.withSource source).readDeclarators header =
      (machine.readDeclarators header).withSource source := by
  unfold readDeclarators
  cases hname : header.name with
  | none => rfl
  | some name =>
    have hslice := h ⟨header.first.span.start, name.span.start⟩ (by simp [Header.pieces, hname])
    dsimp only [Option.map_some]
    rw [show (machine.withSource source).source = source from rfl, hslice]
    rfl

theorem ScanRule.withSource {next : Machine} (hrule : machine.ScanRule token next)
    (source : String) : (machine.withSource source).ScanRule token (next.withSource source) := by
  cases hrule with
  | event hkind => exact .event hkind
  | block hkind => exact .block hkind
  | declaration hopens => exact .declaration hopens
  | opens hkind => exact .opens hkind
  | closes hkind =>
    rw [← pop_withSource]
    exact .closes hkind
  | passes hword hopen hclose => exact .passes hword hopen hclose

theorem EventRule.withSource {header : EventHeader} (hrule : machine.EventRule header token step)
    (h : SameAt source machine.source ((Header.event header).pieces (some token))) :
    (machine.withSource source).EventRule header token (step.withSource source) := by
  have hdraft := draft_congr h
  cases hrule with
  | body hkind =>
    rw [← hdraft]
    exact .body hkind
  | semicolon hkind =>
    rw [← hdraft, Step.withSource, ← close_withSource]
    exact .semicolon hkind
  | ends hopen hsemicolon hends =>
    rw [← hdraft, Step.withSource, ← close_withSource]
    exact .ends hopen hsemicolon hends
  | more hopen hsemicolon hclose hblock hline => exact .more hopen hsemicolon hclose hblock hline

theorem DeclarationRule.withSource {header : DeclarationHeader}
    (hrule : machine.DeclarationRule header token step)
    (h : SameAt source machine.source ((Header.declaration header).pieces (some token))) :
    (machine.withSource source).DeclarationRule header token (step.withSource source) := by
  cases hrule with
  | var hdeclarator hends =>
    rw [Step.withSource, ← readDeclarators_withSource h]
    exact .var hdeclarator hends
  | word hends hblock hword => exact .word hends hblock hword
  | connector hconnector => exact .connector hconnector
  | function hkind hwords => exact .function hkind hwords
  | aggregate hkind haggregate => exact .aggregate hkind haggregate
  | nothing hends hnothing => exact .nothing hends hnothing

theorem ParametersRule.withSource {list : ParameterList}
    (hrule : machine.ParametersRule list token step)
    (h : SameAt source machine.source ((Header.parameters list).pieces (some token))) :
    (machine.withSource source).ParametersRule list token (step.withSource source) := by
  cases hrule with
  | opens hkind => exact .opens hkind
  | ends hkind hparens =>
    rw [← signed_congr h (by simp [Header.pieces])]
    exact .ends hkind hparens
  | closes hkind hparens => exact .closes hkind hparens
  | cut hkind =>
    rw [← signed_congr h List.mem_cons_self]
    exact .cut hkind
  | takes hopen hclose hcut => exact .takes hopen hclose hcut

theorem BodyRule.withSource {draft : Draft} {last : Token}
    (hrule : machine.BodyRule draft last token step) (source : String) :
    (machine.withSource source).BodyRule draft last token (step.withSource source) := by
  cases hrule with
  | body hkind => exact .body hkind
  | semicolon hkind =>
    rw [Step.withSource, ← close_withSource]
    exact .semicolon hkind
  | ends hopen hsemicolon =>
    rw [Step.withSource, ← close_withSource]
    exact .ends hopen hsemicolon

theorem DeclaratorsRule.withSource {list : DeclaratorList}
    (hrule : machine.DeclaratorsRule list token step) (source : String) :
    (machine.withSource source).DeclaratorsRule list token (step.withSource source) := by
  cases hrule with
  | semicolon hkind =>
    rw [Step.withSource, ← settle_withSource, ← report_withSource]
    exact .semicolon hkind
  | ends hends =>
    rw [Step.withSource, ← settle_withSource, ← report_withSource]
    exact .ends hends
  | comma hkind htop =>
    rw [Step.withSource, ← readHeader_withSource, ← report_withSource]
    exact .comma hkind htop
  | name hends htop hcurrent hword => exact .name hends htop hcurrent hword
  | takes hsemicolon hends hcomma hname => exact .takes hsemicolon hends hcomma hname

theorem Rule.withSource (hrule : machine.Rule token step)
    (h : SameAt source machine.source (machine.pieces (some token))) :
    (machine.withSource source).Rule token (step.withSource source) := by
  unfold pieces at h
  cases hrule with
  | scan hphase hrule => exact .scan hphase (hrule.withSource source)
  | event hphase hrule =>
    rw [hphase] at h
    exact .event hphase (hrule.withSource h)
  | declaration hphase hrule =>
    rw [hphase] at h
    exact .declaration hphase (hrule.withSource h)
  | parameters hphase hrule =>
    rw [hphase] at h
    exact .parameters hphase (hrule.withSource h)
  | body hphase hrule => exact .body hphase (hrule.withSource source)
  | declarators hphase hrule => exact .declarators hphase (hrule.withSource source)

/-- A step reads no more of the source than the pieces. -/
theorem step_withSource {token : Token}
    (h : SameAt source machine.source (machine.pieces (some token))) :
    (machine.withSource source).step token = (machine.step token).withSource source :=
  step_eq_iff.2 ((machine.step_rule token).withSource h)

theorem EndRule.withSource {next : Machine} (hrule : machine.EndRule next)
    (h : SameAt source machine.source (machine.pieces none)) :
    (machine.withSource source).EndRule (next.withSource source) := by
  unfold pieces at h
  cases hrule with
  | outside hphase => exact .outside hphase
  | event hphase =>
    rw [hphase] at h
    rw [← attach_withSource, ← draft_congr h]
    exact .event hphase
  | word hphase hwords => exact .word hphase hwords
  | function hphase hwords hfunction =>
    rw [← attach_withSource]
    exact .function hphase hwords hfunction
  | var hphase hwords hfunction hreports =>
    rw [← attach_withSource]
    exact .var hphase hwords hfunction hreports
  | hidden hphase hwords hfunction hreports => exact .hidden hphase hwords hfunction hreports
  | parameters hphase =>
    rw [hphase] at h
    rw [← attach_withSource, ← signed_congr h List.mem_cons_self]
    exact .parameters hphase
  | body hphase =>
    rw [← attach_withSource]
    exact .body hphase
  | declarators hphase =>
    rw [← report_withSource]
    exact .declarators hphase

/-- Neither does the end of the text. -/
theorem endHeader_withSource (h : SameAt source machine.source (machine.pieces none)) :
    (machine.withSource source).endHeader = machine.endHeader.withSource source :=
  endHeader_eq_iff.2 (machine.end_rule.withSource h)

end Machine

end CaplOutline.Outline
