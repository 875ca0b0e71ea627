-- A machine that hides the variables that are declared in code, beside one that reports
-- all of them. Both read the same tokens. They stay in step, since a variable holds
-- nothing and no step looks for one. What the one has found is what the other has found,
-- without these variables.
import CaplOutline.Proofs.Outline.Citing
import CaplOutline.Proofs.Outline.Moves
import CaplOutline.Proofs.Outline.Pruning
import CaplOutline.Proofs.Outline.Scopes

namespace CaplOutline.Outline

variable {lost : Option SymbolKind → Symbol → Bool}

/-! ## The two machines -/

/-- A symbol that is a variable holds nothing. -/
def VarIsLeaf (symbol : Symbol) : Prop := symbol.kind = .var → symbol.children = []

/-- The second machine hides the variables that are declared in code. What it has found is what the
first one has found, without what is lost. -/
structure Prunes (lost : Option SymbolKind → Symbol → Bool) (machine machine' : Machine) :
    Prop where
  source_eq : machine'.source = machine.source
  details_eq : machine'.options.includeDetails = machine.options.includeDetails
  shows : machine.options.includeLocals = true
  hides : machine'.options.includeLocals = false
  frames_eq : machine'.frames = machine.frames.map (Frame.prune lost)
  roots_eq : machine'.roots.toList = prune lost none machine.roots.toList
  leaves : machine.spine.All VarIsLeaf (fun mark => mark.kind ≠ .var)

/-- The same declarators, that are reported or not. -/
def DeclaratorList.withEmit (emit : Bool) (list : DeclaratorList) : DeclaratorList :=
  { list with emit }

def Phase.withEmit (emit : Bool) : Phase → Phase
  | .inHeader (.declarators list) => .inHeader (.declarators (list.withEmit emit))
  | phase => phase

/-- Both machines are at the same place of the same header. -/
structure Hides (lost : Option SymbolKind → Symbol → Bool) (machine machine' : Machine) : Prop
    extends Prunes lost machine machine' where
  phase_eq : machine'.phase = machine.phase.withEmit (machine.scope != .code)
  emits : machine.phase.withEmit true = machine.phase

/-- Only variables are lost. -/
def LosesVars (lost : Option SymbolKind → Symbol → Bool) : Prop :=
  ∀ parent symbol, lost parent symbol = true → symbol.kind = .var

namespace Machine

variable {machine machine' : Machine} {token : Token}

theorem roots_attach (h : Stacked machine.frames) (draft : Draft) (stop : Position) :
    (machine.attach draft stop).roots.toList =
      match parentKind machine.frames with
      | none => machine.roots.toList ++ [draft.finish machine.options.includeDetails stop]
      | some _ => machine.roots.toList := by
  have hroots := congrArg Spine.roots (spine_attach h draft stop)
  refine hroots.trans ?_
  unfold Spine.attach spine parentKind
  dsimp only
  cases drafts machine.frames <;> rfl

end Machine

namespace Prunes

variable {machine machine' : Machine}

theorem stacked (h : Prunes lost machine machine') (hstacked : Stacked machine.frames) :
    Stacked machine'.frames := by
  rw [h.frames_eq]
  exact hstacked.map_prune

theorem parentKind_eq (h : Prunes lost machine machine') :
    parentKind machine'.frames = parentKind machine.frames := by
  unfold parentKind
  rw [h.frames_eq, drafts_map_prune, List.head?_map, Option.map_map]
  rfl

theorem scope_eq (h : Prunes lost machine machine') : machine'.scope = machine.scope := by
  rw [Machine.scope_eq_scopeOf, Machine.scope_eq_scopeOf, h.frames_eq]
  unfold scopeOf
  rw [List.head?_map, Option.map_map]
  rfl

theorem size_eq (h : Prunes lost machine machine') :
    machine'.stack.size = machine.stack.size := by
  have hlength := congrArg List.length h.frames_eq
  simpa [Machine.frames] using hlength

/-- A symbol that is not lost is found by both machines. -/
theorem attach_kept (h : Prunes lost machine machine') (hstacked : Stacked machine.frames)
    {draft : Draft} {stop : Position}
    (hkept : lost (parentKind machine.frames)
      (draft.finish machine.options.includeDetails stop) = false)
    (hleaf : Everywhere VarIsLeaf (draft.finish machine.options.includeDetails stop)) :
    Prunes lost (machine.attach draft stop) (machine'.attach (draft.prune lost) stop) := by
  have hfinish : (draft.prune lost).finish machine'.options.includeDetails stop =
      (draft.finish machine.options.includeDetails stop).prune lost := by
    rw [h.details_eq, Draft.finish_prune]
  refine ⟨?_, ?_, ?_, ?_, ?_, ?_, ?_⟩
  · rw [Machine.source_attach, Machine.source_attach, h.source_eq]
  · rw [Machine.options_attach, Machine.options_attach, h.details_eq]
  · rw [Machine.options_attach, h.shows]
  · rw [Machine.options_attach, h.hides]
  · rw [Machine.frames_attach (h.stacked hstacked), Machine.frames_attach hstacked, hfinish,
      h.frames_eq, map_prune_hangOn_of_kept hkept]
  · rw [Machine.roots_attach (h.stacked hstacked), Machine.roots_attach hstacked, hfinish,
      h.parentKind_eq, h.roots_eq]
    split
    · rename_i hparent
      rw [hparent] at hkept
      rw [prune_concat_of_kept hkept]
    · rfl
  · rw [Machine.spine_attach hstacked]
    exact h.leaves.attach hleaf

/-- A symbol that is lost is found by the first machine alone. -/
theorem attach_lost (h : Prunes lost machine machine') (hstacked : Stacked machine.frames)
    {draft : Draft} {stop : Position}
    (hlost : lost (parentKind machine.frames)
      (draft.finish machine.options.includeDetails stop) = true)
    (hleaf : Everywhere VarIsLeaf (draft.finish machine.options.includeDetails stop)) :
    Prunes lost (machine.attach draft stop) machine' := by
  refine ⟨?_, ?_, ?_, h.hides, ?_, ?_, ?_⟩
  · rw [Machine.source_attach, h.source_eq]
  · rw [Machine.options_attach, h.details_eq]
  · rw [Machine.options_attach, h.shows]
  · rw [Machine.frames_attach hstacked, h.frames_eq, map_prune_hangOn_of_lost hlost]
  · rw [Machine.roots_attach hstacked, h.roots_eq]
    split
    · rename_i hparent
      rw [hparent] at hlost
      rw [prune_concat_of_lost hlost]
    · rfl
  · rw [Machine.spine_attach hstacked]
    exact h.leaves.attach hleaf

/-- A symbol that is no variable is found by both machines. -/
theorem attach (h : Prunes lost machine machine') (hstacked : Stacked machine.frames)
    (hvars : LosesVars lost) {draft : Draft} {kinds : List SymbolKind} (hfresh : draft.Fresh kinds)
    (hkinds : .var ∉ kinds) (stop : Position) :
    Prunes lost (machine.attach draft stop) (machine'.attach draft stop) := by
  have hkept : lost (parentKind machine.frames)
      (draft.finish machine.options.includeDetails stop) = false := by
    rw [Bool.eq_false_iff]
    intro hlost
    have hkind : draft.kind = .var := hvars _ _ hlost
    exact hkinds (hkind ▸ hfresh.2)
  have hchildren := Draft.children_finish hfresh.1 machine.options.includeDetails stop
  have hattach :=
    h.attach_kept hstacked hkept (.intro (fun _ => hchildren) (by simp [hchildren]))
  rwa [Draft.prune_of_fresh hfresh.1] at hattach

/-- A variable is found by the second machine unless it is declared in code. -/
theorem attach_var (h : Prunes lost machine machine') (hstacked : Stacked machine.frames)
    {draft : Draft} (hfresh : draft.Fresh [.var]) {stop : Position}
    (hlost : lost (parentKind machine.frames)
      (draft.finish machine.options.includeDetails stop) = (machine.scope == .code)) :
    Prunes lost (machine.attach draft stop)
      (if (machine.scope != .code) = true then machine'.attach draft stop else machine') := by
  have hchildren := Draft.children_finish hfresh.1 machine.options.includeDetails stop
  have hleaf : Everywhere VarIsLeaf (draft.finish machine.options.includeDetails stop) :=
    .intro (fun _ => hchildren) (by simp [hchildren])
  by_cases hcode : machine.scope = .code
  · rw [if_neg (by simp [hcode])]
    exact h.attach_lost hstacked (by simp [hlost, hcode]) hleaf
  · rw [if_pos (by simp [hcode])]
    have hattach := h.attach_kept hstacked (by simp [hlost, hcode]) hleaf
    rwa [Draft.prune_of_fresh hfresh.1] at hattach

theorem settle (h : Prunes lost machine machine') :
    Hides lost machine.settle machine'.settle := by
  have hphase : machine'.settle.phase = machine.settle.phase := by
    unfold Machine.settle
    dsimp only
    rw [Array.isEmpty, Array.isEmpty, h.size_eq]
  have hnone : ∀ emit, machine.settle.phase.withEmit emit = machine.settle.phase := by
    intro emit
    unfold Machine.settle
    dsimp only
    split <;> rfl
  refine { h with phase_eq := ?_, emits := hnone true }
  rw [hphase, hnone]

/-- Both machines go on to read a header that is not about variables. -/
theorem readHeader (h : Prunes lost machine machine') {header : Header}
    (hheader : ∀ emit, (Phase.inHeader header).withEmit emit = .inHeader header) :
    Hides lost (machine.readHeader header) (machine'.readHeader header) :=
  { h with phase_eq := (hheader _).symm, emits := hheader true }

/-- Both machines go on to read declarators, of which the second one hides those in code. -/
theorem readList (h : Prunes lost machine machine') {list : DeclaratorList}
    (hemit : list.emit = true) :
    Hides lost (machine.readHeader (.declarators list))
      (machine'.readHeader (.declarators (list.withEmit (machine.scope != .code)))) := by
  refine { h with phase_eq := rfl, emits := ?_ }
  change Phase.inHeader (.declarators { list with emit := true }) = .inHeader (.declarators list)
  rw [← hemit]

theorem push (h : Prunes lost machine machine') (hstacked : Stacked machine.frames)
    {symbol : Option Draft} (hsymbol : ∀ draft ∈ symbol, draft.children = #[] ∧ draft.kind ≠ .var)
    (scope : Scope) : Hides lost (machine.push symbol scope) (machine'.push symbol scope) := by
  have hscopes := Machine.scopes_push machine symbol scope
  have hscopes' := Machine.scopes_push machine' symbol scope
  obtain ⟨frame, hframes, hkept, hframe⟩ := Machine.frames_push hstacked symbol scope
  obtain ⟨frame', hframes', hkept', hframe'⟩ :=
    Machine.frames_push (h.stacked hstacked) symbol scope
  unfold Machine.scopes at hscopes hscopes'
  rw [hframes, List.map_cons] at hscopes
  rw [hframes', List.map_cons] at hscopes'
  rw [h.frames_eq] at hframe'
  rw [h.frames_eq, drafts_map_prune, List.length_map] at hkept'
  have hpruned : frame' = frame.prune lost := by
    refine hframe'.frame_eq hframe.map_prune ?_ ?_
    · change frame'.symbol = frame.symbol.map (Draft.prune lost)
      rw [hkept, hkept']
      split
      · cases symbol with
        | none => rfl
        | some draft =>
          rw [Option.map_some, Draft.prune_of_fresh (hsymbol draft rfl).1]
      · rfl
    · exact (List.cons.inj hscopes').1.trans (List.cons.inj hscopes).1.symm
  refine ⟨⟨h.source_eq, h.details_eq, h.shows, h.hides, ?_, h.roots_eq, ?_⟩, rfl, rfl⟩
  · rw [hframes, hframes', hpruned, h.frames_eq]
    rfl
  · cases symbol with
    | none =>
      rw [Machine.spine_push_none hstacked]
      exact h.leaves
    | some draft =>
      rw [Machine.spine_push_some hstacked]
      exact h.leaves.push (hsymbol draft rfl).1 (hsymbol draft rfl).2

theorem dropFrame (h : Prunes lost machine machine') :
    Prunes lost machine.dropFrame machine'.dropFrame := by
  refine ⟨h.source_eq, h.details_eq, h.shows, h.hides, ?_, h.roots_eq, h.leaves.roots, ?_⟩
  · rw [Machine.frames_dropFrame, Machine.frames_dropFrame, h.frames_eq, List.map_tail]
  · intro draft hmem
    have hsub : draft ∈ drafts machine.frames := by
      change draft ∈ drafts machine.dropFrame.frames at hmem
      rw [Machine.frames_dropFrame] at hmem
      exact ((List.tail_sublist _).filterMap _).subset hmem
    exact h.leaves.drafts draft hsub

theorem pop (h : Prunes lost machine machine') (hstacked : Stacked machine.frames)
    (hvars : LosesVars lost) (stop : Position) :
    Hides lost (machine.pop stop) (machine'.pop stop) := by
  rw [Machine.pop_eq, Machine.pop_eq, h.frames_eq]
  cases hframes : machine.frames with
  | nil => exact h.settle
  | cons frame frames =>
    rw [List.map_cons]
    dsimp only
    cases hsymbol : frame.symbol with
    | none =>
      rw [show (Frame.prune lost frame).symbol = none by simp [Frame.prune, hsymbol]]
      exact h.dropFrame.settle
    | some draft =>
      rw [show (Frame.prune lost frame).symbol = some (draft.prune lost) by
        simp [Frame.prune, hsymbol]]
      have hmem : draft ∈ machine.spine.drafts := by
        change draft ∈ drafts machine.frames
        simp [hframes, drafts, hsymbol]
      obtain ⟨hkind, hchildren⟩ := h.leaves.drafts draft hmem
      have hrest : Stacked machine.dropFrame.frames := by
        rw [Machine.frames_dropFrame]
        exact Machine.stacked_tail hstacked
      refine (h.dropFrame.attach_kept hrest ?_ (.intro ?_ hchildren)).settle
      · rw [Bool.eq_false_iff]
        exact fun hlost => hkind (hvars _ _ hlost)
      · exact fun hvar => absurd hvar hkind

theorem close (h : Prunes lost machine machine') (hstacked : Stacked machine.frames)
    (hvars : LosesVars lost) {draft : Draft} {kinds : List SymbolKind} (hfresh : draft.Fresh kinds)
    (hkinds : .var ∉ kinds) (stop : Position) :
    Hides lost (machine.close draft stop) (machine'.close draft stop) :=
  (h.attach hstacked hvars hfresh hkinds stop).settle

end Prunes

/-! ## One step -/

/-- Of all variables that start with the header, those are lost that are declared in code. -/
def Machine.Judged (lost : Option SymbolKind → Symbol → Bool) (machine : Machine) : Prop :=
  ∀ symbol : Symbol, symbol.kind = .var → machine.phase.varStart = some symbol.range.start →
    lost (parentKind machine.frames) symbol = (machine.scope == .code)

theorem Machine.Judged.declarators {machine : Machine} {list : DeclaratorList}
    (h : machine.Judged lost) (hphase : machine.phase = .inHeader (.declarators list))
    (symbol : Symbol) (hkind : symbol.kind = .var)
    (hstart : list.current.map (·.start) = some symbol.range.start) :
    lost (parentKind machine.frames) symbol = (machine.scope == .code) :=
  h symbol hkind (by rw [hphase]; exact hstart)

namespace Prunes

variable {machine machine' : Machine} {token : Token}

/-- Both steps use the token up or both do not, and the second machine hides what it should. -/
abbrev Steps (lost : Option SymbolKind → Symbol → Bool) : Step → Step → Prop :=
  Step.Pairs (Hides lost) (Hides lost)

theorem reportsVariables_eq (h : Prunes lost machine machine') :
    machine.reportsVariables = true ∧
      machine'.reportsVariables = (machine.scope != .code) := by
  unfold Machine.reportsVariables
  rw [h.scope_eq, h.shows, h.hides, Bool.or_true, Bool.or_false]
  exact ⟨rfl, rfl⟩

/-- The variable of a declaration is reported by the second machine unless it is declared in
code. -/
theorem report (h : Prunes lost machine machine') (hstacked : Stacked machine.frames)
    {list : DeclaratorList} (hemit : list.emit = true)
    (hfresh : ∀ draft ∈ list.current, draft.Fresh [.var])
    (hjudged : ∀ symbol : Symbol, symbol.kind = .var →
      list.current.map (·.start) = some symbol.range.start →
      lost (parentKind machine.frames) symbol = (machine.scope == .code)) (stop : Position) :
    Prunes lost (machine.report list stop)
      (machine'.report (list.withEmit (machine.scope != .code)) stop) := by
  unfold Machine.report DeclaratorList.withEmit
  dsimp only
  cases hcurrent : list.current with
  | none => exact h
  | some draft =>
    have hdraft := hfresh draft hcurrent
    have hkind : draft.kind = .var := List.mem_singleton.1 hdraft.2
    dsimp only
    rw [if_pos hemit]
    refine h.attach_var hstacked (hdraft.withDetail list.typeText fun _ => id) ?_
    refine hjudged _ hkind ?_
    exact congrArg (Option.map (·.start)) hcurrent

end Prunes

namespace Hides

variable {machine machine' : Machine} {token : Token}

theorem phase_eq_of (h : Hides lost machine machine') {phase : Phase}
    (hphase : machine.phase = phase) :
    machine'.phase = phase.withEmit (machine.scope != .code) := hphase ▸ h.phase_eq

/-- All variables are reported by the first machine. -/
theorem emit_of (h : Hides lost machine machine') {list : DeclaratorList}
    (hphase : machine.phase = .inHeader (.declarators list)) : list.emit = true := by
  have hemits := h.emits
  rw [hphase] at hemits
  injection hemits with hheader
  injection hheader with hlist
  rw [← hlist]
  rfl

theorem phase_of_header (h : Hides lost machine machine') {header : Header}
    (hphase : machine.phase = .inHeader header)
    (hheader : (Phase.inHeader header).withEmit (machine.scope != .code) = .inHeader header) :
    machine'.phase = .inHeader header :=
  (h.phase_eq_of hphase).trans hheader

theorem phase_ne (h : Hides lost machine machine')
    (hphase : ∀ header, machine.phase ≠ .inHeader header) (header : Header) :
    machine'.phase ≠ .inHeader header := by
  rw [h.phase_eq]
  cases hmachine : machine.phase with
  | inHeader header => exact absurd hmachine (hphase header)
  | _ => exact nofun

end Hides

namespace Machine

variable {machine machine' : Machine} {token : Token} {step : Step}

theorem ScanRule.hides {next : Machine} (hrule : machine.ScanRule token next)
    (h : Prunes lost machine machine') (hstacked : Stacked machine.frames)
    (hvars : LosesVars lost) : ∃ next', machine'.ScanRule token next' ∧ Hides lost next next' := by
  cases hrule with
  | event hkind => exact ⟨_, .event hkind, h.readHeader fun _ => rfl⟩
  | block hkind => exact ⟨_, .block hkind, h.readHeader fun _ => rfl⟩
  | declaration hopens => exact ⟨_, .declaration hopens, h.readHeader fun _ => rfl⟩
  | opens hkind =>
    refine ⟨_, .opens hkind, ?_⟩
    rw [h.scope_eq]
    exact h.push hstacked (by simp) _
  | closes hkind => exact ⟨_, .closes hkind, h.pop hstacked hvars _⟩
  | passes hword hopen hclose => exact ⟨_, .passes hword hopen hclose, h.settle⟩

theorem EventRule.hides {header : EventHeader} (hrule : machine.EventRule header token step)
    (h : Prunes lost machine machine') (hstacked : Stacked machine.frames)
    (hvars : LosesVars lost) :
    ∃ step', machine'.EventRule header token step' ∧ Prunes.Steps lost step step' := by
  have hfresh := header.fresh_draft machine.source
  have hdraft : header.draft machine'.source = header.draft machine.source := by rw [h.source_eq]
  cases hrule with
  | body hkind =>
    refine ⟨_, .body hkind, .consumed ?_⟩
    rw [hdraft]
    refine h.push hstacked ?_ _
    rintro draft ⟨⟩
    exact ⟨hfresh.1, by simp [List.mem_singleton.1 hfresh.2]⟩
  | semicolon hkind =>
    refine ⟨_, .semicolon hkind, .consumed ?_⟩
    rw [hdraft]
    exact h.close hstacked hvars hfresh (by simp) _
  | ends hopen hsemicolon hends =>
    refine ⟨_, .ends hopen hsemicolon hends, .retry ?_⟩
    rw [hdraft]
    exact h.close hstacked hvars hfresh (by simp) _
  | more hopen hsemicolon hclose hblock hline =>
    exact ⟨_, .more hopen hsemicolon hclose hblock hline, .consumed (h.readHeader fun _ => rfl)⟩

theorem DeclarationRule.hides {header : DeclarationHeader}
    (hrule : machine.DeclarationRule header token step) (h : Prunes lost machine machine')
    (hstacked : Stacked machine.frames) :
    ∃ step', machine'.DeclarationRule header token step' ∧ Prunes.Steps lost step step' := by
  cases hrule with
  | var hdeclarator hends =>
    refine ⟨_, .var hdeclarator hends, .retry ?_⟩
    unfold readDeclarators
    rw [h.source_eq, h.reportsVariables_eq.1, h.reportsVariables_eq.2]
    exact h.readList rfl
  | word hends hblock hword =>
    exact ⟨_, .word hends hblock hword, .consumed (h.readHeader fun _ => rfl)⟩
  | connector hconnector => exact ⟨_, .connector hconnector, .consumed (h.readHeader fun _ => rfl)⟩
  | function hkind hwords =>
    exact ⟨_, .function hkind hwords, .consumed (h.readHeader fun _ => rfl)⟩
  | aggregate hkind haggregate =>
    refine ⟨_, .aggregate hkind haggregate, .consumed (h.push hstacked ?_ _)⟩
    rintro draft ⟨⟩
    exact ⟨rfl, nofun⟩
  | nothing hends hnothing => exact ⟨_, .nothing hends hnothing, .retry h.settle⟩

theorem ParametersRule.hides {list : ParameterList} (hrule : machine.ParametersRule list token step)
    (h : Prunes lost machine machine') :
    ∃ step', machine'.ParametersRule list token step' ∧ Prunes.Steps lost step step' := by
  cases hrule with
  | opens hkind => exact ⟨_, .opens hkind, .consumed (h.readHeader fun _ => rfl)⟩
  | ends hkind hparens =>
    refine ⟨_, .ends hkind hparens, .consumed ?_⟩
    rw [h.source_eq]
    exact h.readHeader fun _ => rfl
  | closes hkind hparens => exact ⟨_, .closes hkind hparens, .consumed (h.readHeader fun _ => rfl)⟩
  | cut hkind =>
    refine ⟨_, .cut hkind, .retry ?_⟩
    rw [h.source_eq]
    exact h.readHeader fun _ => rfl
  | takes hopen hclose hcut =>
    exact ⟨_, .takes hopen hclose hcut, .consumed (h.readHeader fun _ => rfl)⟩

theorem BodyRule.hides {draft : Draft} {last : Token}
    (hrule : machine.BodyRule draft last token step) (h : Prunes lost machine machine')
    (hstacked : Stacked machine.frames) (hvars : LosesVars lost)
    (hfresh : draft.Fresh [.function, .container]) :
    ∃ step', machine'.BodyRule draft last token step' ∧ Prunes.Steps lost step step' := by
  have hkind : draft.kind ≠ .var := by
    intro hvar
    have hmem := hfresh.2
    rw [hvar] at hmem
    simp at hmem
  cases hrule with
  | body hopen =>
    refine ⟨_, .body hopen, .consumed (h.push hstacked ?_ _)⟩
    rintro _ ⟨⟩
    exact ⟨hfresh.1, hkind⟩
  | semicolon hsemicolon =>
    exact ⟨_, .semicolon hsemicolon, .consumed (h.close hstacked hvars hfresh (by simp) _)⟩
  | ends hopen hsemicolon =>
    exact ⟨_, .ends hopen hsemicolon, .retry (h.close hstacked hvars hfresh (by simp) _)⟩

theorem DeclaratorsRule.hides {list : DeclaratorList}
    (hrule : machine.DeclaratorsRule list token step) (h : Prunes lost machine machine')
    (hstacked : Stacked machine.frames) (hemit : list.emit = true)
    (hfresh : ∀ draft ∈ list.current, draft.Fresh [.var])
    (hjudged : ∀ symbol : Symbol, symbol.kind = .var →
      list.current.map (·.start) = some symbol.range.start →
      lost (parentKind machine.frames) symbol = (machine.scope == .code)) :
    ∃ step', machine'.DeclaratorsRule (list.withEmit (machine.scope != .code)) token step' ∧
      Prunes.Steps lost step step' := by
  have hreport := h.report hstacked hemit hfresh hjudged
  cases hrule with
  | semicolon hkind => exact ⟨_, .semicolon hkind, .consumed (hreport _).settle⟩
  | ends hends => exact ⟨_, .ends hends, .retry (hreport _).settle⟩
  | comma hkind htop =>
    have hlist := (hreport list.last.range.stop).readList
      (show ({ list with current := none }.add token).emit = true from hemit)
    rw [scope_report hstacked] at hlist
    exact ⟨_, .comma hkind htop, .consumed hlist⟩
  | name hends htop hcurrent hword =>
    exact ⟨_, .name hends htop hcurrent hword, .consumed (h.readList hemit)⟩
  | takes hsemicolon hends hcomma hname =>
    exact ⟨_, .takes hsemicolon hends hcomma hname, .consumed (h.readList hemit)⟩

theorem Rule.hides (hrule : machine.Rule token step) (h : Hides lost machine machine')
    (hregular : machine.Regular) (hvars : LosesVars lost) (hjudged : machine.Judged lost) :
    ∃ step', machine'.Rule token step' ∧ Prunes.Steps lost step step' := by
  obtain ⟨hstacked, hfresh⟩ := hregular
  have hprunes := h.toPrunes
  cases hrule with
  | scan hphase hrule =>
    obtain ⟨next', hrule', hnext⟩ := hrule.hides hprunes hstacked hvars
    exact ⟨_, .scan (h.phase_ne hphase) hrule', .consumed hnext⟩
  | event hphase hrule =>
    obtain ⟨step', hrule', hstep⟩ := hrule.hides hprunes hstacked hvars
    exact ⟨step', .event (h.phase_of_header hphase rfl) hrule', hstep⟩
  | declaration hphase hrule =>
    obtain ⟨step', hrule', hstep⟩ := hrule.hides hprunes hstacked
    exact ⟨step', .declaration (h.phase_of_header hphase rfl) hrule', hstep⟩
  | parameters hphase hrule =>
    obtain ⟨step', hrule', hstep⟩ := hrule.hides hprunes
    exact ⟨step', .parameters (h.phase_of_header hphase rfl) hrule', hstep⟩
  | body hphase hrule =>
    obtain ⟨step', hrule', hstep⟩ := hrule.hides hprunes hstacked hvars (hfresh _ hphase)
    exact ⟨step', .body (h.phase_of_header hphase rfl) hrule', hstep⟩
  | declarators hphase hrule =>
    obtain ⟨step', hrule', hstep⟩ :=
      hrule.hides hprunes hstacked (h.emit_of hphase) (hfresh _ hphase)
        (hjudged.declarators hphase)
    exact ⟨step', .declarators (h.phase_eq_of hphase) hrule', hstep⟩

/-- At the end of the text both machines leave their headers alike. -/
theorem EndRule.hides {next : Machine} (hrule : machine.EndRule next)
    (h : Hides lost machine machine') (hregular : machine.Regular) (hvars : LosesVars lost)
    (hjudged : machine.Judged lost) :
    ∃ next', machine'.EndRule next' ∧ Prunes lost next next' := by
  obtain ⟨hstacked, hfresh⟩ := hregular
  have hleave : Prunes lost machine.leave machine'.leave := { h.toPrunes with }
  have hstacked' : Stacked machine.leave.frames := hstacked
  obtain ⟨hreports, hreports'⟩ := h.reportsVariables_eq
  cases hrule with
  | outside hphase => exact ⟨_, .outside (h.phase_ne hphase), hleave⟩
  | event hphase =>
    refine ⟨_, .event (h.phase_of_header hphase rfl), ?_⟩
    rw [h.source_eq]
    exact hleave.attach hstacked' hvars (EventHeader.fresh_draft _ _) (by simp) _
  | word hphase hwords => exact ⟨_, .word (h.phase_of_header hphase rfl) hwords, hleave⟩
  | function hphase hwords hfunction =>
    exact ⟨_, .function (h.phase_of_header hphase rfl) hwords hfunction,
      hleave.attach hstacked' hvars (Draft.fresh_ofTokens_self .function _ _) (by simp) _⟩
  | @var header hphase hwords hfunction _ =>
    have hjudgment : lost (parentKind machine.frames)
        ((Draft.ofTokens .var header.first header.name).finish
          machine.options.includeDetails header.last.range.stop) = (machine.scope == .code) :=
      hjudged _ rfl (by rw [hphase]; rfl)
    have hvar := hleave.attach_var hstacked' (Draft.fresh_ofTokens_self .var _ _) hjudgment
    rw [show machine.leave.scope = machine.scope from rfl] at hvar
    by_cases hcode : machine.scope = .code
    · rw [if_neg (by simpa using hcode)] at hvar
      exact ⟨_, .hidden (h.phase_of_header hphase rfl) hwords hfunction
        (by rw [hreports', hcode]; rfl), hvar⟩
    · rw [if_pos (by simpa using hcode)] at hvar
      exact ⟨_, .var (h.phase_of_header hphase rfl) hwords hfunction
        (by rw [hreports']; simpa using hcode), hvar⟩
  | hidden _ _ _ hhidden =>
    rw [hreports] at hhidden
    cases hhidden
  | parameters hphase =>
    refine ⟨_, .parameters (h.phase_of_header hphase rfl), ?_⟩
    rw [h.source_eq]
    exact hleave.attach hstacked' hvars (ParameterList.fresh_signed (hfresh _ hphase) _ _)
      (by simp) _
  | body hphase =>
    exact ⟨_, .body (h.phase_of_header hphase rfl),
      hleave.attach hstacked' hvars (hfresh _ hphase) (by simp) _⟩
  | declarators hphase =>
    refine ⟨_, .declarators (h.phase_eq_of hphase), ?_⟩
    exact hleave.report hstacked' (h.emit_of hphase) (hfresh _ hphase)
      (hjudged.declarators hphase) _

end Machine

namespace Hides

variable {machine machine' : Machine} {token : Token}

theorem step (h : Hides lost machine machine') (hregular : machine.Regular)
    (hvars : LosesVars lost) (hjudged : machine.Judged lost) :
    Prunes.Steps lost (machine.step token) (machine'.step token) := by
  have hcounted : Hides lost { machine with steps := machine.steps + 1 }
      { machine' with steps := machine'.steps + 1 } := { h with }
  obtain ⟨step', hrule', hsteps⟩ :=
    (machine.step_rule token).hides hcounted hregular hvars hjudged
  rwa [Machine.step_eq_iff.2 hrule']

/-! ## The end of the text -/

theorem endHeader (h : Hides lost machine machine') (hregular : machine.Regular)
    (hvars : LosesVars lost) (hjudged : machine.Judged lost) :
    Prunes lost machine.endHeader machine'.endHeader := by
  obtain ⟨next', hrule', hnext⟩ := machine.end_rule.hides h hregular hvars hjudged
  rwa [Machine.endHeader_eq_iff.2 hrule']

/-- The braces that are still open at the end of the text are closed by both machines. -/
theorem finish (h : Hides lost machine machine') (hregular : machine.Regular)
    (hvars : LosesVars lost) (hjudged : machine.Judged lost) (stop : Position) :
    Prunes lost (machine.finish stop) (machine'.finish stop) := by
  have hend := h.endHeader hregular hvars hjudged
  have hpops : ∀ n,
      Prunes lost (Nat.repeat (Machine.pop stop) n machine.endHeader)
        (Nat.repeat (Machine.pop stop) n machine'.endHeader) ∧
      Stacked (Nat.repeat (Machine.pop stop) n machine.endHeader).frames := by
    intro n
    induction n with
    | zero => exact ⟨hend, (Machine.moves_endHeader hregular).2⟩
    | succ n ih => exact ⟨(ih.1.pop ih.2 hvars stop).toPrunes, Machine.stacked_pop ih.2 stop⟩
  have hfinish := (hpops machine.endHeader.stack.size).1
  nth_rewrite 2 [← hend.size_eq] at hfinish
  exact hfinish

end Hides

end CaplOutline.Outline
