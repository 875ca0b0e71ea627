-- A machine that keeps no details, beside one that does. Both carry the details along
-- while they read, and only the finished symbols differ. So no step looks at a detail.
import CaplOutline.Proofs.Symbol.Revising
import CaplOutline.Proofs.Outline.Places

namespace CaplOutline.Outline

/-! ## Erased details -/

/-- The symbol and all below it without their details. -/
def eraseSymbol : Symbol → Symbol := Symbol.revise (fun _ => none) id

/-- An open symbol keeps its own detail until it is finished. -/
def Draft.erase (draft : Draft) : Draft :=
  { draft with children := (draft.children.toList.map eraseSymbol).toArray }

def Frame.erase (frame : Frame) : Frame := { frame with symbol := frame.symbol.map (·.erase) }

def ParameterList.erase (list : ParameterList) : ParameterList :=
  { list with draft := list.draft.erase }

def DeclaratorList.erase (list : DeclaratorList) : DeclaratorList :=
  { list with current := list.current.map (·.erase) }

def Header.erase : Header → Header
  | .event header => .event header
  | .declaration header => .declaration header
  | .parameters list => .parameters list.erase
  | .awaitBody draft last => .awaitBody draft.erase last
  | .declarators list => .declarators list.erase

def Phase.erase : Phase → Phase
  | .topLevel => .topLevel
  | .inBody => .inBody
  | .inHeader header => .inHeader header.erase

/-- The machine that keeps no details, at the same place. -/
def Machine.erase (machine : Machine) : Machine :=
  { machine with
    options := { machine.options with includeDetails := false }
    phase := machine.phase.erase
    stack := machine.stack.map (·.erase)
    roots := machine.roots.map eraseSymbol }

def Step.erase : Step → Step
  | .consumed machine => .consumed machine.erase
  | .retry machine => .retry machine.erase

/-! ## Symbols -/

theorem Draft.finish_erase (draft : Draft) (includeDetail : Bool) (stop : Position) :
    draft.erase.finish false stop = eraseSymbol (draft.finish includeDetail stop) := by
  unfold Draft.erase finish eraseSymbol
  rw [Symbol.revise, Outline.revise_eq_map]
  simp

theorem Draft.adopt_erase (draft : Draft) (child : Symbol) :
    draft.erase.adopt (eraseSymbol child) = (draft.adopt child).erase := by
  unfold Draft.erase adopt
  simp

theorem Frame.adopt_erase (frame : Frame) (child : Symbol) :
    frame.erase.adopt (eraseSymbol child) = (frame.adopt child).erase := by
  unfold Frame.erase adopt
  simp only [Option.map_map]
  congr 1
  cases frame.symbol with
  | none => rfl
  | some draft => exact congrArg some (draft.adopt_erase child)

theorem map_erase_modify (stack : Array Frame) (owner : Nat) (child : Symbol) :
    (stack.map (·.erase)).modify owner (·.adopt (eraseSymbol child)) =
      (stack.modify owner (·.adopt child)).map (·.erase) := by
  refine Array.ext (by simp) ?_
  intro i _ _
  rw [Array.getElem_modify, Array.getElem_map, Array.getElem_map, Array.getElem_modify]
  split
  · exact Frame.adopt_erase ..
  · rfl

namespace Machine

variable (machine : Machine)

/-! ## Operations -/

theorem back?_erase : machine.erase.stack.back? = machine.stack.back?.map (·.erase) := by
  unfold erase
  rw [Array.back?_map]

theorem scope_erase : machine.erase.scope = machine.scope := by
  unfold scope
  rw [back?_erase]
  cases machine.stack.back? <;> rfl

theorem reportsVariables_erase : machine.erase.reportsVariables = machine.reportsVariables := by
  unfold reportsVariables
  rw [scope_erase]
  rfl

theorem owner_erase :
    machine.erase.stack.back?.bind (·.owner) = machine.stack.back?.bind (·.owner) := by
  rw [back?_erase]
  cases machine.stack.back? <;> rfl

theorem attach_erase (draft : Draft) (stop : Position) :
    machine.erase.attach draft.erase stop = (machine.attach draft stop).erase := by
  have hfinish : draft.erase.finish machine.erase.options.includeDetails stop =
      eraseSymbol (draft.finish machine.options.includeDetails stop) :=
    Draft.finish_erase ..
  unfold attach
  dsimp only
  rw [owner_erase, hfinish]
  split
  · unfold erase
    dsimp only
    rw [map_erase_modify]
  · unfold erase
    dsimp only
    rw [Array.map_push]

theorem settle_erase : machine.erase.settle = machine.settle.erase := by
  have hempty : machine.erase.stack.isEmpty = machine.stack.isEmpty := by
    simp [erase, Array.isEmpty]
  unfold settle
  rw [hempty]
  cases hstack : machine.stack.isEmpty <;> simp [erase, Phase.erase]

theorem readHeader_erase (header : Header) :
    machine.erase.readHeader header.erase = (machine.readHeader header).erase := rfl

theorem close_erase (draft : Draft) (stop : Position) :
    machine.erase.close draft.erase stop = (machine.close draft stop).erase := by
  unfold close
  rw [attach_erase, settle_erase]

theorem push_erase (symbol : Option Draft) (scope : Scope) :
    machine.erase.push (symbol.map (·.erase)) scope = (machine.push symbol scope).erase := by
  have hsize : machine.erase.stack.size = machine.stack.size := Array.size_map
  have hnesting : machine.erase.stack.back?.map (·.nesting) =
      machine.stack.back?.map (·.nesting) := by
    rw [back?_erase]
    cases machine.stack.back? <;> rfl
  have hpush : ∀ frame, { machine.erase with
        stack := machine.erase.stack.push (Frame.erase frame), phase := .inBody } =
      Machine.erase { machine with stack := machine.stack.push frame, phase := .inBody } := by
    intro frame
    unfold erase
    rw [Array.map_push]
    rfl
  unfold push
  dsimp only
  rw [hnesting, owner_erase, hsize]
  refine Eq.trans ?_ (hpush _)
  by_cases hroom : (machine.stack.back?.map (·.nesting)).getD 0 < maxNesting
  · rw [if_pos hroom, if_pos hroom]
    cases symbol <;> rfl
  · rw [if_neg hroom, if_neg hroom]
    rfl

theorem pop_erase (stop : Position) : machine.erase.pop stop = (machine.pop stop).erase := by
  have hdrop : machine.erase.dropFrame = machine.dropFrame.erase := by
    unfold dropFrame erase
    rw [Array.map_pop]
  unfold pop
  rw [back?_erase]
  cases machine.stack.back? with
  | none => exact machine.settle_erase
  | some frame =>
    dsimp only [Option.map_some, Frame.erase]
    cases frame.symbol with
    | none => exact (congrArg settle hdrop).trans (settle_erase _)
    | some draft =>
      exact (congrArg (·.close draft.erase stop) hdrop).trans (close_erase _ draft stop)

theorem report_erase (list : DeclaratorList) (stop : Position) :
    machine.erase.report list.erase stop = (machine.report list stop).erase := by
  unfold report DeclaratorList.erase
  cases list.current with
  | none => rfl
  | some draft =>
    dsimp only [Option.map_some]
    split
    · exact attach_erase machine { draft with detail := list.typeText } stop
    · rfl

theorem readDeclarators_erase (header : DeclarationHeader) :
    machine.erase.readDeclarators header = (machine.readDeclarators header).erase := by
  unfold readDeclarators
  rw [reportsVariables_erase]
  rfl

/-! ## One step -/

section Rules

variable {machine : Machine} {token : Token} {step : Step}

theorem ScanRule.erase {next : Machine} (hrule : machine.ScanRule token next) :
    machine.erase.ScanRule token next.erase := by
  cases hrule with
  | event hkind => exact .event hkind
  | block hkind => exact .block hkind
  | declaration hopens => exact .declaration hopens
  | opens hkind =>
    rw [← push_erase, ← scope_erase]
    exact .opens hkind
  | closes hkind =>
    rw [← pop_erase]
    exact .closes hkind
  | passes hword hopen hclose =>
    rw [← settle_erase]
    exact .passes hword hopen hclose

theorem EventRule.erase {header : EventHeader} (hrule : machine.EventRule header token step) :
    machine.erase.EventRule header token step.erase := by
  cases hrule with
  | body hkind =>
    rw [Step.erase, ← push_erase]
    exact .body hkind
  | semicolon hkind =>
    rw [Step.erase, ← close_erase]
    exact .semicolon hkind
  | ends hopen hsemicolon hends =>
    rw [Step.erase, ← close_erase]
    exact .ends hopen hsemicolon hends
  | more hopen hsemicolon hclose hblock hline => exact .more hopen hsemicolon hclose hblock hline

theorem DeclarationRule.erase {header : DeclarationHeader}
    (hrule : machine.DeclarationRule header token step) :
    machine.erase.DeclarationRule header token step.erase := by
  cases hrule with
  | var hdeclarator hends =>
    rw [Step.erase, ← readDeclarators_erase]
    exact .var hdeclarator hends
  | word hends hblock hword => exact .word hends hblock hword
  | connector hconnector => exact .connector hconnector
  | function hkind hwords => exact .function hkind hwords
  | aggregate hkind haggregate =>
    rw [Step.erase, ← push_erase]
    exact .aggregate hkind haggregate
  | nothing hends hnothing =>
    rw [Step.erase, ← settle_erase]
    exact .nothing hends hnothing

theorem ParametersRule.erase {list : ParameterList}
    (hrule : machine.ParametersRule list token step) :
    machine.erase.ParametersRule list.erase token step.erase := by
  cases hrule with
  | opens hkind => exact .opens hkind
  | ends hkind hparens => exact .ends hkind hparens
  | closes hkind hparens => exact .closes hkind hparens
  | cut hkind => exact .cut hkind
  | takes hopen hclose hcut => exact .takes hopen hclose hcut

theorem BodyRule.erase {draft : Draft} {last : Token}
    (hrule : machine.BodyRule draft last token step) :
    machine.erase.BodyRule draft.erase last token step.erase := by
  cases hrule with
  | body hkind =>
    rw [Step.erase, ← push_erase]
    exact .body hkind
  | semicolon hkind =>
    rw [Step.erase, ← close_erase]
    exact .semicolon hkind
  | ends hopen hsemicolon =>
    rw [Step.erase, ← close_erase]
    exact .ends hopen hsemicolon

theorem DeclaratorsRule.erase {list : DeclaratorList}
    (hrule : machine.DeclaratorsRule list token step) :
    machine.erase.DeclaratorsRule list.erase token step.erase := by
  cases hrule with
  | semicolon hkind =>
    rw [Step.erase, ← settle_erase, ← report_erase]
    exact .semicolon hkind
  | ends hends =>
    rw [Step.erase, ← settle_erase, ← report_erase]
    exact .ends hends
  | comma hkind htop =>
    rw [Step.erase, ← readHeader_erase, ← report_erase]
    exact .comma hkind htop
  | name hends htop hcurrent hword =>
    have hnone : list.erase.current = none := by
      unfold DeclaratorList.erase
      rw [hcurrent]
      rfl
    exact .name hends htop hnone hword
  | takes hsemicolon hends hcomma hname =>
    have hsame : list.erase.current.isNone = list.current.isNone := by simp [DeclaratorList.erase]
    rw [← hsame] at hname
    exact .takes hsemicolon hends hcomma hname

theorem erase_phase_of_header {header : Header} (h : machine.phase = .inHeader header) :
    machine.erase.phase = .inHeader header.erase := congrArg Phase.erase h

theorem erase_phase_ne (h : ∀ header, machine.phase ≠ .inHeader header) (header : Header) :
    machine.erase.phase ≠ .inHeader header := by
  change machine.phase.erase ≠ _
  cases hphase : machine.phase with
  | inHeader header => exact absurd hphase (h header)
  | _ => exact nofun

/-- No rule looks at a detail. -/
theorem Rule.erase (hrule : machine.Rule token step) :
    machine.erase.Rule token step.erase := by
  cases hrule with
  | scan hphase hrule => exact .scan (erase_phase_ne hphase) hrule.erase
  | event hphase hrule => exact .event (erase_phase_of_header hphase) hrule.erase
  | declaration hphase hrule => exact .declaration (erase_phase_of_header hphase) hrule.erase
  | parameters hphase hrule => exact .parameters (erase_phase_of_header hphase) hrule.erase
  | body hphase hrule => exact .body (erase_phase_of_header hphase) hrule.erase
  | declarators hphase hrule => exact .declarators (erase_phase_of_header hphase) hrule.erase

theorem EndRule.erase {next : Machine} (hrule : machine.EndRule next) :
    machine.erase.EndRule next.erase := by
  have hattach : ∀ (draft : Draft) (stop : Position),
      (machine.leave.attach draft stop).erase = machine.erase.leave.attach draft.erase stop :=
    fun draft stop => (attach_erase machine.leave draft stop).symm
  have hreports : machine.erase.reportsVariables = machine.reportsVariables :=
    machine.reportsVariables_erase
  cases hrule with
  | outside hphase => exact .outside (erase_phase_ne hphase)
  | event hphase =>
    rw [hattach]
    exact .event (erase_phase_of_header hphase)
  | word hphase hwords => exact .word (erase_phase_of_header hphase) hwords
  | function hphase hwords hfunction =>
    rw [hattach]
    exact .function (erase_phase_of_header hphase) hwords hfunction
  | var hphase hwords hfunction hemit =>
    rw [hattach]
    exact .var (erase_phase_of_header hphase) hwords hfunction (hreports.trans hemit)
  | hidden hphase hwords hfunction hemit =>
    exact .hidden (erase_phase_of_header hphase) hwords hfunction (hreports.trans hemit)
  | parameters hphase =>
    rw [hattach]
    exact .parameters (erase_phase_of_header hphase)
  | body hphase =>
    rw [hattach]
    exact .body (erase_phase_of_header hphase)
  | @declarators list hphase =>
    have hreport := report_erase machine.leave list list.last.range.stop
    rw [← hreport]
    exact .declarators (erase_phase_of_header hphase)

end Rules

theorem step_erase (token : Token) : machine.erase.step token = (machine.step token).erase :=
  step_eq_iff.2 (machine.step_rule token).erase

theorem feed_erase (token : Token) : machine.erase.feed token = (machine.feed token).erase := by
  refine feed_pairs (R := fun machine machine' => machine' = machine.erase)
    (Q := fun machine machine' => machine' = machine.erase) ?_ rfl
  rintro machine _ rfl
  rw [step_erase]
  cases machine.step token with
  | consumed => exact .consumed rfl
  | retry => exact .retry rfl

/-! ## The end of the text -/

theorem endHeader_erase : machine.erase.endHeader = machine.endHeader.erase :=
  endHeader_eq_iff.2 machine.end_rule.erase

theorem repeat_pop_erase (stop : Position) (n : Nat) :
    Nat.repeat (pop stop) n machine.erase = (Nat.repeat (pop stop) n machine).erase := by
  induction n with
  | zero => rfl
  | succ n ih => rw [Nat.repeat, Nat.repeat, ih, pop_erase]

theorem finish_erase (stop : Position) :
    machine.erase.finish stop = (machine.finish stop).erase := by
  have hsize : machine.endHeader.erase.stack.size = machine.endHeader.stack.size :=
    Array.size_map
  change Nat.repeat (pop stop) machine.erase.endHeader.stack.size machine.erase.endHeader = _
  rw [endHeader_erase, repeat_pop_erase, hsize]
  rfl

theorem start_erase (source : String) (options : Options) :
    (start source options).erase = start source { options with includeDetails := false } := by
  simp [start, erase, Phase.erase]

theorem run_erase (source : String) (options : Options) (tokens : List Token) :
    run source { options with includeDetails := false } tokens =
      (run source options tokens).erase := by
  induction tokens using List.reverseRecOn with
  | nil => exact (start_erase source options).symm
  | append_singleton tokens token ih => rw [run_concat, run_concat, ih, feed_erase]

end Machine

/-! ## The laws -/

/-- Without details an outline is the same but for the details of its symbols, which are all
erased. -/
theorem erases_only_details (source : String) (includeLocals : Bool) :
    extract source ⟨includeLocals, false⟩ =
      Outline.revise (fun _ => none) id (extract source ⟨includeLocals, true⟩) := by
  have hrun := Machine.run_erase source ⟨includeLocals, true⟩ (Token.scan source).1
  unfold extract
  dsimp only at hrun ⊢
  rw [hrun, Machine.finish_erase]
  unfold Machine.erase eraseSymbol
  rw [Array.toList_map, Outline.revise_eq_map]

end CaplOutline.Outline
