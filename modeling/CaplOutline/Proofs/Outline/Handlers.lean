-- The event handlers of an outline. Each word `on` opens the header of a handler,
-- wherever it stands, and each header of a handler is reported, however it ends.
-- So the handlers of an outline are the words `on` of its text, in their order.
import CaplOutline.Proofs.Outline.Braces
import CaplOutline.Proofs.Outline.Marks

namespace CaplOutline

/-- Where the event handlers of an outline start, each one before those inside it. -/
def Outline.handlerStarts (outline : Outline) : List Position :=
  (outline.levels.filter (·.2.kind == .event)).map (·.2.range.start)

/-- Where the words `on` of a list of tokens start. -/
def Token.onStarts (tokens : List Token) : List Position :=
  (tokens.filter (·.kind == .keyword .on)).map (·.range.start)

@[simp]
theorem Token.onStarts_append (tokens tokens' : List Token) :
    onStarts (tokens ++ tokens') = onStarts tokens ++ onStarts tokens' := by
  simp [onStarts]

theorem Token.onStarts_singleton {token : Token} (h : token.kind ≠ .keyword .on) :
    onStarts [token] = [] := by
  simp [onStarts, h]

namespace Outline

/-! ## The marks of handlers -/

/-- Where the event handlers among the marks start. -/
def handlers (marks : List Mark) : List Position :=
  (marks.filter (·.kind == .event)).map (·.start)

@[simp]
theorem handlers_append (marks marks' : List Mark) :
    handlers (marks ++ marks') = handlers marks ++ handlers marks' := by
  simp [handlers]

theorem handlers_singleton {mark : Mark} (h : mark.kind ≠ .event) : handlers [mark] = [] := by
  simp [handlers, h]

theorem handlerStarts_eq (outline : Outline) :
    outline.handlerStarts = handlers (marks outline) := by
  simp [handlerStarts, handlers, marks, List.filter_map, Function.comp_def, Symbol.mark]

/-! ## Handlers that the machine has heard of -/

def Header.handler : Header → List Position
  | .event header => [header.first.range.start]
  | _ => []

def Phase.handler : Phase → List Position
  | .inHeader header => header.handler
  | _ => []

namespace Machine

/-- The handlers among the symbols, and the one whose header is being read. -/
def heard (machine : Machine) : List Position :=
  handlers machine.spine.marks ++ machine.phase.handler

variable {machine : Machine} {token : Token} {depth : Nat} {step : Step}

theorem heard_of_handler (h : machine.phase.handler = []) :
    machine.heard = handlers machine.spine.marks := by
  unfold heard
  rw [h, List.append_nil]

theorem heard_of_no_header (h : ∀ header, machine.phase ≠ .inHeader header) :
    machine.heard = handlers machine.spine.marks := by
  apply heard_of_handler
  cases hphase : machine.phase with
  | inHeader header => exact absurd hphase (h header)
  | _ => rfl

theorem heard_settle (machine : Machine) :
    machine.settle.heard = handlers machine.spine.marks :=
  heard_of_no_header (settle_phase_ne machine)

theorem heard_readHeader (machine : Machine) (header : Header) :
    (machine.readHeader header).heard = handlers machine.spine.marks ++ header.handler := rfl

theorem heard_push_none (h : Stacked machine.frames) (scope : Scope) :
    (machine.push none scope).heard = handlers machine.spine.marks := by
  rw [← spine_push_none h scope]
  exact List.append_nil _

theorem kind_ne_event {draft : Draft} {kinds : List SymbolKind} (hfresh : draft.Fresh kinds)
    (hkinds : .event ∉ kinds) : draft.mark.kind ≠ .event := by
  intro hkind
  have hmem := hfresh.2
  rw [show draft.kind = .event from hkind] at hmem
  exact hkinds hmem

/-- A body of another kind may be dropped, and no handler is lost. -/
theorem heard_push_other (h : Stacked machine.frames) {draft : Draft} {kinds : List SymbolKind}
    (hfresh : draft.Fresh kinds) (hkinds : .event ∉ kinds) (scope : Scope) :
    (machine.push (some draft) scope).heard = handlers machine.spine.marks := by
  have hkind := kind_ne_event hfresh hkinds
  refine Eq.trans (List.append_nil _) ?_
  rw [spine_push_some h]
  by_cases hroom : machine.spine.drafts.length < maxNesting
  · rw [Spine.marks_push hroom hfresh.1, handlers_append, handlers_singleton hkind, List.append_nil]
  · rw [Spine.marks_push_of_full hroom]

theorem handlers_attach_other (h : Stacked machine.frames) {draft : Draft}
    {kinds : List SymbolKind} (hfresh : draft.Fresh kinds) (hkinds : .event ∉ kinds)
    (stop : Position) :
    handlers (machine.attach draft stop).spine.marks = handlers machine.spine.marks := by
  rw [marks_attach h hfresh, handlers_append, handlers_singleton (kind_ne_event hfresh hkinds),
    List.append_nil]

/-- A handler that ends is heard of as it was when its header was read. -/
theorem handlers_attach_event (h : Stacked machine.frames) (header : EventHeader)
    (source : String) (stop : Position) :
    handlers (machine.attach (header.draft source) stop).spine.marks =
      handlers machine.spine.marks ++ [header.first.range.start] := by
  rw [marks_attach h (header.fresh_draft source), handlers_append]
  rfl

theorem handlers_report (h : Stacked machine.frames) {list : DeclaratorList}
    (hfresh : (Header.declarators list).Fresh) (stop : Position) :
    handlers (machine.report list stop).spine.marks = handlers machine.spine.marks := by
  unfold report
  split
  · rename_i draft hcurrent
    split
    · have hdraft : Draft.Fresh { draft with detail := list.typeText } [.var] :=
        (hfresh draft hcurrent).withDetail _ (fun _ => id)
      exact handlers_attach_other h hdraft (by simp) stop
    · rfl
  · rfl

/-! ## One step -/

/-- A step hears of no more than its token, and forgets no handler. -/
def Hears (machine : Machine) (token : Token) (step : Step) : Prop :=
  step.Ends (fun machine' => machine'.heard = machine.heard)
    (fun machine' => machine'.heard = machine.heard ++ Token.onStarts [token])

theorem ScanRule.heard {next : Machine} (hrule : machine.ScanRule token next)
    (h : Stacked machine.frames) :
    next.heard = handlers machine.spine.marks ++ Token.onStarts [token] := by
  cases hrule with
  | event hkind =>
    rw [heard_readHeader]
    simp [Header.handler, EventHeader.ofToken, Token.onStarts, hkind]
  | block hkind =>
    have hon : token.kind ≠ .keyword .on := by rcases hkind with hkind | hkind <;> simp [hkind]
    rw [heard_readHeader, Token.onStarts_singleton hon]
    rfl
  | declaration hopens =>
    have hon : token.kind ≠ .keyword .on := by
      intro hkind
      simp [hkind, TokenKind.opensDeclaration] at hopens
    rw [heard_readHeader, Token.onStarts_singleton hon]
    rfl
  | opens hkind =>
    rw [heard_push_none h, Token.onStarts_singleton (by simp [hkind]), List.append_nil]
  | closes hkind =>
    rw [← settle_pop, heard_settle, marks_pop h, Token.onStarts_singleton (by simp [hkind]),
      List.append_nil]
  | passes hword _ _ =>
    rw [heard_settle, Token.onStarts_singleton (hword _), List.append_nil]

theorem EventRule.heard {header : EventHeader} (hrule : machine.EventRule header token step)
    (h : Stacked machine.frames)
    (hroom : token.kind = .openBrace → machine.spine.drafts.length < maxNesting)
    (hphase : machine.phase = .inHeader (.event header)) : Hears machine token step := by
  have hheard : machine.heard = handlers machine.spine.marks ++ [header.first.range.start] := by
    unfold Machine.heard
    rw [hphase]
    rfl
  have hclose : ∀ stop,
      (machine.close (header.draft machine.source) stop).heard = machine.heard := by
    intro stop
    rw [close, heard_settle, handlers_attach_event h, hheard]
  cases hrule with
  | body hkind =>
    change (machine.push _ _).heard = _
    rw [Token.onStarts_singleton (by simp [hkind]), List.append_nil, hheard]
    refine Eq.trans (List.append_nil _) ?_
    rw [spine_push_some h, Spine.marks_push (hroom hkind) (header.fresh_draft _).1,
      handlers_append]
    rfl
  | semicolon hkind =>
    change (machine.close _ _).heard = _
    rw [hclose, Token.onStarts_singleton (by simp [hkind]), List.append_nil]
  | ends => exact hclose _
  | more _ _ _ hblock =>
    have hon : token.kind ≠ .keyword .on := by
      intro hkind
      simp [hkind, TokenKind.opensBlock] at hblock
    change (machine.readHeader _).heard = _
    rw [heard_readHeader, Token.onStarts_singleton hon, List.append_nil, hheard]
    unfold EventHeader.add
    split <;> rfl

theorem heard_read (hheard : machine.heard = handlers machine.spine.marks) {header : Header}
    (hhandler : header.handler = []) : (machine.readHeader header).heard = machine.heard := by
  rw [heard_readHeader, hhandler, List.append_nil, hheard]

theorem heard_take (hheard : machine.heard = handlers machine.spine.marks) {header : Header}
    (hhandler : header.handler = []) (hon : token.kind ≠ .keyword .on) :
    (machine.readHeader header).heard = machine.heard ++ Token.onStarts [token] := by
  rw [heard_read hheard hhandler, Token.onStarts_singleton hon, List.append_nil]

theorem DeclarationRule.heard {header : DeclarationHeader}
    (hrule : machine.DeclarationRule header token step) (h : Stacked machine.frames)
    (hheard : machine.heard = handlers machine.spine.marks) : Hears machine token step := by
  cases hrule with
  | var => exact heard_read hheard rfl
  | word _ hblock =>
    refine heard_take hheard rfl ?_
    intro hkind
    simp [hkind, TokenKind.opensBlock] at hblock
  | connector hconnector =>
    refine heard_take hheard rfl ?_
    intro hkind
    simp [DeclarationHeader.isConnector, hkind] at hconnector
  | function hkind => exact heard_take hheard rfl (by simp [hkind])
  | aggregate hkind =>
    change (machine.push _ _).heard = _
    rw [heard_push_other h ((Draft.fresh_ofTokens_self .container _ _).withDetail _
      (fun _ => id) : Draft.Fresh _ [.container]) (by simp),
      Token.onStarts_singleton (by simp [hkind]), List.append_nil, hheard]
  | nothing =>
    change machine.settle.heard = _
    rw [heard_settle, hheard]

theorem ParametersRule.heard {list : ParameterList} (hrule : machine.ParametersRule list token step)
    (hheard : machine.heard = handlers machine.spine.marks) : Hears machine token step := by
  cases hrule with
  | opens hkind | ends hkind | closes hkind => exact heard_take hheard rfl (by simp [hkind])
  | cut => exact heard_read hheard rfl
  | takes _ _ hcut => exact heard_take hheard rfl (by simp_all)

theorem BodyRule.heard {draft : Draft} {last : Token}
    (hrule : machine.BodyRule draft last token step) (h : Stacked machine.frames)
    (hheard : machine.heard = handlers machine.spine.marks)
    (hfresh : (Header.awaitBody draft last).Fresh) : Hears machine token step := by
  have hclose : ∀ stop, (machine.close draft stop).heard = machine.heard := by
    intro stop
    rw [close, heard_settle, handlers_attach_other h hfresh (by simp), hheard]
  cases hrule with
  | body hkind =>
    change (machine.push _ _).heard = _
    rw [heard_push_other h hfresh (by simp), Token.onStarts_singleton (by simp [hkind]),
      List.append_nil, hheard]
  | semicolon hkind =>
    change (machine.close _ _).heard = _
    rw [hclose, Token.onStarts_singleton (by simp [hkind]), List.append_nil]
  | ends => exact hclose _

theorem DeclaratorsRule.heard {list : DeclaratorList}
    (hrule : machine.DeclaratorsRule list token step) (h : Stacked machine.frames)
    (hheard : machine.heard = handlers machine.spine.marks)
    (hfresh : (Header.declarators list).Fresh) : Hears machine token step := by
  have hreport : ∀ stop, handlers (machine.report list stop).spine.marks = machine.heard := by
    intro stop
    rw [handlers_report h hfresh, hheard]
  cases hrule with
  | semicolon hkind =>
    change (Machine.settle _).heard = _
    rw [heard_settle, hreport, Token.onStarts_singleton (by simp [hkind]), List.append_nil]
  | ends =>
    change (Machine.settle _).heard = _
    rw [heard_settle, hreport]
  | comma hkind =>
    change (Machine.readHeader _ _).heard = _
    rw [heard_readHeader, hreport, Token.onStarts_singleton (by simp [hkind])]
    rfl
  | name hends | takes _ hends =>
    refine heard_take hheard rfl ?_
    intro hkind
    simp [DeclaratorList.endsBefore, hkind, TokenKind.opensBlock] at hends

theorem Rule.heard (hrule : machine.Rule token step) (h : machine.Regular)
    (hroom : token.kind = .openBrace → machine.spine.drafts.length < maxNesting) :
    Hears machine token step := by
  obtain ⟨hstacked, hfresh⟩ := h
  cases hrule with
  | @scan next hphase hrule =>
    change next.heard = _
    rw [hrule.heard hstacked, heard_of_no_header hphase]
  | event hphase hrule => exact hrule.heard hstacked hroom hphase
  | declaration hphase hrule => exact hrule.heard hstacked (heard_of_handler (by rw [hphase]; rfl))
  | parameters hphase hrule => exact hrule.heard (heard_of_handler (by rw [hphase]; rfl))
  | body hphase hrule =>
    exact hrule.heard hstacked (heard_of_handler (by rw [hphase]; rfl)) (hfresh _ hphase)
  | declarators hphase hrule =>
    exact hrule.heard hstacked (heard_of_handler (by rw [hphase]; rfl)) (hfresh _ hphase)

/-! ## All tokens -/

/-- The machine behind the tokens `seen`: it has heard of their handlers, and of no others. -/
structure Listens (seen : List Token) (depth : Nat) (machine : Machine) : Prop where
  regular : machine.Regular
  braces : machine.openBraces ≤ depth
  heard : machine.heard = Token.onStarts seen

theorem listens_step {seen : List Token} (h : machine.Listens seen depth)
    (hdepth : token.kind = .openBrace → depth < maxNesting) :
    (machine.step token).Ends (Listens seen depth)
      (Listens (seen ++ [token]) (Cursor.depthAfter depth token.kind)) := by
  have hroom : token.kind = .openBrace → machine.spine.drafts.length < maxNesting := by
    intro hkind
    have hdrafts := length_drafts_le_openBraces machine
    have hbraces := h.braces
    have hmax := hdepth hkind
    omega
  have hregular := regular_step h.regular token
  have hbraces : Balanced depth token (machine.step token) := balanced_step h.braces
  have hheard : Hears machine token (machine.step token) :=
    (machine.step_rule token).heard h.regular hroom
  cases hstep : machine.step token with
  | consumed machine' =>
    rw [hstep] at hregular hbraces hheard
    refine ⟨hregular, hbraces, ?_⟩
    rw [Token.onStarts_append, ← h.heard]
    exact hheard
  | retry machine' =>
    rw [hstep] at hregular hbraces hheard
    exact ⟨hregular, hbraces, h.heard ▸ hheard⟩

theorem listens_start (source : String) (options : Options) :
    (start source options).Listens [] 0 :=
  ⟨regular_start source options, Nat.le_refl 0, rfl⟩

theorem EndRule.heard {next : Machine} (hrule : machine.EndRule next) (h : machine.Regular) :
    handlers next.spine.marks = machine.heard := by
  obtain ⟨hstacked, hfresh⟩ := h
  have hleave : Stacked machine.leave.frames := hstacked
  cases hrule with
  | outside hphase =>
    rw [heard_of_no_header hphase]
    rfl
  | event hphase =>
    rw [handlers_attach_event hleave]
    unfold Machine.heard
    rw [hphase]
    rfl
  | word hphase | hidden hphase => exact (heard_of_handler (by rw [hphase]; rfl)).symm
  | function hphase =>
    rw [handlers_attach_other hleave (Draft.fresh_ofTokens_self .function _ _) (by simp)]
    exact (heard_of_handler (by rw [hphase]; rfl)).symm
  | var hphase =>
    rw [handlers_attach_other hleave (Draft.fresh_ofTokens_self .var _ _) (by simp)]
    exact (heard_of_handler (by rw [hphase]; rfl)).symm
  | parameters hphase =>
    have hsigned := ParameterList.fresh_signed (hfresh _ hphase) machine.source
    rw [handlers_attach_other hleave (hsigned _) (by simp)]
    exact (heard_of_handler (by rw [hphase]; rfl)).symm
  | body hphase =>
    rw [handlers_attach_other hleave (hfresh _ hphase) (by simp)]
    exact (heard_of_handler (by rw [hphase]; rfl)).symm
  | declarators hphase =>
    rw [handlers_report hleave (hfresh _ hphase)]
    exact (heard_of_handler (by rw [hphase]; rfl)).symm

/-- A header that the end of the text cuts off is reported as well. -/
theorem handlers_endHeader (h : machine.Regular) :
    handlers machine.endHeader.spine.marks = machine.heard :=
  machine.end_rule.heard h

end Machine

/-! ## The laws -/

/-- Each word `on` of a text is the start of one event handler of its outline, and no handler starts
anywhere else, as long as no token is below the levels that an outline has. -/
theorem the_handlers_are_the_words_on (source : String) (options : Options)
    (h : ∀ token ∈ Token.ofText source, token.depth < maxNesting) :
    (extract source options).handlerStarts = Token.onStarts (Token.ofText source) := by
  obtain ⟨last, -, -, hrun⟩ := Machine.run_invariant source options
    (P := fun seen cursor machine =>
      (∀ token ∈ seen, token.depth < maxNesting) → machine.Listens seen cursor.depth)
    (fun seen cursor token cursor' machine hy ih hseen => by
      rw [hy.depth_after]
      refine Machine.feed_ends (fun _ hlistens => Machine.listens_step hlistens ?_)
        (ih fun token htoken => hseen token (List.mem_append_left _ htoken))
      intro hkind
      have hdepth := hseen token (by simp)
      rwa [hy.depth_at, hkind] at hdepth)
    (fun _ => Machine.listens_start source options)
  have hend := Machine.handlers_endHeader (hrun h).regular
  have hstacked := Machine.stacked_endHeader (hrun h).regular.1
  have hroots := Machine.finish_invariant (Token.scan source).2.position
    (P := fun spine => handlers spine.marks = Token.onStarts (Token.ofText source))
    (fun spine hspine => by rwa [Spine.marks_pop]) hstacked (hend.trans (hrun h).heard)
  rw [handlerStarts_eq, ← hroots]
  simp [Spine.marks, extract, Token.ofText]

/-- Nothing is closed here but one handler: the value of a variable, the handlers and the
parameters of a function all lack their ends. -/
def brokenText : String := "int x = \x7b ( on start \x7b on key 'a'\n\x7d void f( on *"

theorem the_handlers_of_a_broken_text :
    (∀ token ∈ Token.ofText brokenText, token.depth < maxNesting) ∧
      (extract brokenText {}).handlerStarts = [⟨0, 12⟩, ⟨0, 23⟩, ⟨1, 10⟩] := by
  have hdepth : ∀ token ∈ Token.ofText brokenText, token.depth < maxNesting := by decide +kernel
  refine ⟨hdepth, ?_⟩
  rw [the_handlers_are_the_words_on _ _ hdepth]
  decide +kernel

end Outline

end CaplOutline
