-- The scopes of the braces that are open. A header never changes them, so a variable is
-- reported in the scopes in which its declaration starts. As long as there is room for
-- every symbol, the innermost open symbol says in which scope the machine is.
import CaplOutline.Proofs.Outline.Places

namespace CaplOutline.Outline

/-! ## The scopes of a header -/

/-- Where the variable starts that a header is about, if it can be about one. -/
def Phase.varStart : Phase → Option Position
  | .inHeader (.declaration header) => some header.first.range.start
  | .inHeader (.declarators list) => list.current.map (·.start)
  | _ => none

/-- The scope inside the innermost of these braces. -/
def scopeOf (frames : List Frame) : Scope := (frames.head?.map (·.scope)).getD .topLevel

theorem map_scope_hangOn (symbol : Symbol) (frames : List Frame) :
    (hangOn symbol frames).map (·.scope) = frames.map (·.scope) := by
  induction frames with
  | nil => rfl
  | cons frame frames ih =>
    unfold hangOn
    split
    · rfl
    · rw [List.map_cons, List.map_cons, ih]

namespace Machine

variable {machine : Machine} {token : Token} {step : Step}

/-- The scopes of the open braces, innermost first. -/
def scopes (machine : Machine) : List Scope := machine.frames.map (·.scope)

theorem scope_eq_scopeOf (machine : Machine) : machine.scope = scopeOf machine.frames := by
  unfold scope scopeOf
  rw [back?_eq_head?_frames]
  cases machine.frames.head? <;> rfl

theorem scope_eq_of_scopes {machine' : Machine} (h : machine.scopes = machine'.scopes) :
    machine.scope = machine'.scope := by
  have hhead := congrArg List.head? h
  unfold scopes at hhead
  rw [List.head?_map, List.head?_map] at hhead
  rw [scope_eq_scopeOf, scope_eq_scopeOf]
  unfold scopeOf
  rw [hhead]

theorem scopes_attach (h : Stacked machine.frames) (draft : Draft) (stop : Position) :
    (machine.attach draft stop).scopes = machine.scopes := by
  unfold scopes
  rw [frames_attach h, map_scope_hangOn]

theorem scopes_report (h : Stacked machine.frames) (list : DeclaratorList) (stop : Position) :
    (machine.report list stop).scopes = machine.scopes := by
  unfold report
  split
  · split
    · exact scopes_attach h _ _
    · rfl
  · rfl

theorem scope_report (h : Stacked machine.frames) (list : DeclaratorList) (stop : Position) :
    (machine.report list stop).scope = machine.scope :=
  scope_eq_of_scopes (scopes_report h list stop)

/-- The variable that is being read started in the scopes that are open now. -/
def StartedIn (scopesAt : Position → List Scope) (machine : Machine) : Prop :=
  ∀ start, machine.phase.varStart = some start → scopesAt start = machine.scopes

variable {scopesAt : Position → List Scope}

theorem startedIn_of_none (h : machine.phase.varStart = none) : machine.StartedIn scopesAt := by
  intro start hstart
  rw [h] at hstart
  cases hstart

theorem startedIn_settle (machine : Machine) : machine.settle.StartedIn scopesAt := by
  apply startedIn_of_none
  unfold settle
  dsimp only
  split <;> rfl

theorem startedIn_push (machine : Machine) (symbol : Option Draft) (scope : Scope) :
    (machine.push symbol scope).StartedIn scopesAt := startedIn_of_none rfl

/-- If the token is handled again, it is handled in the same scopes. -/
def KeepsScopes (scopesAt : Position → List Scope) (machine : Machine) (step : Step) : Prop :=
  step.Ends (fun machine' => machine'.scopes = machine.scopes ∧ machine'.StartedIn scopesAt)
    (StartedIn scopesAt)

theorem ScanRule.startedIn {next : Machine} (hrule : machine.ScanRule token next)
    (htoken : scopesAt token.range.start = machine.scopes) : next.StartedIn scopesAt := by
  cases hrule with
  | event | block => exact startedIn_of_none rfl
  | declaration =>
    rintro start ⟨⟩
    exact htoken
  | opens => exact startedIn_push _ _ _
  | closes =>
    rw [← settle_pop]
    exact startedIn_settle _
  | passes => exact startedIn_settle _

theorem EventRule.keepsScopes {header : EventHeader} (hrule : machine.EventRule header token step)
    (h : Stacked machine.frames) : KeepsScopes scopesAt machine step := by
  cases hrule with
  | body => exact startedIn_push _ _ _
  | semicolon => exact startedIn_settle _
  | ends => exact ⟨scopes_attach h _ _, startedIn_settle _⟩
  | more => exact startedIn_of_none rfl

theorem DeclarationRule.keepsScopes {header : DeclarationHeader}
    (hrule : machine.DeclarationRule header token step)
    (h : scopesAt header.first.range.start = machine.scopes) :
    KeepsScopes scopesAt machine step := by
  have hheader : ∀ start, some header.first.range.start = some start →
      scopesAt start = machine.scopes := by
    rintro start ⟨⟩
    exact h
  cases hrule with
  | var => exact ⟨rfl, hheader⟩
  | word | connector => exact hheader
  | function => exact startedIn_of_none rfl
  | aggregate => exact startedIn_push _ _ _
  | nothing => exact ⟨rfl, startedIn_settle _⟩

theorem ParametersRule.keepsScopes {list : ParameterList}
    (hrule : machine.ParametersRule list token step) : KeepsScopes scopesAt machine step := by
  cases hrule with
  | opens | ends | closes | takes => exact startedIn_of_none rfl
  | cut => exact ⟨rfl, startedIn_of_none rfl⟩

theorem BodyRule.keepsScopes {draft : Draft} {last : Token}
    (hrule : machine.BodyRule draft last token step) (h : Stacked machine.frames) :
    KeepsScopes scopesAt machine step := by
  cases hrule with
  | body => exact startedIn_push _ _ _
  | semicolon => exact startedIn_settle _
  | ends => exact ⟨scopes_attach h _ _, startedIn_settle _⟩

theorem DeclaratorsRule.keepsScopes {list : DeclaratorList}
    (hrule : machine.DeclaratorsRule list token step) (h : Stacked machine.frames)
    (htoken : scopesAt token.range.start = machine.scopes)
    (hlist : ∀ start, list.current.map (·.start) = some start → scopesAt start = machine.scopes) :
    KeepsScopes scopesAt machine step := by
  cases hrule with
  | semicolon => exact startedIn_settle _
  | ends => exact ⟨scopes_report h _ _, startedIn_settle _⟩
  | comma => exact startedIn_of_none rfl
  | name =>
    rintro start ⟨⟩
    exact htoken
  | takes => exact hlist

theorem Rule.keepsScopes (hrule : machine.Rule token step) (h : Stacked machine.frames)
    (htoken : scopesAt token.range.start = machine.scopes) (hstarted : machine.StartedIn scopesAt) :
    KeepsScopes scopesAt machine step := by
  cases hrule with
  | scan _ hrule => exact hrule.startedIn htoken
  | event _ hrule => exact hrule.keepsScopes h
  | declaration hphase hrule => exact hrule.keepsScopes (hstarted _ (by rw [hphase]; rfl))
  | parameters _ hrule => exact hrule.keepsScopes
  | body _ hrule => exact hrule.keepsScopes h
  | declarators hphase hrule =>
    refine hrule.keepsScopes h htoken ?_
    intro start hstart
    exact hstarted start (by rw [hphase]; exact hstart)

end Machine

/-! ## Scopes and open symbols -/

/-- The scope of braces without a symbol. -/
def anonymousScope (frames : List Frame) : Scope :=
  if scopeOf frames = .topLevel then .code else scopeOf frames

/-- Each frame has the scope of the body of its symbol, or without a symbol the scope around it. -/
def Scoped : List Frame → Prop
  | [] => True
  | frame :: frames =>
    frame.scope = (frame.symbol.map (·.bodyScope)).getD (anonymousScope frames) ∧ Scoped frames

theorem Draft.bodyScope_ne (draft : Draft) : draft.bodyScope ≠ .topLevel := by
  unfold bodyScope
  split <;> exact nofun

/-- The innermost open symbol says which scope it is. -/
theorem Scoped.scopeOf_eq {frames : List Frame} (h : Scoped frames) :
    scopeOf frames =
      ((drafts frames).head?.map (·.bodyScope)).getD
        (if frames.isEmpty then .topLevel else .code) := by
  induction frames with
  | nil => rfl
  | cons frame frames ih =>
    obtain ⟨hscope, hrest⟩ := h
    change frame.scope = _
    rw [hscope]
    cases hsymbol : frame.symbol with
    | some draft =>
      have hdrafts : drafts (frame :: frames) = draft :: drafts frames := by
        simp [drafts, hsymbol]
      rw [hdrafts]
      rfl
    | none =>
      have hdrafts : drafts (frame :: frames) = drafts frames := by simp [drafts, hsymbol]
      rw [hdrafts]
      unfold anonymousScope
      rw [ih hrest]
      cases drafts frames with
      | nil => cases frames <;> rfl
      | cons draft _ => exact if_neg draft.bodyScope_ne

theorem scoped_hangOn {frames : List Frame} (h : Scoped frames) (symbol : Symbol) :
    Scoped (hangOn symbol frames) := by
  induction frames with
  | nil => exact h
  | cons frame frames ih =>
    obtain ⟨hscope, hrest⟩ := h
    have hbelow : anonymousScope (hangOn symbol frames) = anonymousScope frames := by
      have hscopes := congrArg List.head? (map_scope_hangOn symbol frames)
      rw [List.head?_map, List.head?_map] at hscopes
      unfold anonymousScope scopeOf
      rw [hscopes]
    unfold hangOn
    split
    · refine ⟨?_, hrest⟩
      change frame.scope = _
      rw [hscope]
      unfold Frame.adopt
      rw [Option.map_map]
      rfl
    · refine ⟨?_, ih hrest⟩
      rw [hbelow]
      exact hscope

namespace Machine

variable {machine : Machine} {token : Token} {step : Step}

theorem scoped_attach (h : Stacked machine.frames) (hscoped : Scoped machine.frames)
    (draft : Draft) (stop : Position) : Scoped (machine.attach draft stop).frames := by
  rw [frames_attach h]
  exact scoped_hangOn hscoped _

theorem scoped_report (h : Stacked machine.frames) (hscoped : Scoped machine.frames)
    (list : DeclaratorList) (stop : Position) : Scoped (machine.report list stop).frames := by
  unfold report
  split
  · split
    · exact scoped_attach h hscoped _ _
    · exact hscoped
  · exact hscoped

theorem scopes_push (machine : Machine) (symbol : Option Draft) (scope : Scope) :
    (machine.push symbol scope).scopes = scope :: machine.scopes := by
  unfold push scopes frames
  dsimp only
  rw [Array.toList_push, List.reverse_append, List.map_append]
  split <;> rfl

theorem scoped_push (h : Stacked machine.frames) (hscoped : Scoped machine.frames)
    (hroom : machine.spine.drafts.length < maxNesting) (draft : Draft) :
    Scoped (machine.push (some draft) draft.bodyScope).frames := by
  have hscopes := scopes_push machine (some draft) draft.bodyScope
  obtain ⟨frame, hframes, hsymbol, -⟩ := frames_push h (some draft) draft.bodyScope
  unfold scopes at hscopes
  rw [hframes, List.map_cons] at hscopes
  rw [hframes]
  have hlt : (drafts machine.frames).length < maxNesting := hroom
  refine ⟨?_, hscoped⟩
  rw [hsymbol, if_pos hlt]
  exact (List.cons.inj hscopes).1

theorem scoped_push_none (h : Stacked machine.frames) (hscoped : Scoped machine.frames) :
    Scoped (machine.push none
      (if machine.scope = .topLevel then .code else machine.scope)).frames := by
  have hscopes := scopes_push machine none
    (if machine.scope = .topLevel then .code else machine.scope)
  obtain ⟨frame, hframes, hsymbol, -⟩ := frames_push h none
    (if machine.scope = .topLevel then .code else machine.scope)
  unfold scopes at hscopes
  rw [hframes, List.map_cons] at hscopes
  rw [hframes]
  refine ⟨?_, hscoped⟩
  rw [ite_self] at hsymbol
  rw [hsymbol, (List.cons.inj hscopes).1, scope_eq_scopeOf]
  rfl

theorem scoped_tail {frames : List Frame} (h : Scoped frames) : Scoped frames.tail := by
  cases frames with
  | nil => exact h
  | cons frame frames => exact h.2

theorem scoped_pop (h : Stacked machine.frames) (hscoped : Scoped machine.frames)
    (stop : Position) : Scoped (machine.pop stop).frames := by
  have htail : Scoped machine.dropFrame.frames := by
    rw [frames_dropFrame]
    exact scoped_tail hscoped
  have hstacked : Stacked machine.dropFrame.frames := by
    rw [frames_dropFrame]
    exact stacked_tail h
  rw [pop_eq]
  split
  · exact hscoped
  · split
    · exact htail
    · exact scoped_attach hstacked htail _ _

/-- The frames are still in order, whether the token is used up or not. -/
def KeepsScoped (step : Step) : Prop :=
  step.Ends (fun machine => Scoped machine.frames) (fun machine => Scoped machine.frames)

theorem ScanRule.scoped {next : Machine} (hrule : machine.ScanRule token next)
    (h : Stacked machine.frames) (hscoped : Scoped machine.frames) : Scoped next.frames := by
  cases hrule with
  | event | block | declaration | passes => exact hscoped
  | opens => exact scoped_push_none h hscoped
  | closes => exact scoped_pop h hscoped _

theorem EventRule.keepsScoped {header : EventHeader} (hrule : machine.EventRule header token step)
    (h : Stacked machine.frames) (hscoped : Scoped machine.frames)
    (hroom : token.kind = .openBrace → machine.spine.drafts.length < maxNesting) :
    KeepsScoped step := by
  cases hrule with
  | body hkind => exact scoped_push h hscoped (hroom hkind) (header.draft machine.source)
  | semicolon | ends => exact scoped_attach h hscoped _ _
  | more => exact hscoped

theorem DeclarationRule.keepsScoped {header : DeclarationHeader}
    (hrule : machine.DeclarationRule header token step) (h : Stacked machine.frames)
    (hscoped : Scoped machine.frames)
    (hroom : token.kind = .openBrace → machine.spine.drafts.length < maxNesting) :
    KeepsScoped step := by
  cases hrule with
  | var | word | connector | function | nothing => exact hscoped
  | aggregate hkind => exact scoped_push h hscoped (hroom hkind) _

theorem ParametersRule.keepsScoped {list : ParameterList}
    (hrule : machine.ParametersRule list token step) (hscoped : Scoped machine.frames) :
    KeepsScoped step := by
  cases hrule <;> exact hscoped

theorem BodyRule.keepsScoped {draft : Draft} {last : Token}
    (hrule : machine.BodyRule draft last token step) (h : Stacked machine.frames)
    (hscoped : Scoped machine.frames)
    (hroom : token.kind = .openBrace → machine.spine.drafts.length < maxNesting) :
    KeepsScoped step := by
  cases hrule with
  | body hkind => exact scoped_push h hscoped (hroom hkind) _
  | semicolon | ends => exact scoped_attach h hscoped _ _

theorem DeclaratorsRule.keepsScoped {list : DeclaratorList}
    (hrule : machine.DeclaratorsRule list token step) (h : Stacked machine.frames)
    (hscoped : Scoped machine.frames) : KeepsScoped step := by
  cases hrule with
  | semicolon | ends | comma => exact scoped_report h hscoped _ _
  | name | takes => exact hscoped

/-- As long as there is room for every symbol that a brace opens, each frame has its scope. -/
theorem Rule.keepsScoped (hrule : machine.Rule token step) (h : Stacked machine.frames)
    (hscoped : Scoped machine.frames)
    (hroom : token.kind = .openBrace → machine.spine.drafts.length < maxNesting) :
    KeepsScoped step := by
  cases hrule with
  | scan _ hrule => exact hrule.scoped h hscoped
  | event _ hrule => exact hrule.keepsScoped h hscoped hroom
  | declaration _ hrule => exact hrule.keepsScoped h hscoped hroom
  | parameters _ hrule => exact hrule.keepsScoped hscoped
  | body _ hrule => exact hrule.keepsScoped h hscoped hroom
  | declarators _ hrule => exact hrule.keepsScoped h hscoped

/-! ## The scopes of a text -/

/-- What the scopes of a machine say of the text that it reads: where the variable started that is
being read, and which symbols are open, if there has been room for all of them. -/
structure Placed (source : String) (options : Options) (machine : Machine) : Prop where
  regular : machine.Regular
  started : machine.StartedIn fun place => (before source options place).scopes
  frames_scoped : (∀ token ∈ Token.ofText source, token.depth < maxNesting) → Scoped machine.frames

/-- The machine on its way over a token of the text. -/
structure Reaches (source : String) (options : Options) (token : Token) (machine : Machine) : Prop
    extends Placed source options machine where
  here : (before source options token.range.start).scopes = machine.scopes
  room : machine.HasRoom token

variable {source : String} {options : Options}

theorem reaches_step (h : machine.Reaches source options token)
    (htoken : token ∈ Token.ofText source) :
    (machine.step token).Ends (Reaches source options token) (Placed source options) := by
  have hregular := regular_step h.regular token
  have hscopes : KeepsScopes _ machine (machine.step token) :=
    (machine.step_rule token).keepsScopes h.regular.1 h.here h.started
  have hscoped : (∀ token ∈ Token.ofText source, token.depth < maxNesting) →
      KeepsScoped (machine.step token) := by
    intro hdepth
    exact (machine.step_rule token).keepsScoped h.regular.1 (h.frames_scoped hdepth)
      (h.room.length_drafts_lt (hdepth token htoken))
  unfold KeepsScopes at hscopes
  cases hstep : machine.step token with
  | consumed machine' =>
    rw [hstep] at hregular hscopes hscoped
    exact ⟨hregular, hscopes, hscoped⟩
  | retry machine' =>
    rw [hstep] at hregular hscopes hscoped
    exact ⟨⟨hregular, hscopes.2, hscoped⟩, h.here.trans hscopes.1.symm, h.room.retry hstep⟩

theorem placed_start (source : String) (options : Options) :
    (start source options).Placed source options :=
  ⟨regular_start source options, startedIn_of_none rfl, fun _ => trivial⟩

/-- Where a token stands in the text, the machine before it reaches it. -/
theorem Placed.reaches {seen after : List Token}
    (h : (run source options seen).Placed source options)
    (htext : Token.ofText source = seen ++ token :: after) :
    (run source options seen).Reaches source options token :=
  { h with
    here := congrArg scopes (before_start options htext)
    room := hasRoom_run options htext }

end Machine

end CaplOutline.Outline
