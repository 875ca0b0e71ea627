-- Two texts side by side. A machine sees little of the places of its tokens: which of
-- two tokens is on a later line, and the details that it cuts out. So two machines that
-- read tokens of the same kinds and spellings, and of which the lines are in the same
-- order, go through the same steps and build the same outline, each with its own places.
import Mathlib.Data.List.Forall2
import CaplOutline.Proofs.Outline.Run

namespace CaplOutline.Outline

open Text

/-! ## Pairs of tokens -/

/-- Which tokens of two texts belong together. They agree in all that a machine sees of them. -/
structure Pairing (options : Options) where
  source : String
  source' : String
  pairs : Token → Token → Prop
  kind_eq {token token' : Token} : pairs token token' → token.kind = token'.kind
  text_eq {token token' : Token} : pairs token token' → token.text = token'.text
  /-- No token goes over the end of its line. -/
  stop_line {token token' : Token} : pairs token token' →
    token.range.stop.line = token.line ∧ token'.range.stop.line = token'.line
  line_lt {token token' other other' : Token} : pairs token token' → pairs other other' →
    (token.line < other.line ↔ token'.line < other'.line)
  slice_eq {first first' last last' : Token} : options.includeDetails = true →
    pairs first first' → pairs last last' →
    slice source first.span.start last.span.start =
        slice source' first'.span.start last'.span.start ∧
      slice source first.span.start last.span.stop =
        slice source' first'.span.start last'.span.stop
  /-- Where what is still open at the end of the two texts is closed. -/
  stop : Position
  stop' : Position

/-! ## Outlines that are alike -/

/-- Two tokens of a pair start at these places. -/
def StartAlike (pairs : Token → Token → Prop) (place place' : Position) : Prop :=
  ∃ token token', pairs token token' ∧ token.range.start = place ∧ token'.range.start = place'

/-- Two tokens of a pair end at these places, or they are the two places `stop` and `stop'`. -/
def StopAlike (pairs : Token → Token → Prop) (stop stop' place place' : Position) : Prop :=
  (∃ token token', pairs token token' ∧ token.range.stop = place ∧ token'.range.stop = place') ∨
    (place = stop ∧ place' = stop')

/-- Two tokens of a pair have these ranges. -/
def RangeAlike (pairs : Token → Token → Prop) (range range' : Range) : Prop :=
  ∃ token token', pairs token token' ∧ token.range = range ∧ token'.range = range'

/-- The same symbols stand in the same order inside one another, each at the tokens of a pair. -/
inductive Alike (pairs : Token → Token → Prop) (stop stop' : Position) : Outline → Outline → Prop
  | nil : Alike pairs stop stop' [] []
  | cons {symbol symbol' : Symbol} {outline outline' : Outline} :
      symbol.name = symbol'.name → symbol.kind = symbol'.kind → symbol.detail = symbol'.detail →
      StartAlike pairs symbol.range.start symbol'.range.start →
      StopAlike pairs stop stop' symbol.range.stop symbol'.range.stop →
      RangeAlike pairs symbol.selection symbol'.selection →
      Alike pairs stop stop' symbol.children symbol'.children →
      Alike pairs stop stop' outline outline' →
      Alike pairs stop stop' (symbol :: outline) (symbol' :: outline')

theorem Alike.append {pairs : Token → Token → Prop} {stop stop' : Position}
    {front front' back back' : Outline} (h : Alike pairs stop stop' front front')
    (hback : Alike pairs stop stop' back back') :
    Alike pairs stop stop' (front ++ back) (front' ++ back') := by
  induction h with
  | nil => exact hback
  | cons hname hkind hdetail hstart hstop hselection hchildren _ _ ih =>
    exact .cons hname hkind hdetail hstart hstop hselection hchildren ih

/-! ## What a machine keeps -/

variable {options : Options} (pairing : Pairing options)

/-- The same symbol, and the details agree if they are shown. -/
structure Draft.Alike (draft draft' : Draft) : Prop where
  name_eq : draft.name = draft'.name
  detail_eq : options.includeDetails = true → draft.detail = draft'.detail
  kind_eq : draft.kind = draft'.kind
  start : StartAlike pairing.pairs draft.start draft'.start
  selection : RangeAlike pairing.pairs draft.selection draft'.selection
  children : Outline.Alike pairing.pairs pairing.stop pairing.stop'
    draft.children.toList draft'.children.toList

structure Frame.Alike (frame frame' : Frame) : Prop where
  symbol : Option.Rel (Draft.Alike pairing) frame.symbol frame'.symbol
  scope_eq : frame.scope = frame'.scope
  owner_eq : frame.owner = frame'.owner
  nesting_eq : frame.nesting = frame'.nesting

/-- Two tokens of a pair start at these bytes. -/
def ByteAlike (byte byte' : Nat) : Prop :=
  ∃ token token', pairing.pairs token token' ∧ token.span.start = byte ∧ token'.span.start = byte'

/-- The same header, with the tokens of pairs. -/
inductive Header.Alike : Header → Header → Prop
  | event {header header' : EventHeader} :
      pairing.pairs header.first header'.first →
      Option.Rel pairing.pairs header.name header'.name →
      Option.Rel (ByteAlike pairing) header.arguments header'.arguments →
      pairing.pairs header.last header'.last → Alike (.event header) (.event header')
  | declaration {header header' : DeclarationHeader} :
      pairing.pairs header.first header'.first → header.words = header'.words →
      Option.Rel pairing.pairs header.name header'.name →
      pairing.pairs header.last header'.last → Alike (.declaration header) (.declaration header')
  | parameters {list list' : ParameterList} :
      Draft.Alike pairing list.draft list'.draft → pairing.pairs list.first list'.first →
      list.parens = list'.parens → pairing.pairs list.last list'.last →
      Alike (.parameters list) (.parameters list')
  | awaitBody {draft draft' : Draft} {last last' : Token} :
      Draft.Alike pairing draft draft' → pairing.pairs last last' →
      Alike (.awaitBody draft last) (.awaitBody draft' last')
  | declarators {list list' : DeclaratorList} :
      Option.Rel (Draft.Alike pairing) list.current list'.current →
      (options.includeDetails = true → list.typeText = list'.typeText) →
      list.emit = list'.emit → list.parens = list'.parens → list.braces = list'.braces →
      list.afterGroup = list'.afterGroup → pairing.pairs list.last list'.last →
      Alike (.declarators list) (.declarators list')

inductive Phase.Alike : Phase → Phase → Prop
  | topLevel : Alike .topLevel .topLevel
  | inBody : Alike .inBody .inBody
  | inHeader {header header' : Header} :
      Header.Alike pairing header header' → Alike (.inHeader header) (.inHeader header')

/-- Two machines at the same place of the two texts. The second one had found the symbols of
`before` when it came to its text. -/
structure Machine.Alike (before : Outline) (machine machine' : Machine) : Prop where
  source_eq : machine.source = pairing.source
  source_eq' : machine'.source = pairing.source'
  options_eq : machine.options = options
  options_eq' : machine'.options = options
  phase : Phase.Alike pairing machine.phase machine'.phase
  stack : List.Forall₂ (Frame.Alike pairing) machine.stack.toList machine'.stack.toList
  roots : ∃ outline, machine'.roots.toList = before ++ outline ∧
    Outline.Alike pairing.pairs pairing.stop pairing.stop' machine.roots.toList outline

/-- Both steps use their token up, or neither does. -/
abbrev Step.Alike (before : Outline) : Step → Step → Prop :=
  Step.Pairs (Machine.Alike pairing before) (Machine.Alike pairing before)

/-! ## What the operations keep -/

variable {pairing} {before : Outline} {token token' other other' : Token}

theorem Draft.alike_ofTokens (kind : SymbolKind) {first first' : Token}
    {name name' : Option Token} (hfirst : pairing.pairs first first')
    (hname : Option.Rel pairing.pairs name name') :
    Draft.Alike pairing (ofTokens kind first name) (ofTokens kind first' name') := by
  cases hname with
  | none => exact ⟨rfl, fun _ => rfl, rfl, ⟨_, _, hfirst, rfl, rfl⟩, ⟨_, _, hfirst, rfl, rfl⟩, .nil⟩
  | some hname =>
    exact ⟨pairing.text_eq hname, fun _ => rfl, rfl, ⟨_, _, hfirst, rfl, rfl⟩,
      ⟨_, _, hname, rfl, rfl⟩, .nil⟩

theorem Draft.Alike.withDetail {draft draft' : Draft} (h : draft.Alike pairing draft')
    {detail detail' : Option String} (hdetail : options.includeDetails = true → detail = detail') :
    Draft.Alike pairing { draft with detail := detail } { draft' with detail := detail' } :=
  { h with detail_eq := hdetail }

/-- Whether two tokens stand on one line is the same for both texts. -/
theorem line_eq_iff (h : pairing.pairs token token') (hother : pairing.pairs other other') :
    token.line = other.line ↔ token'.line = other'.line := by
  have hbefore := pairing.line_lt h hother
  have hbehind := pairing.line_lt hother h
  omega

/-- Whether a token stands on a later line than the end of another is the same for both texts. -/
theorem decide_line_lt (h : pairing.pairs token token') (hother : pairing.pairs other other') :
    decide (token.range.stop.line < other.line) =
      decide (token'.range.stop.line < other'.line) := by
  have hlt := pairing.line_lt h hother
  obtain ⟨hline, hline'⟩ := pairing.stop_line h
  rw [hline, hline', decide_eq_decide]
  exact hlt

theorem isWord_eq (h : pairing.pairs token token') : token.isWord = token'.isWord := by
  unfold Token.isWord
  rw [pairing.kind_eq h]

theorem Draft.Alike.bodyScope_eq {draft draft' : Draft} (h : draft.Alike pairing draft') :
    draft.bodyScope = draft'.bodyScope := by
  unfold bodyScope
  rw [h.kind_eq]

theorem Draft.Alike.finish {draft draft' : Draft} (h : draft.Alike pairing draft')
    {stop stop' : Position}
    (hstop : StopAlike pairing.pairs pairing.stop pairing.stop' stop stop') :
    Outline.Alike pairing.pairs pairing.stop pairing.stop'
      [draft.finish options.includeDetails stop] [draft'.finish options.includeDetails stop'] := by
  refine .cons h.name_eq h.kind_eq ?_ h.start hstop h.selection h.children .nil
  unfold Draft.finish
  dsimp only
  split
  · exact h.detail_eq ‹_›
  · rfl

theorem Draft.Alike.adopt {draft draft' : Draft} (h : draft.Alike pairing draft')
    {child child' : Symbol}
    (hchild : Outline.Alike pairing.pairs pairing.stop pairing.stop' [child] [child']) :
    (draft.adopt child).Alike pairing (draft'.adopt child') := by
  refine { h with children := ?_ }
  unfold Draft.adopt
  dsimp only
  rw [Array.toList_push, Array.toList_push]
  exact h.children.append hchild

theorem Frame.Alike.adopt {frame frame' : Frame} (h : frame.Alike pairing frame')
    {child child' : Symbol}
    (hchild : Outline.Alike pairing.pairs pairing.stop pairing.stop' [child] [child']) :
    (frame.adopt child).Alike pairing (frame'.adopt child') := by
  refine { h with symbol := ?_ }
  have hsymbol := h.symbol
  unfold Frame.adopt
  dsimp only
  generalize frame.symbol = symbol at hsymbol ⊢
  generalize frame'.symbol = symbol' at hsymbol ⊢
  cases hsymbol with
  | none => exact .none
  | some hdraft => exact .some (hdraft.adopt hchild)

theorem isNone_eq_of_rel {α β : Type} {r : α → β → Prop} {o : Option α} {o' : Option β}
    (h : Option.Rel r o o') : o.isNone = o'.isNone := by
  cases h <;> rfl

theorem forall₂_modify {α β : Type} {r : α → β → Prop} {f : α → α} {g : β → β}
    (hfg : ∀ a b, r a b → r (f a) (g b)) {l : List α} {l' : List β} (h : List.Forall₂ r l l')
    (i : Nat) : List.Forall₂ r (l.modify i f) (l'.modify i g) := by
  induction h generalizing i with
  | nil => cases i <;> exact .nil
  | cons hab htail ih =>
    cases i with
    | zero => exact .cons (hfg _ _ hab) htail
    | succ i => exact .cons hab (ih i)

theorem rel_getLast? {α β : Type} {r : α → β → Prop} {l : List α} {l' : List β}
    (h : List.Forall₂ r l l') : Option.Rel r l.getLast? l'.getLast? := by
  have hreverse := List.rel_reverse h
  rw [← List.head?_reverse, ← List.head?_reverse]
  generalize l.reverse = k at hreverse ⊢
  generalize l'.reverse = k' at hreverse ⊢
  cases hreverse with
  | nil => exact .none
  | cons hab _ => exact .some hab

/-- What two related values agree in is the same, whether they are there or not. -/
theorem map_eq_of_rel {α β γ : Type} {r : α → β → Prop} {f : α → γ} {g : β → γ}
    (hfg : ∀ a b, r a b → f a = g b) {o : Option α} {o' : Option β} (h : Option.Rel r o o') :
    o.map f = o'.map g := by
  cases h with
  | none => rfl
  | some hab => exact congrArg some (hfg _ _ hab)

/-- The detail of an event is cut out of the same tokens. -/
theorem EventHeader.alike_draft {header header' : EventHeader}
    (h : (Header.event header).Alike pairing (.event header')) :
    (header.draft pairing.source).Alike pairing (header'.draft pairing.source') := by
  cases h with
  | event hfirst hname harguments hlast =>
    refine (Draft.alike_ofTokens .event hfirst hname).withDetail ?_
    intro hdetails
    congr 1
    refine map_eq_of_rel ?_ harguments
    rintro _ _ ⟨token, token', htoken, rfl, rfl⟩
    rw [(pairing.slice_eq hdetails htoken hlast).2]

theorem EventHeader.alike_add {header header' : EventHeader}
    (h : (Header.event header).Alike pairing (.event header'))
    (htoken : pairing.pairs token token') :
    (Header.event (header.add token)).Alike pairing (.event (header'.add token')) := by
  cases h with
  | event hfirst hname harguments hlast =>
    have hbyte : ByteAlike pairing token.span.start token'.span.start :=
      ⟨token, token', htoken, rfl, rfl⟩
    unfold EventHeader.add
    rw [← isWord_eq htoken, ← pairing.text_eq htoken]
    generalize header.name = name at hname ⊢
    generalize header'.name = name' at hname ⊢
    generalize header.arguments = arguments at harguments ⊢
    generalize header'.arguments = arguments' at harguments ⊢
    cases hname with
    | none =>
      cases harguments with
      | none =>
        split
        · exact .event hfirst (.some htoken) .none htoken
        · exact .event hfirst .none (.some hbyte) htoken
      | some hargument => exact .event hfirst .none (.some hargument) htoken
    | some hname =>
      cases harguments with
      | none => exact .event hfirst (.some hname) (.some hbyte) htoken
      | some hargument => exact .event hfirst (.some hname) (.some hargument) htoken

theorem DeclarationHeader.isFunction_eq {header header' : DeclarationHeader}
    (h : (Header.declaration header).Alike pairing (.declaration header')) :
    header.isFunction = header'.isFunction := by
  cases h with
  | declaration hfirst _ _ _ =>
    unfold isFunction
    rw [pairing.kind_eq hfirst]

theorem DeclarationHeader.hasDeclarator_eq {header header' : DeclarationHeader}
    (h : (Header.declaration header).Alike pairing (.declaration header')) :
    header.hasDeclarator = header'.hasDeclarator := by
  have hfunction := isFunction_eq h
  cases h with
  | declaration _ hwords _ _ =>
    unfold hasDeclarator
    rw [hwords, hfunction]

theorem DeclarationHeader.aggregate?_eq {header header' : DeclarationHeader}
    (h : (Header.declaration header).Alike pairing (.declaration header')) :
    header.aggregate? = header'.aggregate? := by
  cases h with
  | declaration hfirst _ _ _ =>
    unfold aggregate?
    rw [pairing.kind_eq hfirst]

theorem DeclarationHeader.endsAt_eq {header header' : DeclarationHeader}
    (h : (Header.declaration header).Alike pairing (.declaration header'))
    (htoken : pairing.pairs token token') : header.endsAt token = header'.endsAt token' := by
  cases h with
  | declaration _ _ _ hlast =>
    unfold endsAt
    rw [pairing.kind_eq htoken, decide_line_lt hlast htoken]

theorem DeclarationHeader.isConnector_eq (h : pairing.pairs token token') :
    isConnector token = isConnector token' := by
  unfold isConnector
  rw [pairing.kind_eq h, pairing.text_eq h]

/-- The signature of a function is cut out of the same tokens. -/
theorem ParameterList.alike_signed {list list' : ParameterList}
    (h : (Header.parameters list).Alike pairing (.parameters list'))
    (htoken : pairing.pairs token token') :
    (list.signed pairing.source token.span.stop).Alike pairing
      (list'.signed pairing.source' token'.span.stop) := by
  cases h with
  | parameters hdraft hfirst _ _ =>
    refine hdraft.withDetail ?_
    intro hdetails
    rw [(pairing.slice_eq hdetails hfirst htoken).2]

theorem DeclaratorList.isTop_eq {list list' : DeclaratorList}
    (h : (Header.declarators list).Alike pairing (.declarators list')) :
    list.isTop = list'.isTop := by
  cases h with
  | declarators _ _ _ hparens hbraces _ _ =>
    unfold isTop
    rw [hparens, hbraces]

theorem DeclaratorList.endsBefore_eq {list list' : DeclaratorList}
    (h : (Header.declarators list).Alike pairing (.declarators list'))
    (htoken : pairing.pairs token token') : list.endsBefore token = list'.endsBefore token' := by
  have htop := isTop_eq h
  cases h with
  | declarators _ _ _ _ hbraces hgroup hlast =>
    unfold endsBefore
    rw [htop, hbraces, hgroup, pairing.kind_eq htoken, decide_line_lt hlast htoken]

theorem DeclaratorList.alike_add {list list' : DeclaratorList}
    (h : (Header.declarators list).Alike pairing (.declarators list'))
    (htoken : pairing.pairs token token') :
    (Header.declarators (list.add token)).Alike pairing (.declarators (list'.add token')) := by
  cases h with
  | declarators hcurrent htype hemit hparens hbraces _ _ =>
    unfold add
    rw [hparens, hbraces, pairing.kind_eq htoken]
    exact .declarators hcurrent htype hemit rfl rfl rfl htoken

namespace Machine

variable {machine machine' : Machine}

theorem Alike.size_stack_eq (h : machine.Alike pairing before machine') :
    machine.stack.size = machine'.stack.size := by
  simpa using h.stack.length_eq

theorem Alike.rel_back? (h : machine.Alike pairing before machine') :
    Option.Rel (Frame.Alike pairing) machine.stack.back? machine'.stack.back? := by
  rw [← Array.getLast?_toList, ← Array.getLast?_toList]
  exact rel_getLast? h.stack

theorem Alike.owner_eq (h : machine.Alike pairing before machine') :
    machine.stack.back?.bind (·.owner) = machine'.stack.back?.bind (·.owner) := by
  have hback := h.rel_back?
  generalize machine.stack.back? = top at hback ⊢
  generalize machine'.stack.back? = top' at hback ⊢
  cases hback with
  | none => rfl
  | some hframe => exact hframe.owner_eq

theorem Alike.nesting_eq (h : machine.Alike pairing before machine') :
    (machine.stack.back?.map (·.nesting)).getD 0 =
      (machine'.stack.back?.map (·.nesting)).getD 0 := by
  rw [map_eq_of_rel (fun _ _ hframe => hframe.nesting_eq) h.rel_back?]

theorem scope_eq_getD (machine : Machine) :
    machine.scope = (machine.stack.back?.map (·.scope)).getD .topLevel := by
  unfold scope
  cases machine.stack.back? <;> rfl

theorem Alike.scope_eq (h : machine.Alike pairing before machine') :
    machine.scope = machine'.scope := by
  rw [scope_eq_getD, scope_eq_getD,
    map_eq_of_rel (fun _ _ hframe => hframe.scope_eq) h.rel_back?]

theorem Alike.reportsVariables_eq (h : machine.Alike pairing before machine') :
    machine.reportsVariables = machine'.reportsVariables := by
  unfold reportsVariables
  rw [h.scope_eq, h.options_eq, h.options_eq']

theorem Alike.settle (h : machine.Alike pairing before machine') :
    machine.settle.Alike pairing before machine'.settle := by
  refine { h with phase := ?_ }
  have hempty : machine.stack.isEmpty = machine'.stack.isEmpty := by
    rw [Array.isEmpty, Array.isEmpty, h.size_stack_eq]
  unfold Machine.settle
  dsimp only
  rw [hempty]
  split
  · exact .topLevel
  · exact .inBody

theorem Alike.readHeader (h : machine.Alike pairing before machine') {header header' : Header}
    (hheader : header.Alike pairing header') :
    (machine.readHeader header).Alike pairing before (machine'.readHeader header') :=
  { h with phase := .inHeader hheader }

theorem Alike.attach (h : machine.Alike pairing before machine') {draft draft' : Draft}
    (hdraft : draft.Alike pairing draft') {stop stop' : Position}
    (hstop : StopAlike pairing.pairs pairing.stop pairing.stop' stop stop') :
    (machine.attach draft stop).Alike pairing before (machine'.attach draft' stop') := by
  have hchild : Outline.Alike pairing.pairs pairing.stop pairing.stop'
      [draft.finish machine.options.includeDetails stop]
      [draft'.finish machine'.options.includeDetails stop'] := by
    rw [h.options_eq, h.options_eq']
    exact hdraft.finish hstop
  unfold Machine.attach
  dsimp only
  rw [h.owner_eq]
  split
  · rename_i owner _
    refine { h with stack := ?_ }
    dsimp only
    rw [Array.toList_modify, Array.toList_modify]
    exact forall₂_modify (fun _ _ hframe => hframe.adopt hchild) h.stack owner
  · refine { h with roots := ?_ }
    obtain ⟨outline, hroots, halike⟩ := h.roots
    refine ⟨outline ++ [draft'.finish machine'.options.includeDetails stop'], ?_, ?_⟩
    · dsimp only
      rw [Array.toList_push, hroots, List.append_assoc]
    · dsimp only
      rw [Array.toList_push]
      exact halike.append hchild

theorem Alike.close (h : machine.Alike pairing before machine') {draft draft' : Draft}
    (hdraft : draft.Alike pairing draft') {stop stop' : Position}
    (hstop : StopAlike pairing.pairs pairing.stop pairing.stop' stop stop') :
    (machine.close draft stop).Alike pairing before (machine'.close draft' stop') :=
  (h.attach hdraft hstop).settle

theorem Alike.push (h : machine.Alike pairing before machine') {symbol symbol' : Option Draft}
    (hsymbol : Option.Rel (Draft.Alike pairing) symbol symbol') (scope : Scope) :
    (machine.push symbol scope).Alike pairing before (machine'.push symbol' scope) := by
  refine { h with phase := .inBody, stack := ?_ }
  have hroom : ∀ n, Option.Rel (Draft.Alike pairing) (if n < maxNesting then symbol else none)
      (if n < maxNesting then symbol' else none) := by
    intro n
    split
    · exact hsymbol
    · exact .none
  unfold Machine.push
  dsimp only
  rw [Array.toList_push, Array.toList_push, h.owner_eq, h.nesting_eq, h.size_stack_eq]
  refine List.rel_append h.stack (.cons ?_ .nil)
  have hkept := hroom ((machine'.stack.back?.map (·.nesting)).getD 0)
  generalize (if _ < maxNesting then symbol else none) = symbol at hkept ⊢
  generalize (if _ < maxNesting then symbol' else none) = symbol' at hkept ⊢
  cases hkept with
  | none => exact ⟨.none, rfl, rfl, rfl⟩
  | some hdraft => exact ⟨.some hdraft, rfl, rfl, rfl⟩

theorem Alike.dropFrame (h : machine.Alike pairing before machine') :
    machine.dropFrame.Alike pairing before machine'.dropFrame := by
  refine { h with stack := ?_ }
  unfold Machine.dropFrame
  dsimp only
  rw [Array.toList_pop, Array.toList_pop, List.dropLast_eq_take, List.dropLast_eq_take,
    h.stack.length_eq]
  exact List.forall₂_take _ h.stack

theorem Alike.pop (h : machine.Alike pairing before machine') {stop stop' : Position}
    (hstop : StopAlike pairing.pairs pairing.stop pairing.stop' stop stop') :
    (machine.pop stop).Alike pairing before (machine'.pop stop') := by
  have hback := h.rel_back?
  unfold Machine.pop
  generalize machine.stack.back? = top at hback ⊢
  generalize machine'.stack.back? = top' at hback ⊢
  cases hback with
  | none => exact h.settle
  | some hframe =>
    have hsymbol := hframe.symbol
    dsimp only
    generalize Frame.symbol _ = symbol at hsymbol ⊢
    generalize Frame.symbol _ = symbol' at hsymbol ⊢
    cases hsymbol with
    | none => exact h.dropFrame.settle
    | some hdraft => exact h.dropFrame.close hdraft hstop

theorem Alike.report (h : machine.Alike pairing before machine') {list list' : DeclaratorList}
    (hlist : (Header.declarators list).Alike pairing (.declarators list')) {stop stop' : Position}
    (hstop : StopAlike pairing.pairs pairing.stop pairing.stop' stop stop') :
    (machine.report list stop).Alike pairing before (machine'.report list' stop') := by
  cases hlist with
  | declarators hcurrent htype hemit =>
    unfold Machine.report
    rw [hemit]
    generalize list.current = current at hcurrent ⊢
    generalize list'.current = current' at hcurrent ⊢
    cases hcurrent with
    | none => exact h
    | some hdraft =>
      dsimp only
      split
      · exact h.attach (hdraft.withDetail htype) hstop
      · exact h

theorem alike_start (pairing : Pairing options) :
    (start pairing.source options).Alike pairing [] (start pairing.source' options) :=
  ⟨rfl, rfl, rfl, rfl, .topLevel, .nil, [], rfl, .nil⟩

/-! ## One step -/

theorem stop_alike {token token' : Token} (h : pairing.pairs token token') :
    StopAlike pairing.pairs pairing.stop pairing.stop' token.range.stop token'.range.stop :=
  .inl ⟨token, token', h, rfl, rfl⟩

section Rules

variable {step : Step}

theorem ScanRule.alike {next : Machine} (hrule : machine.ScanRule token next)
    (h : machine.Alike pairing before machine') (htoken : pairing.pairs token token') :
    ∃ next', machine'.ScanRule token' next' ∧ next.Alike pairing before next' := by
  have hkinds := pairing.kind_eq htoken
  cases hrule with
  | event hkind =>
    exact ⟨_, .event (hkinds ▸ hkind), h.readHeader (.event htoken .none .none htoken)⟩
  | block hkind =>
    have hdraft := Draft.alike_ofTokens .container htoken (.some htoken)
    exact ⟨_, .block (hkinds ▸ hkind), h.readHeader (.awaitBody hdraft htoken)⟩
  | declaration hopens =>
    exact ⟨_, .declaration (hkinds ▸ hopens), h.readHeader (.declaration htoken rfl .none htoken)⟩
  | opens hkind =>
    refine ⟨_, .opens (hkinds ▸ hkind), ?_⟩
    rw [h.scope_eq]
    exact h.push .none _
  | closes hkind => exact ⟨_, .closes (hkinds ▸ hkind), h.pop (stop_alike htoken)⟩
  | passes hword hopen hclose =>
    rw [hkinds] at hopen hclose
    exact ⟨_, .passes (fun word => hkinds ▸ hword word) hopen hclose, h.settle⟩

theorem EventRule.alike {header header' : EventHeader} (hrule : machine.EventRule header token step)
    (h : machine.Alike pairing before machine')
    (hheader : (Header.event header).Alike pairing (.event header'))
    (htoken : pairing.pairs token token') :
    ∃ step', machine'.EventRule header' token' step' ∧ step.Alike pairing before step' := by
  have hkinds := pairing.kind_eq htoken
  have hdraft := EventHeader.alike_draft hheader
  rw [← h.source_eq, ← h.source_eq'] at hdraft
  have hadd := EventHeader.alike_add hheader htoken
  cases hheader with
  | event hfirst _ _ hlast =>
    have hline := line_eq_iff htoken hfirst
    cases hrule with
    | body hkind => exact ⟨_, .body (hkinds ▸ hkind), .consumed (h.push (.some hdraft) _)⟩
    | semicolon hkind =>
      exact ⟨_, .semicolon (hkinds ▸ hkind), .consumed (h.close hdraft (stop_alike htoken))⟩
    | ends hopen hsemicolon hends =>
      rw [hkinds] at hopen hsemicolon
      rw [hkinds, Ne, hline] at hends
      exact ⟨_, .ends hopen hsemicolon hends, .retry (h.close hdraft (stop_alike hlast))⟩
    | more hopen hsemicolon hclose hblock hsame =>
      rw [hkinds] at hopen hsemicolon hclose hblock
      exact ⟨_, .more hopen hsemicolon hclose hblock (hline.1 hsame), .consumed (h.readHeader hadd)⟩

theorem Alike.readDeclarators (h : machine.Alike pairing before machine')
    {header header' : DeclarationHeader}
    (hheader : (Header.declaration header).Alike pairing (.declaration header')) :
    (machine.readDeclarators header).Alike pairing before (machine'.readDeclarators header') := by
  cases hheader with
  | declaration hfirst _ hname hlast =>
    unfold Machine.readDeclarators
    rw [h.source_eq, h.source_eq', h.reportsVariables_eq]
    refine h.readHeader
      (.declarators (.some (Draft.alike_ofTokens _ hfirst hname)) ?_ rfl rfl rfl rfl hlast)
    intro hdetails
    refine map_eq_of_rel ?_ hname
    intro name name' hname
    rw [(pairing.slice_eq hdetails hfirst hname).1]

theorem DeclarationRule.alike {header header' : DeclarationHeader}
    (hrule : machine.DeclarationRule header token step)
    (h : machine.Alike pairing before machine')
    (hheader : (Header.declaration header).Alike pairing (.declaration header'))
    (htoken : pairing.pairs token token') :
    ∃ step', machine'.DeclarationRule header' token' step' ∧ step.Alike pairing before step' := by
  have hkinds := pairing.kind_eq htoken
  have hdeclarators := h.readDeclarators hheader
  have hdeclarator := DeclarationHeader.hasDeclarator_eq hheader
  have hendsAt := DeclarationHeader.endsAt_eq hheader htoken
  have haggregates := DeclarationHeader.aggregate?_eq hheader
  have hconnectors := DeclarationHeader.isConnector_eq htoken
  have hwords := isWord_eq htoken
  cases hheader with
  | declaration hfirst hcounts hname hlast =>
    cases hrule with
    | var hhas hends =>
      exact ⟨_, .var (hdeclarator ▸ hhas) (hendsAt ▸ hends), .retry hdeclarators⟩
    | word hends hblock hword =>
      rw [hdeclarator, hendsAt] at hends
      refine ⟨_, .word hends (hkinds ▸ hblock) (hwords ▸ hword), .consumed (h.readHeader ?_)⟩
      exact .declaration hfirst (congrArg (· + 1) hcounts) (.some htoken) htoken
    | connector hconnector =>
      exact ⟨_, .connector (hconnectors ▸ hconnector),
        .consumed (h.readHeader (.declaration hfirst hcounts hname htoken))⟩
    | function hkind hmany =>
      exact ⟨_, .function (hkinds ▸ hkind) (hcounts ▸ hmany), .consumed (h.readHeader
        (.parameters (Draft.alike_ofTokens _ hfirst hname) hfirst rfl htoken))⟩
    | aggregate hkind haggregate =>
      refine ⟨_, .aggregate (hkinds ▸ hkind) (haggregates ▸ haggregate),
        .consumed (h.push (.some (Draft.Alike.withDetail ?_ fun _ => haggregates)) _)⟩
      exact Draft.alike_ofTokens _ hfirst hname
    | nothing hends hnothing =>
      rw [hdeclarator, hendsAt] at hends
      rw [hkinds, hwords, hconnectors, hcounts, haggregates] at hnothing
      exact ⟨_, .nothing hends hnothing, .retry h.settle⟩

theorem ParametersRule.alike {list list' : ParameterList}
    (hrule : machine.ParametersRule list token step) (h : machine.Alike pairing before machine')
    (hlist : (Header.parameters list).Alike pairing (.parameters list'))
    (htoken : pairing.pairs token token') :
    ∃ step', machine'.ParametersRule list' token' step' ∧ step.Alike pairing before step' := by
  have hkinds := pairing.kind_eq htoken
  have hsigned : ∀ {last last' : Token}, pairing.pairs last last' →
      (list.signed machine.source last.span.stop).Alike pairing
        (list'.signed machine'.source last'.span.stop) := by
    rw [h.source_eq, h.source_eq']
    exact ParameterList.alike_signed hlist
  cases hlist with
  | parameters hdraft hfirst hparens hlast =>
    have hmore := congrArg (· + 1) hparens
    have hfewer := congrArg (· - 1) hparens
    cases hrule with
    | opens hkind =>
      exact ⟨_, .opens (hkinds ▸ hkind),
        .consumed (h.readHeader (.parameters hdraft hfirst hmore htoken))⟩
    | ends hkind hle =>
      exact ⟨_, .ends (hkinds ▸ hkind) (hparens ▸ hle),
        .consumed (h.readHeader (.awaitBody (hsigned htoken) htoken))⟩
    | closes hkind hlt =>
      exact ⟨_, .closes (hkinds ▸ hkind) (hparens ▸ hlt),
        .consumed (h.readHeader (.parameters hdraft hfirst hfewer htoken))⟩
    | cut hkind =>
      exact ⟨_, .cut (hkinds ▸ hkind), .retry (h.readHeader (.awaitBody (hsigned hlast) hlast))⟩
    | takes hopen hclose hcut =>
      rw [hkinds] at hopen hclose hcut
      exact ⟨_, .takes hopen hclose hcut,
        .consumed (h.readHeader (.parameters hdraft hfirst hparens htoken))⟩

theorem BodyRule.alike {draft draft' : Draft} {last last' : Token}
    (hrule : machine.BodyRule draft last token step) (h : machine.Alike pairing before machine')
    (hdraft : draft.Alike pairing draft') (hlast : pairing.pairs last last')
    (htoken : pairing.pairs token token') :
    ∃ step', machine'.BodyRule draft' last' token' step' ∧ step.Alike pairing before step' := by
  have hkinds := pairing.kind_eq htoken
  cases hrule with
  | body hkind =>
    refine ⟨_, .body (hkinds ▸ hkind), .consumed ?_⟩
    rw [hdraft.bodyScope_eq]
    exact h.push (.some hdraft) _
  | semicolon hkind =>
    exact ⟨_, .semicolon (hkinds ▸ hkind), .consumed (h.close hdraft (stop_alike htoken))⟩
  | ends hopen hsemicolon =>
    rw [hkinds] at hopen hsemicolon
    exact ⟨_, .ends hopen hsemicolon, .retry (h.close hdraft (stop_alike hlast))⟩

theorem DeclaratorsRule.alike {list list' : DeclaratorList}
    (hrule : machine.DeclaratorsRule list token step) (h : machine.Alike pairing before machine')
    (hlist : (Header.declarators list).Alike pairing (.declarators list'))
    (htoken : pairing.pairs token token') :
    ∃ step', machine'.DeclaratorsRule list' token' step' ∧ step.Alike pairing before step' := by
  have hkinds := pairing.kind_eq htoken
  have hadd := DeclaratorList.alike_add hlist htoken
  have hreport : ∀ {stop stop' : Position},
      StopAlike pairing.pairs pairing.stop pairing.stop' stop stop' →
      (machine.report list stop).Alike pairing before (machine'.report list' stop') :=
    fun hstop => h.report hlist hstop
  have htops := DeclaratorList.isTop_eq hlist
  have hendsBefore := DeclaratorList.endsBefore_eq hlist htoken
  have hwords := isWord_eq htoken
  cases hlist with
  | declarators hcurrent htype hemit hparens hbraces hgroup hlast =>
    have hnone := isNone_eq_of_rel hcurrent
    cases hrule with
    | semicolon hkind =>
      exact ⟨_, .semicolon (hkinds ▸ hkind), .consumed (hreport (stop_alike htoken)).settle⟩
    | ends hends =>
      exact ⟨_, .ends (hendsBefore ▸ hends), .retry (hreport (stop_alike hlast)).settle⟩
    | comma hkind htop =>
      refine ⟨_, .comma (hkinds ▸ hkind) (htops ▸ htop),
        .consumed ((hreport (stop_alike hlast)).readHeader ?_)⟩
      exact DeclaratorList.alike_add
        (.declarators .none htype hemit hparens hbraces hgroup hlast) htoken
    | name hends htop hno hword =>
      have hno' : list'.current = none := by
        rwa [← Option.isNone_iff_eq_none, ← hnone, Option.isNone_iff_eq_none]
      refine ⟨_, .name (hendsBefore ▸ hends) (htops ▸ htop) hno' (hwords ▸ hword),
        .consumed (h.readHeader (DeclaratorList.alike_add
          (.declarators (.some ?_) htype hemit hparens hbraces hgroup hlast) htoken))⟩
      exact Draft.alike_ofTokens _ htoken (.some htoken)
    | takes hsemicolon hends hcomma hname =>
      rw [hkinds] at hsemicolon hcomma
      rw [htops] at hcomma hname
      rw [hnone, hwords] at hname
      exact ⟨_, .takes hsemicolon (hendsBefore ▸ hends) hcomma hname,
        .consumed (h.readHeader hadd)⟩

theorem Alike.exists_header (h : machine.Alike pairing before machine') {header : Header}
    (hphase : machine.phase = .inHeader header) :
    ∃ header', machine'.phase = .inHeader header' ∧ header.Alike pairing header' := by
  have hphases := h.phase
  rw [hphase] at hphases
  generalize machine'.phase = phase' at hphases
  cases hphases with
  | inHeader hheader => exact ⟨_, rfl, hheader⟩

theorem Alike.phase_ne (h : machine.Alike pairing before machine')
    (hphase : ∀ header, machine.phase ≠ .inHeader header) (header : Header) :
    machine'.phase ≠ .inHeader header := by
  intro hphase'
  have hphases := h.phase
  rw [hphase'] at hphases
  generalize machine.phase = phase at hphases hphase
  cases hphases with
  | inHeader _ => exact hphase _ rfl

theorem Rule.alike (hrule : machine.Rule token step) (h : machine.Alike pairing before machine')
    (htoken : pairing.pairs token token') :
    ∃ step', machine'.Rule token' step' ∧ step.Alike pairing before step' := by
  cases hrule with
  | scan hphase hrule =>
    obtain ⟨next', hrule', hnext⟩ := hrule.alike h htoken
    exact ⟨_, .scan (h.phase_ne hphase) hrule', .consumed hnext⟩
  | event hphase hrule =>
    obtain ⟨header', hphase', hheader⟩ := h.exists_header hphase
    cases hheader with
    | event hfirst hname harguments hlast =>
      obtain ⟨step', hrule', hstep⟩ :=
        hrule.alike h (.event hfirst hname harguments hlast) htoken
      exact ⟨step', .event hphase' hrule', hstep⟩
  | declaration hphase hrule =>
    obtain ⟨header', hphase', hheader⟩ := h.exists_header hphase
    cases hheader with
    | declaration hfirst hwords hname hlast =>
      obtain ⟨step', hrule', hstep⟩ :=
        hrule.alike h (.declaration hfirst hwords hname hlast) htoken
      exact ⟨step', .declaration hphase' hrule', hstep⟩
  | parameters hphase hrule =>
    obtain ⟨header', hphase', hheader⟩ := h.exists_header hphase
    cases hheader with
    | parameters hdraft hfirst hparens hlast =>
      obtain ⟨step', hrule', hstep⟩ :=
        hrule.alike h (.parameters hdraft hfirst hparens hlast) htoken
      exact ⟨step', .parameters hphase' hrule', hstep⟩
  | body hphase hrule =>
    obtain ⟨header', hphase', hheader⟩ := h.exists_header hphase
    cases hheader with
    | awaitBody hdraft hlast =>
      obtain ⟨step', hrule', hstep⟩ := hrule.alike h hdraft hlast htoken
      exact ⟨step', .body hphase' hrule', hstep⟩
  | declarators hphase hrule =>
    obtain ⟨header', hphase', hheader⟩ := h.exists_header hphase
    cases hheader with
    | declarators hcurrent htype hemit hparens hbraces hgroup hlast =>
      obtain ⟨step', hrule', hstep⟩ :=
        hrule.alike h (.declarators hcurrent htype hemit hparens hbraces hgroup hlast) htoken
      exact ⟨step', .declarators hphase' hrule', hstep⟩

end Rules

/-- The two machines may have counted differently. -/
theorem Alike.step (h : machine.Alike pairing before machine')
    (htoken : pairing.pairs token token') :
    (machine.step token).Alike pairing before (machine'.step token') := by
  have hcounted : Alike pairing before { machine with steps := machine.steps + 1 }
      { machine' with steps := machine'.steps + 1 } := { h with }
  obtain ⟨step', hrule', hstep⟩ := (machine.step_rule token).alike hcounted htoken
  rwa [step_eq_iff.2 hrule']

/-! ## All tokens -/

theorem Alike.feed (h : machine.Alike pairing before machine')
    (htoken : pairing.pairs token token') :
    (machine.feed token).Alike pairing before (machine'.feed token') :=
  feed_pairs (fun _ _ hmachines => hmachines.step htoken) h

theorem Alike.foldl_feed (h : machine.Alike pairing before machine') {tokens tokens' : List Token}
    (htokens : List.Forall₂ pairing.pairs tokens tokens') :
    (tokens.foldl Machine.feed machine).Alike pairing before
      (tokens'.foldl Machine.feed machine') := by
  induction htokens generalizing machine machine' with
  | nil => exact h
  | cons htoken _ ih => exact ih (h.feed htoken)

/-! ## The end of the texts -/

theorem Alike.leave (h : machine.Alike pairing before machine') :
    machine.leave.Alike pairing before machine'.leave :=
  { h with phase := .topLevel }

theorem EndRule.alike {next : Machine} (hrule : machine.EndRule next)
    (h : machine.Alike pairing before machine') :
    ∃ next', machine'.EndRule next' ∧ next.Alike pairing before next' := by
  have hleave := h.leave
  cases hrule with
  | outside hphase => exact ⟨_, .outside (h.phase_ne hphase), hleave⟩
  | event hphase =>
    obtain ⟨header', hphase', hheader⟩ := h.exists_header hphase
    cases hheader with
    | event hfirst hname harguments hlast =>
      have hdraft := EventHeader.alike_draft (.event hfirst hname harguments hlast)
      rw [← h.source_eq, ← h.source_eq'] at hdraft
      exact ⟨_, .event hphase', hleave.attach hdraft (stop_alike hlast)⟩
  | word hphase hfew =>
    obtain ⟨header', hphase', hheader⟩ := h.exists_header hphase
    cases hheader with
    | declaration _ hwords _ _ => exact ⟨_, .word hphase' (hwords ▸ hfew), hleave⟩
  | function hphase hmany hmarker =>
    obtain ⟨header', hphase', hheader⟩ := h.exists_header hphase
    cases hheader with
    | declaration hfirst hwords hname hlast =>
      have hsame := DeclarationHeader.isFunction_eq (.declaration hfirst hwords hname hlast)
      exact ⟨_, .function hphase' (hwords ▸ hmany) (hsame ▸ hmarker),
        hleave.attach (Draft.alike_ofTokens _ hfirst hname) (stop_alike hlast)⟩
  | var hphase hmany hmarker hreports =>
    obtain ⟨header', hphase', hheader⟩ := h.exists_header hphase
    rw [h.reportsVariables_eq] at hreports
    cases hheader with
    | declaration hfirst hwords hname hlast =>
      have hsame := DeclarationHeader.isFunction_eq (.declaration hfirst hwords hname hlast)
      exact ⟨_, .var hphase' (hwords ▸ hmany) (hsame ▸ hmarker) hreports,
        hleave.attach (Draft.alike_ofTokens _ hfirst hname) (stop_alike hlast)⟩
  | hidden hphase hmany hmarker hreports =>
    obtain ⟨header', hphase', hheader⟩ := h.exists_header hphase
    rw [h.reportsVariables_eq] at hreports
    cases hheader with
    | declaration hfirst hwords hname hlast =>
      have hsame := DeclarationHeader.isFunction_eq (.declaration hfirst hwords hname hlast)
      exact ⟨_, .hidden hphase' (hwords ▸ hmany) (hsame ▸ hmarker) hreports, hleave⟩
  | parameters hphase =>
    obtain ⟨header', hphase', hheader⟩ := h.exists_header hphase
    cases hheader with
    | parameters hdraft hfirst hparens hlast =>
      have hsigned := ParameterList.alike_signed (.parameters hdraft hfirst hparens hlast) hlast
      rw [← h.source_eq, ← h.source_eq'] at hsigned
      exact ⟨_, .parameters hphase', hleave.attach hsigned (stop_alike hlast)⟩
  | body hphase =>
    obtain ⟨header', hphase', hheader⟩ := h.exists_header hphase
    cases hheader with
    | awaitBody hdraft hlast => exact ⟨_, .body hphase', hleave.attach hdraft (stop_alike hlast)⟩
  | declarators hphase =>
    obtain ⟨header', hphase', hheader⟩ := h.exists_header hphase
    cases hheader with
    | declarators hcurrent htype hemit hparens hbraces hgroup hlast =>
      exact ⟨_, .declarators hphase', hleave.report
        (.declarators hcurrent htype hemit hparens hbraces hgroup hlast) (stop_alike hlast)⟩

theorem Alike.endHeader (h : machine.Alike pairing before machine') :
    machine.endHeader.Alike pairing before machine'.endHeader := by
  obtain ⟨next', hrule', hnext⟩ := machine.end_rule.alike h
  rwa [endHeader_eq_iff.2 hrule']

/-- What is still open at the end of both texts is closed there. -/
theorem Alike.finish (h : machine.Alike pairing before machine') :
    (machine.finish pairing.stop).Alike pairing before (machine'.finish pairing.stop') := by
  have hend := h.endHeader
  have hpops : ∀ n, Alike pairing before
      (Nat.repeat (Machine.pop pairing.stop) n machine.endHeader)
      (Nat.repeat (Machine.pop pairing.stop') n machine'.endHeader) := by
    intro n
    induction n with
    | zero => exact hend
    | succ n ih => exact ih.pop (.inr ⟨rfl, rfl⟩)
  have hfinish := hpops machine.endHeader.stack.size
  nth_rewrite 2 [hend.size_stack_eq] at hfinish
  exact hfinish

end Machine

end CaplOutline.Outline
