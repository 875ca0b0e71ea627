-- The blocks of variables and includes in an outline. A word that opens a block ends
-- whatever header is being read, and is reported, with one exception: the parameters of
-- a function take it in as they take any other word. So a block is lost if the closing
-- parenthesis before it is missing, and for no other reason.
import CaplOutline.Proofs.Outline.Marks
import CaplOutline.Proofs.Outline.Places

namespace CaplOutline

/-! ## Words that open blocks -/

/-- The words that open a block of variables or of includes. -/
def TokenKind.isBlockWord : TokenKind → Bool
  | keyword .variableBlock | keyword .includeBlock => true
  | _ => false

theorem TokenKind.opensBlock_of_isBlockWord {kind : TokenKind} (h : kind.isBlockWord = true) :
    kind.opensBlock = true := by
  unfold isBlockWord at h
  split at h
  · rfl
  · rfl
  · cases h

/-- Where the words that open blocks start. -/
def Token.blockStarts (tokens : List Token) : List Position :=
  (tokens.filter (·.kind.isBlockWord)).map (·.range.start)

@[simp]
theorem Token.blockStarts_append (tokens tokens' : List Token) :
    blockStarts (tokens ++ tokens') = blockStarts tokens ++ blockStarts tokens' := by
  simp [blockStarts]

theorem Token.blockStarts_of_word {token : Token} (h : token.kind.isBlockWord = true) :
    blockStarts [token] = [token.range.start] := by
  simp [blockStarts, h]

theorem Token.blockStarts_of_other {token : Token} (h : token.kind.isBlockWord = false) :
    blockStarts [token] = [] := by
  simp [blockStarts, h]

/-! ## Blocks among the symbols -/

/-- The names of blocks are the words that open them. -/
def blockNames : List String := ["variables", "includes"]

/-- A block is a container that is named by its first word. -/
def Mark.isBlock (mark : Mark) : Bool :=
  mark.kind == .container && blockNames.contains mark.name && mark.selection.start == mark.start

/-- Where the blocks of an outline start, each one before those inside it. -/
def Outline.blockStarts (outline : Outline) : List Position :=
  ((marks outline).filter (·.isBlock)).map (·.start)

/-- Only the words that open blocks are spelled like the names of blocks. -/
theorem Token.Spelled.isBlockWord {token : Token} (h : token.Spelled)
    (hword : token.isWord = true) : token.kind.isBlockWord = blockNames.contains token.text := by
  have hkind := (h hword).2
  by_cases hvariables : token.text = "variables"
  · rw [hvariables] at hkind ⊢
    rw [hkind]
    decide
  · by_cases hincludes : token.text = "includes"
    · rw [hincludes] at hkind ⊢
      rw [hkind]
      decide
    · have hother : blockNames.contains token.text = false := by
        simp [blockNames, hvariables, hincludes]
      rw [hother, hkind]
      unfold Keyword.ofWord?
      split
      all_goals try rfl
      · exact absurd ‹_› hvariables
      · exact absurd ‹_› hincludes
      · split <;> rfl

namespace Outline

/-! ## Marks of blocks -/

/-- Where the blocks among the marks start. -/
def blocks (marks : List Mark) : List Position := (marks.filter (·.isBlock)).map (·.start)

@[simp]
theorem blocks_append (marks marks' : List Mark) :
    blocks (marks ++ marks') = blocks marks ++ blocks marks' := by
  simp [blocks]

theorem blocks_of_block {mark : Mark} (h : mark.isBlock = true) : blocks [mark] = [mark.start] := by
  simp [blocks, h]

theorem blocks_of_other {mark : Mark} (h : mark.isBlock = false) : blocks [mark] = [] := by
  simp [blocks, h]

/-- Only a container is a block. -/
theorem Draft.Fresh.blocks_mark {draft : Draft} {kinds : List SymbolKind} (h : draft.Fresh kinds)
    (hkinds : .container ∉ kinds) : blocks [draft.mark] = [] := by
  apply blocks_of_other
  have hkind : draft.kind ≠ .container := fun hkind => hkinds (hkind ▸ h.2)
  simp [Mark.isBlock, Draft.mark, hkind]

/-- A word that opens a block makes a block of its own. -/
theorem Draft.blocks_ofTokens {token : Token} (hspelled : token.Spelled)
    (h : token.kind.isBlockWord = true) :
    blocks [(Draft.ofTokens .container token (some token)).mark] = Token.blockStarts [token] := by
  have hword : token.isWord = true :=
    TokenKind.isWord_of_opensBlock (TokenKind.opensBlock_of_isBlockWord h)
  have hname : blockNames.contains token.text = true := by
    rw [← hspelled.isBlockWord hword]
    exact h
  have hblock : (Draft.ofTokens .container token (some token)).mark.isBlock = true := by
    unfold Mark.isBlock
    change (true && blockNames.contains token.text && _) = true
    rw [hname]
    exact beq_self_eq_true token.range.start
  rw [Token.blockStarts_of_word h, blocks_of_block hblock]
  rfl

/-- A container that is named by another word than its first one is no block. -/
theorem Draft.blocks_container {first : Token} {name : Option Token}
    (hname : ∀ word ∈ name, blockNames.contains word.text = false) (detail : Option String) :
    blocks [Draft.mark { ofTokens .container first name with detail }] = [] := by
  apply blocks_of_other
  have hother : blockNames.contains ((name.map (·.text)).getD unnamed) = false := by
    cases name with
    | none => decide
    | some word => exact hname word rfl
  unfold Mark.isBlock
  change (_ && blockNames.contains ((name.map (·.text)).getD unnamed) && _) = false
  rw [hother, Bool.and_false, Bool.false_and]

/-! ## Blocks that the machine has noted -/

/-- The block that waits for its body. -/
def Header.block : Header → List Position
  | .awaitBody draft _ => blocks [draft.mark]
  | _ => []

def Phase.block : Phase → List Position
  | .inHeader header => header.block
  | _ => []

/-- Behind these tokens so many parentheses are open, from one of them on, and nothing but
parameters has followed it. -/
inductive OpenParens : Nat → List Token → Prop
  | first {front : List Token} {token : Token} :
      token.kind = .openParen → OpenParens 1 (front ++ [token])
  | opened {parens : Nat} {tokens : List Token} {token : Token} :
      OpenParens parens tokens → token.kind = .openParen →
      OpenParens (parens + 1) (tokens ++ [token])
  | closed {parens : Nat} {tokens : List Token} {token : Token} :
      OpenParens (parens + 2) tokens → token.kind = .closeParen →
      OpenParens (parens + 1) (tokens ++ [token])
  | parameter {parens : Nat} {tokens : List Token} {token : Token} :
      OpenParens parens tokens →
      token.kind ∉ [.openParen, .closeParen, .openBrace, .closeBrace, .semicolon, .keyword .on] →
      OpenParens parens (tokens ++ [token])

/-- The name of a struct or an enum is not the name of a block, and the parameters of a function are
behind an open parenthesis. -/
def Header.Follows (seen : List Token) : Header → Prop
  | .declaration header => ∀ name ∈ header.name, blockNames.contains name.text = false
  | .parameters list => 1 ≤ list.parens ∧ OpenParens list.parens seen
  | _ => True

namespace Machine

/-- The blocks among the symbols, and the one that waits for its body. -/
def noted (machine : Machine) : List Position :=
  blocks machine.spine.marks ++ machine.phase.block

/-- What is known of the header that is read behind these tokens. -/
def Follows (seen : List Token) (machine : Machine) : Prop :=
  ∀ header, machine.phase = .inHeader header → header.Follows seen

/-- The parameters of a function are being read. -/
def readsParameters (machine : Machine) : Bool :=
  match machine.phase with
  | .inHeader (.parameters _) => true
  | _ => false

variable {machine : Machine} {token : Token} {seen : List Token} {step : Step}

theorem noted_of_block (h : machine.phase.block = []) :
    machine.noted = blocks machine.spine.marks := by
  unfold noted
  rw [h, List.append_nil]

theorem noted_of_no_header (h : ∀ header, machine.phase ≠ .inHeader header) :
    machine.noted = blocks machine.spine.marks := by
  apply noted_of_block
  cases hphase : machine.phase with
  | inHeader header => exact absurd hphase (h header)
  | _ => rfl

theorem noted_settle (machine : Machine) : machine.settle.noted = blocks machine.spine.marks :=
  noted_of_no_header (settle_phase_ne machine)

theorem noted_readHeader (machine : Machine) (header : Header) :
    (machine.readHeader header).noted = blocks machine.spine.marks ++ header.block := rfl

theorem noted_push_none (h : Stacked machine.frames) (scope : Scope) :
    (machine.push none scope).noted = blocks machine.spine.marks := by
  rw [← spine_push_none h scope]
  exact List.append_nil _

theorem noted_push (h : Stacked machine.frames) (hroom : machine.spine.drafts.length < maxNesting)
    {draft : Draft} (hchildren : draft.children = #[]) (scope : Scope) :
    (machine.push (some draft) scope).noted =
      blocks machine.spine.marks ++ blocks [draft.mark] := by
  refine Eq.trans (List.append_nil _) ?_
  rw [spine_push_some h, Spine.marks_push hroom hchildren, blocks_append]

theorem noted_close (h : Stacked machine.frames) {draft : Draft} {kinds : List SymbolKind}
    (hfresh : draft.Fresh kinds) (stop : Position) :
    (machine.close draft stop).noted = blocks machine.spine.marks ++ blocks [draft.mark] := by
  rw [close, noted_settle, marks_attach h hfresh, blocks_append]

theorem blocks_report (h : Stacked machine.frames) {list : DeclaratorList}
    (hfresh : (Header.declarators list).Fresh) (stop : Position) :
    blocks (machine.report list stop).spine.marks = blocks machine.spine.marks := by
  unfold report
  split
  · rename_i draft hcurrent
    split
    · have hdraft : Draft.Fresh { draft with detail := list.typeText } [.var] :=
        (hfresh draft hcurrent).withDetail _ (fun _ => id)
      rw [marks_attach h hdraft, blocks_append, hdraft.blocks_mark (by simp), List.append_nil]
    · rfl
  · rfl

/-! ## One step -/

/-- A step notes no more than its token, and forgets no block. A token is not handled again inside
the parameters of a function. -/
def Notes (machine : Machine) (token : Token) (step : Step) : Prop :=
  step.Ends (fun machine' => machine'.noted = machine.noted ∧ machine'.readsParameters = false)
    (fun machine' => machine'.noted = machine.noted ++ Token.blockStarts [token])

theorem readsParameters_settle (machine : Machine) : machine.settle.readsParameters = false := by
  unfold readsParameters
  split
  · rename_i hphase
    exact absurd hphase (settle_phase_ne machine _)
  · rfl

theorem ScanRule.noted {next : Machine} (hrule : machine.ScanRule token next)
    (h : Stacked machine.frames) (hspelled : token.Spelled) :
    next.noted = blocks machine.spine.marks ++ Token.blockStarts [token] := by
  have hother : ∀ kind, token.kind = kind → kind.isBlockWord = false →
      Token.blockStarts [token] = [] := by
    intro kind hkind hword
    exact Token.blockStarts_of_other (hkind ▸ hword)
  cases hrule with
  | event hkind =>
    rw [noted_readHeader, hother _ hkind rfl]
    rfl
  | block hkind =>
    have hword : token.kind.isBlockWord = true := by
      rcases hkind with hkind | hkind <;> rw [hkind] <;> rfl
    rw [noted_readHeader, ← Draft.blocks_ofTokens hspelled hword]
    rfl
  | declaration hopens =>
    have hword : token.kind.isBlockWord = false := by
      unfold TokenKind.opensDeclaration at hopens
      split at hopens <;> simp_all [TokenKind.isBlockWord]
    rw [noted_readHeader, Token.blockStarts_of_other hword]
    rfl
  | opens hkind => rw [noted_push_none h, hother _ hkind rfl, List.append_nil]
  | closes hkind =>
    rw [← settle_pop, noted_settle, marks_pop h, hother _ hkind rfl, List.append_nil]
  | passes hword _ _ =>
    have hplain : token.kind.isBlockWord = false := by
      cases hkind : token.kind with
      | keyword word => exact absurd hkind (hword word)
      | _ => rfl
    rw [noted_settle, Token.blockStarts_of_other hplain, List.append_nil]

/-- Reading on with another header, of no block, notes nothing. -/
theorem noted_take (hnoted : machine.noted = blocks machine.spine.marks) {header : Header}
    (hblock : header.block = []) (hword : token.kind.isBlockWord = false) :
    (machine.readHeader header).noted = machine.noted ++ Token.blockStarts [token] := by
  rw [noted_readHeader, hblock, hnoted, Token.blockStarts_of_other hword, List.append_nil]

theorem isBlockWord_of_not_opensBlock (h : token.kind.opensBlock = false) :
    token.kind.isBlockWord = false := by
  rw [Bool.eq_false_iff] at h ⊢
  exact fun hword => h (TokenKind.opensBlock_of_isBlockWord hword)

theorem EventRule.notes {header : EventHeader} (hrule : machine.EventRule header token step)
    (h : Stacked machine.frames)
    (hroom : token.kind = .openBrace → machine.spine.drafts.length < maxNesting)
    (hnoted : machine.noted = blocks machine.spine.marks) : Notes machine token step := by
  have hfresh := header.fresh_draft machine.source
  have hevent : blocks [(header.draft machine.source).mark] = [] := hfresh.blocks_mark (by simp)
  have hclose : ∀ stop,
      (machine.close (header.draft machine.source) stop).noted = machine.noted := by
    intro stop
    rw [noted_close h hfresh, hevent, List.append_nil, hnoted]
  cases hrule with
  | body hkind =>
    change (machine.push _ _).noted = _
    rw [noted_push h (hroom hkind) hfresh.1, hevent, ← hnoted,
      Token.blockStarts_of_other (by rw [hkind]; rfl)]
  | semicolon hkind =>
    change (machine.close _ _).noted = _
    rw [hclose, Token.blockStarts_of_other (by rw [hkind]; rfl), List.append_nil]
  | ends => exact ⟨hclose _, readsParameters_settle _⟩
  | more _ _ _ hblock => exact noted_take hnoted rfl (isBlockWord_of_not_opensBlock hblock)

theorem DeclarationRule.notes {header : DeclarationHeader}
    (hrule : machine.DeclarationRule header token step) (h : Stacked machine.frames)
    (hroom : token.kind = .openBrace → machine.spine.drafts.length < maxNesting)
    (hnoted : machine.noted = blocks machine.spine.marks)
    (hname : ∀ word ∈ header.name, blockNames.contains word.text = false) :
    Notes machine token step := by
  cases hrule with
  | var =>
    refine ⟨?_, rfl⟩
    rw [readDeclarators, noted_readHeader, hnoted]
    exact List.append_nil _
  | word _ hblock => exact noted_take hnoted rfl (isBlockWord_of_not_opensBlock hblock)
  | connector hconnector =>
    have hblock := (not_ends_of_isConnector header hconnector).2.1
    exact noted_take hnoted rfl (isBlockWord_of_not_opensBlock hblock)
  | function hkind => exact noted_take hnoted rfl (by rw [hkind]; rfl)
  | aggregate hkind =>
    change (machine.push _ _).noted = _
    rw [noted_push h (hroom hkind) rfl, Draft.blocks_container hname, ← hnoted,
      Token.blockStarts_of_other (by rw [hkind]; rfl)]
  | nothing =>
    refine ⟨?_, readsParameters_settle _⟩
    rw [noted_settle, hnoted]

theorem ParametersRule.notes {list : ParameterList} (hrule : machine.ParametersRule list token step)
    (hnoted : machine.noted = blocks machine.spine.marks)
    (hfresh : (Header.parameters list).Fresh) (hword : token.kind.isBlockWord = false) :
    Notes machine token step := by
  have hsigned : ∀ (stop : Nat) (last : Token),
      (Header.awaitBody (list.signed machine.source stop) last).block = [] := by
    intro stop last
    exact (ParameterList.fresh_signed hfresh _ stop).blocks_mark (by simp)
  cases hrule with
  | opens | closes | takes => exact noted_take hnoted rfl hword
  | ends => exact noted_take hnoted (hsigned _ _) hword
  | cut =>
    refine ⟨?_, rfl⟩
    rw [noted_readHeader, hsigned, List.append_nil, hnoted]

theorem BodyRule.notes {draft : Draft} {last : Token}
    (hrule : machine.BodyRule draft last token step) (h : Stacked machine.frames)
    (hroom : token.kind = .openBrace → machine.spine.drafts.length < maxNesting)
    (hphase : machine.phase = .inHeader (.awaitBody draft last))
    (hfresh : (Header.awaitBody draft last).Fresh) : Notes machine token step := by
  have hnoted : machine.noted = blocks machine.spine.marks ++ blocks [draft.mark] := by
    unfold noted
    rw [hphase]
    rfl
  have hclose : ∀ stop, (machine.close draft stop).noted = machine.noted := by
    intro stop
    rw [noted_close h hfresh, hnoted]
  cases hrule with
  | body hkind =>
    change (machine.push _ _).noted = _
    rw [noted_push h (hroom hkind) hfresh.1, ← hnoted,
      Token.blockStarts_of_other (by rw [hkind]; rfl), List.append_nil]
  | semicolon hkind =>
    change (machine.close _ _).noted = _
    rw [hclose, Token.blockStarts_of_other (by rw [hkind]; rfl), List.append_nil]
  | ends => exact ⟨hclose _, readsParameters_settle _⟩

/-- A word that opens a block ends every list of declarators. -/
theorem isBlockWord_of_not_endsBefore {list : DeclaratorList}
    (h : list.endsBefore token = false) : token.kind.isBlockWord = false := by
  apply isBlockWord_of_not_opensBlock
  unfold DeclaratorList.endsBefore at h
  split at h <;> simp_all [TokenKind.opensBlock]

theorem DeclaratorsRule.notes {list : DeclaratorList}
    (hrule : machine.DeclaratorsRule list token step) (h : Stacked machine.frames)
    (hnoted : machine.noted = blocks machine.spine.marks)
    (hfresh : (Header.declarators list).Fresh) : Notes machine token step := by
  have hreport : ∀ stop, blocks (machine.report list stop).spine.marks = machine.noted := by
    intro stop
    rw [blocks_report h hfresh, hnoted]
  cases hrule with
  | semicolon hkind =>
    change (Machine.settle _).noted = _
    rw [noted_settle, hreport, Token.blockStarts_of_other (by rw [hkind]; rfl), List.append_nil]
  | ends =>
    refine ⟨?_, readsParameters_settle _⟩
    rw [noted_settle, hreport]
  | comma hkind =>
    change (Machine.readHeader _ _).noted = _
    rw [noted_readHeader, hreport, Token.blockStarts_of_other (by rw [hkind]; rfl)]
    rfl
  | name hends | takes _ hends =>
    exact noted_take hnoted rfl (isBlockWord_of_not_endsBefore hends)

/-- Only inside the parameters of a function may a word that opens a block pass without notice. -/
theorem Rule.notes (hrule : machine.Rule token step) (h : machine.Regular)
    (hroom : token.kind = .openBrace → machine.spine.drafts.length < maxNesting)
    (hspelled : token.Spelled) (hfollows : machine.Follows seen)
    (houtside : token.kind.isBlockWord = true → machine.readsParameters = false) :
    Notes machine token step := by
  obtain ⟨hstacked, hfresh⟩ := h
  cases hrule with
  | @scan next hphase hrule =>
    change next.noted = _
    rw [hrule.noted hstacked hspelled, noted_of_no_header hphase]
  | event hphase hrule =>
    exact hrule.notes hstacked hroom (noted_of_block (by rw [hphase]; rfl))
  | declaration hphase hrule =>
    exact hrule.notes hstacked hroom (noted_of_block (by rw [hphase]; rfl)) (hfollows _ hphase)
  | parameters hphase hrule =>
    refine hrule.notes (noted_of_block (by rw [hphase]; rfl)) (hfresh _ hphase) ?_
    by_contra hword
    have hreads := houtside (by simpa using hword)
    unfold readsParameters at hreads
    rw [hphase] at hreads
    cases hreads
  | body hphase hrule => exact hrule.notes hstacked hroom hphase (hfresh _ hphase)
  | declarators hphase hrule =>
    exact hrule.notes hstacked (noted_of_block (by rw [hphase]; rfl)) (hfresh _ hphase)

/-! ## What the header says of the tokens -/

theorem follows_settle (machine : Machine) : machine.settle.Follows seen :=
  fun header hphase => absurd hphase (settle_phase_ne machine header)

theorem follows_readHeader (machine : Machine) (header : Header) (h : header.Follows seen) :
    (machine.readHeader header).Follows seen := by
  intro header' hphase
  cases hphase
  exact h

theorem follows_push (machine : Machine) (symbol : Option Draft) (scope : Scope) :
    (machine.push symbol scope).Follows seen := by
  intro header hphase
  cases hphase

theorem ScanRule.follows {next : Machine} (hrule : machine.ScanRule token next) :
    next.Follows seen := by
  cases hrule with
  | event | block => exact follows_readHeader _ _ trivial
  | declaration => exact follows_readHeader machine (.declaration (.ofToken token)) nofun
  | opens => exact follows_push _ _ _
  | closes =>
    rw [← settle_pop]
    exact follows_settle _
  | passes => exact follows_settle _

theorem EventRule.follows {header : EventHeader} (hrule : machine.EventRule header token step) :
    step.Ends (Follows seen) (Follows (seen ++ [token])) := by
  cases hrule with
  | body => exact follows_push _ _ _
  | semicolon | ends => exact follows_settle _
  | more => exact follows_readHeader _ _ trivial

theorem DeclarationRule.follows {header : DeclarationHeader}
    (hrule : machine.DeclarationRule header token step) (hspelled : token.Spelled)
    (h : (Header.declaration header).Follows seen) :
    step.Ends (Follows seen) (Follows (seen ++ [token])) := by
  cases hrule with
  | var => exact follows_readHeader _ _ trivial
  | word _ hblock hword =>
    refine follows_readHeader machine (.declaration (header.addWord token)) ?_
    rintro name ⟨⟩
    rw [← hspelled.isBlockWord hword]
    exact isBlockWord_of_not_opensBlock hblock
  | connector => exact follows_readHeader machine (.declaration { header with last := token }) h
  | function hkind => exact follows_readHeader _ _ ⟨Nat.le_refl 1, .first hkind⟩
  | aggregate => exact follows_push _ _ _
  | nothing => exact follows_settle _

theorem ParametersRule.follows {list : ParameterList}
    (hrule : machine.ParametersRule list token step) (h : (Header.parameters list).Follows seen) :
    step.Ends (Follows seen) (Follows (seen ++ [token])) := by
  obtain ⟨hpos, hopen⟩ := h
  cases hrule with
  | opens hkind =>
    exact follows_readHeader _ _ ⟨Nat.succ_le_succ (Nat.zero_le _), hopen.opened hkind⟩
  | ends | cut => exact follows_readHeader _ _ trivial
  | closes hkind hmany =>
    obtain ⟨parens, hparens⟩ : ∃ parens, list.parens = parens + 2 :=
      ⟨list.parens - 2, by omega⟩
    rw [hparens] at hopen
    refine follows_readHeader _ _ ⟨?_, ?_⟩
    · dsimp only
      omega
    · dsimp only
      rw [hparens]
      exact hopen.closed hkind
  | takes hparen hclose hcut =>
    exact follows_readHeader _ _ ⟨hpos, hopen.parameter (by simp_all)⟩

theorem BodyRule.follows {draft : Draft} {last : Token}
    (hrule : machine.BodyRule draft last token step) :
    step.Ends (Follows seen) (Follows (seen ++ [token])) := by
  cases hrule with
  | body => exact follows_push _ _ _
  | semicolon | ends => exact follows_settle _

theorem DeclaratorsRule.follows {list : DeclaratorList}
    (hrule : machine.DeclaratorsRule list token step) :
    step.Ends (Follows seen) (Follows (seen ++ [token])) := by
  cases hrule with
  | semicolon | ends => exact follows_settle _
  | comma | name | takes => exact follows_readHeader _ _ trivial

theorem Rule.follows (hrule : machine.Rule token step) (hspelled : token.Spelled)
    (h : machine.Follows seen) : step.Ends (Follows seen) (Follows (seen ++ [token])) := by
  cases hrule with
  | scan _ hrule => exact hrule.follows
  | event _ hrule => exact hrule.follows
  | declaration hphase hrule => exact hrule.follows hspelled (h _ hphase)
  | parameters hphase hrule => exact hrule.follows (h _ hphase)
  | body _ hrule => exact hrule.follows
  | declarators _ hrule => exact hrule.follows

/-! ## All tokens -/

/-- The machine on its way over the token that follows `seen`, with the blocks noted so far. -/
structure Watches (seen : List Token) (noted : List Position) (token : Token)
    (machine : Machine) : Prop where
  regular : machine.Regular
  follows : machine.Follows seen
  room : machine.HasRoom token
  noted_eq : machine.noted = noted
  outside : token.kind.isBlockWord = true → machine.readsParameters = false

theorem watches_step {noted : List Position} (h : machine.Watches seen noted token)
    (hdepth : token.depth < maxNesting) (hspelled : token.Spelled) :
    (machine.step token).Ends (Watches seen noted token) fun machine' =>
      machine'.Follows (seen ++ [token]) ∧
        machine'.noted = noted ++ Token.blockStarts [token] := by
  have hregular := regular_step h.regular token
  have hfollows := (machine.step_rule token).follows hspelled h.follows
  have hnotes : Notes machine token (machine.step token) :=
    (machine.step_rule token).notes h.regular (h.room.length_drafts_lt hdepth) hspelled h.follows
      h.outside
  cases hstep : machine.step token with
  | consumed machine' =>
    rw [hstep] at hfollows hnotes
    exact ⟨hfollows, h.noted_eq ▸ hnotes⟩
  | retry machine' =>
    rw [hstep] at hregular hfollows hnotes
    exact ⟨hregular, hfollows, h.room.retry hstep, hnotes.1.trans h.noted_eq,
      fun _ => hnotes.2⟩

/-- The parameters of a function take in a word that opens a block. -/
theorem noted_feed_of_parameters (hword : token.kind.isBlockWord = true)
    (hreads : machine.readsParameters = true) : (machine.feed token).noted = machine.noted := by
  unfold readsParameters at hreads
  split at hreads
  · rename_i list hphase
    have hstep : machine.step token = .consumed
        ({ machine with steps := machine.steps + 1 }.readHeader
          (.parameters { list with last := token })) := by
      have hkind : token.kind = .keyword .variableBlock ∨ token.kind = .keyword .includeBlock := by
        unfold TokenKind.isBlockWord at hword
        split at hword <;> simp_all
      refine step_eq_iff.2 (.parameters hphase (.takes ?_ ?_ ?_)) <;>
        rcases hkind with hkind | hkind <;> rw [hkind] <;> decide
    rw [feed_of_consumed hstep, noted_readHeader]
    unfold noted
    rw [hphase]
    rfl
  · cases hreads

theorem follows_start (source : String) (options : Options) :
    (start source options).Follows [] := by
  intro header hphase
  cases hphase

theorem follows_run {source : String} {options : Options} {after : List Token}
    (h : Token.ofText source = seen ++ after) : (run source options seen).Follows seen := by
  refine run_induction (P := fun seen machine => machine.Follows seen)
    (follows_start source options) ?_ h
  intro seen token after htext hfollows
  have hmem : token ∈ Token.ofText source := by simp [htext]
  have hspelled := Token.spelled_of_mem hmem
  exact feed_ends (P := Follows seen) (Q := Follows (seen ++ [token]))
    (fun machine hmachine => (machine.step_rule token).follows hspelled hmachine) hfollows

theorem EndRule.noted {next : Machine} (hrule : machine.EndRule next) (h : machine.Regular) :
    blocks next.spine.marks = machine.noted := by
  obtain ⟨hstacked, hfresh⟩ := h
  have hleave : Stacked machine.leave.frames := hstacked
  have hattach : ∀ {draft : Draft} {kinds : List SymbolKind} (stop : Position),
      draft.Fresh kinds → blocks (machine.leave.attach draft stop).spine.marks =
        blocks machine.spine.marks ++ blocks [draft.mark] := by
    intro draft kinds stop hdraft
    rw [marks_attach hleave hdraft, blocks_append]
    rfl
  have hother : ∀ {draft : Draft} {kinds : List SymbolKind} (stop : Position),
      draft.Fresh kinds → .container ∉ kinds → machine.phase.block = [] →
        blocks (machine.leave.attach draft stop).spine.marks = machine.noted := by
    intro draft kinds stop hdraft hkinds hblock
    rw [hattach stop hdraft, hdraft.blocks_mark hkinds, List.append_nil, noted_of_block hblock]
  cases hrule with
  | outside hphase =>
    rw [noted_of_no_header hphase]
    rfl
  | event hphase =>
    exact hother _ (EventHeader.fresh_draft _ _) (by simp) (by rw [hphase]; rfl)
  | word hphase | hidden hphase =>
    rw [noted_of_block (by rw [hphase]; rfl)]
    rfl
  | function hphase =>
    exact hother _ (Draft.fresh_ofTokens_self .function _ _) (by simp) (by rw [hphase]; rfl)
  | var hphase =>
    exact hother _ (Draft.fresh_ofTokens_self .var _ _) (by simp) (by rw [hphase]; rfl)
  | parameters hphase =>
    exact hother _ (ParameterList.fresh_signed (hfresh _ hphase) _ _) (by simp)
      (by rw [hphase]; rfl)
  | body hphase =>
    rw [hattach _ (hfresh _ hphase)]
    unfold Machine.noted
    rw [hphase]
    rfl
  | declarators hphase =>
    rw [blocks_report hleave (hfresh _ hphase), noted_of_block (by rw [hphase]; rfl)]
    rfl

/-- A header that the end of the text cuts off is reported as well. -/
theorem blocks_endHeader (h : machine.Regular) :
    blocks machine.endHeader.spine.marks = machine.noted :=
  machine.end_rule.noted h

end Machine

/-! ## The laws -/

/-- The tokens that are not taken for parameters of a function. -/
def outsideParameters (source : String) (options : Options) (tokens : List Token) : List Token :=
  tokens.filter fun token => !(Machine.before source options token.range.start).readsParameters

/-- Behind each token the blocks that have been noted are the words that open them. -/
theorem noted_run {source : String} {options : Options}
    (hdepth : ∀ token ∈ Token.ofText source, token.depth < maxNesting) :
    (Machine.run source options (Token.ofText source)).noted =
      Token.blockStarts (outsideParameters source options (Token.ofText source)) := by
  refine Machine.run_induction (P := fun seen machine =>
    machine.noted = Token.blockStarts (outsideParameters source options seen)) rfl ?_
    (List.append_nil (Token.ofText source)).symm
  intro seen token after htext hnoted
  have hmem : token ∈ Token.ofText source := by simp [htext]
  have hfollows : (Machine.run source options seen).Follows seen := Machine.follows_run htext
  have hplace := Machine.before_start options htext
  have hsplit : outsideParameters source options (seen ++ [token]) =
      outsideParameters source options seen ++
        if (Machine.run source options seen).readsParameters then [] else [token] := by
    unfold outsideParameters
    rw [List.filter_append, List.filter_singleton, hplace]
    cases (Machine.run source options seen).readsParameters <;> rfl
  by_cases hlost : token.kind.isBlockWord = true ∧
      (Machine.run source options seen).readsParameters = true
  · rw [hsplit, if_pos hlost.2, List.append_nil, ← hnoted]
    exact Machine.noted_feed_of_parameters hlost.1 hlost.2
  · have hstarts : Token.blockStarts (outsideParameters source options (seen ++ [token])) =
        (Machine.run source options seen).noted ++ Token.blockStarts [token] := by
      rw [hsplit, Token.blockStarts_append, hnoted]
      cases hword : token.kind.isBlockWord with
      | true => rw [if_neg fun hreads => hlost ⟨hword, hreads⟩]
      | false =>
        rw [Token.blockStarts_of_other hword]
        split
        · rfl
        · rw [Token.blockStarts_of_other hword]
    rw [hstarts]
    have hwatches : (Machine.run source options seen).Watches seen
        (Machine.run source options seen).noted token := by
      refine ⟨Machine.regular_run .., hfollows, Machine.hasRoom_run options htext, rfl, ?_⟩
      intro hword
      by_contra hreads
      exact hlost ⟨hword, by simpa using hreads⟩
    exact (Machine.feed_ends (fun _ h =>
      Machine.watches_step h (hdepth token hmem) (Token.spelled_of_mem hmem)) hwatches).2

/-- Each word that opens a block is the start of one block of the outline, and no block starts
anywhere else, unless the word is taken for a parameter of a function. Then a parenthesis before it
is still open. -/
theorem blocks_are_lost_in_parameters_alone (source : String) (options : Options)
    (h : ∀ token ∈ Token.ofText source, token.depth < maxNesting) :
    (extract source options).blockStarts =
        Token.blockStarts (outsideParameters source options (Token.ofText source)) ∧
      ∀ seen token after, Token.ofText source = seen ++ token :: after →
        token ∉ outsideParameters source options (Token.ofText source) →
        ∃ parens, OpenParens (parens + 1) seen := by
  constructor
  · have hregular := Machine.regular_run source options (Token.ofText source)
    have hend := Machine.blocks_endHeader hregular
    have hstacked := Machine.stacked_endHeader hregular.1
    have hroots := Machine.finish_invariant (Token.scan source).2.position
      (P := fun spine => blocks spine.marks =
        Token.blockStarts (outsideParameters source options (Token.ofText source)))
      (fun spine hspine => by rwa [Spine.marks_pop]) hstacked (hend.trans (noted_run h))
    change blocks (marks (extract source options)) = _
    rw [← hroots]
    simp [Spine.marks, extract, Token.ofText]
  · intro seen token after htext hlost
    have hreads : (Machine.run source options seen).readsParameters = true := by
      by_contra hreads
      apply hlost
      refine List.mem_filter.2 ⟨by simp [htext], ?_⟩
      rw [Machine.before_start options htext]
      simpa using hreads
    unfold Machine.readsParameters at hreads
    split at hreads
    · rename_i list hphase
      obtain ⟨hpos, hopen⟩ := Machine.follows_run htext _ hphase
      refine ⟨list.parens - 1, ?_⟩
      rwa [Nat.sub_add_cancel hpos]
    · cases hreads

/-- The parenthesis of a function is missing, and a block follows. -/
def unclosedText : String := "void f(int a\nvariables\n\x7b\n  int x;\n\x7d\nincludes \x7b \x7d"

theorem the_blocks_of_an_unclosed_text :
    (∀ token ∈ Token.ofText unclosedText, token.depth < maxNesting) ∧
      (extract unclosedText {}).blockStarts = [⟨5, 0⟩] := by
  have hdepth : ∀ token ∈ Token.ofText unclosedText, token.depth < maxNesting := by
    decide +kernel
  refine ⟨hdepth, ?_⟩
  rw [(blocks_are_lost_in_parameters_alone _ _ hdepth).1]
  decide +kernel

/-- The block behind an unclosed parenthesis is not in the outline. -/
theorem a_block_is_lost_in_parameters :
    ¬ ((∀ token ∈ Token.ofText unclosedText, token.depth < maxNesting) →
      (extract unclosedText {}).blockStarts = Token.blockStarts (Token.ofText unclosedText)) := by
  decide +kernel

end Outline

end CaplOutline
