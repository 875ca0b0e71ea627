-- Missing semicolons are recovered. A source is read beside the same source without some of
-- its semicolons, declaration by declaration. At each of them the second machine is one token
-- behind, and the token that follows takes both to the same place again. So the symbols are
-- the same ones, but for where the variables before the lost semicolons end.
import CaplOutline.Proofs.Outline.Agreeing
import CaplOutline.Proofs.Outline.Recognition
import CaplOutline.Proofs.Token.Semicolons

namespace CaplOutline.Outline

open Machine

variable {source source' : String} {options : Options} {level : Nat}

/-! ## Two runs -/

/-- What is known of tokens that lose semicolons: where `source` has them all, `source'` says the
same between those that are left, and `f` takes the end of a declaration to where it ends without
its semicolon. -/
structure Survives (source source' : String) (lost : Token → Bool) (f : Position → Position)
    (tokens : List Token) : Prop where
  one_line : ∀ token ∈ tokens, token.range.stop.line = token.line
  agree : ∀ piece, piece <:+: tokens → Keeps lost piece → Agree source source' piece
  kept : ∀ token ∈ tokens, lost token = false → f token.range.stop = token.range.stop
  ends : ∀ last semicolon, [last, semicolon] <:+: tokens → lost semicolon = true →
    f semicolon.range.stop = last.range.stop

section

variable {lost : Token → Bool} {f : Position → Position} {following : Option Token}
  {tokens item rest : List Token} {symbols : List Symbol}

theorem Survives.piece (h : Survives source source' lost f tokens) (hitem : item <:+: tokens) :
    Survives source source' lost f item where
  one_line token hmem := h.one_line token (hitem.subset hmem)
  agree piece hpiece := h.agree piece (hpiece.trans hitem)
  kept token hmem := h.kept token (hitem.subset hmem)
  ends last semicolon hends := h.ends last semicolon (hends.trans hitem)

/-- Between two declarations the tokens stand for these symbols. -/
def StandFor (source : String) (options : Options) (level : Nat) (tokens : List Token)
    (symbols : List Symbol) : Prop :=
  ∀ machine, StandsIn source options level machine →
    Leads machine tokens (machine.adoptAll symbols)

/-- The tokens stand for these symbols if `following` comes next. -/
def StandForBefore (source : String) (options : Options) (level : Nat) (following : Option Token)
    (tokens : List Token) (symbols : List Symbol) : Prop :=
  ∀ machine, StandsIn source options level machine → ∀ after target, after.head? = following →
    Leads (machine.adoptAll symbols) after target → Leads machine (tokens ++ after) target

theorem StandFor.append (hitem : StandFor source options level item symbols)
    {symbols' : List Symbol}
    (hrest : StandForBefore source options level following rest symbols') :
    StandForBefore source options level following (item ++ rest) (symbols ++ symbols') := by
  intro machine hstands after target hafter htarget
  rw [adoptAll_append] at htarget
  rw [List.append_assoc]
  exact (hitem machine hstands).trans (hrest _ (hstands.adoptAll _) after target hafter htarget)

/-- With the semicolons and without them the tokens stand for the same symbols, but for where these
end. -/
def Recovers (source source' : String) (options : Options) (lost : Token → Bool)
    (f : Position → Position) (level : Nat) (following : Option Token) (tokens : List Token) :
    Prop :=
  ∃ symbols, StandForBefore source options level following tokens symbols ∧
    StandForBefore source' options level following (tokens.filter (!lost ·)) (revise id f symbols)

theorem revise_symbolsOf (draft : Draft) (stop : Position) (children : List Symbol) :
    revise id f (symbolsOf options level draft stop children) =
      symbolsOf options level draft (f stop) (revise id f children) := by
  unfold symbolsOf
  split <;> rfl

/-- One declaration does so, whatever comes next. -/
def RecoversItem (source source' : String) (options : Options) (lost : Token → Bool)
    (f : Position → Position) (level : Nat) (item : List Token) : Prop :=
  ∃ symbols, StandFor source options level item symbols ∧
    StandFor source' options level (item.filter (!lost ·)) (revise id f symbols)

theorem RecoversItem.append (hitem : RecoversItem source source' options lost f level item)
    (hrest : Recovers source source' options lost f level following rest) :
    Recovers source source' options lost f level following (item ++ rest) := by
  obtain ⟨symbols, hleads, hleads'⟩ := hitem
  obtain ⟨symbols', hrest, hrest'⟩ := hrest
  refine ⟨symbols ++ symbols', hleads.append hrest, ?_⟩
  rw [List.filter_append, revise_append]
  exact hleads'.append hrest'

/-! ## Declarations with a body -/

/-- Code between braces stands for the symbol of its head. -/
theorem Introduces.standFor_code {head body : List Token} {opening closing : Token} {draft : Draft}
    (h : Introduces source head draft) (hagree : Agree source source' head)
    (hpair : (opening.kind, closing.kind) = TokenKind.braces) (hbody : Body body) :
    StandFor source' options level (head ++ opening :: (body ++ [closing]))
      (symbolsOf options level draft closing.range.stop []) := by
  rintro machine ⟨hready, rfl, rfl, rfl⟩
  obtain ⟨hopening, hclosing⟩ := Prod.mk.inj hpair
  exact leads_braced hready h.fresh (h.leads hready.settled hagree hopening) hclosing
    (leads_body hbody (settle_push ..))

theorem recoversItem_code {head body : List Token} {opening closing : Token}
    (h : CodeHead head) (hpair : (opening.kind, closing.kind) = TokenKind.braces)
    (hbody : Body body) (hkept : Keeps lost (head ++ opening :: (body ++ [closing])))
    (hs : Survives source source' lost f (head ++ opening :: (body ++ [closing]))) :
    RecoversItem source source' options lost f level (head ++ opening :: (body ++ [closing])) := by
  obtain ⟨draft, hhead⟩ := h.introduces
    (fun token hmem => hs.one_line token (List.mem_append_left _ hmem)) source
  have hagree := hs.agree head (List.prefix_append ..).isInfix
    (hkept.mono (List.subset_append_left ..))
  have hstop := hs.kept closing (by simp) (hkept closing (by simp))
  refine ⟨_, hhead.standFor_code (Agree.refl source head) hpair hbody, ?_⟩
  rw [hkept.filter_eq, revise_symbolsOf, hstop]
  exact hhead.standFor_code hagree hpair hbody

/-- Declarations between braces stand for the symbol of their head, with theirs as its children. -/
theorem Introduces.standFor_container {head inner : List Token} {opening closing : Token}
    {draft : Draft} {children : List Symbol} (h : Introduces source head draft)
    (hagree : Agree source source' head) (hkind : draft.kind = .container)
    (hpair : (opening.kind, closing.kind) = TokenKind.braces)
    (hinner : StandForBefore source' options (if level < maxNesting then level + 1 else level)
      (some closing) inner children) :
    StandFor source' options level (head ++ opening :: (inner ++ [closing]))
      (symbolsOf options level draft closing.range.stop children) := by
  rintro machine ⟨hready, rfl, rfl, rfl⟩
  obtain ⟨hopening, hclosing⟩ := Prod.mk.inj hpair
  have hscope : draft.bodyScope ≠ .code := by
    unfold Draft.bodyScope
    rw [if_pos hkind]
    exact nofun
  rw [List.append_cons]
  apply (h.leads hready.settled hagree hopening).trans
  apply hinner _ ⟨hready.push draft hscope, rfl, rfl, nesting_push_some ..⟩ [closing] _ rfl
  exact leads_closing hready h.fresh children hclosing

theorem recoversItem_container {head inner : List Token} {opening closing : Token}
    (h : ContainerHead head) (hpair : (opening.kind, closing.kind) = TokenKind.braces)
    (hkept : Keeps lost (head ++ [opening, closing]))
    (hs : Survives source source' lost f (head ++ opening :: (inner ++ [closing])))
    (hinner : Recovers source source' options lost f
      (if level < maxNesting then level + 1 else level) (some closing) inner) :
    RecoversItem source source' options lost f level (head ++ opening :: (inner ++ [closing])) := by
  obtain ⟨draft, hkind, hhead⟩ := h.introduces
    (fun token hmem => hs.one_line token (List.mem_append_left _ hmem)) source
  obtain ⟨children, hchildren, hchildren'⟩ := hinner
  have hkeepsHead := hkept.mono (List.subset_append_left ..)
  have hagree := hs.agree head (List.prefix_append ..).isInfix hkeepsHead
  have hstop := hs.kept closing (by simp) (hkept closing (by simp))
  have hfilter : (head ++ opening :: (inner ++ [closing])).filter (!lost ·) =
      head ++ opening :: (inner.filter (!lost ·) ++ [closing]) := by
    have hopening := hkept opening (by simp)
    have hclosing := hkept closing (by simp)
    simp [hkeepsHead.filter_eq, hopening, hclosing]
  refine ⟨_, hhead.standFor_container (Agree.refl source head) hkind hpair hchildren, ?_⟩
  rw [hfilter, revise_symbolsOf, hstop]
  exact hhead.standFor_container hagree hkind hpair hchildren'

/-! ## Declarations without a body -/

theorem recoversItem_inert {token : Token} (htoken : token.kind.isInert = true)
    (hkept : Keeps lost [token]) :
    RecoversItem source source' options lost f level [token] := by
  refine ⟨[], fun machine hstands => leads_inert hstands.ready.settled htoken, ?_⟩
  rw [hkept.filter_eq]
  exact fun machine hstands => leads_inert hstands.ready.settled htoken

theorem recoversItem_prototype {head : List Token} {semicolon : Token} (h : Signature head)
    (hsemicolon : semicolon.kind = .semicolon) (hkept : Keeps lost (head ++ [semicolon]))
    (hs : Survives source source' lost f (head ++ [semicolon])) :
    RecoversItem source source' options lost f level (head ++ [semicolon]) := by
  obtain ⟨draft, last, hfresh, hleads⟩ := leads_of_signature h
    (fun token hmem => hs.one_line token (List.mem_append_left _ hmem)) source
  have hagree := hs.agree head (List.prefix_append ..).isInfix
    (hkept.mono (List.subset_append_left ..))
  have hstop := hs.kept semicolon (by simp) (hkept semicolon (by simp))
  have hitem : ∀ {source' : String}, Agree source source' head →
      StandFor source' options level (head ++ [semicolon])
        [draft.finish options.includeDetails semicolon.range.stop] := by
    rintro source' hagree machine ⟨hready, rfl, rfl, rfl⟩
    exact leads_prototype hready.settled (hleads machine hready.settled hagree) hsemicolon
  refine ⟨_, hitem (Agree.refl source head), ?_⟩
  rw [hkept.filter_eq]
  have hrevise : revise id f [draft.finish options.includeDetails semicolon.range.stop] =
      [draft.finish options.includeDetails (f semicolon.range.stop)] := by
    unfold Draft.finish
    rw [hfresh]
    rfl
  rw [hrevise, hstop]
  exact hitem hagree

/-- Variables are reported alike with their semicolon and without it, if the token behind it
resumes. -/
theorem recovers_variableList {semicolon : Token} (h : VariableList tokens)
    (hsemicolon : semicolon.kind = .semicolon) (hkept : Keeps lost tokens)
    (hlost : lost semicolon = true →
      ∃ last ∈ tokens.getLast?, ∃ next ∈ rest.head?.or following, last.resumes next = true)
    (hs : Survives source source' lost f (tokens ++ [semicolon]))
    (hkinds : ∀ token ∈ rest, lost token = true → token.kind = .semicolon)
    (hrest : Recovers source source' options lost f level following rest) :
    Recovers source source' options lost f level following (tokens ++ [semicolon] ++ rest) := by
  obtain ⟨last, hlast, symbols, hrevise, hleads⟩ := leads_variableList h options source
  have hagree := hs.agree tokens (List.prefix_append ..).isInfix hkept
  have hlines := fun token hmem => hs.one_line token (List.mem_append_left _ hmem)
  have hsame := hrevise f fun token hmem =>
    hs.kept token (List.mem_append_left _ hmem) (hkept token hmem)
  have hitem : ∀ {source' : String}, Agree source source' tokens →
      StandFor source' options level (tokens ++ [semicolon]) (symbols semicolon.range.stop) := by
    rintro source' hagree machine ⟨hready, rfl, hoptions, -⟩
    obtain ⟨state, hat, hends⟩ := hleads machine hready hoptions hagree hlines
    exact hends semicolon [] _ (Or.inl hsemicolon) (.one (hat.handle_semicolon hsemicolon))
  cases hlosing : lost semicolon with
  | false =>
    have hkeeps : Keeps lost (tokens ++ [semicolon]) :=
      List.forall_mem_append.2 ⟨hkept, List.forall_mem_singleton.2 hlosing⟩
    refine RecoversItem.append ⟨_, hitem (Agree.refl source tokens), ?_⟩ hrest
    rw [hkeeps.filter_eq, hsame, hs.kept semicolon (by simp) hlosing]
    exact hitem hagree
  | true =>
    obtain ⟨other, hother, next, hnext, hresumes⟩ := hlost hlosing
    obtain rfl : last = other := Option.some.inj (hlast.symm.trans hother)
    obtain ⟨front, rfl⟩ := List.getLast?_eq_some_iff.1 hlast
    obtain ⟨symbols', hrest, hrest'⟩ := hrest
    have hstop := hs.ends last semicolon ⟨front, [], by simp⟩ hlosing
    refine ⟨_, (hitem (Agree.refl source _)).append hrest, ?_⟩
    rw [revise_append, hsame, hstop, List.filter_append, List.filter_append, hkept.filter_eq]
    intro machine hstands after target hafter htarget
    rw [adoptAll_append] at htarget
    have hbehind := hrest' _ (hstands.adoptAll _) after target hafter htarget
    obtain ⟨state, hat, hends⟩ :=
      hleads machine hstands.ready hstands.options_eq (hstands.source_eq ▸ hagree) hlines
    obtain ⟨more, hmore⟩ : ∃ more, rest.filter (!lost ·) ++ after = next :: more := by
      cases rest with
      | nil =>
        rw [← hafter] at hnext
        exact List.head?_eq_some_iff.1 hnext
      | cons first rest =>
        cases hnext
        have hkeeps : lost next = false := by
          by_contra hnext
          exact Token.kind_ne_of_resumes hresumes
            (hkinds next List.mem_cons_self (by simpa using hnext))
        exact ⟨_, by rw [List.filter_cons_of_pos (by simp [hkeeps])]; rfl⟩
    rw [hmore] at hbehind
    simp only [List.filter_cons, hlosing, Bool.not_true, Bool.false_eq_true, if_false,
      List.filter_nil, List.append_nil]
    rw [List.append_assoc, hmore]
    exact hends next more target (Or.inr hresumes)
      (.retry (hat.handle_next (hlines last (by simp)) hresumes) hbehind)

/-! ## The laws -/

/-- Whatever semicolons a source may lose, it is recovered. -/
theorem MayLose.recovers (h : MayLose lost following tokens)
    (hs : Survives source source' lost f tokens) (options : Options) (level : Nat) :
    Recovers source source' options lost f level following tokens := by
  induction h generalizing level with
  | done =>
    exact ⟨[], fun _ _ _ _ _ htarget => htarget, fun _ _ _ _ _ htarget => htarget⟩
  | inert htoken hkept _ ih =>
    exact (recoversItem_inert htoken hkept).append
      (ih (hs.piece (List.suffix_cons ..).isInfix) level)
  | @code following head body rest opening closing hhead hpair hbody hkept _ ih =>
    have htokens : head ++ opening :: (body ++ closing :: rest) =
        head ++ opening :: (body ++ [closing]) ++ rest := by simp
    rw [htokens] at hs ⊢
    exact (recoversItem_code hhead hpair hbody hkept
      (hs.piece (List.prefix_append ..).isInfix)).append
        (ih (hs.piece (List.suffix_append ..).isInfix) level)
  | @container following head inner rest opening closing hhead hpair hkept _ _ ihinner ih =>
    have htokens : head ++ opening :: (inner ++ closing :: rest) =
        head ++ opening :: (inner ++ [closing]) ++ rest := by simp
    rw [htokens] at hs ⊢
    have hitem := hs.piece (List.prefix_append ..).isInfix
    have hinner : Survives source source' lost f inner :=
      hitem.piece ⟨head ++ [opening], [closing], by simp⟩
    exact (recoversItem_container hhead hpair hkept hitem (ihinner hinner _)).append
      (ih (hs.piece (List.suffix_append ..).isInfix) level)
  | prototype hhead hsemicolon hkept _ ih =>
    rw [List.append_cons] at hs ⊢
    exact (recoversItem_prototype hhead hsemicolon hkept
      (hs.piece (List.prefix_append ..).isInfix)).append
        (ih (hs.piece (List.suffix_append ..).isInfix) level)
  | variableList hlist hsemicolon hkept hlost hrest ih =>
    rw [List.append_cons] at hs ⊢
    exact recovers_variableList hlist hsemicolon hkept hlost
      (hs.piece (List.prefix_append ..).isInfix) hrest.kind_eq
      (ih (hs.piece (List.suffix_append ..).isInfix) level)

theorem survives_blankOut {text : String} (h : MayLose lost following (Token.ofText text)) :
    Survives text (Token.blankOut lost text) lost (Token.retreat lost (Token.ofText text))
      (Token.ofText text) where
  one_line token hmem := by
    rw [(Token.standsIn_of_mem hmem).range_stop]
    rfl
  agree piece hpiece hkept first hfirst last hlast :=
    Token.slice_blankOut h.kind_eq hpiece hkept hfirst hlast
  kept token hmem hkept := Token.retreat_kept hmem hkept
  ends last semicolon hends hlost := Token.retreat_lost hends hlost

theorem StandForBefore.extract_eq {text : String}
    (h : StandForBefore text options 0 none (Token.ofText text) symbols) :
    extract text options = symbols := by
  have hleads := h (start text options) ⟨ready_start text options, rfl, rfl, rfl⟩ [] _ rfl
    (.nowhere _)
  rw [List.append_nil] at hleads
  exact extract_of_leads hleads

end

/-- Semicolons of variables that are missing before the end of a block, before an event or a block,
or before a declaration on a later line change no more of an outline than where the variables before
them end. -/
theorem missing_semicolons_are_recovered (text : String) (options : Options)
    (lost : Token → Bool) (h : MayLose lost none (Token.ofText text)) :
    extract (Token.blankOut lost text) options =
      revise id (Token.retreat lost (Token.ofText text)) (extract text options) := by
  obtain ⟨symbols, hleads, hleads'⟩ := h.recovers (survives_blankOut h) options 0
  rw [← Token.ofText_blankOut h.kind_eq] at hleads'
  rw [hleads.extract_eq, hleads'.extract_eq]

/-- Variables before the end of a block, before a function on the next line, and before an event. -/
def lossyText : String :=
  "variables \x7b int a; \x7d int b, c[2];\nvoid f(int x);\nint d = 1; on * \x7b \x7d"

/-- A token of a text that has one byte for each character. -/
def tokenAt (kind : TokenKind) (text : String) (start line column depth : Nat) : Token :=
  let length := text.utf8ByteSize
  ⟨kind, text, ⟨start, start + length⟩, ⟨⟨line, column⟩, ⟨line, column + length⟩⟩, depth⟩

theorem the_lossy_text_is_recovered :
    let lost := fun token : Token => [17, 32, 58].contains token.span.start
    MayLose lost none (Token.ofText lossyText) ∧
      Token.blankOut lost lossyText =
        "variables \x7b int a  \x7d int b, c[2] \nvoid f(int x);\nint d = 1  on * \x7b \x7d" ∧
      extract (Token.blankOut lost lossyText) {} =
        revise id (Token.retreat lost (Token.ofText lossyText)) (extract lossyText {}) := by
  intro lost
  have htokens : Token.ofText lossyText =
      [tokenAt (.keyword .variableBlock) "variables" 0 0 0 0] ++
        tokenAt .openBrace "\x7b" 10 0 10 0 ::
          (((tokenAt (.keyword .type) "int" 12 0 12 1 ::
              ([] ++ tokenAt .identifier "a" 16 0 16 1 :: [])) ++
            tokenAt .semicolon ";" 17 0 17 1 :: []) ++
        tokenAt .closeBrace "\x7d" 19 0 19 0 ::
          ((tokenAt (.keyword .type) "int" 21 0 21 0 ::
              ([] ++ tokenAt .identifier "b" 25 0 25 0 ::
                tokenAt .comma "," 26 0 26 0 :: tokenAt .identifier "c" 28 0 28 0 ::
                  tokenAt .openBracket "[" 29 0 29 0 ::
                    ([tokenAt .number "2" 30 0 30 0] ++
                      tokenAt .closeBracket "]" 31 0 31 0 :: []))) ++
            tokenAt .semicolon ";" 32 0 32 0 ::
          ((tokenAt (.keyword .type) "void" 34 1 0 0 ::
              ([] ++ tokenAt .identifier "f" 39 1 5 0 :: tokenAt .openParen "(" 40 1 6 0 ::
                ([tokenAt (.keyword .type) "int" 41 1 7 0, tokenAt .identifier "x" 45 1 11 0] ++
                  [tokenAt .closeParen ")" 46 1 12 0]))) ++
            tokenAt .semicolon ";" 47 1 13 0 ::
          ((tokenAt (.keyword .type) "int" 49 2 0 0 ::
              ([] ++ tokenAt .identifier "d" 53 2 4 0 ::
                [tokenAt .assign "=" 55 2 6 0, tokenAt .number "1" 57 2 8 0])) ++
            tokenAt .semicolon ";" 58 2 9 0 ::
          ([tokenAt (.keyword .on) "on" 60 2 11 0, tokenAt .punct "*" 63 2 14 0] ++
            tokenAt .openBrace "\x7b" 65 2 16 0 ::
              ([] ++ tokenAt .closeBrace "\x7d" 67 2 18 0 :: [])))))) := by
    decide +kernel
  have hvariable : VariableList (tokenAt (.keyword .type) "int" 12 0 12 1 ::
      ([] ++ tokenAt .identifier "a" 16 0 16 1 :: [])) :=
    .intro ⟨rfl, nofun, nofun⟩ rfl rfl ⟨.done, nofun⟩
  have hpair : VariableList (tokenAt (.keyword .type) "int" 21 0 21 0 ::
      ([] ++ tokenAt .identifier "b" 25 0 25 0 ::
        tokenAt .comma "," 26 0 26 0 :: tokenAt .identifier "c" 28 0 28 0 ::
          tokenAt .openBracket "[" 29 0 29 0 ::
            ([tokenAt .number "2" 30 0 30 0] ++ tokenAt .closeBracket "]" 31 0 31 0 :: []))) :=
    .intro ⟨rfl, nofun, nofun⟩ rfl rfl
      ⟨.plain rfl (.plain rfl (.group (by decide) nofun (.plain rfl .done) .done)), by decide⟩
  have hvalue : VariableList (tokenAt (.keyword .type) "int" 49 2 0 0 ::
      ([] ++ tokenAt .identifier "d" 53 2 4 0 ::
        [tokenAt .assign "=" 55 2 6 0, tokenAt .number "1" 57 2 8 0])) :=
    .intro ⟨rfl, nofun, nofun⟩ rfl rfl ⟨.plain rfl (.plain rfl .done), by decide⟩
  have hsignature : Signature (tokenAt (.keyword .type) "void" 34 1 0 0 ::
      ([] ++ tokenAt .identifier "f" 39 1 5 0 :: tokenAt .openParen "(" 40 1 6 0 ::
        ([tokenAt (.keyword .type) "int" 41 1 7 0, tokenAt .identifier "x" 45 1 11 0] ++
          [tokenAt .closeParen ")" 46 1 12 0]))) :=
    .intro ⟨rfl, nofun, nofun⟩ rfl rfl (.plain rfl (.plain rfl .done)) rfl
  have hevent : CodeHead
      [tokenAt (.keyword .on) "on" 60 2 11 0, tokenAt .punct "*" 63 2 14 0] :=
    .event rfl (by decide)
  have h : MayLose lost none (Token.ofText lossyText) := by
    rw [htokens]
    exact .container (.block (Or.inl rfl)) rfl (by decide)
      (.variableList hvariable rfl (by decide) (fun _ => ⟨_, rfl, _, rfl, rfl⟩) .done)
      (.variableList hpair rfl (by decide) (fun _ => ⟨_, rfl, _, rfl, by decide⟩)
        (.prototype hsignature rfl (by decide)
          (.variableList hvalue rfl (by decide) (fun _ => ⟨_, rfl, _, rfl, rfl⟩)
            (.code hevent rfl .done (by decide) .done))))
  exact ⟨h, by decide +kernel, missing_semicolons_are_recovered lossyText {} lost h⟩

end CaplOutline.Outline
