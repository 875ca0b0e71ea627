-- Where the symbols of an outline come from. Each one takes its name, its start and
-- its end from tokens that were read by then, and no token names two symbols: the
-- tokens of a header are its own, and come behind those of all headers before it.
import CaplOutline.Proofs.Outline.Everywhere
import CaplOutline.Proofs.Outline.Marks

namespace CaplOutline

/-! ## Marks and tokens -/

/-- What may stand at the start of a symbol of this kind that is selected by the token `name`. -/
def SymbolKind.StartsWith : SymbolKind → Token → Token → Prop
  | .event, first, _ => first.kind = .keyword .on
  | .container, first, _ =>
    first.kind ∈ [.keyword .variableBlock, .keyword .includeBlock, .keyword .struct, .keyword .enum]
  | .function, first, _ =>
    first.kind ∈
      [.keyword .type, .keyword .functionMarker, .keyword .struct, .keyword .enum]
  | .var, first, name =>
    first.kind ∈ [.keyword .type, .keyword .struct, .keyword .enum] ∨ first = name

/-- The name of a symbol that starts with the token `first` is the text of the token `name`. A
handler, a struct or an enum may be without one, and then is selected by its first word. -/
def Mark.NamedBy (mark : Mark) (first name : Token) : Prop :=
  (mark.name = name.text ∧ (name.isWord = true ∨ name.text = "*")) ∨
    (mark.name = Outline.unnamed ∧ (mark.kind = .event ∨ mark.kind = .container) ∧ name = first ∧
      first.kind ∈ [.keyword .on, .keyword .struct, .keyword .enum])

/-- The symbol is selected by the token `name`, and starts with it or with one of the tokens
`before` it. -/
structure Mark.Cites (mark : Mark) (before : List Token) (name : Token) : Prop where
  selection_eq : mark.selection = name.range
  start : ∃ first ∈ before ++ [name],
    mark.start = first.range.start ∧ mark.kind.StartsWith first name ∧ mark.NamedBy first name

/-- The symbol has its name and its start from these tokens. -/
def Mark.Cited (tokens : List Token) (mark : Mark) : Prop :=
  ∃ before name after, tokens = before ++ name :: after ∧ mark.Cites before name

/-- The symbol ends with one of these tokens, not before its name, or at the end of the text. -/
def Symbol.Cited (tokens : List Token) (stop : Position) (symbol : Symbol) : Prop :=
  ∃ before name after, tokens = before ++ name :: after ∧ symbol.mark.Cites before name ∧
    ((∃ last ∈ name :: after, symbol.range.stop = last.range.stop) ∨ symbol.range.stop = stop)

/-- The position is the end of the last token, or the end of the text. -/
def Token.EndsAt (tokens : List Token) (stop position : Position) : Prop :=
  (∃ last, tokens.getLast? = some last ∧ position = last.range.stop) ∨ position = stop

variable {mark : Mark} {tokens : List Token} {stop : Position}

theorem Mark.Cited.append (h : mark.Cited tokens) (more : List Token) :
    mark.Cited (tokens ++ more) := by
  obtain ⟨before, name, after, rfl, hcites⟩ := h
  exact ⟨before, name, after ++ more, by simp, hcites⟩

theorem Mark.Cited.behind (h : mark.Cited tokens) (passed : List Token) :
    mark.Cited (passed ++ tokens) := by
  obtain ⟨before, name, after, rfl, hselection, first, hmem, hstart⟩ := h
  refine ⟨passed ++ before, name, after, by simp, hselection, first, ?_, hstart⟩
  rw [List.append_assoc]
  exact List.mem_append_right _ hmem

theorem Symbol.Cited.append {symbol : Symbol} (h : symbol.Cited tokens stop)
    (more : List Token) : symbol.Cited (tokens ++ more) stop := by
  obtain ⟨before, name, after, rfl, hcites, hstop⟩ := h
  refine ⟨before, name, after ++ more, by simp, hcites, ?_⟩
  rcases hstop with ⟨last, hlast, hend⟩ | hend
  · left
    refine ⟨last, ?_, hend⟩
    rw [← List.cons_append]
    exact List.mem_append_left _ hlast
  · exact Or.inr hend

/-- A cited token stands among the tokens. -/
theorem Mark.Cited.selection_mem (h : mark.Cited tokens) :
    mark.selection ∈ tokens.map (·.range) := by
  obtain ⟨before, name, after, rfl, hcites⟩ := h
  rw [hcites.selection_eq]
  exact List.mem_map_of_mem (by simp)

namespace Outline

/-- A symbol that ends with the last token, or with the text. -/
theorem Draft.cited_finish {draft : Draft} {position : Position} (h : draft.mark.Cited tokens)
    (hends : Token.EndsAt tokens stop position) (includeDetails : Bool) :
    (draft.finish includeDetails position).Cited tokens stop := by
  obtain ⟨before, name, after, rfl, hcites⟩ := h
  refine ⟨before, name, after, rfl, hcites, ?_⟩
  rcases hends with ⟨last, hlast, rfl⟩ | rfl
  · left
    refine ⟨last, ?_, rfl⟩
    rw [List.getLast?_append, List.getLast?_cons] at hlast
    simp only [Option.some_or, Option.some.injEq] at hlast
    rw [← hlast]
    cases hafter : after.getLast? with
    | none => simp
    | some other => exact List.mem_cons_of_mem _ (List.mem_of_getLast? hafter)
  · exact Or.inr rfl

/-- A header cites its first token and its name. -/
theorem Draft.cited_ofTokens {kind : SymbolKind} {first : Token} {name : Option Token}
    {rest : List Token} (hstarts : ∀ token, kind.StartsWith first token)
    (hname : ∀ token ∈ name,
      token ∈ first :: rest ∧ (token.isWord = true ∨ token.text = "*"))
    (hnone : name = none → (kind = .event ∨ kind = .container) ∧
      first.kind ∈ [.keyword .on, .keyword .struct, .keyword .enum]) :
    (ofTokens kind first name).mark.Cited (first :: rest) := by
  cases name with
  | none =>
    obtain ⟨hkind, hfirst⟩ := hnone rfl
    refine ⟨[], first, rest, rfl, rfl, first, by simp, rfl, hstarts first, ?_⟩
    exact Or.inr ⟨rfl, hkind, rfl, hfirst⟩
  | some token =>
    obtain ⟨hmem, hword⟩ := hname token rfl
    obtain ⟨before, after, hsplit⟩ := List.append_of_mem hmem
    refine ⟨before, token, after, hsplit, rfl, first, ?_, rfl, hstarts token, Or.inl ⟨rfl, hword⟩⟩
    cases before with
    | nil => simp [(List.cons.inj hsplit).1]
    | cons other before => simp [(List.cons.inj hsplit).1]

/-! ## The spine -/

/-- All symbols that are closed have the property `P`, and the marks of all that are open have the
property `Q`. -/
structure Spine.All (P : Symbol → Prop) (Q : Mark → Prop) (spine : Spine) : Prop where
  roots : ∀ symbol ∈ spine.roots, Everywhere P symbol
  drafts : ∀ draft ∈ spine.drafts,
    Q draft.mark ∧ ∀ child ∈ draft.children.toList, Everywhere P child

namespace Spine

variable {P P' : Symbol → Prop} {Q Q' : Mark → Prop} {spine : Spine}

/-- The mark of an open symbol stays what it is when a symbol is hung on it. -/
theorem all_iff_every : spine.All P Q ↔ spine.Every P (Q ·.mark) :=
  ⟨fun h => ⟨h.roots, h.drafts⟩, fun h => ⟨h.roots, h.drafts⟩⟩

theorem All.imp (h : spine.All P Q) (hP : ∀ symbol, P symbol → P' symbol)
    (hQ : ∀ mark, Q mark → Q' mark) : spine.All P' Q' :=
  all_iff_every.2 ((all_iff_every.1 h).imp hP fun _ => hQ _)

theorem All.attach (h : spine.All P Q) {symbol : Symbol} (hsymbol : Everywhere P symbol) :
    (spine.attach symbol).All P Q :=
  all_iff_every.2 ((all_iff_every.1 h).attach (fun _ _ => id) hsymbol)

theorem All.push (h : spine.All P Q) {draft : Draft} (hchildren : draft.children = #[])
    (hmark : Q draft.mark) : (spine.push draft).All P Q :=
  all_iff_every.2 ((all_iff_every.1 h).push hchildren hmark)

theorem All.pop (h : spine.All P Q) {includeDetails : Bool} {stop : Position}
    (hfinish : ∀ draft : Draft, Q draft.mark → P (draft.finish includeDetails stop)) :
    (spine.pop includeDetails stop).All P Q :=
  all_iff_every.2 ((all_iff_every.1 h).pop (fun _ _ => id) hfinish)

/-- All symbols cite the tokens that have been passed, each its own, in the order of the text. -/
structure Tells (stop : Position) (passed : List Token) (spine : Spine) : Prop where
  selections : (spine.marks.map (·.selection)).Sublist (passed.map (·.range))
  all : spine.All (Symbol.Cited passed stop) (Mark.Cited passed)

variable {passed own : List Token}

theorem Tells.append (h : spine.Tells stop passed) (more : List Token) :
    spine.Tells stop (passed ++ more) := by
  refine ⟨?_, h.all.imp (fun _ hsymbol => hsymbol.append more) fun _ hmark => hmark.append more⟩
  rw [List.map_append]
  exact h.selections.trans (List.sublist_append_left _ _)

/-- A new symbol is selected behind all others. -/
theorem selections_concat {marks : List Mark} {mark : Mark}
    (h : (marks.map (·.selection)).Sublist (passed.map (·.range))) (hmark : mark.Cited own) :
    ((marks ++ [mark]).map (·.selection)).Sublist ((passed ++ own).map (·.range)) := by
  rw [List.map_append, List.map_append]
  exact h.append (List.singleton_sublist.2 hmark.selection_mem)

theorem Tells.attach (h : spine.Tells stop passed) {draft : Draft} {kinds : List SymbolKind}
    (hfresh : draft.Fresh kinds) (hmark : draft.mark.Cited own) {position : Position}
    (hends : Token.EndsAt (passed ++ own) stop position) (includeDetails : Bool) :
    (spine.attach (draft.finish includeDetails position)).Tells stop (passed ++ own) := by
  refine ⟨?_, (h.append own).all.attach (.intro ?_ ?_)⟩
  · rw [marks_attach, hfresh.marks_finish]
    exact selections_concat h.selections hmark
  · exact Draft.cited_finish (hmark.behind passed) hends includeDetails
  · intro child hchild
    simp [Draft.finish, hfresh.1] at hchild

theorem Tells.push (h : spine.Tells stop passed) {draft : Draft}
    (hchildren : draft.children = #[]) (hmark : draft.mark.Cited own) :
    (spine.push draft).Tells stop (passed ++ own) := by
  refine ⟨?_, (h.append own).all.push hchildren (hmark.behind passed)⟩
  by_cases hroom : spine.drafts.length < maxNesting
  · rw [marks_push hroom hchildren]
    exact selections_concat h.selections hmark
  · rw [marks_push_of_full hroom]
    exact (h.append own).selections

theorem Tells.pop (h : spine.Tells stop passed) {position : Position}
    (hends : Token.EndsAt passed stop position) (includeDetails : Bool) :
    (spine.pop includeDetails position).Tells stop passed := by
  refine ⟨?_, h.all.pop ?_⟩
  · rw [marks_pop]
    exact h.selections
  · intro draft hmark
    exact Draft.cited_finish hmark hends includeDetails

end Spine

end Outline

end CaplOutline
