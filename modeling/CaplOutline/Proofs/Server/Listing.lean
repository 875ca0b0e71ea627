-- What goes over the wire when an outline is asked for. A tree or a flat list, it is made of
-- the same symbols, and a JSON value says of each symbol all that the symbol says of itself.
import Mathlib.Data.List.Forall2
import CaplOutline.Proofs.Symbol.Listing
import CaplOutline.Server.Wire

namespace CaplOutline

namespace Json

/-! ## What a value says of a symbol -/

/-- The numbers that the protocol has for the kinds of symbols. A container is a namespace there. -/
inductive IsKind : Json → SymbolKind → Prop
  | container : IsKind (int 3) .container
  | function : IsKind (int 12) .function
  | var : IsKind (int 13) .var
  | event : IsKind (int 24) .event

/-- The members of a position, as the protocol has them. -/
inductive IsPosition : Json → Position → Prop
  | mk (line character : Nat) :
      IsPosition (object [("line", int line), ("character", int character)]) ⟨line, character⟩

/-- And those of a range. -/
inductive IsRange : Json → Range → Prop
  | mk {first last : Json} {start stop : Position} : IsPosition first start →
      IsPosition last stop → IsRange (object [("start", first), ("end", last)]) ⟨start, stop⟩

/-- The value has all that a symbol says of itself, but for what it holds. -/
structure Describes (value : Json) (symbol : Symbol) : Prop where
  name : value.member? "name" = some (string symbol.name)
  detail : value.member? "detail" = symbol.detail.map string
  kind : ∃ kind, value.member? "kind" = some kind ∧ IsKind kind symbol.kind
  range : ∃ range, value.member? "range" = some range ∧ IsRange range symbol.range
  selection : ∃ range, value.member? "selectionRange" = some range ∧ IsRange range symbol.selection

/-- The value shows a symbol with all that it holds. Only a symbol that holds something has a list
of what it holds. -/
inductive Shows : Json → Symbol → Prop where
  | leaf {value : Json} {symbol : Symbol} (labels : value.Describes symbol)
      (none_held : symbol.children = []) (absent : value.member? "children" = none) :
      Shows value symbol
  | branch {value : Json} {symbol : Symbol} {values : List Json} (labels : value.Describes symbol)
      (some_held : symbol.children ≠ []) (present : value.member? "children" = some (array values))
      (shows_held : List.Forall₂ Shows values symbol.children) : Shows value symbol

/-- The value shows a symbol in a flat list: where it is, and the name of what holds it. -/
structure ShowsHeld (uri : String) (value : Json) (held : Option Symbol × Symbol) : Prop where
  name : value.member? "name" = some (string held.2.name)
  kind : ∃ kind, value.member? "kind" = some kind ∧ IsKind kind held.2.kind
  location : ∃ range, IsRange range held.2.range ∧
    value.member? "location" = some (object [("uri", string uri), ("range", range)])
  container : value.member? "containerName" = held.1.map fun holder => string holder.name

/-! ## Symbols as values -/

theorem ofSymbols_eq_map (done : Array Json) (symbols : List Symbol) :
    ofSymbols done symbols = done.toList ++ symbols.map ofSymbol := by
  induction symbols generalizing done with
  | nil => simp [ofSymbols]
  | cons symbol symbols ih => simp [ofSymbols, ih]

theorem isKind_code (kind : SymbolKind) : IsKind (int kind.code) kind := by
  cases kind <;> constructor

theorem isRange_ofRange (range : Range) : IsRange (ofRange range) range :=
  .mk (.mk _ _) (.mk _ _)

theorem describes_ofSymbol (symbol : Symbol) : (ofSymbol symbol).Describes symbol := by
  obtain ⟨name, detail, kind, range, selection, children⟩ := symbol
  have hkind := isKind_code kind
  have hrange := isRange_ofRange range
  have hselection := isRange_ofRange selection
  cases children with
  | nil =>
    rw [ofSymbol]
    cases detail <;> exact ⟨rfl, rfl, ⟨_, rfl, hkind⟩, ⟨_, rfl, hrange⟩, ⟨_, rfl, hselection⟩⟩
  | cons child children =>
    rw [ofSymbol]
    cases detail <;> exact ⟨rfl, rfl, ⟨_, rfl, hkind⟩, ⟨_, rfl, hrange⟩, ⟨_, rfl, hselection⟩⟩

mutual

theorem shows_ofSymbol : (symbol : Symbol) → Shows (ofSymbol symbol) symbol
  | ⟨name, detail, kind, range, selection, []⟩ => by
    refine Shows.leaf (describes_ofSymbol _) rfl ?_
    rw [ofSymbol]
    cases detail <;> rfl
  | ⟨name, detail, kind, range, selection, child :: children⟩ => by
    refine Shows.branch (describes_ofSymbol _) nofun ?_ (forall₂_shows (child :: children))
    rw [ofSymbol, ofSymbols_eq_map]
    cases detail <;> rfl

theorem forall₂_shows : (symbols : List Symbol) →
    List.Forall₂ Shows (symbols.map ofSymbol) symbols
  | [] => .nil
  | symbol :: symbols => .cons (shows_ofSymbol symbol) (forall₂_shows symbols)

end

theorem showsHeld_ofEntry (uri : String) (held : Option Symbol × Symbol) :
    ShowsHeld uri (ofEntry uri (Outline.entry held)) held := by
  obtain ⟨holder, symbol⟩ := held
  have hkind := isKind_code symbol.kind
  have hrange := isRange_ofRange symbol.range
  cases holder <;> exact ⟨rfl, ⟨_, rfl, hkind⟩, ⟨_, hrange, rfl⟩, rfl⟩

/-- The value of a tree shows each of its roots. -/
theorem exists_values_of_nested (uri : String) (tree : Outline) :
    ∃ values, ofListing uri (.nested tree) = array values ∧ List.Forall₂ Shows values tree := by
  refine ⟨tree.map ofSymbol, ?_, forall₂_shows tree⟩
  rw [ofListing, ofSymbols_eq_map]
  rfl

/-- The value of a flat list shows each of its symbols. -/
theorem exists_values_of_flat (uri : String) (held : List (Option Symbol × Symbol)) :
    ∃ values, ofListing uri (.flat (held.map Outline.entry)) = array values ∧
      List.Forall₂ (ShowsHeld uri) values held := by
  refine ⟨(held.map Outline.entry).map (ofEntry uri), rfl, ?_⟩
  rw [List.map_map, List.forall₂_map_left_iff, List.forall₂_same]
  intro entry _
  exact showsHeld_ofEntry uri entry

end Json

/-! ## The law -/

namespace Session

variable {session : Session} {uri : String} {document : Document}

theorem listing_of_find (h : session.store.find uri = .ok document) (settings : SymbolSettings) :
    session.listing uri settings =
      .ok (if session.hierarchical then
        .nested ((Outline.extract document.text settings.options).cut settings.maxDepth)
      else .flat ((Outline.extract document.text settings.options).flatten settings.maxDepth)) := by
  unfold listing Store.symbols
  rw [h]
  rfl

/-- The nested and the flat answer show one tree: the outline of the document without the symbols
that are too deep. -/
theorem nested_and_flat_answers_show_one_tree (settings : SymbolSettings)
    (h : session.store.find uri = .ok document) :
    ∃ tree : Outline,
      (∀ other : Outline,
        other.labels = (Outline.extract document.text settings.options).labels.filter
          (·.1 ≤ max 1 settings.maxDepth) ↔ other = tree) ∧
      session.listing uri settings =
        .ok (if session.hierarchical then .nested tree else .flat (tree.held.map Outline.entry)) ∧
      (∃ values, Json.ofListing uri (.nested tree) = .array values ∧
        List.Forall₂ Json.Shows values tree) ∧
      ∃ values, Json.ofListing uri (.flat (tree.held.map Outline.entry)) = .array values ∧
        List.Forall₂ (Json.ShowsHeld uri) values tree.held := by
  refine ⟨(Outline.extract document.text settings.options).cut settings.maxDepth, ?_, ?_,
    Json.exists_values_of_nested uri _, Json.exists_values_of_flat uri _⟩
  · intro other
    exact Outline.labels_eq_filter_iff
  · rw [listing_of_find h, Outline.flatten_eq_map]

/-- A document with a member of a struct, which is at level 3, and an editor that shows no trees. -/
def structSession : Session :=
  { store := (Store.empty.insert "file:///a.can" "variables { struct S { int m; }; int n; }" 1).2 }

theorem the_flat_answer_without_the_members :
    ∃ tree : Outline,
      structSession.listing "file:///a.can" { maxDepth := 2 } =
        .ok (.flat (tree.held.map Outline.entry)) ∧
      tree.held.map (fun (holder, symbol) => (holder.map (·.name), symbol.name)) =
        [(none, "variables"), (some "variables", "S"), (some "variables", "n")] := by
  have hfind : structSession.store.find "file:///a.can" =
      .ok (.new "file:///a.can" "variables { struct S { int m; }; int n; }" 1) := by
    rw [structSession, Store.find_insert, if_pos rfl]
  obtain ⟨tree, hlabels, hlisting, -⟩ :=
    nested_and_flat_answers_show_one_tree { maxDepth := 2 } hfind
  refine ⟨tree, hlisting, ?_⟩
  rw [← (hlabels ((Outline.extract "variables { struct S { int m; }; int n; }" {}).cut 2)).1]
  · decide +kernel
  · decide +kernel

end Session

end CaplOutline
