-- What the server answers after any sequence of calls. Three things are kept: the settings, what
-- the editor can show, and the documents. Each of them has its own history, and an answer
-- follows from the three histories alone.
import CaplOutline.Proofs.Document.History
import CaplOutline.Proofs.Server.Listing
import CaplOutline.Proofs.Server.Messages
import CaplOutline.Proofs.Settings.Forms

namespace CaplOutline

/-! ## Changes and capabilities -/

/-- The text after a change. Without a range the new text is the whole one, and otherwise it stands
in the place of the range. -/
def ContentChange.made (text : String) : ContentChange → String
  | ⟨none, new⟩ => new
  | ⟨some range, new⟩ => (Text.Change.rangeEdit range new).apply text

/-- An editor with these capabilities says that it can show an outline as a tree. -/
def Json.ShowsTrees (capabilities : Json) : Prop :=
  ∃ document symbols, capabilities.member? "textDocument" = some document ∧
    document.member? "documentSymbol" = some symbols ∧
    symbols.member? "hierarchicalDocumentSymbolSupport" = some (.bool true)

theorem ContentChange.apply_edit (text : String) (change : ContentChange) :
    change.edit.apply text = made text change := by
  obtain ⟨range, new⟩ := change
  cases range <;> rfl

theorem ContentChange.applyAll_edit (text : String) (changes : List ContentChange) :
    Text.Change.applyAll text (changes.map edit) = changes.foldl made text := by
  unfold Text.Change.applyAll
  rw [List.foldl_map]
  simp only [apply_edit]

theorem Json.hierarchical_eq_true_iff {capabilities : Json} :
    capabilities.hierarchical = true ↔ capabilities.ShowsTrees := by
  have hbool : ∀ value : Json, value.bool? = some true ↔ value = .bool true := by
    intro value
    cases value <;> simp [bool?]
  unfold hierarchical ShowsTrees
  dsimp only
  rw [Option.getD_eq_iff]
  simp only [Option.bind_eq_bind, Option.bind_eq_some_iff, hbool, Bool.false_eq_true, and_false,
    or_false]
  constructor
  · rintro ⟨document, hdocument, symbols, hsymbols, _, htrees, rfl⟩
    exact ⟨document, symbols, hdocument, hsymbols, htrees⟩
  · rintro ⟨document, symbols, hdocument, hsymbols, htrees⟩
    exact ⟨document, hdocument, symbols, hsymbols, _, htrees, rfl⟩

/-! ## The histories -/

namespace Call

/-- The call gives settings that can be read as a whole. -/
def Gives : Call → Settings → Prop
  | start (some options) _, settings => settings.GivenBy options
  | _, _ => False

/-- The call tells whether the editor can show trees. -/
def Announces : Call → Bool → Prop
  | start _ capabilities, trees => trees = true ↔ capabilities.ShowsTrees
  | _, _ => False

/-- Of the calls that tell something the last one tells this. If none of them does, it is the
default. -/
def LastTells {α : Type} (tells : Call → α → Prop) (default : α) (calls : List Call) (value : α) :
    Prop :=
  (∃ before call later, calls = before ++ call :: later ∧ tells call value ∧
    ∀ other ∈ later, ∀ unsaid, ¬ tells other unsaid) ∨
  value = default ∧ ∀ call ∈ calls, ∀ unsaid, ¬ tells call unsaid

/-- The call opens or closes the document. -/
def turns (uri : String) : Call → Bool
  | didOpen id _ _ | didClose id => id == uri
  | _ => false

def Stay (uri : String) (calls : List Call) : Prop := ∀ call ∈ calls, call.turns uri = false

/-- The document was opened with this text, and then there were only the calls of `later`, which
leave it open. -/
structure Opened (uri : String) (calls : List Call) (text : String) (version : Int)
    (later : List Call) : Prop where
  last_turn : ∃ before, calls = before ++ didOpen uri text version :: later
  stay : Stay uri later

/-- The document was never opened or closed, or was closed last. -/
def Closed (uri : String) (calls : List Call) : Prop :=
  Stay uri calls ∨ ∃ before later, calls = before ++ didClose uri :: later ∧ Stay uri later

/-- What a call makes of the text and the version of an open document. The changes of a newer batch
are made one after another, and nothing else changes a text. -/
def next (uri : String) (state : String × Int) : Call → String × Int
  | didChange id version changes =>
    if id = uri ∧ state.2 < version then (changes.foldl ContentChange.made state.1, version)
    else state
  | _ => state

/-- The text and the version of a document that was opened with this text, after the calls since
then. -/
def replayed (uri text : String) (version : Int) (later : List Call) : String × Int :=
  later.foldl (next uri) (text, version)

section LastTells

variable {α : Type} {tells : Call → α → Prop} {default value : α} {calls : List Call} {call : Call}

theorem LastTells.of_tells (h : tells call value) :
    LastTells tells default (calls ++ [call]) value :=
  .inl ⟨calls, call, [], rfl, h, nofun⟩

theorem LastTells.concat (h : LastTells tells default calls value)
    (hcall : ∀ unsaid, ¬ tells call unsaid) : LastTells tells default (calls ++ [call]) value := by
  rcases h with ⟨before, last, later, rfl, htells, hlater⟩ | ⟨hvalue, hcalls⟩
  · refine .inl ⟨before, last, later ++ [call], by simp, htells, ?_⟩
    simpa [or_imp, forall_and] using ⟨hlater, hcall⟩
  · refine .inr ⟨hvalue, ?_⟩
    simpa [or_imp, forall_and] using ⟨hcalls, hcall⟩

end LastTells

theorem Stay.concat {uri : String} {calls : List Call} {call : Call} (h : Stay uri calls)
    (hcall : call.turns uri = false) : Stay uri (calls ++ [call]) := by
  intro other hmem
  rcases List.mem_append.1 hmem with hmem | hmem
  · exact h other hmem
  · cases List.mem_singleton.1 hmem
    exact hcall

/-- The last call that opened or closed a document opened it, or closed it, or there was none. -/
theorem exists_last_turn (uri : String) (calls : List Call) :
    Closed uri calls ∨ ∃ text version later, Opened uri calls text version later := by
  induction calls using List.reverseRecOn with
  | nil => exact Or.inl (Or.inl nofun)
  | append_singleton calls call ih =>
    by_cases hturn : call.turns uri = true
    · cases call with
      | didOpen id text version =>
        cases beq_iff_eq.1 hturn
        exact Or.inr ⟨text, version, [], ⟨calls, rfl⟩, nofun⟩
      | didClose id =>
        cases beq_iff_eq.1 hturn
        exact Or.inl (Or.inr ⟨calls, [], rfl, nofun⟩)
      | _ => cases hturn
    · rw [Bool.not_eq_true] at hturn
      rcases ih with (hstay | ⟨before, later, rfl, hstay⟩) |
        ⟨text, version, later, ⟨before, rfl⟩, hstay⟩
      · exact Or.inl (Or.inl (hstay.concat hturn))
      · refine Or.inl (Or.inr ⟨before, later ++ [call], ?_, hstay.concat hturn⟩)
        simp
      · refine Or.inr ⟨text, version, later ++ [call], ⟨before, ?_⟩, hstay.concat hturn⟩
        simp

end Call

namespace Session

/-- The session after a number of calls. -/
def run (session : Session) (calls : List Call) : Session :=
  calls.foldl (fun session call => (session.answer call).2) session

variable {session : Session} {call : Call} {uri : String}

@[simp]
theorem run_cons (session : Session) (call : Call) (calls : List Call) :
    session.run (call :: calls) = (session.answer call).2.run calls := rfl

theorem run_append (session : Session) (calls calls' : List Call) :
    session.run (calls ++ calls') = (session.run calls).run calls' := List.foldl_append ..

/-! ## Settings and trees -/

theorem store_configure (session : Session) (options : Option Json) :
    (session.configure options).store = session.store := by
  unfold configure
  split <;> rfl

/-- Only a start changes the settings, or what the editor can show. -/
theorem answer_of_ne_start (h : ∀ options capabilities, call ≠ .start options capabilities) :
    (session.answer call).2.settings = session.settings ∧
      (session.answer call).2.hierarchical = session.hierarchical := by
  unfold answer
  cases call with
  | start options capabilities => exact absurd rfl (h options capabilities)
  | started => exact ⟨rfl, rfl⟩
  | shutdown => exact ⟨rfl, rfl⟩
  | didOpen uri text version => exact ⟨rfl, rfl⟩
  | didChange uri version changes => dsimp only; split <;> exact ⟨rfl, rfl⟩
  | didClose uri => dsimp only; split <;> exact ⟨rfl, rfl⟩
  | documentSymbol uri => dsimp only; split <;> exact ⟨rfl, rfl⟩

theorem settings_answer_of_gives {settings : Settings} (h : call.Gives settings) :
    (session.answer call).2.settings = settings := by
  cases call with
  | start options capabilities =>
    cases options with
    | none => cases h
    | some options =>
      have hread : Settings.read options = .ok settings := Settings.read_iff_givenBy.2 h
      unfold answer configure
      dsimp only [Option.map_some]
      rw [hread]
  | _ => cases h

theorem settings_answer_of_not_gives (h : ∀ settings, ¬ call.Gives settings) :
    (session.answer call).2.settings = session.settings := by
  cases call with
  | start options capabilities =>
    cases options with
    | none => rfl
    | some options =>
      unfold answer configure
      dsimp only [Option.map_some]
      cases hread : Settings.read options with
      | error error => rfl
      | ok settings => exact absurd (Settings.read_iff_givenBy.1 hread) (h settings)
  | _ => exact (answer_of_ne_start (by simp)).1

theorem hierarchical_answer_of_announces {trees : Bool} (h : call.Announces trees) :
    (session.answer call).2.hierarchical = trees := by
  cases call with
  | start options capabilities =>
    exact Bool.eq_iff_iff.2 (Json.hierarchical_eq_true_iff.trans h.symm)
  | _ => cases h

theorem hierarchical_answer_of_not_announces (h : ∀ trees, ¬ call.Announces trees) :
    (session.answer call).2.hierarchical = session.hierarchical := by
  cases call with
  | start options capabilities =>
    exact absurd Json.hierarchical_eq_true_iff (h capabilities.hierarchical)
  | _ => exact (answer_of_ne_start (by simp)).2

/-- What only the calls that tell it can change is what the last one of them tells. -/
theorem lastTells_run {α : Type} {get : Session → α} {tells : Call → α → Prop}
    (htells : ∀ (session : Session) (call : Call) (value : α), tells call value →
      get (session.answer call).2 = value)
    (hpasses : ∀ (session : Session) (call : Call), (∀ unsaid, ¬ tells call unsaid) →
      get (session.answer call).2 = get session) (calls : List Call) :
    Call.LastTells tells (get {}) calls (get (run {} calls)) := by
  induction calls using List.reverseRecOn with
  | nil => exact .inr ⟨rfl, nofun⟩
  | append_singleton calls call ih =>
    rw [run_append]
    change Call.LastTells tells (get {}) (calls ++ [call]) (get ((run {} calls).answer call).2)
    by_cases hcall : ∃ value, tells call value
    · obtain ⟨value, hvalue⟩ := hcall
      rw [htells _ _ _ hvalue]
      exact .of_tells hvalue
    · rw [not_exists] at hcall
      rw [hpasses _ _ hcall]
      exact ih.concat hcall

theorem settings_run (calls : List Call) :
    Call.LastTells Call.Gives ⟨⟨false, true, 32⟩, ⟨true⟩⟩ calls (run {} calls).settings :=
  lastTells_run (fun _ _ _ => settings_answer_of_gives)
    (fun _ _ => settings_answer_of_not_gives) calls

theorem hierarchical_run (calls : List Call) :
    Call.LastTells Call.Announces false calls (run {} calls).hierarchical :=
  lastTells_run (fun _ _ _ => hierarchical_answer_of_announces)
    (fun _ _ => hierarchical_answer_of_not_announces) calls

theorem bounded_run (calls : List Call) : (run {} calls).settings.symbols.Bounded := by
  rcases settings_run calls with ⟨before, call, later, -, hgives, -⟩ | ⟨hdefault, -⟩
  · cases call with
    | start options capabilities =>
      cases options with
      | none => cases hgives
      | some options => exact Settings.bounded_of_read (Settings.read_iff_givenBy.2 hgives)
    | _ => cases hgives
  · rw [hdefault]
    exact SymbolSettings.bounded_default

/-! ## Documents -/

/-- A batch changes a document if it is newer. -/
theorem snapshot_change (document : Document) (uri : String) (version : Int)
    (changes : List ContentChange) :
    (document.change version (changes.map ContentChange.edit)).2.snapshot =
      Call.next uri document.snapshot (.didChange uri version changes) := by
  unfold Document.change Call.next Document.snapshot
  dsimp only
  by_cases h : version ≤ document.version
  · rw [if_pos h, if_neg (by omega)]
  · rw [if_neg h, if_pos ⟨rfl, by omega⟩, ContentChange.applyAll_edit]

theorem snapshot_answer_didChange (session : Session) (id : String) (version : Int)
    (changes : List ContentChange) (uri : String) :
    (session.answer (.didChange id version changes)).2.store.snapshot uri =
      (fun state => Call.next uri state (.didChange id version changes)) <$>
        session.store.snapshot uri := by
  have hsame (hid : id ≠ uri) : session.store.snapshot uri =
      (fun state => Call.next uri state (.didChange id version changes)) <$>
        session.store.snapshot uri := by
    simp [Call.next, hid]
  unfold answer
  dsimp only
  split
  · rename_i outcome store hchange
    have hfind := Store.find_change hchange uri
    by_cases hid : id = uri
    · subst hid
      unfold Store.snapshot
      rw [hfind, if_pos rfl]
      cases session.store.find id with
      | error error => rfl
      | ok document => exact congrArg Except.ok (snapshot_change document id version changes)
    · rw [← hsame hid]
      unfold Store.snapshot
      rw [hfind, if_neg hid]
  · rename_i error hchange
    by_cases hid : id = uri
    · subst hid
      unfold Store.change at hchange
      unfold Store.snapshot
      cases hfind : session.store.find id with
      | error error => rfl
      | ok document =>
        rw [hfind] at hchange
        cases hchange
    · exact hsame hid

theorem find_answer_didOpen (session : Session) (uri text : String) (version : Int) :
    (session.answer (.didOpen uri text version)).2.store.find uri =
      .ok (.new uri text version) := by
  unfold answer
  dsimp only
  rw [Store.find_insert, if_pos rfl]

theorem find_answer_didClose (session : Session) (uri : String) :
    (session.answer (.didClose uri)).2.store.find uri = .error (.unknownDocument uri) := by
  unfold answer
  dsimp only
  split
  · rename_i store herase
    exact (Store.find_erase herase uri).trans (if_pos rfl)
  · rename_i error herase
    unfold Store.erase at herase
    rw [Store.find_eq_error_iff, ← Bool.not_eq_true, Store.contains_iff]
    rintro ⟨document, hfind⟩
    rw [hfind] at herase
    cases herase

theorem find_answer_didClose_of_ne {id : String} (hid : id ≠ uri) :
    (session.answer (.didClose id)).2.store.find uri = session.store.find uri := by
  unfold answer
  dsimp only
  split
  · rename_i store herase
    exact (Store.find_erase herase uri).trans (if_neg hid)
  · rfl

/-- A call that neither opens nor closes a document leaves it as it is, but for its changes. -/
theorem snapshot_answer_of_stay (h : call.turns uri = false) :
    (session.answer call).2.store.snapshot uri =
      (fun state => Call.next uri state call) <$> session.store.snapshot uri := by
  have hsame : session.store.snapshot uri = (fun state => state) <$> session.store.snapshot uri :=
    (id_map' _).symm
  cases call with
  | start options capabilities =>
    exact (congrArg (·.snapshot uri) (store_configure session options)).trans hsame
  | started => exact hsame
  | shutdown => exact hsame
  | didOpen id text version =>
    refine Eq.trans ?_ hsame
    unfold answer Store.snapshot
    dsimp only
    rw [Store.find_insert, if_neg (ne_of_beq_false h)]
  | didChange id version changes => exact snapshot_answer_didChange session id version changes uri
  | didClose id =>
    refine Eq.trans ?_ hsame
    unfold Store.snapshot
    rw [find_answer_didClose_of_ne (ne_of_beq_false h)]
  | documentSymbol id =>
    refine Eq.trans ?_ hsame
    unfold answer
    dsimp only
    split <;> rfl

theorem snapshot_run_of_stay {calls : List Call} (h : Call.Stay uri calls) :
    (session.run calls).store.snapshot uri =
      (fun state => calls.foldl (Call.next uri) state) <$> session.store.snapshot uri := by
  induction calls generalizing session with
  | nil => exact (id_map' _).symm
  | cons call calls ih =>
    have hcall := h call List.mem_cons_self
    have hcalls : Call.Stay uri calls := fun other hmem => h other (List.mem_cons_of_mem _ hmem)
    rw [run_cons, ih hcalls, snapshot_answer_of_stay hcall]
    cases session.store.snapshot uri <;> rfl

theorem snapshot_run_of_opened {calls later : List Call} {text : String} {version : Int}
    (h : Call.Opened uri calls text version later) :
    (session.run calls).store.snapshot uri = .ok (Call.replayed uri text version later) := by
  obtain ⟨⟨before, rfl⟩, hstay⟩ := h
  rw [run_append, run_cons, snapshot_run_of_stay hstay, Store.snapshot, find_answer_didOpen]
  rfl

theorem find_run_of_opened {calls later : List Call} {text : String} {version : Int}
    (h : Call.Opened uri calls text version later) :
    ∃ document, (session.run calls).store.find uri = .ok document ∧
      document.text = (Call.replayed uri text version later).1 := by
  have hsnapshot := @snapshot_run_of_opened session uri calls later text version h
  unfold Store.snapshot at hsnapshot
  cases hfind : (session.run calls).store.find uri with
  | error error =>
    rw [hfind] at hsnapshot
    cases hsnapshot
  | ok document =>
    rw [hfind] at hsnapshot
    exact ⟨document, rfl, congrArg Prod.fst (Except.ok.inj hsnapshot)⟩

/-- A document that is not open stays so. -/
theorem find_run_of_unknown {calls : List Call} (h : Call.Stay uri calls)
    (hfind : session.store.find uri = .error (.unknownDocument uri)) :
    (session.run calls).store.find uri = .error (.unknownDocument uri) := by
  have hsnapshot := @snapshot_run_of_stay session uri calls h
  unfold Store.snapshot at hsnapshot
  rw [hfind] at hsnapshot
  cases hlast : (session.run calls).store.find uri with
  | error error =>
    rw [hlast] at hsnapshot
    rw [Except.error.inj hsnapshot]
  | ok document =>
    rw [hlast] at hsnapshot
    cases hsnapshot

theorem find_run_of_closed {calls : List Call} (h : Call.Closed uri calls) :
    (run {} calls).store.find uri = .error (.unknownDocument uri) := by
  rcases h with hstay | ⟨before, later, rfl, hstay⟩
  · exact find_run_of_unknown hstay (Store.find_empty uri)
  · rw [run_append, run_cons]
    exact find_run_of_unknown hstay (find_answer_didClose _ uri)

/-! ## Calls that say nothing new -/

/-- Calls that only ask, batches that are late or that name no open document, and the closing of a
document that is not open. -/
def Passes (session : Session) : Call → Prop
  | .started | .shutdown | .documentSymbol _ => True
  | .didChange uri version _ =>
    ∀ document, session.store.find uri = .ok document → version ≤ document.version
  | .didClose uri => ∀ document, session.store.find uri ≠ .ok document
  | .start .. | .didOpen .. => False

/-- Such a call leaves every text with its version. -/
theorem snapshot_answer_of_passes (h : session.Passes call) (uri : String) :
    (session.answer call).2.store.snapshot uri = session.store.snapshot uri := by
  cases call with
  | start => cases h
  | didOpen => cases h
  | didChange id version changes =>
    rw [snapshot_answer_didChange]
    unfold Store.snapshot
    cases hfind : session.store.find uri with
    | error error => rfl
    | ok document =>
      have hlate : ¬ (id = uri ∧ document.version < version) := by
        rintro ⟨rfl, hlt⟩
        have := h document hfind
        omega
      exact congrArg Except.ok (if_neg hlate)
  | didClose id =>
    unfold answer
    dsimp only
    split
    · rename_i store herase
      unfold Store.erase at herase
      cases hfind : session.store.find id with
      | error error =>
        rw [hfind] at herase
        cases herase
      | ok document => exact absurd hfind (h document)
    · rfl
  | _ => exact (snapshot_answer_of_stay rfl).trans (id_map' _)

/-- And the settings, and what the editor can show. -/
theorem settings_answer_of_passes (h : session.Passes call) :
    (session.answer call).2.settings = session.settings ∧
      (session.answer call).2.hierarchical = session.hierarchical := by
  cases call with
  | start => cases h
  | _ => exact answer_of_ne_start fun _ _ => nofun

/-! ## What is answered -/

/-- What a session answers after these calls. -/
structure Follows (session : Session) (calls : List Call) : Prop where
  settings : Call.LastTells Call.Gives ⟨⟨false, true, 32⟩, ⟨true⟩⟩ calls session.settings
  hierarchical : Call.LastTells Call.Announces false calls session.hierarchical
  depth : 1 ≤ session.settings.symbols.maxDepth ∧ session.settings.symbols.maxDepth ≤ 256
  refuses : ∀ uri, (session.answer (.documentSymbol uri)).1.toJson? =
    some (.error (-32602, "unknown document: " ++ uri)) ↔ Call.Closed uri calls
  opened : ∀ uri, ¬ Call.Closed uri calls →
    ∃ text version later, Call.Opened uri calls text version later
  keeps : ∀ uri text version later, Call.Opened uri calls text version later →
    session.store.snapshot uri = .ok (Call.replayed uri text version later)
  /-- The tree is the outline of the text without the symbols that are too deep. -/
  lists : ∀ uri text version later, Call.Opened uri calls text version later →
    ∃ (tree : Outline) (values : List Json),
      (∀ other : Outline, other.labels =
        (Outline.extract (Call.replayed uri text version later).1
          ⟨session.settings.symbols.includeLocals,
            session.settings.symbols.includeDetails⟩).labels.filter
          (·.1 ≤ max 1 session.settings.symbols.maxDepth) ↔ other = tree) ∧
      (session.answer (.documentSymbol uri)).1.toJson? = some (.ok (.array values)) ∧
      if session.hierarchical then List.Forall₂ Json.Shows values tree
      else List.Forall₂ (Json.ShowsHeld uri) values tree.held
  starts : ∀ options capabilities,
    let next := (session.answer (.start options capabilities)).2
    Call.LastTells Call.Gives ⟨⟨false, true, 32⟩, ⟨true⟩⟩
      (calls ++ [.start options capabilities]) next.settings ∧
    (∃ value able,
      (session.answer (.start options capabilities)).1.toJson? = some (.ok value) ∧
      value.member? "capabilities" = some able ∧
      able.member? "textDocumentSync" =
        some (.int (if next.settings.sync.incremental then 2 else 1))) ∧
    next.store = session.store
  passes : ∀ call, session.Passes call →
    (session.answer call).2.settings = session.settings ∧
      (session.answer call).2.hierarchical = session.hierarchical ∧
      ∀ uri, (session.answer call).2.store.snapshot uri = session.store.snapshot uri

/-- An outline is asked for. -/
theorem answer_documentSymbol_of_find {document : Document}
    (h : session.store.find uri = .ok document) :
    (session.answer (.documentSymbol uri)).1 =
      .listing uri
        (if session.hierarchical then
          .nested ((Outline.extract document.text session.settings.symbols.options).cut
            session.settings.symbols.maxDepth)
        else
          .flat ((Outline.extract document.text session.settings.symbols.options).flatten
            session.settings.symbols.maxDepth)) := by
  unfold answer
  dsimp only
  rw [listing_of_find h]

theorem answer_documentSymbol_of_unknown
    (h : session.store.find uri = .error (.unknownDocument uri)) :
    session.answer (.documentSymbol uri) = (.refused (.unknownDocument uri), session) := by
  unfold answer listing Store.symbols
  dsimp only
  rw [h]
  rfl

/-- Both forms of an answer show the same tree. -/
theorem exists_values_of_find {document : Document} (h : session.store.find uri = .ok document) :
    ∃ values, (session.answer (.documentSymbol uri)).1.toJson? = some (.ok (.array values)) ∧
      if session.hierarchical then
        List.Forall₂ Json.Shows values
          ((Outline.extract document.text session.settings.symbols.options).cut
            session.settings.symbols.maxDepth)
      else
        List.Forall₂ (Json.ShowsHeld uri) values
          ((Outline.extract document.text session.settings.symbols.options).cut
            session.settings.symbols.maxDepth).held := by
  rw [answer_documentSymbol_of_find h, Outline.flatten_eq_map]
  generalize (Outline.extract document.text session.settings.symbols.options).cut
    session.settings.symbols.maxDepth = tree
  by_cases htrees : session.hierarchical = true
  · obtain ⟨values, hvalues, hshows⟩ := Json.exists_values_of_nested uri tree
    rw [if_pos htrees]
    refine ⟨values, by rw [Reply.toJson?, hvalues], ?_⟩
    rwa [if_pos htrees]
  · obtain ⟨values, hvalues, hshows⟩ := Json.exists_values_of_flat uri tree.held
    rw [if_neg htrees]
    refine ⟨values, by rw [Reply.toJson?, hvalues], ?_⟩
    rwa [if_neg htrees]

theorem follows_run (calls : List Call) : (run {} calls).Follows calls where
  settings := settings_run calls
  hierarchical := hierarchical_run calls
  depth := by
    obtain ⟨hpositive, hle⟩ := bounded_run calls
    exact ⟨hpositive, hle⟩
  refuses uri := by
    rcases Call.exists_last_turn uri calls with hclosed | ⟨text, version, later, hopened⟩
    · rw [answer_documentSymbol_of_unknown (find_run_of_closed hclosed)]
      exact iff_of_true rfl hclosed
    · obtain ⟨document, hfind, -⟩ := @find_run_of_opened {} uri calls later text version hopened
      rw [answer_documentSymbol_of_find hfind]
      refine iff_of_false nofun ?_
      intro hclosed
      rw [find_run_of_closed hclosed] at hfind
      cases hfind
  opened uri hclosed := (Call.exists_last_turn uri calls).resolve_left hclosed
  keeps uri text version later hopened := snapshot_run_of_opened hopened
  lists uri text version later hopened := by
    obtain ⟨document, hfind, htext⟩ := @find_run_of_opened {} uri calls later text version hopened
    obtain ⟨values, hvalues, hshows⟩ := exists_values_of_find hfind
    rw [htext] at hshows
    exact ⟨_, values, fun other => Outline.labels_eq_filter_iff, hvalues, hshows⟩
  starts options capabilities := by
    have hsettings := settings_run (calls ++ [.start options capabilities])
    rw [run_append] at hsettings
    exact ⟨hsettings, ⟨_, _, rfl, rfl, rfl⟩, store_configure _ options⟩
  passes call h := by
    obtain ⟨hsettings, hhierarchical⟩ := settings_answer_of_passes h
    exact ⟨hsettings, hhierarchical, snapshot_answer_of_passes h⟩

/-- A session that receives messages answers the calls that they tell. -/
theorem receiveAll_of_tellAll {messages : List Message} {calls : List Call}
    (h : Message.TellAll messages calls) (session : Session) :
    session.receiveAll messages = session.run calls := by
  induction h generalizing session with
  | done => rfl
  | @call message call messages calls htells _ ih =>
    change (session.receive message).2.receiveAll messages = session.run (call :: calls)
    rw [ih, receive_of_tells htells, run_cons]
  | @nothing message messages calls hnone _ ih =>
    change (session.receive message).2.receiveAll messages = session.run calls
    rw [ih, receive_of_not_tells hnone]

/-! ## The law -/

/-- After any calls an outline is refused if its document was never opened, or was closed last.
Otherwise it is taken from the text that was opened last, with the changes of all newer batches
since then, under the settings that could be read last, and in the form that the editor asked for
last. A start tells how text is to be sent, and changes no document. The messages of an editor do
what the calls do that they tell, and one that tells no call does nothing. -/
theorem every_session_follows_its_calls :
    (∀ calls, (run {} calls).Follows calls) ∧
    ∀ messages, ∃ calls, Message.TellAll messages calls ∧
      receiveAll {} messages = run {} calls ∧
      ∀ message,
        (∀ call, message.Tells call → (receiveAll {} messages).receive message =
          (some ((run {} calls).answer call).1, ((run {} calls).answer call).2)) ∧
        ((∀ call, ¬ message.Tells call) →
          (receiveAll {} messages).receive message = (none, run {} calls)) := by
  refine ⟨follows_run, ?_⟩
  intro messages
  have htell := Message.tellAll_iff.2 (rfl : messages.filterMap Message.call? = _)
  have hrun := receiveAll_of_tellAll htell {}
  refine ⟨_, htell, hrun, fun message => ?_⟩
  rw [hrun]
  exact ⟨fun _ => receive_of_tells, receive_of_not_tells⟩

def editedDocument : Json := .object [("uri", .string "file:///a.can"), ("version", .int 2)]

/-- An editor that shows trees, down to level 2, opens a document and adds a variable to it. At
first it sends the version without any changes. -/
def editedMessages : List Message := [
  ⟨"initialize", some (.object [
    ("capabilities", .object [("textDocument", .object [("documentSymbol",
      .object [("hierarchicalDocumentSymbolSupport", .bool true)])])]),
    ("initializationOptions", .object [("symbols", .object [("max_depth", .int 2)])])])⟩,
  ⟨"textDocument/didOpen", some (.object [("textDocument", .object [
    ("uri", .string "file:///a.can"), ("languageId", .string "capl"), ("version", .int 1),
    ("text", .string "variables { struct S { int m; }; }")])])⟩,
  ⟨"textDocument/didChange", some (.object [("textDocument", editedDocument)])⟩,
  ⟨"textDocument/didChange", some (.object [("textDocument", editedDocument),
    ("contentChanges", .array [.object [("text", .string "int n; "),
      ("range", Json.ofRange ⟨⟨0, 33⟩, ⟨0, 33⟩⟩)]])])⟩]

/-- The message without changes tells nothing, so that the edit is not late. -/
theorem the_outline_of_an_edited_document :
    ∃ (tree : Outline) (values : List Json) (reply : Reply),
      ((receiveAll {} editedMessages).receive ⟨"textDocument/documentSymbol",
        some (.object [("textDocument", editedDocument)])⟩).1 = some reply ∧
      reply.toJson? = some (.ok (.array values)) ∧
      List.Forall₂ Json.Shows values tree ∧
      tree.levels.map (fun (level, symbol) => (level, symbol.name)) =
        [(1, "variables"), (2, "S"), (2, "n")] := by
  obtain ⟨hfollows, hreceives⟩ := every_session_follows_its_calls
  obtain ⟨calls, htell, -, hreceive⟩ := hreceives editedMessages
  obtain rfl := Message.tellAll_iff.1 htell
  have hopened : Call.Opened "file:///a.can" (editedMessages.filterMap Message.call?)
      "variables { struct S { int m; }; }" 1
      [.didChange "file:///a.can" 2 [⟨some ⟨⟨0, 33⟩, ⟨0, 33⟩⟩, "int n; "⟩]] :=
    ⟨⟨(editedMessages.filterMap Message.call?).take 1, rfl⟩, by simp [Call.Stay, Call.turns]⟩
  have hasks : Message.Tells ⟨"textDocument/documentSymbol",
      some (.object [("textDocument", editedDocument)])⟩ (.documentSymbol "file:///a.can") :=
    Message.call?_eq_some_iff.1 rfl
  obtain ⟨tree, values, hlabels, hanswer, hshows⟩ := (hfollows _).lists _ _ _ _ hopened
  have htrees : (run {} (editedMessages.filterMap Message.call?)).hierarchical = true := rfl
  rw [if_pos htrees] at hshows
  refine ⟨tree, values, _, congrArg Prod.fst ((hreceive _).1 _ hasks), hanswer, hshows, ?_⟩
  rw [← (hlabels ((Outline.extract "variables { struct S { int m; }; int n; }" {}).cut 2)).1]
  · decide +kernel
  · decide +kernel

end Session

end CaplOutline
