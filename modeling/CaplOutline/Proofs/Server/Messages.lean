-- What the messages of an editor tell. A message tells a call by the members of its parameters,
-- once these have their shape. One that is not right tells nothing, and then nothing is done.
import CaplOutline.Proofs.Json.Shape
import CaplOutline.Server.Params

namespace CaplOutline

namespace Json

variable {value given : Json} {name text : String}

/-! ## Plain values -/

theorem string?_eq_some_iff : value.string? = some text ↔ value = string text := by
  cases value <;> simp [string?]

theorem int?_eq_some_iff {n : Int} : value.int? = some n ↔ value = int n := by
  cases value with
  | number number => cases number <;> simp [int?, int]
  | _ => simp [int?, int]

theorem nat?_eq_some_iff {n : Nat} : value.nat? = some n ↔ value = int n := by
  rw [nat?, Option.bind_eq_some_iff]
  simp only [int?_eq_some_iff]
  constructor
  · rintro ⟨z, rfl, hz⟩
    rw [Int.mem_toNat?.1 hz]
  · rintro rfl
    exact ⟨n, rfl, rfl⟩

theorem items?_eq_some_iff {items : List Json} :
    value.items? = some items ↔ value = array items := by
  cases value <;> simp [items?]

theorem optional?_eq_some_iff :
    value.optional? name = some given ↔ value.member? name = some given ∧ given ≠ .null := by
  unfold optional?
  split
  · rename_i hnull
    rw [hnull]
    exact iff_of_false nofun fun ⟨hsome, hne⟩ => hne (Option.some.inj hsome).symm
  · rename_i hnull
    refine ⟨fun hsome => ⟨hsome, ?_⟩, And.left⟩
    rintro rfl
    exact hnull hsome

theorem optional?_eq_none_iff :
    value.optional? name = none ↔ ∀ given, value.member? name = some given → given = .null := by
  simp only [Option.eq_none_iff_forall_ne_some, ne_eq, optional?_eq_some_iff, not_and, not_not]

/-! ## Positions, ranges and changes -/

/-- The value tells a position by its members. -/
structure TellsPosition (value : Json) (position : Position) : Prop where
  line : value.member? "line" = some (int position.line)
  character : value.member? "character" = some (int position.character)

structure TellsRange (value : Json) (range : Range) : Prop where
  start : ∃ first, value.member? "start" = some first ∧ first.TellsPosition range.start
  stop : ∃ last, value.member? "end" = some last ∧ last.TellsPosition range.stop

/-- The value tells a change of the whole document, or of a range in it. -/
inductive TellsChange (value : Json) : ContentChange → Prop
  | whole {text : String} : value.member? "text" = some (string text) →
      (∀ given, value.member? "range" = some given → given = .null) →
      TellsChange value ⟨none, text⟩
  | part {text : String} {given : Json} {range : Range} :
      value.member? "text" = some (string text) → value.member? "range" = some given →
      given ≠ .null → given.TellsRange range → TellsChange value ⟨some range, text⟩

theorem position?_eq_some_iff {position : Position} :
    value.position? = some position ↔ value.TellsPosition position := by
  simp only [position?, Option.bind_eq_bind, Option.bind_eq_some_iff, Option.pure_def,
    nat?_eq_some_iff, Option.some.injEq]
  constructor
  · rintro ⟨_, hline, line, rfl, _, hcharacter, character, rfl, rfl⟩
    exact ⟨hline, hcharacter⟩
  · rintro ⟨hline, hcharacter⟩
    exact ⟨_, hline, _, rfl, _, hcharacter, _, rfl, rfl⟩

theorem range?_eq_some_iff {range : Range} :
    value.range? = some range ↔ value.TellsRange range := by
  simp only [range?, Option.bind_eq_bind, Option.bind_eq_some_iff, Option.pure_def,
    position?_eq_some_iff, Option.some.injEq]
  constructor
  · rintro ⟨first, hfirst, start, hstart, last, hlast, stop, hstop, rfl⟩
    exact ⟨⟨first, hfirst, hstart⟩, ⟨last, hlast, hstop⟩⟩
  · rintro ⟨⟨first, hfirst, hstart⟩, ⟨last, hlast, hstop⟩⟩
    exact ⟨first, hfirst, _, hstart, last, hlast, _, hstop, rfl⟩

theorem change?_eq_some_iff {change : ContentChange} :
    value.change? = some change ↔ value.TellsChange change := by
  simp only [change?, Option.bind_eq_bind, Option.bind_eq_some_iff, string?_eq_some_iff]
  constructor
  · rintro ⟨_, htext, text, rfl, hchange⟩
    cases hrange : value.optional? "range" with
    | none =>
      rw [hrange] at hchange
      cases hchange
      exact .whole htext (optional?_eq_none_iff.1 hrange)
    | some given =>
      obtain ⟨hgiven, hne⟩ := optional?_eq_some_iff.1 hrange
      rw [hrange] at hchange
      obtain ⟨range, htells, ⟨⟩⟩ := Option.bind_eq_some_iff.1 hchange
      exact .part htext hgiven hne (range?_eq_some_iff.1 htells)
  · intro h
    cases h with
    | whole htext hnull =>
      exact ⟨_, htext, _, rfl, by rw [optional?_eq_none_iff.2 hnull]; rfl⟩
    | part htext hgiven hne htells =>
      refine ⟨_, htext, _, rfl, ?_⟩
      rw [optional?_eq_some_iff.2 ⟨hgiven, hne⟩]
      exact Option.bind_eq_some_iff.2 ⟨_, range?_eq_some_iff.2 htells, rfl⟩

end Json

/-! ## Messages -/

/-- The message tells this call. -/
inductive Message.Tells : Message → Call → Prop
  | started (params : Option Json) : Tells ⟨"initialized", params⟩ .started
  | shutdown (params : Option Json) : Tells ⟨"shutdown", params⟩ .shutdown
  | start {params taken capabilities : Json} {options : Option Json} :
      Params.initialization.Takes params taken →
      taken.member? "capabilities" = some capabilities →
      (∀ given, options = some given ↔
        taken.member? "initializationOptions" = some given ∧ given ≠ .null) →
      Tells ⟨"initialize", some params⟩ (.start options capabilities)
  | didOpen {params taken document : Json} {uri text : String} {version : Int} :
      Params.opening.Takes params taken → taken.member? "textDocument" = some document →
      document.member? "uri" = some (.string uri) →
      document.member? "text" = some (.string text) →
      document.member? "version" = some (.int version) →
      Tells ⟨"textDocument/didOpen", some params⟩ (.didOpen uri text version)
  | didChange {params taken document : Json} {uri : String} {version : Int} {items : List Json}
      {changes : List ContentChange} :
      Params.changing.Takes params taken → taken.member? "textDocument" = some document →
      document.member? "uri" = some (.string uri) →
      document.member? "version" = some (.int version) →
      taken.member? "contentChanges" = some (.array items) →
      List.Forall₂ Json.TellsChange items changes →
      Tells ⟨"textDocument/didChange", some params⟩ (.didChange uri version changes)
  | didClose {params taken document : Json} {uri : String} :
      Params.closing.Takes params taken → taken.member? "textDocument" = some document →
      document.member? "uri" = some (.string uri) →
      Tells ⟨"textDocument/didClose", some params⟩ (.didClose uri)
  | documentSymbol {params taken document : Json} {uri : String} :
      Params.symbols.Takes params taken → taken.member? "textDocument" = some document →
      document.member? "uri" = some (.string uri) →
      Tells ⟨"textDocument/documentSymbol", some params⟩ (.documentSymbol uri)

namespace Call

variable {params : Json} {call : Call}

theorem initialization?_eq_some_iff :
    initialization? params = some call ↔ ∃ taken capabilities,
      Params.initialization.Takes params taken ∧
      taken.member? "capabilities" = some capabilities ∧
      call = .start (taken.optional? "initializationOptions") capabilities := by
  simp only [initialization?, Option.bind_eq_bind, Option.bind_eq_some_iff, Option.pure_def,
    Shape.read?_eq_some_iff, Option.some.injEq]
  constructor
  · rintro ⟨taken, htakes, capabilities, hcapabilities, rfl⟩
    exact ⟨taken, capabilities, htakes, hcapabilities, rfl⟩
  · rintro ⟨taken, capabilities, htakes, hcapabilities, rfl⟩
    exact ⟨taken, htakes, capabilities, hcapabilities, rfl⟩

theorem opening?_eq_some_iff :
    opening? params = some call ↔ ∃ taken document uri text version,
      Params.opening.Takes params taken ∧ taken.member? "textDocument" = some document ∧
      document.member? "uri" = some (.string uri) ∧
      document.member? "text" = some (.string text) ∧
      document.member? "version" = some (.int version) ∧ call = .didOpen uri text version := by
  simp only [opening?, Option.bind_eq_bind, Option.bind_eq_some_iff, Option.pure_def,
    Shape.read?_eq_some_iff, Json.string?_eq_some_iff, Json.int?_eq_some_iff, Option.some.injEq]
  constructor
  · rintro ⟨taken, htakes, document, hdocument, _, huri, uri, rfl, _, htext, text, rfl, _, hversion,
      version, rfl, rfl⟩
    exact ⟨taken, document, uri, text, version, htakes, hdocument, huri, htext, hversion, rfl⟩
  · rintro ⟨taken, document, uri, text, version, htakes, hdocument, huri, htext, hversion, rfl⟩
    exact ⟨taken, htakes, document, hdocument, _, huri, uri, rfl, _, htext, text, rfl, _, hversion,
      version, rfl, rfl⟩

theorem changing?_eq_some_iff :
    changing? params = some call ↔ ∃ taken document uri version items changes,
      Params.changing.Takes params taken ∧ taken.member? "textDocument" = some document ∧
      document.member? "uri" = some (.string uri) ∧
      document.member? "version" = some (.int version) ∧
      taken.member? "contentChanges" = some (.array items) ∧
      List.Forall₂ Json.TellsChange items changes ∧ call = .didChange uri version changes := by
  simp only [changing?, Option.bind_eq_bind, Option.bind_eq_some_iff, Option.pure_def,
    Shape.read?_eq_some_iff, Json.string?_eq_some_iff, Json.int?_eq_some_iff,
    Json.items?_eq_some_iff, Shape.mapM_eq_some_iff, Json.change?_eq_some_iff, Option.some.injEq]
  constructor
  · rintro ⟨taken, htakes, document, hdocument, _, huri, uri, rfl, _, hversion, version, rfl, _,
      hitems, items, rfl, changes, hchanges, rfl⟩
    exact ⟨taken, document, uri, version, items, changes, htakes, hdocument, huri, hversion, hitems,
      hchanges, rfl⟩
  · rintro ⟨taken, document, uri, version, items, changes, htakes, hdocument, huri, hversion,
      hitems, hchanges, rfl⟩
    exact ⟨taken, htakes, document, hdocument, _, huri, uri, rfl, _, hversion, version, rfl, _,
      hitems, items, rfl, changes, hchanges, rfl⟩

theorem closing?_eq_some_iff :
    closing? params = some call ↔ ∃ taken document uri,
      Params.closing.Takes params taken ∧ taken.member? "textDocument" = some document ∧
      document.member? "uri" = some (.string uri) ∧ call = .didClose uri := by
  simp only [closing?, Option.bind_eq_bind, Option.bind_eq_some_iff, Option.pure_def,
    Shape.read?_eq_some_iff, Json.string?_eq_some_iff, Option.some.injEq]
  constructor
  · rintro ⟨taken, htakes, document, hdocument, _, huri, uri, rfl, rfl⟩
    exact ⟨taken, document, uri, htakes, hdocument, huri, rfl⟩
  · rintro ⟨taken, document, uri, htakes, hdocument, huri, rfl⟩
    exact ⟨taken, htakes, document, hdocument, _, huri, uri, rfl, rfl⟩

theorem symbols?_eq_some_iff :
    symbols? params = some call ↔ ∃ taken document uri,
      Params.symbols.Takes params taken ∧ taken.member? "textDocument" = some document ∧
      document.member? "uri" = some (.string uri) ∧ call = .documentSymbol uri := by
  simp only [symbols?, Option.bind_eq_bind, Option.bind_eq_some_iff, Option.pure_def,
    Shape.read?_eq_some_iff, Json.string?_eq_some_iff, Option.some.injEq]
  constructor
  · rintro ⟨taken, htakes, document, hdocument, _, huri, uri, rfl, rfl⟩
    exact ⟨taken, document, uri, htakes, hdocument, huri, rfl⟩
  · rintro ⟨taken, document, uri, htakes, hdocument, huri, rfl⟩
    exact ⟨taken, htakes, document, hdocument, _, huri, uri, rfl, rfl⟩

end Call

/-- A message is understood exactly if it tells a call, and as that call. -/
theorem Message.call?_eq_some_iff {message : Message} {call : Call} :
    message.call? = some call ↔ message.Tells call := by
  constructor
  · intro h
    obtain ⟨method, params⟩ := message
    unfold call? Call.ofJson? at h
    dsimp only at h
    split at h
    · cases h
      exact .started params
    · cases h
      exact .shutdown params
    · obtain ⟨params, rfl, h⟩ := Option.bind_eq_some_iff.1 h
      obtain ⟨taken, capabilities, htakes, hcapabilities, rfl⟩ :=
        Call.initialization?_eq_some_iff.1 h
      exact .start htakes hcapabilities fun _ => Json.optional?_eq_some_iff
    · obtain ⟨params, rfl, h⟩ := Option.bind_eq_some_iff.1 h
      obtain ⟨taken, document, uri, text, version, htakes, hdocument, huri, htext, hversion, rfl⟩ :=
        Call.opening?_eq_some_iff.1 h
      exact .didOpen htakes hdocument huri htext hversion
    · obtain ⟨params, rfl, h⟩ := Option.bind_eq_some_iff.1 h
      obtain ⟨taken, document, uri, version, items, changes, htakes, hdocument, huri, hversion,
        hitems, hchanges, rfl⟩ := Call.changing?_eq_some_iff.1 h
      exact .didChange htakes hdocument huri hversion hitems hchanges
    · obtain ⟨params, rfl, h⟩ := Option.bind_eq_some_iff.1 h
      obtain ⟨taken, document, uri, htakes, hdocument, huri, rfl⟩ := Call.closing?_eq_some_iff.1 h
      exact .didClose htakes hdocument huri
    · obtain ⟨params, rfl, h⟩ := Option.bind_eq_some_iff.1 h
      obtain ⟨taken, document, uri, htakes, hdocument, huri, rfl⟩ := Call.symbols?_eq_some_iff.1 h
      exact .documentSymbol htakes hdocument huri
    · cases h
  · intro h
    cases h with
    | started => rfl
    | shutdown => rfl
    | @start _ taken _ options htakes hcapabilities hoptions =>
      obtain rfl : options = taken.optional? "initializationOptions" := by
        ext given
        exact (hoptions given).trans Json.optional?_eq_some_iff.symm
      exact Call.initialization?_eq_some_iff.2 ⟨_, _, htakes, hcapabilities, rfl⟩
    | didOpen htakes hdocument huri htext hversion =>
      exact Call.opening?_eq_some_iff.2
        ⟨_, _, _, _, _, htakes, hdocument, huri, htext, hversion, rfl⟩
    | didChange htakes hdocument huri hversion hitems hchanges =>
      exact Call.changing?_eq_some_iff.2
        ⟨_, _, _, _, _, _, htakes, hdocument, huri, hversion, hitems, hchanges, rfl⟩
    | didClose htakes hdocument huri =>
      exact Call.closing?_eq_some_iff.2 ⟨_, _, _, htakes, hdocument, huri, rfl⟩
    | documentSymbol htakes hdocument huri =>
      exact Call.symbols?_eq_some_iff.2 ⟨_, _, _, htakes, hdocument, huri, rfl⟩

/-! ## Received messages -/

/-- The messages tell these calls, one after another. -/
inductive Message.TellAll : List Message → List Call → Prop
  | done : TellAll [] []
  | call {message : Message} {call : Call} {messages : List Message} {calls : List Call} :
      message.Tells call → TellAll messages calls → TellAll (message :: messages) (call :: calls)
  | nothing {message : Message} {messages : List Message} {calls : List Call} :
      (∀ call, ¬ message.Tells call) → TellAll messages calls → TellAll (message :: messages) calls

theorem Message.call?_eq_none_iff {message : Message} :
    message.call? = none ↔ ∀ call, ¬ message.Tells call := by
  simp only [Option.eq_none_iff_forall_ne_some, ne_eq, Message.call?_eq_some_iff]

/-- The calls are those of the messages that are understood. -/
theorem Message.tellAll_iff {messages : List Message} {calls : List Call} :
    TellAll messages calls ↔ messages.filterMap call? = calls := by
  constructor
  · intro h
    induction h with
    | done => rfl
    | call htells _ ih => rw [List.filterMap_cons_some (call?_eq_some_iff.2 htells), ih]
    | nothing hnone _ ih => rw [List.filterMap_cons_none (call?_eq_none_iff.2 hnone), ih]
  · rintro rfl
    induction messages with
    | nil => exact .done
    | cons message messages ih =>
      cases hcall : message.call? with
      | none =>
        rw [List.filterMap_cons_none hcall]
        exact .nothing (call?_eq_none_iff.1 hcall) ih
      | some call =>
        rw [List.filterMap_cons_some hcall]
        exact .call (call?_eq_some_iff.1 hcall) ih

namespace Session

variable {session : Session} {message : Message} {call : Call}

/-- The session after a number of messages. -/
def receiveAll (session : Session) (messages : List Message) : Session :=
  messages.foldl (fun session message => (session.receive message).2) session

theorem receive_of_tells (h : message.Tells call) :
    session.receive message = (some (session.answer call).1, (session.answer call).2) := by
  rw [receive, Message.call?_eq_some_iff.2 h]

theorem receive_of_not_tells (h : ∀ call, ¬ message.Tells call) :
    session.receive message = (none, session) := by
  rw [receive, Message.call?_eq_none_iff.2 h]

end Session

end CaplOutline
