-- Where bodies end. In a text whose lists of declarators close their braces, the machine
-- has as many braces open as the text. So the brace that closes a body is the one that
-- matches its opening brace, and a body without such a brace ends with the text.
import Mathlib.Data.List.Nodup
import CaplOutline.Proofs.Outline.Names
import CaplOutline.Proofs.Outline.Places
import CaplOutline.Proofs.Outline.Turns

namespace CaplOutline

/-! ## Matching braces -/

namespace Token

/-- The first closing brace that does not close one of these tokens, nor one of the `inner` braces
that are open in front of them. -/
def closing? : Nat → List Token → Option Token
  | _, [] => none
  | inner, token :: tokens =>
    match token.kind with
    | .openBrace => closing? (inner + 1) tokens
    | .closeBrace => if inner = 0 then some token else closing? (inner - 1) tokens
    | _ => closing? inner tokens

section Closing

variable {token : Token} {inner : Nat} {tokens : List Token}

theorem closing?_openBrace (h : token.kind = .openBrace) :
    closing? inner (token :: tokens) = closing? (inner + 1) tokens := by
  rw [closing?, h]

theorem closing?_closeBrace_zero (h : token.kind = .closeBrace) :
    closing? 0 (token :: tokens) = some token := by
  rw [closing?, h]
  rfl

theorem closing?_closeBrace_succ (h : token.kind = .closeBrace) :
    closing? (inner + 1) (token :: tokens) = closing? inner tokens := by
  rw [closing?, h]
  simp

theorem closing?_of_ne (hopen : token.kind ≠ .openBrace) (hclose : token.kind ≠ .closeBrace) :
    closing? inner (token :: tokens) = closing? inner tokens := by
  rw [closing?]
  split
  · contradiction
  · contradiction
  · rfl

end Closing

/-- The end of a body, if the tokens `after` follow its opening brace: the end of the brace that
closes it, or else the end of the text. -/
def bodyStop (source : String) (after : List Token) : Position :=
  ((closing? 0 after).map (·.range.stop)).getD (Text.LineTable.of source).endPosition

theorem nodup_ranges (source : String) : ((ofText source).map (·.range)).Nodup := by
  apply List.pairwise_map.2
  refine (pairwise_ofText source).imp_of_mem ?_
  intro first second hfirst _ hle heq
  have hlt := (standsIn_of_mem hfirst).start_lt_stop
  rw [heq] at hlt hle
  exact absurd (lt_of_lt_of_le hlt hle) (lt_irrefl _)

end Token

theorem Cursor.Reads.depth_take {cursor stop : Cursor} {seen after : List Token}
    (h : cursor.Reads (seen ++ after) stop) (done : Array Token) :
    (cursor.take done seen.length).2.depth =
      seen.foldl (fun depth token => depthAfter depth token.kind) cursor.depth := by
  induction seen generalizing cursor done with
  | nil => rfl
  | cons token seen ih =>
    cases h with
    | cons hnext hreads =>
      rw [List.length_cons, take, hnext, List.foldl_cons, ← (yields_of_next hnext).depth_after]
      exact ih hreads _

namespace Outline

/-! ## The braces of a whole text -/

/-- The mark of the symbol that has its body opened by the next brace. -/
def Header.opening? : Header → Option Mark
  | .event header => some (Draft.ofTokens .event header.first header.name).mark
  | .declaration header =>
    if header.aggregate?.isSome then
      some (Draft.ofTokens .container header.first header.name).mark
    else none
  | .parameters list => some list.draft.mark
  | .awaitBody draft _ => some draft.mark
  | .declarators _ => none

def Machine.opening? (machine : Machine) : Option Mark :=
  match machine.phase with
  | .inHeader header => header.opening?
  | _ => none

/-- No list of declarators has braces open where it comes to a semicolon or to the keyword of a
block, at which it ends in any case. -/
def ClosesLists (source : String) (options : Options) : Prop :=
  ∀ token ∈ Token.ofText source, token.kind = .semicolon ∨ token.kind.opensBlock = true →
    (Machine.before source options token.range.start).counted = 0

instance (source : String) (options : Options) : Decidable (ClosesLists source options) :=
  inferInstanceAs (Decidable (∀ token ∈ Token.ofText source, _ → _))

namespace Machine

variable {source : String} {options : Options} {seen after : List Token} {token : Token}
variable {machine : Machine} {mark : Mark} {stop : Position}

theorem turns_run (hlists : ClosesLists source options)
    (h : Token.ofText source = seen ++ token :: after) :
    Turns token (run source options seen).titles (run source options seen).counted
      (run source options (seen ++ [token])) := by
  rw [run_concat]
  apply turns_feed (regular_run source options seen)
  rw [← before_start options h]
  exact hlists token (by simp [h])

theorem openBraces_run (hlists : ClosesLists source options)
    (h : Token.ofText source = seen ++ after) :
    (run source options seen).openBraces =
      seen.foldl (fun depth token => Cursor.depthAfter depth token.kind) 0 := by
  induction seen using List.reverseRecOn generalizing after with
  | nil => rfl
  | append_singleton seen token ih =>
    rw [List.append_assoc] at h
    rw [(turns_run hlists h).openBraces_eq, ih h]
    simp

/-! ## One body -/

/-- The body of the symbol has been closed by the token `last`, or is still open. -/
def Closes (mark : Mark) (last : Option Token) (machine : Machine) : Prop :=
  match last with
  | some last => machine.spine.Holds (mark.EndsAt last.range.stop)
  | none => some mark ∈ machine.titles

theorem holds_foldl_feed {P : Symbol → Prop} (h : machine.Regular ∧ machine.spine.Holds P)
    (tokens : List Token) : (tokens.foldl feed machine).spine.Holds P := by
  induction tokens generalizing machine with
  | nil => exact h.2
  | cons token tokens ih =>
    apply ih
    exact feed_of_moves (fun _ _ hmoves hholds => hholds.moves hmoves) token h

/-- By induction on the tokens of the body: the braces that are open in it are those above the frame
of the symbol, and those that are counted. -/
theorem closes_run (hlists : ClosesLists source options) {inner outer : List (Option Mark)}
    (h : Token.ofText source = seen ++ after)
    (htitles : (run source options seen).titles = inner ++ some mark :: outer) :
    Closes mark (Token.closing? (inner.length + (run source options seen).counted) after)
      (run source options (Token.ofText source)) := by
  induction after generalizing seen inner with
  | nil =>
    rw [List.append_nil] at h
    rw [h, Token.closing?]
    unfold Closes
    simp [htitles]
  | cons token after ih =>
    have hnext : Token.ofText source = (seen ++ [token]) ++ after := by simp [h]
    cases turns_run hlists h with
    | opens title hkind hcounted htitles' hcounted' =>
      have habove : (run source options (seen ++ [token])).titles =
          (title :: inner) ++ some mark :: outer := by simp [htitles', htitles]
      have hopen := ih hnext habove
      rw [hcounted'] at hopen
      rw [Token.closing?_openBrace hkind, hcounted]
      exact hopen
    | closes hkind hcounted htitles' hcounted' hholds =>
      rw [hcounted]
      cases inner with
      | nil =>
        have hclosed := hholds mark (by simp [htitles])
        have hregular := regular_run source options (seen ++ [token])
        rw [List.length_nil, Token.closing?_closeBrace_zero hkind, hnext]
        unfold Closes run
        rw [List.foldl_append]
        exact holds_foldl_feed ⟨hregular, hclosed⟩ after
      | cons title inner =>
        have hbelow : (run source options (seen ++ [token])).titles =
            inner ++ some mark :: outer := by simp [htitles', htitles]
        have hrest := ih hnext hbelow
        rw [hcounted'] at hrest
        rw [List.length_cons, Nat.add_zero, Token.closing?_closeBrace_succ hkind]
        exact hrest
    | counts hkind htitles' hcounted =>
      have hrest := ih hnext (htitles'.trans htitles)
      rw [Token.closing?_openBrace hkind, Nat.add_assoc, ← hcounted]
      exact hrest
    | uncounts hkind htitles' hcounted =>
      have hrest := ih hnext (htitles'.trans htitles)
      rw [hcounted, ← Nat.add_assoc, Token.closing?_closeBrace_succ hkind]
      exact hrest
    | passes hopen hclose htitles' hcounted =>
      have hrest := ih hnext (htitles'.trans htitles)
      rw [Token.closing?_of_ne hopen hclose, ← hcounted]
      exact hrest

/-! ## The opening brace -/

/-- The symbol with this mark has been opened, and nothing else. -/
def Opens (mark : Mark) (machine next : Machine) : Prop :=
  ∃ start draft scope, next = push start (some draft) scope ∧ draft.mark = mark ∧
    start.frames = machine.frames ∧ start.spine = machine.spine

theorem opens_step (h : machine.opening? = some mark) (hkind : token.kind = .openBrace) :
    (machine.step token).Ends
      (fun next => next.opening? = some mark ∧ next.frames = machine.frames ∧
        next.spine = machine.spine)
      (Opens mark machine) := by
  unfold opening? at h
  cases hphase : machine.phase with
  | topLevel => simp [hphase] at h
  | inBody => simp [hphase] at h
  | inHeader header =>
    rw [hphase] at h
    cases header with
    | event header =>
      cases h
      have hstep : machine.step token = .consumed (push { machine with steps := machine.steps + 1 }
          (some (header.draft machine.source)) .code) :=
        step_eq_iff.2 (.event hphase (.body hkind))
      rw [hstep]
      exact ⟨_, _, _, rfl, rfl, rfl, rfl⟩
    | declaration header =>
      dsimp only [Header.opening?] at h
      by_cases haggregate : header.aggregate?.isSome = true
      · rw [if_pos haggregate] at h
        cases h
        have hstep : machine.step token =
            .consumed (push { machine with steps := machine.steps + 1 }
              (some { Draft.ofTokens .container header.first header.name with
                detail := header.aggregate? }) .block) :=
          step_eq_iff.2 (.declaration hphase (.aggregate hkind haggregate))
        rw [hstep]
        exact ⟨_, _, _, rfl, rfl, rfl, rfl⟩
      · rw [if_neg haggregate] at h
        cases h
    | parameters list =>
      cases h
      -- The parenthesis is missing, and the brace is handled again as the one of the body.
      have hstep : machine.step token =
          .retry (readHeader { machine with steps := machine.steps + 1 }
            (.awaitBody (list.signed machine.source list.last.span.stop) list.last)) :=
        step_eq_iff.2 (.parameters hphase (.cut (by simp [hkind])))
      rw [hstep]
      exact ⟨rfl, rfl, rfl⟩
    | awaitBody draft last =>
      cases h
      have hstep : machine.step token = .consumed (push { machine with steps := machine.steps + 1 }
          (some draft) draft.bodyScope) :=
        step_eq_iff.2 (.body hphase (.body hkind))
      rw [hstep]
      exact ⟨_, _, _, rfl, rfl, rfl, rfl⟩
    | declarators list => cases h

theorem opens_feed (h : machine.opening? = some mark) (hkind : token.kind = .openBrace) :
    Opens mark machine (machine.feed token) := by
  refine feed_ends (P := fun machine' => machine'.opening? = some mark ∧
    machine'.frames = machine.frames ∧ machine'.spine = machine.spine) ?_ ⟨h, rfl, rfl⟩
  rintro machine' ⟨hopening, hframes, hspine⟩
  have hopens := opens_step hopening hkind
  unfold Opens at hopens
  rwa [hframes, hspine] at hopens

/-- With room for it the symbol is on top of the open braces. -/
theorem Opens.titles_eq {next : Machine} (h : Opens mark machine next)
    (hstacked : Stacked machine.frames) (hroom : machine.spine.drafts.length < maxNesting) :
    next.titles = some mark :: machine.titles ∧ next.counted = 0 := by
  obtain ⟨start, draft, scope, rfl, rfl, hframes, hspine⟩ := h
  rw [← hframes] at hstacked
  have htitles := titles_push hstacked (some draft) scope
  rw [hspine, if_pos hroom] at htitles
  refine ⟨?_, rfl⟩
  rw [htitles]
  unfold titles
  rw [hframes]
  rfl

/-- Without room it is dropped, and its header is forgotten. -/
theorem Opens.spine_eq {next : Machine} (h : Opens mark machine next)
    (hstacked : Stacked machine.frames) (hroom : ¬ machine.spine.drafts.length < maxNesting) :
    next.spine = machine.spine ∧ Stacked next.frames ∧
      ∀ header, next.phase ≠ .inHeader header := by
  obtain ⟨start, draft, scope, rfl, -, hframes, hspine⟩ := h
  rw [← hframes] at hstacked
  refine ⟨?_, stacked_push hstacked _ _, push_phase_ne start _ _⟩
  rw [spine_push_some hstacked, hspine]
  unfold Spine.push
  rw [if_neg hroom]

/-! ## The end of the text -/

theorem mem_titles_iff :
    some mark ∈ machine.titles ↔ mark ∈ machine.spine.drafts.map Draft.mark := by
  simp only [titles, spine, drafts, Frame.title, List.mem_map, List.mem_filterMap,
    Option.map_eq_some_iff]
  constructor
  · rintro ⟨frame, hframe, draft, hdraft, hmark⟩
    exact ⟨draft, ⟨frame, hframe, hdraft⟩, hmark⟩
  · rintro ⟨draft, ⟨frame, hframe, hdraft⟩, hmark⟩
    exact ⟨frame, hframe, draft, hdraft, hmark⟩

theorem EndRule.titles_eq {next : Machine} (hrule : machine.EndRule next)
    (h : Stacked machine.frames) : next.titles = machine.titles := by
  have hleave : Stacked machine.leave.frames := h
  cases hrule with
  | outside | word | hidden => rfl
  | event | function | var | parameters | body => exact titles_attach hleave _ _
  | declarators => exact titles_report hleave _ _

theorem titles_endHeader (h : Stacked machine.frames) :
    machine.endHeader.titles = machine.titles :=
  machine.end_rule.titles_eq h

theorem map_mark_drafts_attach (spine : Spine) (symbol : Symbol) :
    (spine.attach symbol).drafts.map Draft.mark = spine.drafts.map Draft.mark := by
  obtain ⟨roots, drafts⟩ := spine
  cases drafts with
  | nil => rfl
  | cons draft drafts => simp [Spine.attach, Draft.adopt, Draft.mark]

/-- A symbol that is still open is closed by the end of the text. -/
theorem mem_or_holds_pop {spine : Spine}
    (h : mark ∈ spine.drafts.map Draft.mark ∨ spine.Holds (mark.EndsAt stop))
    (includeDetails : Bool) :
    mark ∈ (spine.pop includeDetails stop).drafts.map Draft.mark ∨
      (spine.pop includeDetails stop).Holds (mark.EndsAt stop) := by
  rcases h with hmem | hholds
  · obtain ⟨roots, drafts⟩ := spine
    cases drafts with
    | nil => cases hmem
    | cons draft drafts =>
      rcases List.mem_cons.1 hmem with rfl | hmem
      · right
        apply Spine.holds_attach
        exact .here ⟨rfl, rfl⟩
      · left
        unfold Spine.pop
        dsimp only
        rwa [map_mark_drafts_attach]
  · exact Or.inr (hholds.pop includeDetails stop)

theorem Closes.finish {last : Option Token} (hregular : machine.Regular)
    (h : Closes mark last machine) (stop : Position) :
    Spine.Holds (mark.EndsAt ((last.map (·.range.stop)).getD stop))
      ⟨(machine.finish stop).roots.toList, []⟩ := by
  obtain ⟨hmoves, hstacked⟩ := moves_endHeader hregular
  cases last with
  | some last =>
    have hholds : machine.spine.Holds (mark.EndsAt last.range.stop) := h
    exact finish_invariant stop (P := fun spine => spine.Holds (mark.EndsAt last.range.stop))
      (fun _ h => h.pop _ _) hstacked (hholds.moves hmoves)
  | none =>
    have hopen : mark ∈ machine.endHeader.spine.drafts.map Draft.mark := by
      rw [← mem_titles_iff, titles_endHeader hregular.1]
      exact h
    rcases finish_invariant stop (P := fun spine => mark ∈ spine.drafts.map Draft.mark ∨
      spine.Holds (mark.EndsAt stop)) (fun _ h => mem_or_holds_pop h _) hstacked (Or.inl hopen)
      with hmem | hholds
    · cases hmem
    · exact hholds

end Machine

/-! ## One symbol for each body -/

section Selections

variable {source : String} {options : Options} {before after own : List Token} {brace : Token}
variable {mark : Mark} {stop : Position}

theorem Spine.Tells.levels {outline : Outline} {passed : List Token}
    (h : Spine.Tells stop passed ⟨outline, []⟩) :
    (outline.levels.map (·.2.selection)).Sublist (passed.map (·.range)) := by
  have hlisted : (Spine.marks ⟨outline, []⟩).map (·.selection) =
      outline.levels.map (·.2.selection) := by
    simp [Spine.marks, Outline.marks, Symbol.mark]
  rw [← hlisted]
  exact h.selections

theorem nodup_selections (source : String) (options : Options) :
    ((extract source options).levels.map (·.2.selection)).Nodup :=
  (Token.nodup_ranges source).sublist (tells_extract source options).levels

/-- The symbol is selected by a token of its header. -/
theorem Header.Cites.opening {header : Header} (h : header.Cites own)
    (hopening : header.opening? = some mark) : mark.Cited own := by
  cases header with
  | event header =>
    cases hopening
    exact h.event_draft ""
  | declaration header =>
    dsimp only [Header.opening?] at hopening
    by_cases haggregate : header.aggregate?.isSome = true
    · rw [if_pos haggregate] at hopening
      cases hopening
      exact h.container_draft haggregate
    · rw [if_neg haggregate] at hopening
      cases hopening
  | parameters list =>
    cases hopening
    exact h
  | awaitBody draft last =>
    cases hopening
    exact h
  | declarators list => cases hopening

theorem Machine.cited_of_opening {machine : Machine} (h : machine.phase.Cites own)
    (hopening : machine.opening? = some mark) : mark.Cited own := by
  unfold Machine.opening? at hopening
  split at hopening
  · rename_i header hphase
    rw [hphase] at h
    exact Header.Cites.opening h hopening
  · cases hopening

/-- With room for the symbol it is in the outline, and ends where its body does. -/
theorem exists_entry_of_room (hlists : ClosesLists source options)
    (h : Token.ofText source = before ++ brace :: after) (hkind : brace.kind = .openBrace)
    (hopening : (Machine.run source options before).opening? = some mark)
    (hroom : (Machine.run source options before).spine.drafts.length < maxNesting) :
    ∃ entry ∈ (extract source options).levels,
      mark.EndsAt (Token.bodyStop source after) entry.2 := by
  have hstacked := (Machine.regular_run source options before).1
  have hnext : Token.ofText source = (before ++ [brace]) ++ after := by simp [h]
  have hopens := Machine.opens_feed hopening hkind
  rw [← Machine.run_concat] at hopens
  obtain ⟨htitles, hcounted⟩ := hopens.titles_eq hstacked hroom
  have habove : (Machine.run source options (before ++ [brace])).titles =
      [] ++ some mark :: (Machine.run source options before).titles := htitles
  have hcloses := Machine.closes_run hlists hnext habove
  rw [hcounted] at hcloses
  have hregular := Machine.regular_run source options (Token.ofText source)
  have hstop : Token.bodyStop source after =
      ((Token.closing? 0 after).map (·.range.stop)).getD (Token.scan source).2.position := by
    rw [Token.position_scan]
    rfl
  rw [hstop]
  rcases hcloses.finish hregular (Token.scan source).2.position with
    ⟨symbol, hmem, hsomewhere⟩ | ⟨draft, hmem, -⟩
  · exact hsomewhere.exists_entry 1 hmem
  · cases hmem

/-- Without room for it no symbol is selected by the tokens of its header. -/
theorem selection_ne_of_full (h : Token.ofText source = before ++ brace :: after)
    (hkind : brace.kind = .openBrace)
    (hopening : (Machine.run source options before).opening? = some mark)
    (hroom : ¬ (Machine.run source options before).spine.drafts.length < maxNesting) :
    ∀ entry ∈ (extract source options).levels, entry.2.selection ≠ mark.selection := by
  intro entry hmem heq
  have hstart := Machine.told_start source options (Token.scan source).2.position
  obtain ⟨⟨hstacked, -⟩, ⟨passed, own, hbefore, htells, hcites⟩, -⟩ :=
    Machine.told_foldl_feed hstart before
  have hown := (Machine.cited_of_opening hcites hopening).selection_mem
  -- The outline is the one of a machine that has never seen the header.
  obtain ⟨hspine, hstacked', hphase⟩ :=
    (Machine.opens_feed hopening hkind).spine_eq hstacked hroom
  have hdropped : ((Machine.run source options before).feed brace).Told
      (Token.scan source).2.position passed := by
    apply Machine.told_of_no_header hstacked' ?_ hphase
    rw [hspine]
    exact htells
  have hextract : extract source options = ((after.foldl Machine.feed
      ((Machine.run source options before).feed brace)).finish
        (Token.scan source).2.position).roots.toList := by
    change ((Machine.run source options (Token.ofText source)).finish _).roots.toList = _
    rw [h]
    unfold Machine.run
    rw [List.foldl_append, List.foldl_cons]
    rfl
  have hend := (Machine.tells_finish (Machine.told_foldl_feed hdropped after)).levels
  rw [← hextract] at hend
  have hother : mark.selection ∈ (passed ++ after).map (·.range) := by
    rw [← heq]
    exact hend.subset (List.mem_map_of_mem hmem)
  have hnodup := Token.nodup_ranges source
  rw [List.nil_append] at hbefore
  rw [h, hbefore, List.map_append, List.map_append, List.map_cons] at hnodup
  rw [List.map_append, List.mem_append] at hother
  obtain ⟨hfront, -, hapart⟩ := List.nodup_append.1 hnodup
  obtain ⟨-, -, hpassed⟩ := List.nodup_append.1 hfront
  rcases hother with hother | hother
  · exact hpassed _ hother _ hown rfl
  · exact hapart _ (List.mem_append_right _ hown) _ (List.mem_cons_of_mem _ hother) rfl

end Selections

/-! ## The laws -/

/-- If no list of declarators ends with braces open, then behind every token as many braces are open
in the machine as in the text. And a symbol that has a body ends with the brace that matches the
one behind its header, or with the text if there is none. -/
theorem bodies_end_at_their_braces (source : String) (options : Options)
    (hlists : ClosesLists source options) :
    (∀ before after, Token.ofText source = before ++ after →
      (Machine.run source options before).openBraces =
        ((Cursor.ofText source).take #[] before.length).2.depth) ∧
    ∀ before brace after mark, Token.ofText source = before ++ brace :: after →
      brace.kind = .openBrace → (Machine.run source options before).opening? = some mark →
      (∀ entry ∈ (extract source options).levels, entry.2.selection = mark.selection →
        mark.EndsAt (Token.bodyStop source after) entry.2) ∧
      ((Machine.run source options before).spine.drafts.length < maxNesting →
        ∃ entry ∈ (extract source options).levels,
          mark.EndsAt (Token.bodyStop source after) entry.2) := by
  constructor
  · intro before after h
    have hreads := Cursor.reads_scan source
    rw [h] at hreads
    rw [Machine.openBraces_run hlists h, hreads.depth_take]
    rfl
  · intro before brace after mark h hkind hopening
    refine ⟨?_, exists_entry_of_room hlists h hkind hopening⟩
    intro entry hmem hselection
    by_cases hroom : (Machine.run source options before).spine.drafts.length < maxNesting
    · obtain ⟨other, hother, hends⟩ := exists_entry_of_room hlists h hkind hopening hroom
      have hsame : other.2.selection = entry.2.selection := by
        rw [hselection]
        exact congrArg Mark.selection hends.1
      have heq : other = entry :=
        List.inj_on_of_nodup_map (nodup_selections source options) hother hmem hsame
      rw [← heq]
      exact hends
    · exact absurd hselection (selection_ne_of_full h hkind hopening hroom entry hmem)

/-- A brace without an opening one, a handler with a list that has braces of its own, and a function
that does not end. -/
def bodiesText : String := "\x7d on a \x7b int b = \x7b 1 \x7d; \x7d\nvoid f( \x7b \x7b \x7d"

theorem the_bodies_of_a_text :
    ClosesLists bodiesText {} ∧
      (∃ entry ∈ (extract bodiesText {}).levels,
        Mark.EndsAt ⟨"a", .event, ⟨0, 2⟩, ⟨0, 5⟩, ⟨0, 6⟩⟩ ⟨0, 25⟩ entry.2) ∧
      ∃ entry ∈ (extract bodiesText {}).levels,
        Mark.EndsAt ⟨"f", .function, ⟨1, 0⟩, ⟨1, 5⟩, ⟨1, 6⟩⟩ ⟨1, 13⟩ entry.2 := by
  have hlists : ClosesLists bodiesText {} := by decide +kernel
  obtain ⟨-, hbodies⟩ := bodies_end_at_their_braces bodiesText {} hlists
  obtain ⟨-, hhandler⟩ := hbodies ((Token.ofText bodiesText).take 3)
    ⟨.openBrace, "\x7b", ⟨7, 8⟩, ⟨⟨0, 7⟩, ⟨0, 8⟩⟩, 0⟩ ((Token.ofText bodiesText).drop 4)
    ⟨"a", .event, ⟨0, 2⟩, ⟨0, 5⟩, ⟨0, 6⟩⟩ (by decide +kernel) rfl (by decide +kernel)
  obtain ⟨-, hfunction⟩ := hbodies ((Token.ofText bodiesText).take 15)
    ⟨.openBrace, "\x7b", ⟨34, 35⟩, ⟨⟨1, 8⟩, ⟨1, 9⟩⟩, 0⟩ ((Token.ofText bodiesText).drop 16)
    ⟨"f", .function, ⟨1, 0⟩, ⟨1, 5⟩, ⟨1, 6⟩⟩ (by decide +kernel) rfl (by decide +kernel)
  have hstop : Token.bodyStop bodiesText ((Token.ofText bodiesText).drop 4) = ⟨0, 25⟩ := by
    decide +kernel
  have hend : Token.bodyStop bodiesText ((Token.ofText bodiesText).drop 16) = ⟨1, 13⟩ := by
    decide +kernel
  refine ⟨hlists, ?_, ?_⟩
  · rw [← hstop]
    exact hhandler (by decide +kernel)
  · rw [← hend]
    exact hfunction (by decide +kernel)

end Outline

end CaplOutline
