-- What one token does to the open braces. Each of them is a frame of the machine, or is
-- counted in a list of declarators. As long as no list ends with braces open, a brace of the
-- text opens or closes exactly one of them, the innermost one first, and every other token
-- leaves them alone.
import CaplOutline.Proofs.Outline.Braces
import CaplOutline.Proofs.Outline.Marks
import CaplOutline.Proofs.Outline.Moves

namespace CaplOutline

/-- The symbol has this mark, and ends there. -/
def Mark.EndsAt (mark : Mark) (stop : Position) (symbol : Symbol) : Prop :=
  symbol.mark = mark ∧ symbol.range.stop = stop

namespace Outline

/-! ## What a spine holds -/

/-- A symbol, or one of those inside it, has a property. -/
inductive Somewhere (P : Symbol → Prop) : Symbol → Prop
  | here {symbol : Symbol} : P symbol → Somewhere P symbol
  | inside {symbol child : Symbol} : child ∈ symbol.children → Somewhere P child →
      Somewhere P symbol

theorem Somewhere.exists_entry {P : Symbol → Prop} {symbol : Symbol} (h : Somewhere P symbol)
    (level : Nat) {symbols : List Symbol} (hmem : symbol ∈ symbols) :
    ∃ entry ∈ (Symbol.listAllFrom #[] level symbols).toList, P entry.2 := by
  induction h generalizing level symbols with
  | here hP => exact ⟨_, mem_listAllFrom.2 ⟨_, hmem, Or.inl rfl⟩, hP⟩
  | inside hchild _ ih =>
    obtain ⟨entry, hentry, hP⟩ := ih (level + 1) hchild
    exact ⟨entry, mem_listAllFrom.2 ⟨_, hmem, Or.inr hentry⟩, hP⟩

namespace Spine

variable {P : Symbol → Prop} {spine spine' : Spine} {symbol : Symbol}

/-- One of the symbols that are closed has the property. -/
def Holds (P : Symbol → Prop) (spine : Spine) : Prop :=
  (∃ symbol ∈ spine.roots, Somewhere P symbol) ∨
    ∃ draft ∈ spine.drafts, ∃ child ∈ draft.children.toList, Somewhere P child

theorem holds_attach (spine : Spine) (h : Somewhere P symbol) : (spine.attach symbol).Holds P := by
  obtain ⟨roots, drafts⟩ := spine
  cases drafts with
  | nil => exact Or.inl ⟨symbol, by simp [attach], h⟩
  | cons draft drafts =>
    right
    exact ⟨draft.adopt symbol, by simp [attach], symbol, by simp [Draft.adopt], h⟩

theorem Holds.attach (h : spine.Holds P) (symbol : Symbol) : (spine.attach symbol).Holds P := by
  obtain ⟨roots, drafts⟩ := spine
  cases drafts with
  | nil =>
    rcases h with ⟨other, hmem, hother⟩ | ⟨draft, hmem, -⟩
    · exact Or.inl ⟨other, by simp_all [Spine.attach], hother⟩
    · cases hmem
  | cons draft drafts =>
    rcases h with hroots | ⟨holder, hmem, child, hchild, hP⟩
    · exact Or.inl hroots
    · right
      rcases List.mem_cons.1 hmem with rfl | hmem
      · exact ⟨holder.adopt symbol, by simp [Spine.attach], child, by simp_all [Draft.adopt], hP⟩
      · exact ⟨holder, by simp_all [Spine.attach], child, hchild, hP⟩

theorem Holds.push (h : spine.Holds P) (draft : Draft) : (spine.push draft).Holds P := by
  unfold Spine.push
  split
  · rcases h with hroots | ⟨holder, hmem, hchild⟩
    · exact Or.inl hroots
    · exact Or.inr ⟨holder, List.mem_cons_of_mem _ hmem, hchild⟩
  · exact h

/-- The symbols inside an open one are still there when it is closed. -/
theorem Holds.pop (h : spine.Holds P) (includeDetails : Bool) (stop : Position) :
    (spine.pop includeDetails stop).Holds P := by
  obtain ⟨roots, drafts⟩ := spine
  cases drafts with
  | nil => exact h
  | cons draft drafts =>
    have hrest : Holds P ⟨roots, drafts⟩ →
        (Spine.pop includeDetails stop ⟨roots, draft :: drafts⟩).Holds P :=
      fun hholds => hholds.attach _
    rcases h with hroots | ⟨holder, hmem, child, hchild, hP⟩
    · exact hrest (Or.inl hroots)
    · rcases List.mem_cons.1 hmem with rfl | hmem
      · exact holds_attach _ (.inside hchild hP)
      · exact hrest (Or.inr ⟨holder, hmem, child, hchild, hP⟩)

theorem Holds.moves (h : spine.Holds P) (hmoves : spine.Moves spine') : spine'.Holds P := by
  cases hmoves with
  | stay => exact h
  | attach symbol _ => exact h.attach symbol
  | push draft _ => exact h.push draft
  | pop includeDetails stop => exact h.pop includeDetails stop

end Spine

/-! ## The open braces -/

/-- The mark of the symbol that the frame has. -/
def Frame.title (frame : Frame) : Option Mark := frame.symbol.map (·.mark)

@[simp]
theorem map_title_hangOn (symbol : Symbol) (frames : List Frame) :
    (hangOn symbol frames).map Frame.title = frames.map Frame.title := by
  induction frames with
  | nil => rfl
  | cons frame frames ih =>
    unfold hangOn
    cases hsymbol : frame.symbol with
    | none => simp [ih]
    | some draft => simp [hsymbol, Frame.title, Frame.adopt, Draft.adopt, Draft.mark]

namespace Machine

/-- The frames, innermost first, as far as it is known when they are opened. -/
def titles (machine : Machine) : List (Option Mark) := machine.frames.map Frame.title

/-- The braces that are counted in a list of declarators. -/
def counted (machine : Machine) : Nat :=
  match machine.phase with
  | .inHeader header => header.braces
  | _ => 0

variable {machine next : Machine} {token : Token}

theorem openBraces_eq (machine : Machine) :
    machine.openBraces = machine.titles.length + machine.counted := by
  have hlength : machine.titles.length = machine.stack.size := by simp [titles, frames]
  rw [hlength]
  rfl

theorem counted_of_phase_ne (h : ∀ header, machine.phase ≠ .inHeader header) :
    machine.counted = 0 := by
  unfold counted
  split
  · rename_i header hphase
    exact absurd hphase (h header)
  · rfl

@[simp]
theorem counted_settle (machine : Machine) : machine.settle.counted = 0 :=
  counted_of_phase_ne (settle_phase_ne machine)

@[simp]
theorem counted_pop (machine : Machine) (stop : Position) : (machine.pop stop).counted = 0 := by
  rw [← settle_pop]
  exact counted_settle _

theorem titles_attach (h : Stacked machine.frames) (draft : Draft) (stop : Position) :
    (machine.attach draft stop).titles = machine.titles := by
  simp [titles, frames_attach h]

theorem titles_report (h : Stacked machine.frames) (list : DeclaratorList) (stop : Position) :
    (machine.report list stop).titles = machine.titles := by
  unfold report
  split
  · split
    · exact titles_attach h _ _
    · rfl
  · rfl

theorem titles_push (h : Stacked machine.frames) (symbol : Option Draft) (scope : Scope) :
    (machine.push symbol scope).titles =
      (if machine.spine.drafts.length < maxNesting then symbol.map (·.mark) else none) ::
        machine.titles := by
  obtain ⟨frame, hframes, hsymbol, -⟩ := frames_push h symbol scope
  have htitle : frame.title =
      if machine.spine.drafts.length < maxNesting then symbol.map (·.mark) else none := by
    unfold Frame.title
    rw [hsymbol, apply_ite (Option.map _)]
    rfl
  simp [titles, hframes, htitle]

/-- A closing brace closes the innermost frame, and the symbol that it has. -/
theorem titles_pop (h : Stacked machine.frames) (stop : Position) :
    (machine.pop stop).titles = machine.titles.tail ∧
      ∀ mark, machine.titles.head? = some (some mark) →
        (machine.pop stop).spine.Holds (mark.EndsAt stop) := by
  have htail : machine.dropFrame.titles = machine.titles.tail := by
    simp [titles, List.map_tail]
  rw [pop_eq]
  cases hframes : machine.frames with
  | nil => simp [titles, hframes]
  | cons frame frames =>
    have hstacked : Stacked machine.dropFrame.frames := by
      rw [frames_dropFrame]
      exact stacked_tail h
    dsimp only
    cases hsymbol : frame.symbol with
    | none =>
      refine ⟨htail, ?_⟩
      intro mark hmark
      simp [titles, hframes, Frame.title, hsymbol] at hmark
    | some draft =>
      refine ⟨(titles_attach hstacked draft stop).trans htail, ?_⟩
      intro mark hmark
      simp only [titles, hframes, List.map_cons, List.head?_cons, Frame.title, hsymbol,
        Option.map_some, Option.some.injEq] at hmark
      change (machine.dropFrame.attach draft stop).spine.Holds (mark.EndsAt stop)
      rw [spine_attach hstacked]
      apply Spine.holds_attach
      exact .here ⟨hmark, rfl⟩

/-! ## One step -/

/-- What a token has done to the open braces by the time it is used up. -/
inductive Turns (token : Token) (titles : List (Option Mark)) (counted : Nat) (next : Machine) :
    Prop
  | opens (title : Option Mark) : token.kind = .openBrace → counted = 0 →
      next.titles = title :: titles → next.counted = 0 → Turns token titles counted next
  | closes : token.kind = .closeBrace → counted = 0 → next.titles = titles.tail →
      next.counted = 0 →
      (∀ mark, titles.head? = some (some mark) →
        next.spine.Holds (mark.EndsAt token.range.stop)) → Turns token titles counted next
  | counts : token.kind = .openBrace → next.titles = titles → next.counted = counted + 1 →
      Turns token titles counted next
  | uncounts : token.kind = .closeBrace → next.titles = titles → counted = next.counted + 1 →
      Turns token titles counted next
  | passes : token.kind ≠ .openBrace → token.kind ≠ .closeBrace → next.titles = titles →
      next.counted = counted → Turns token titles counted next

/-- As many braces are opened or closed in the machine as in the text. -/
theorem Turns.openBraces_eq (h : Turns token machine.titles machine.counted next) :
    next.openBraces = Cursor.depthAfter machine.openBraces token.kind := by
  rw [next.openBraces_eq, machine.openBraces_eq]
  cases h with
  | opens title hkind hcounted htitles hnext =>
    simp [hkind, hcounted, htitles, hnext, Cursor.depthAfter]
  | closes hkind hcounted htitles hnext _ =>
    simp [hkind, hcounted, htitles, hnext, Cursor.depthAfter]
  | counts hkind htitles hnext =>
    simp [hkind, htitles, hnext, Cursor.depthAfter]
    omega
  | uncounts hkind htitles hcounted =>
    simp [hkind, htitles, hcounted, Cursor.depthAfter]
  | passes hopen hclose htitles hnext =>
    rw [htitles, hnext]
    unfold Cursor.depthAfter
    split
    · contradiction
    · contradiction
    · rfl

/-- The braces turn when the token is used up, and not before. -/
def TurnsOnce (machine : Machine) (token : Token) (step : Step) : Prop :=
  step.Ends (fun next => next.titles = machine.titles ∧ next.counted = machine.counted)
    (Turns token machine.titles machine.counted)

theorem ScanRule.turns (hrule : machine.ScanRule token next) (h : Stacked machine.frames)
    (hcounted : machine.counted = 0) : Turns token machine.titles machine.counted next := by
  rw [hcounted]
  cases hrule with
  | event hkind => exact .passes (by simp [hkind]) (by simp [hkind]) rfl rfl
  | block hkind => rcases hkind with hkind | hkind <;>
      exact .passes (by simp [hkind]) (by simp [hkind]) rfl rfl
  | declaration hopens =>
    obtain ⟨hopen, hclose⟩ :=
      kind_ne_brace_of_isWord (TokenKind.isWord_of_opensDeclaration hopens)
    exact .passes hopen hclose rfl rfl
  | opens hkind => exact .opens _ hkind rfl (titles_push h none _) rfl
  | closes hkind =>
    obtain ⟨htitles, hholds⟩ := titles_pop h token.range.stop
    exact .closes hkind rfl htitles (counted_pop _ _) hholds
  | passes _ hopen hclose => exact .passes hopen hclose rfl (counted_settle machine)

section Rules

variable {step : Step}

theorem EventRule.turns {header : EventHeader} (hrule : machine.EventRule header token step)
    (h : Stacked machine.frames) (hcounted : machine.counted = 0) :
    TurnsOnce machine token step := by
  have hclose : ∀ draft stop, (machine.close draft stop).titles = machine.titles ∧
      (machine.close draft stop).counted = machine.counted := by
    intro draft stop
    exact ⟨titles_attach h draft stop, by rw [hcounted]; exact counted_settle _⟩
  cases hrule with
  | body hkind => exact .opens _ hkind hcounted (titles_push h _ _) rfl
  | semicolon hkind =>
    obtain ⟨htitles, hsame⟩ := hclose (header.draft machine.source) token.range.stop
    exact .passes (by simp [hkind]) (by simp [hkind]) htitles hsame
  | ends => exact hclose _ _
  | more hopen _ hbrace => exact .passes hopen hbrace rfl hcounted.symm

theorem DeclarationRule.turns {header : DeclarationHeader}
    (hrule : machine.DeclarationRule header token step) (h : Stacked machine.frames)
    (hcounted : machine.counted = 0) : TurnsOnce machine token step := by
  cases hrule with
  | var => exact ⟨rfl, hcounted.symm⟩
  | word _ _ hword =>
    obtain ⟨hopen, hclose⟩ := kind_ne_brace_of_isWord hword
    exact .passes hopen hclose rfl hcounted.symm
  | connector hconnector =>
    obtain ⟨hopen, hclose⟩ := kind_ne_brace_of_isConnector hconnector
    exact .passes hopen hclose rfl hcounted.symm
  | function hkind => exact .passes (by simp [hkind]) (by simp [hkind]) rfl hcounted.symm
  | aggregate hkind => exact .opens _ hkind hcounted (titles_push h _ _) rfl
  | nothing => exact ⟨rfl, (counted_settle machine).trans hcounted.symm⟩

theorem ParametersRule.turns {list : ParameterList} (hrule : machine.ParametersRule list token step)
    (hcounted : machine.counted = 0) : TurnsOnce machine token step := by
  cases hrule with
  | opens hkind | ends hkind | closes hkind =>
    exact .passes (by simp [hkind]) (by simp [hkind]) rfl hcounted.symm
  | cut => exact ⟨rfl, hcounted.symm⟩
  | takes _ _ hcut => exact .passes (by simp_all) (by simp_all) rfl hcounted.symm

theorem BodyRule.turns {draft : Draft} {last : Token}
    (hrule : machine.BodyRule draft last token step) (h : Stacked machine.frames)
    (hcounted : machine.counted = 0) : TurnsOnce machine token step := by
  have hclose : ∀ stop, (machine.close draft stop).counted = machine.counted := by
    intro stop
    rw [hcounted]
    exact counted_settle _
  cases hrule with
  | body hkind => exact .opens _ hkind hcounted (titles_push h _ _) rfl
  | semicolon hkind =>
    exact .passes (by simp [hkind]) (by simp [hkind]) (titles_attach h _ _) (hclose _)
  | ends => exact ⟨titles_attach h _ _, hclose _⟩

end Rules

/-- A list of declarators counts the braces that it takes. -/
theorem turns_add {titles : List (Option Mark)} (list : DeclaratorList)
    (hclose : token.kind = .closeBrace → 0 < list.braces) (htitles : next.titles = titles)
    (hcounted : next.counted = (list.add token).braces) :
    Turns token titles list.braces next := by
  cases hkind : token.kind with
  | openBrace =>
    have hbraces : (list.add token).braces = list.braces + 1 := by
      simp [DeclaratorList.add, hkind]
    exact .counts hkind htitles (hcounted.trans hbraces)
  | closeBrace =>
    have hbraces : (list.add token).braces = list.braces - 1 := by
      simp [DeclaratorList.add, hkind]
    have hpos := hclose hkind
    exact .uncounts hkind htitles (by omega)
  | _ =>
    have hbraces : (list.add token).braces = list.braces := by
      simp [DeclaratorList.add, hkind]
    exact .passes (by simp [hkind]) (by simp [hkind]) htitles (hcounted.trans hbraces)

/-- A list that ends before a token has no brace open, if the token may not end it anyway. -/
theorem braces_eq_zero_of_endsBefore {list : DeclaratorList} (h : list.endsBefore token = true)
    (hblock : token.kind.opensBlock = true → list.braces = 0) : list.braces = 0 := by
  unfold DeclaratorList.endsBefore at h
  split at h
  · exact beq_iff_eq.1 h
  · simp only [DeclaratorList.isTop, Bool.and_eq_true, beq_iff_eq] at h
    exact h.1.2
  · simp only [DeclaratorList.isTop, Bool.or_eq_true, Bool.and_eq_true, beq_iff_eq] at h
    rcases h with hopens | hopens
    · exact hblock hopens
    · exact hopens.1.2.2

theorem DeclaratorsRule.turns {list : DeclaratorList} {step : Step}
    (hrule : machine.DeclaratorsRule list token step) (h : Stacked machine.frames)
    (hcounted : machine.counted = list.braces)
    (hleaves : token.kind = .semicolon ∨ token.kind.opensBlock = true → list.braces = 0) :
    TurnsOnce machine token step := by
  have hsettle : list.braces = 0 → ∀ stop,
      (machine.report list stop).settle.titles = machine.titles ∧
        (machine.report list stop).settle.counted = machine.counted := by
    intro hbraces stop
    exact ⟨titles_report h list stop, by rw [hcounted, hbraces]; exact counted_settle _⟩
  unfold TurnsOnce
  cases hrule with
  | semicolon hkind =>
    obtain ⟨htitles, hsame⟩ := hsettle (hleaves (Or.inl hkind)) token.range.stop
    exact .passes (by simp [hkind]) (by simp [hkind]) htitles hsame
  | ends hends =>
    apply hsettle
    exact braces_eq_zero_of_endsBefore hends fun hblock => hleaves (Or.inr hblock)
  | comma hkind =>
    rw [hcounted]
    exact turns_add { list with current := none } (by simp [hkind]) (titles_report h list _) rfl
  | name hends =>
    rw [hcounted]
    exact turns_add { list with current := some _ } (DeclaratorList.braces_pos hends) rfl rfl
  | takes _ hends =>
    rw [hcounted]
    exact turns_add list (DeclaratorList.braces_pos hends) rfl rfl

theorem Rule.turns {step : Step} (hrule : machine.Rule token step) (h : Stacked machine.frames)
    (hleaves : token.kind = .semicolon ∨ token.kind.opensBlock = true → machine.counted = 0) :
    TurnsOnce machine token step := by
  cases hrule with
  | scan hphase hrule => exact hrule.turns h (counted_of_phase_ne hphase)
  | event hphase hrule => exact hrule.turns h (by simp [counted, hphase, Header.braces])
  | declaration hphase hrule => exact hrule.turns h (by simp [counted, hphase, Header.braces])
  | parameters hphase hrule => exact hrule.turns (by simp [counted, hphase, Header.braces])
  | body hphase hrule => exact hrule.turns h (by simp [counted, hphase, Header.braces])
  | @declarators list _ hphase hrule =>
    have hcounted : machine.counted = list.braces := by simp [counted, hphase, Header.braces]
    rw [hcounted] at hleaves
    exact hrule.turns h hcounted hleaves

/-- A token turns the open braces once, if it ends no list of declarators that has braces open. -/
theorem turns_feed (hregular : machine.Regular)
    (hleaves : token.kind = .semicolon ∨ token.kind.opensBlock = true → machine.counted = 0) :
    Turns token machine.titles machine.counted (machine.feed token) := by
  refine feed_ends (P := fun machine' => machine'.Regular ∧ machine'.titles = machine.titles ∧
    machine'.counted = machine.counted) ?_ ⟨hregular, rfl, rfl⟩
  rintro machine' ⟨hregular', htitles, hcounted⟩
  rw [← hcounted] at hleaves
  have hnext := regular_step hregular' token
  have hturns : TurnsOnce machine' token (machine'.step token) :=
    (machine'.step_rule token).turns hregular'.1 hleaves
  unfold TurnsOnce at hturns
  rw [htitles, hcounted] at hturns
  cases hstep : machine'.step token with
  | consumed last =>
    rw [hstep] at hturns
    exact hturns
  | retry last =>
    rw [hstep] at hnext hturns
    exact ⟨hnext, hturns⟩

end Machine

end Outline

end CaplOutline
