-- The numbers that frames keep. They are written when a frame is pushed and never again, and yet
-- they stay right: below a frame nothing is pushed or popped, and a symbol that is hung on a frame
-- leaves it a frame with a symbol. So a symbol always finds the innermost frame that can hold it.
import Mathlib.Data.Set.Card
import CaplOutline.Proofs.Outline.Faults

namespace CaplOutline.Outline

/-! ## Frames with a symbol -/

/-- The indices below `bound` of the frames that have a symbol. -/
def holders (stack : Array Frame) (bound : Nat) : Set Nat :=
  {index | index < bound ∧
    ∃ frame draft, stack[index]? = some frame ∧ frame.symbol = some draft}

/-- The frame keeps the index of the innermost frame with a symbol, up to and with itself, and the
number of all those frames. -/
structure Frame.RightAt (stack : Array Frame) (index : Nat) (frame : Frame) : Prop where
  owner : ∀ owner, frame.owner = some owner ↔ IsGreatest (holders stack (index + 1)) owner
  no_owner : frame.owner = none ↔ holders stack (index + 1) = ∅
  nesting : frame.nesting = (holders stack (index + 1)).ncard
  nesting_le : frame.nesting ≤ maxNesting

section Holders

variable {stack : Array Frame} {bound : Nat} {frame : Frame} {frames : List Frame}

theorem finite_holders (stack : Array Frame) (bound : Nat) : (holders stack bound).Finite :=
  (Set.finite_lt_nat bound).subset fun _ h => h.1

theorem holders_zero (stack : Array Frame) : holders stack 0 = ∅ :=
  Set.eq_empty_iff_forall_notMem.2 fun _ h => Nat.not_lt_zero _ h.1

theorem holders_succ_of_some (hframe : stack[bound]? = some frame)
    (hsymbol : frame.symbol.isSome = true) :
    holders stack (bound + 1) = insert bound (holders stack bound) := by
  obtain ⟨draft, hdraft⟩ := Option.isSome_iff_exists.1 hsymbol
  ext index
  constructor
  · rintro ⟨hlt, hholds⟩
    rcases Nat.lt_succ_iff_lt_or_eq.1 hlt with hlt | rfl
    · exact Set.mem_insert_of_mem _ ⟨hlt, hholds⟩
    · exact Set.mem_insert _ _
  · rintro (rfl | ⟨hlt, hholds⟩)
    · exact ⟨Nat.lt_succ_self _, frame, draft, hframe, hdraft⟩
    · exact ⟨Nat.lt_succ_of_lt hlt, hholds⟩

theorem holders_succ_of_none (hframe : stack[bound]? = some frame)
    (hsymbol : ¬ frame.symbol.isSome = true) : holders stack (bound + 1) = holders stack bound := by
  ext index
  constructor
  · rintro ⟨hlt, other, draft, hother, hdraft⟩
    rcases Nat.lt_succ_iff_lt_or_eq.1 hlt with hlt | rfl
    · exact ⟨hlt, other, draft, hother, hdraft⟩
    · rw [hframe] at hother
      cases hother
      simp [hdraft] at hsymbol
  · rintro ⟨hlt, hholds⟩
    exact ⟨Nat.lt_succ_of_lt hlt, hholds⟩

/-- The outermost frames of a stack, one fewer. -/
theorem below_of_cons
    (h : stack.toList.take (frame :: frames).length = (frame :: frames).reverse) :
    stack[frames.length]? = some frame ∧ stack.toList.take frames.length = frames.reverse := by
  rw [List.length_cons, List.reverse_cons] at h
  constructor
  · rw [← Array.getElem?_toList, ← List.getElem?_take_of_lt (Nat.lt_succ_self frames.length), h,
      ← List.length_reverse, List.getElem?_concat_length]
  · have htake := congrArg (List.take frames.length) h
    rw [List.take_take, Nat.min_eq_left (Nat.le_succ _)] at htake
    rw [htake, ← List.length_reverse, List.take_left]

theorem ncard_holders (h : stack.toList.take frames.length = frames.reverse) :
    (holders stack frames.length).ncard = (drafts frames).length := by
  induction frames with
  | nil => simp [holders_zero, drafts]
  | cons frame frames ih =>
    obtain ⟨hframe, hbelow⟩ := below_of_cons h
    rw [List.length_cons]
    by_cases hsymbol : frame.symbol.isSome = true
    · obtain ⟨draft, hdraft⟩ := Option.isSome_iff_exists.1 hsymbol
      have hnot : frames.length ∉ holders stack frames.length := fun hmem => hmem.1.false
      rw [holders_succ_of_some hframe hsymbol,
        Set.ncard_insert_of_notMem hnot (finite_holders _ _), ih hbelow]
      simp [drafts, hdraft]
    · rw [holders_succ_of_none hframe hsymbol, ih hbelow]
      simp [drafts, Option.not_isSome_iff_eq_none.1 hsymbol]

theorem ownerOf_eq_some_iff (h : stack.toList.take frames.length = frames.reverse) (owner : Nat) :
    ownerOf frames = some owner ↔ IsGreatest (holders stack frames.length) owner := by
  induction frames with
  | nil => simp [ownerOf, holders_zero, IsGreatest]
  | cons frame frames ih =>
    obtain ⟨hframe, hbelow⟩ := below_of_cons h
    rw [List.length_cons]
    unfold ownerOf
    split
    · rename_i hsymbol
      rw [holders_succ_of_some hframe hsymbol]
      have hgreatest : IsGreatest (insert frames.length (holders stack frames.length))
          frames.length := by
        refine ⟨Set.mem_insert _ _, ?_⟩
        rintro index (rfl | hmem)
        · exact Nat.le_refl _
        · exact hmem.1.le
      constructor
      · rintro ⟨⟩
        exact hgreatest
      · intro howner
        rw [hgreatest.unique howner]
    · rename_i hsymbol
      rw [holders_succ_of_none hframe hsymbol]
      exact ih hbelow

theorem ownerOf_eq_none_iff_holders (h : stack.toList.take frames.length = frames.reverse) :
    ownerOf frames = none ↔ holders stack frames.length = ∅ := by
  rw [ownerOf_eq_none_iff, ← List.length_eq_zero_iff, ← ncard_holders h,
    Set.ncard_eq_zero (finite_holders _ _)]

theorem Stacked.of_append {front : List Frame} (h : Stacked (front ++ frames)) :
    Stacked frames := by
  induction front with
  | nil => exact h
  | cons frame front ih => exact ih h.2.2.2

theorem rightAt_of_stacked (h : Stacked stack.toList.reverse) {index : Nat}
    (hframe : stack[index]? = some frame) : frame.RightAt stack index := by
  rw [← Array.getElem?_toList] at hframe
  obtain ⟨hlt, hget⟩ := List.getElem?_eq_some_iff.1 hframe
  -- The frames up to and with this one, innermost first.
  have htake : stack.toList.take (index + 1) =
      (frame :: (stack.toList.take index).reverse).reverse := by
    rw [List.reverse_cons, List.reverse_reverse, List.take_add_one, hframe]
    rfl
  have hlength : (frame :: (stack.toList.take index).reverse).length = index + 1 := by
    simp only [List.length_cons, List.length_reverse, List.length_take]
    omega
  have hsplit : stack.toList.reverse = (stack.toList.drop (index + 1)).reverse ++
      (frame :: (stack.toList.take index).reverse) := by
    rw [← List.reverse_reverse (frame :: _), ← htake, ← List.reverse_append,
      List.take_append_drop]
  rw [hsplit] at h
  rw [← hlength] at htake
  have howner := ownerOf_eq_some_iff htake
  have hnone := ownerOf_eq_none_iff_holders htake
  have hncard := ncard_holders htake
  rw [hlength] at howner hnone hncard
  obtain ⟨hkeeps, hnesting, hle, -⟩ := h.of_append
  rw [← hkeeps] at howner hnone
  exact ⟨howner, hnone, hnesting.trans hncard.symm, hle⟩

end Holders

/-! ## What happens to the stack and to the roots -/

/-- A symbol is hung on the innermost frame that has one: it is the last child of the symbol of that
frame, and no other frame changes. It becomes the last root only if no frame has a symbol. -/
inductive Hangs (symbol : Symbol) (stack : Array Frame) (roots : Array Symbol) :
    Array Frame → Array Symbol → Prop
  | owner {owner : Nat} {frame : Frame} {draft : Draft} {stack' : Array Frame} :
      IsGreatest (holders stack stack.size) owner → stack[owner]? = some frame →
      frame.symbol = some draft →
      stack'[owner]? =
        some { frame with symbol := some { draft with children := draft.children.push symbol } } →
      (∀ index, index ≠ owner → stack'[index]? = stack[index]?) →
      Hangs symbol stack roots stack' roots
  | root : holders stack stack.size = ∅ → Hangs symbol stack roots stack (roots.push symbol)

/-- No more than one of these happens at once. -/
inductive Changes (stack : Array Frame) (roots : Array Symbol) :
    Array Frame → Array Symbol → Prop
  | stays : Changes stack roots stack roots
  | hangs {symbol : Symbol} {stack' : Array Frame} {roots' : Array Symbol} :
      Hangs symbol stack roots stack' roots' → Changes stack roots stack' roots'
  | opens (frame : Frame) : Changes stack roots (stack.push frame) roots
  | closes {frame : Frame} : stack.back? = some frame → frame.symbol = none →
      Changes stack roots stack.pop roots
  /-- The symbol of a frame is hung after the frame is gone. -/
  | ends {frame : Frame} {draft : Draft} {includeDetail : Bool} {stop : Position}
      {stack' : Array Frame} {roots' : Array Symbol} : stack.back? = some frame →
      frame.symbol = some draft →
      Hangs (draft.finish includeDetail stop) stack.pop roots stack' roots' →
      Changes stack roots stack' roots'

namespace Machine

/-- Without a header the phase tells whether a frame is open. -/
def PhaseFits (machine : Machine) : Prop :=
  (∀ header, machine.phase ≠ .inHeader header) →
    machine.phase = if machine.stack.isEmpty then .topLevel else .inBody

/-- All frames keep the right numbers. -/
structure Orderly (machine : Machine) : Prop where
  frames : ∀ (index : Nat) (frame : Frame), machine.stack[index]? = some frame →
    frame.RightAt machine.stack index
  /-- So a symbol that is finished now finds its place. -/
  attach : ∀ draft stop,
    Hangs (draft.finish machine.options.includeDetails stop) machine.stack machine.roots
      (machine.attach draft stop).stack (machine.attach draft stop).roots

def Changes (machine next : Machine) : Prop :=
  Outline.Changes machine.stack machine.roots next.stack next.roots

/-- The stack and the roots change as they may, and the phase fits them again. -/
def Proceeds (machine next : Machine) : Prop := machine.Changes next ∧ next.PhaseFits

variable {machine : Machine}

/-! ## Operations -/

/-- The owner gains a child, and no other frame is touched. -/
theorem hangs_modify {symbol : Symbol} {stack : Array Frame} {roots : Array Symbol} {owner : Nat}
    (h : IsGreatest (holders stack stack.size) owner) :
    Hangs symbol stack roots (stack.modify owner (·.adopt symbol)) roots := by
  obtain ⟨-, frame, draft, hframe, hdraft⟩ := h.1
  refine .owner h hframe hdraft ?_ ?_
  · rw [Array.getElem?_modify, if_pos rfl, hframe]
    simp [Frame.adopt, Draft.adopt, hdraft]
  · intro index hne
    rw [Array.getElem?_modify, if_neg (Ne.symm hne)]

theorem hangs_attach (h : Stacked machine.frames) (draft : Draft) (stop : Position) :
    Hangs (draft.finish machine.options.includeDetails stop) machine.stack machine.roots
      (machine.attach draft stop).stack (machine.attach draft stop).roots := by
  have htake : machine.stack.toList.take machine.frames.length = machine.frames.reverse := by
    simp [frames]
  have hlength : machine.frames.length = machine.stack.size := by simp [frames]
  have howner := ownerOf_eq_some_iff htake
  have hnone := ownerOf_eq_none_iff_holders htake
  rw [hlength] at howner hnone
  rw [← h.owner_eq, ← back?_eq_head?_frames] at howner hnone
  unfold attach
  dsimp only
  split
  · rename_i owner hsome
    exact hangs_modify ((howner owner).1 hsome)
  · rename_i hempty
    exact .root (hnone.1 hempty)

theorem changes_attach (h : Stacked machine.frames) (draft : Draft) (stop : Position) :
    machine.Changes (machine.attach draft stop) := .hangs (hangs_attach h draft stop)

theorem changes_report (h : Stacked machine.frames) (list : DeclaratorList) (stop : Position) :
    machine.Changes (machine.report list stop) := by
  unfold report
  split
  · split
    · exact changes_attach h _ _
    · exact .stays
  · exact .stays

theorem Changes.proceeds_settle {next : Machine} (h : machine.Changes next) :
    machine.Proceeds next.settle :=
  ⟨h, fun _ => rfl⟩

theorem Changes.proceeds_readHeader {next : Machine} (h : machine.Changes next) (header : Header) :
    machine.Proceeds (next.readHeader header) :=
  ⟨h, fun hphase => absurd rfl (hphase header)⟩

theorem proceeds_settle : machine.Proceeds machine.settle := Changes.proceeds_settle .stays

theorem proceeds_readHeader (header : Header) : machine.Proceeds (machine.readHeader header) :=
  Changes.proceeds_readHeader .stays header

theorem proceeds_close (h : Stacked machine.frames) (draft : Draft) (stop : Position) :
    machine.Proceeds (machine.close draft stop) :=
  (changes_attach h draft stop).proceeds_settle

theorem proceeds_push (symbol : Option Draft) (scope : Scope) :
    machine.Proceeds (machine.push symbol scope) :=
  ⟨.opens _, fun _ => by simp [push]⟩

theorem proceeds_pop (h : Stacked machine.frames) (stop : Position) :
    machine.Proceeds (machine.pop stop) := by
  have hstacked : Stacked machine.dropFrame.frames := by
    rw [frames_dropFrame]
    exact stacked_tail h
  have hback := machine.back?_eq_head?_frames
  rw [pop_eq]
  split
  · exact proceeds_settle
  · rename_i frame frames hframes
    rw [hframes] at hback
    split
    · rename_i hsymbol
      exact ⟨.closes hback hsymbol, fun _ => rfl⟩
    · rename_i draft hsymbol
      exact ⟨.ends hback hsymbol (hangs_attach hstacked draft stop), fun _ => rfl⟩

/-! ## One step -/

variable {next : Machine} {token : Token} {step : Step}

theorem ScanRule.proceeds (hrule : machine.ScanRule token next) (h : Stacked machine.frames) :
    machine.Proceeds next := by
  cases hrule with
  | event | block | declaration => exact proceeds_readHeader _
  | opens => exact proceeds_push _ _
  | closes => exact proceeds_pop h _
  | passes => exact proceeds_settle

theorem EventRule.proceeds {header : EventHeader} (hrule : machine.EventRule header token step)
    (h : Stacked machine.frames) : step.Ends machine.Proceeds machine.Proceeds := by
  cases hrule with
  | body => exact proceeds_push _ _
  | semicolon | ends => exact proceeds_close h _ _
  | more => exact proceeds_readHeader _

theorem DeclarationRule.proceeds {header : DeclarationHeader}
    (hrule : machine.DeclarationRule header token step) :
    step.Ends machine.Proceeds machine.Proceeds := by
  cases hrule with
  | var | word | connector | function => exact proceeds_readHeader _
  | aggregate => exact proceeds_push _ _
  | nothing => exact proceeds_settle

theorem ParametersRule.proceeds {list : ParameterList}
    (hrule : machine.ParametersRule list token step) :
    step.Ends machine.Proceeds machine.Proceeds := by
  cases hrule <;> exact proceeds_readHeader _

theorem BodyRule.proceeds {draft : Draft} {last : Token}
    (hrule : machine.BodyRule draft last token step) (h : Stacked machine.frames) :
    step.Ends machine.Proceeds machine.Proceeds := by
  cases hrule with
  | body => exact proceeds_push _ _
  | semicolon | ends => exact proceeds_close h _ _

theorem DeclaratorsRule.proceeds {list : DeclaratorList}
    (hrule : machine.DeclaratorsRule list token step) (h : Stacked machine.frames) :
    step.Ends machine.Proceeds machine.Proceeds := by
  cases hrule with
  | semicolon | ends => exact (changes_report h list _).proceeds_settle
  | comma => exact (changes_report h list _).proceeds_readHeader _
  | name | takes => exact proceeds_readHeader _

theorem Rule.proceeds (hrule : machine.Rule token step) (h : Stacked machine.frames) :
    step.Ends machine.Proceeds machine.Proceeds := by
  cases hrule with
  | scan _ hrule => exact hrule.proceeds h
  | event _ hrule => exact hrule.proceeds h
  | declaration _ hrule => exact hrule.proceeds
  | parameters _ hrule => exact hrule.proceeds
  | body _ hrule => exact hrule.proceeds h
  | declarators _ hrule => exact hrule.proceeds h

theorem proceeds_step (h : Stacked machine.frames) (token : Token) :
    (machine.step token).Ends machine.Proceeds machine.Proceeds :=
  (machine.step_rule token).proceeds h

/-! ## The end of the text -/

/-- The header that the end of the text cuts off is closed as others are, outside of all bodies. -/
theorem EndRule.changes (hrule : machine.EndRule next) (h : Stacked machine.frames) :
    machine.Changes next ∧ next.phase = .topLevel := by
  have hattach : ∀ draft stop, machine.Changes (machine.leave.attach draft stop) ∧
      (machine.leave.attach draft stop).phase = .topLevel := by
    intro draft stop
    exact ⟨@changes_attach machine.leave h draft stop, phase_attach _ _ _⟩
  cases hrule with
  | outside | word | hidden => exact ⟨.stays, rfl⟩
  | event | function | var | parameters | body => exact hattach _ _
  | declarators => exact ⟨@changes_report machine.leave h _ _, phase_report _ _ _⟩

theorem orderly_of_stacked (h : Stacked machine.frames) : machine.Orderly :=
  ⟨fun _ _ hframe => rightAt_of_stacked h hframe, hangs_attach h⟩

/-! ## The states of a run -/

section Run

variable {source : String} {options : Options} {cursor : Cursor}

theorem Reached.stacked (h : Reached source options cursor machine) : Stacked machine.frames := by
  obtain ⟨-, -, ⟨hstacked, -⟩, -⟩ := h.invariant
  exact hstacked

theorem Reached.phaseFits (h : Reached source options cursor machine) : machine.PhaseFits := by
  cases h with
  | start => exact fun _ => rfl
  | @retry _ _ before _ token hbefore _ hstep =>
    have hproceeds := proceeds_step hbefore.stacked token
    rw [hstep] at hproceeds
    exact hproceeds.2
  | @consumed _ _ before _ token hbefore _ hstep =>
    have hproceeds := proceeds_step hbefore.stacked token
    rw [hstep] at hproceeds
    exact hproceeds.2

end Run

end Machine

/-! ## The law -/

/-- In every state that is reached, and while the frames are closed at the end of the text, each
frame keeps the index of the innermost frame with a symbol and the number of such frames, which the
greatest nesting bounds. A step opens or closes one frame at most, and a symbol that is finished is
hung on the innermost frame with a symbol. Between two tokens the phase tells whether a frame is
open. At the end of the text it is left first, and fits the frames again once one is closed. -/
theorem every_symbol_is_hung_on_its_owner (source : String) (options : Options) :
    (∀ cursor machine, Machine.Reached source options cursor machine →
      machine.Orderly ∧ machine.PhaseFits ∧
      ∀ token, (machine.step token).Ends machine.Changes machine.Changes) ∧
    ∃ cursor machine stop, Machine.Reached source options cursor machine ∧
      cursor.next = (none, stop) ∧ machine.Changes machine.endHeader ∧
      machine.endHeader.phase = .topLevel ∧
      (∀ n, (Nat.repeat (Machine.pop stop.position) n machine.endHeader).Orderly ∧
        (Nat.repeat (Machine.pop stop.position) (n + 1) machine.endHeader).PhaseFits ∧
        (Nat.repeat (Machine.pop stop.position) n machine.endHeader).Changes
          (Nat.repeat (Machine.pop stop.position) (n + 1) machine.endHeader)) ∧
      extract source options = (Nat.repeat (Machine.pop stop.position)
        machine.endHeader.stack.size machine.endHeader).roots.toList := by
  constructor
  · intro cursor machine h
    refine ⟨Machine.orderly_of_stacked h.stacked, h.phaseFits, ?_⟩
    intro token
    have hproceeds := Machine.proceeds_step h.stacked token
    cases hstep : machine.step token with
    | consumed next =>
      rw [hstep] at hproceeds
      exact hproceeds.1
    | retry next =>
      rw [hstep] at hproceeds
      exact hproceeds.1
  · obtain ⟨last, hreached, hnext⟩ :=
      Machine.Reached.reads (.start : Machine.Reached source options _ _)
        (Cursor.reads_scan source)
    obtain ⟨-, -, hplace, -⟩ := hreached.invariant
    obtain ⟨hstacked, -⟩ := Machine.inPlace_endHeader hplace
    obtain ⟨hchanges, hphase⟩ := (Machine.end_rule _).changes hreached.stacked
    refine ⟨last, _, _, hreached, hnext, hchanges, hphase, ?_, rfl⟩
    intro n
    have hclosing := Machine.stacked_repeat_pop hstacked (Token.scan source).2.position n
    obtain ⟨hpop, hfits⟩ := Machine.proceeds_pop hclosing (Token.scan source).2.position
    exact ⟨Machine.orderly_of_stacked hclosing, hfits, hpop⟩

/-- A handler, braces that belong to no symbol, and a function in them. -/
def openFrames : String := "on a \x7b \x7b int f() \x7b int x"

/-- At the end of the text the braces of the function are closed first, and it is hung on the
handler. -/
theorem the_owners_of_open_frames :
    ∃ cursor machine stop, Machine.Reached openFrames {} cursor machine ∧
      cursor.next = (none, stop) ∧ machine.Orderly ∧ machine.PhaseFits ∧
      machine.stack.toList.map (fun frame => (frame.owner, frame.nesting)) =
        [(some 0, 1), (some 0, 1), (some 2, 2)] ∧
      (machine.endHeader.pop stop.position).stack.toList.map
          (fun frame => frame.symbol.map (·.children.toList.map (·.name))) =
        [some ["f"], none] := by
  obtain ⟨cursor, hreached, hnext⟩ :=
    Machine.Reached.reads (.start : Machine.Reached openFrames {} _ _)
      (Cursor.reads_scan openFrames)
  obtain ⟨hlaw, -⟩ := every_symbol_is_hung_on_its_owner openFrames {}
  obtain ⟨horderly, hfits, -⟩ := hlaw _ _ hreached
  refine ⟨cursor, _, _, hreached, hnext, horderly, hfits, ?_, ?_⟩
  · decide +kernel
  · decide +kernel

end CaplOutline.Outline
