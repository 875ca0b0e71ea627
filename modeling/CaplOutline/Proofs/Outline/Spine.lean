-- The stack of the machine as a reader sees it. Each frame keeps the index of its
-- owner and the number of open symbols, so that no step has to walk down the stack.
-- These numbers are always right. So the stack is no more than its spine: the
-- finished roots, and the open symbols from the innermost to the outermost.
import CaplOutline.Outline.Extract

namespace CaplOutline.Outline

/-! ## Frames, innermost first -/

/-- The symbols that are open, innermost first. -/
def drafts (frames : List Frame) : List Draft := frames.filterMap (·.symbol)

/-- The index, counted from the outermost frame, of the innermost frame with a symbol. -/
def ownerOf : List Frame → Option Nat
  | [] => none
  | frame :: frames => if frame.symbol.isSome then some frames.length else ownerOf frames

/-- Every frame keeps the right owner and the right number of open symbols. -/
def Stacked : List Frame → Prop
  | [] => True
  | frame :: frames =>
    frame.owner = ownerOf (frame :: frames) ∧ frame.nesting = (drafts (frame :: frames)).length ∧
      frame.nesting ≤ maxNesting ∧ Stacked frames

/-- Hangs a symbol on the innermost frame with a symbol. -/
def hangOn (symbol : Symbol) : List Frame → List Frame
  | [] => []
  | frame :: frames =>
    if frame.symbol.isSome then frame.adopt symbol :: frames else frame :: hangOn symbol frames

theorem ownerOf_lt {frames : List Frame} {owner : Nat} (h : ownerOf frames = some owner) :
    owner < frames.length := by
  induction frames with
  | nil => cases h
  | cons frame frames ih =>
    unfold ownerOf at h
    rw [List.length_cons]
    split at h
    · cases h; omega
    · have := ih h; omega

/-- The owner of a frame is a frame with a symbol, and not above it. Both are counted from the
outermost frame. -/
theorem exists_of_ownerOf {frames : List Frame} {owner : Nat} (h : ownerOf frames = some owner) :
    ∃ holder draft, frames.reverse[owner]? = some holder ∧ holder.symbol = some draft := by
  induction frames with
  | nil => cases h
  | cons frame frames ih =>
    unfold ownerOf at h
    rw [List.reverse_cons]
    split at h
    · rename_i hsymbol
      cases h
      obtain ⟨draft, hdraft⟩ := Option.isSome_iff_exists.1 hsymbol
      refine ⟨frame, draft, ?_, hdraft⟩
      rw [← List.length_reverse, List.getElem?_concat_length]
    · obtain ⟨holder, draft, hholder, hdraft⟩ := ih h
      refine ⟨holder, draft, ?_, hdraft⟩
      rw [List.getElem?_append_left (by simpa using ownerOf_lt h), hholder]

theorem Stacked.exists_owner {frames : List Frame} (h : Stacked frames) {index owner : Nat}
    {frame : Frame} (hframe : frames.reverse[index]? = some frame)
    (howner : frame.owner = some owner) :
    owner ≤ index ∧
      ∃ holder draft, frames.reverse[owner]? = some holder ∧ holder.symbol = some draft := by
  induction frames with
  | nil => cases hframe
  | cons top frames ih =>
    obtain ⟨htop, -, -, hrest⟩ := h
    rw [List.reverse_cons] at hframe ⊢
    rcases Nat.lt_trichotomy index frames.length with hlt | heq | hgt
    · rw [List.getElem?_append_left (by simpa using hlt)] at hframe
      obtain ⟨hle, holder, draft, hholder, hdraft⟩ := ih hrest hframe
      refine ⟨hle, holder, draft, ?_, hdraft⟩
      rw [List.getElem?_append_left (by simp; omega), hholder]
    · subst heq
      rw [← List.length_reverse, List.getElem?_concat_length] at hframe
      cases hframe
      rw [htop] at howner
      refine ⟨Nat.le_of_lt_succ (ownerOf_lt howner), ?_⟩
      rw [← List.reverse_cons]
      exact exists_of_ownerOf howner
    · rw [List.getElem?_eq_none (by simp; omega)] at hframe
      cases hframe

theorem ownerOf_eq_none_iff {frames : List Frame} : ownerOf frames = none ↔ drafts frames = [] := by
  induction frames with
  | nil => simp [ownerOf, drafts]
  | cons frame frames ih =>
    unfold ownerOf drafts
    cases hs : frame.symbol with
    | none => simpa [hs, drafts] using ih
    | some draft => simp [hs]

theorem Stacked.owner_eq {frames : List Frame} (h : Stacked frames) :
    frames.head?.bind (·.owner) = ownerOf frames := by
  cases frames with
  | nil => rfl
  | cons frame frames => exact h.1

theorem Stacked.nesting_eq {frames : List Frame} (h : Stacked frames) :
    (frames.head?.map (·.nesting)).getD 0 = (drafts frames).length := by
  cases frames with
  | nil => rfl
  | cons frame frames => exact h.2.1

theorem modify_concat_of_lt {α : Type} (f : α → α) (a : α) {l : List α} {i : Nat}
    (h : i < l.length) : (l ++ [a]).modify i f = l.modify i f ++ [a] := by
  induction l generalizing i with
  | nil => cases h
  | cons b l ih =>
    cases i with
    | zero => rfl
    | succ i =>
      simp only [List.cons_append, List.modify_succ_cons]
      rw [ih (Nat.lt_of_succ_lt_succ h)]

theorem modify_concat_length {α : Type} (f : α → α) (a : α) (l : List α) :
    (l ++ [a]).modify l.length f = l ++ [f a] := by
  induction l with
  | nil => rfl
  | cons b l ih =>
    simp only [List.cons_append, List.length_cons, List.modify_succ_cons]
    rw [ih]

/-- The index of the owner finds the innermost frame with a symbol. -/
theorem reverse_modify_owner {frames : List Frame} {owner : Nat} (h : ownerOf frames = some owner)
    (symbol : Symbol) :
    (frames.reverse.modify owner (·.adopt symbol)).reverse = hangOn symbol frames := by
  induction frames with
  | nil => cases h
  | cons frame frames ih =>
    rw [List.reverse_cons]
    unfold ownerOf at h
    unfold hangOn
    split at h
    · rename_i hs
      cases h
      rw [if_pos hs, ← List.length_reverse, modify_concat_length]
      simp
    · rename_i hs
      rw [if_neg hs, modify_concat_of_lt _ _ (by simpa using ownerOf_lt h), List.reverse_append,
        ih h]
      rfl

theorem drafts_hangOn (symbol : Symbol) (frames : List Frame) :
    drafts (hangOn symbol frames) =
      match drafts frames with
      | [] => []
      | draft :: drafts => draft.adopt symbol :: drafts := by
  induction frames with
  | nil => rfl
  | cons frame frames ih =>
    unfold hangOn
    cases hs : frame.symbol with
    | none => simpa [hs, drafts] using ih
    | some draft => simp [hs, drafts, Frame.adopt]

theorem hangOn_of_drafts_nil {frames : List Frame} (h : drafts frames = []) (symbol : Symbol) :
    hangOn symbol frames = frames := by
  induction frames with
  | nil => rfl
  | cons frame frames ih =>
    unfold hangOn
    cases hs : frame.symbol with
    | none => simpa [hs, drafts] using ih (by simpa [drafts, hs] using h)
    | some draft => simp [drafts, hs] at h

@[simp]
theorem length_drafts_hangOn (symbol : Symbol) (frames : List Frame) :
    (drafts (hangOn symbol frames)).length = (drafts frames).length := by
  rw [drafts_hangOn]
  split <;> simp_all

@[simp]
theorem ownerOf_hangOn (symbol : Symbol) (frames : List Frame) :
    ownerOf (hangOn symbol frames) = ownerOf frames := by
  induction frames with
  | nil => rfl
  | cons frame frames ih =>
    unfold hangOn
    cases hs : frame.symbol with
    | none => simpa [hs, ownerOf] using ih
    | some draft => simp [hs, ownerOf, Frame.adopt]

theorem Stacked.hangOn {frames : List Frame} (h : Stacked frames) (symbol : Symbol) :
    Stacked (hangOn symbol frames) := by
  induction frames with
  | nil => exact h
  | cons frame frames ih =>
    obtain ⟨howner, hnesting, hmax, hrest⟩ := h
    have howner' := ownerOf_hangOn symbol (frame :: frames)
    have hlength := length_drafts_hangOn symbol (frame :: frames)
    unfold Outline.hangOn at howner' hlength ⊢
    split
    · rename_i hs
      rw [if_pos hs] at howner' hlength
      exact ⟨howner.trans howner'.symm, hnesting.trans hlength.symm, hmax, hrest⟩
    · rename_i hs
      rw [if_neg hs] at howner' hlength
      exact ⟨howner.trans howner'.symm, hnesting.trans hlength.symm, hmax, ih hrest⟩

/-! ## The spine -/

/-- The finished symbols that no open symbol holds, and the open symbols, innermost first. -/
structure Spine where
  roots : List Symbol
  drafts : List Draft

namespace Spine

/-- Hangs a symbol on the innermost open symbol. It is a root if none is open. -/
def attach (spine : Spine) (symbol : Symbol) : Spine :=
  match spine.drafts with
  | [] => { spine with roots := spine.roots ++ [symbol] }
  | draft :: drafts => { spine with drafts := draft.adopt symbol :: drafts }

/-- Opens a symbol, if there is room for one more level. -/
def push (spine : Spine) (draft : Draft) : Spine :=
  if spine.drafts.length < maxNesting then { spine with drafts := draft :: spine.drafts } else spine

/-- Ends the innermost open symbol. -/
def pop (includeDetails : Bool) (stop : Position) (spine : Spine) : Spine :=
  match spine.drafts with
  | [] => spine
  | draft :: drafts => attach { spine with drafts } (draft.finish includeDetails stop)

end Spine

namespace Machine

/-- The open braces, innermost first. -/
def frames (machine : Machine) : List Frame := machine.stack.toList.reverse

def spine (machine : Machine) : Spine := ⟨machine.roots.toList, drafts machine.frames⟩

@[simp]
theorem frames_settle (machine : Machine) : machine.settle.frames = machine.frames := rfl

@[simp]
theorem spine_settle (machine : Machine) : machine.settle.spine = machine.spine := rfl

theorem back?_eq_head?_frames (machine : Machine) :
    machine.stack.back? = machine.frames.head? := by
  unfold frames
  rw [List.head?_reverse, Array.getLast?_toList]

/-! ## What the operations do to the frames and to the spine -/

theorem frames_attach {machine : Machine} (h : Stacked machine.frames) (draft : Draft)
    (stop : Position) :
    (machine.attach draft stop).frames =
      hangOn (draft.finish machine.options.includeDetails stop) machine.frames := by
  have howner := h.owner_eq
  unfold attach
  dsimp only
  rw [back?_eq_head?_frames, howner]
  cases ho : ownerOf machine.frames with
  | none =>
    exact (hangOn_of_drafts_nil (ownerOf_eq_none_iff.1 ho) _).symm
  | some owner =>
    rw [← reverse_modify_owner ho]
    unfold frames
    simp

theorem spine_attach {machine : Machine} (h : Stacked machine.frames) (draft : Draft)
    (stop : Position) :
    (machine.attach draft stop).spine =
      machine.spine.attach (draft.finish machine.options.includeDetails stop) := by
  have howner := h.owner_eq
  unfold spine
  rw [frames_attach h, drafts_hangOn]
  unfold attach Spine.attach
  dsimp only
  rw [back?_eq_head?_frames, howner]
  cases ho : ownerOf machine.frames with
  | none => simp [ownerOf_eq_none_iff.1 ho]
  | some owner =>
    cases hd : drafts machine.frames with
    | nil => rw [ownerOf_eq_none_iff.2 hd] at ho; cases ho
    | cons draft drafts => rfl

theorem stacked_attach {machine : Machine} (h : Stacked machine.frames) (draft : Draft)
    (stop : Position) : Stacked (machine.attach draft stop).frames := by
  rw [frames_attach h]
  exact h.hangOn _

/-- A brace is opened as a frame that keeps the right numbers, with its symbol or without it. -/
theorem frames_push {machine : Machine} (h : Stacked machine.frames) (symbol : Option Draft)
    (scope : Scope) :
    ∃ frame, (machine.push symbol scope).frames = frame :: machine.frames ∧
      frame.symbol = (if (drafts machine.frames).length < maxNesting then symbol else none) ∧
      Stacked (frame :: machine.frames) := by
  have howner := h.owner_eq
  have hnesting := h.nesting_eq
  have hbound : (drafts machine.frames).length ≤ maxNesting := by
    rw [← hnesting]
    cases hf : machine.frames with
    | nil => exact Nat.zero_le _
    | cons frame frames => rw [hf] at h; exact h.2.2.1
  unfold push
  dsimp only
  rw [back?_eq_head?_frames, howner, hnesting]
  cases hs : (if (drafts machine.frames).length < maxNesting then symbol else none) with
  | none =>
    refine ⟨⟨none, scope, ownerOf machine.frames, (drafts machine.frames).length⟩, ?_, rfl, ?_⟩
    · simp [frames]
    · exact ⟨by simp [ownerOf], by simp [drafts], hbound, h⟩
  | some draft =>
    have hlt : (drafts machine.frames).length < maxNesting := by
      split at hs
      · assumption
      · cases hs
    refine ⟨⟨some draft, scope, some machine.stack.size, (drafts machine.frames).length + 1⟩,
      ?_, rfl, ?_⟩
    · simp [frames]
    · exact ⟨by simp [ownerOf, frames], by simp [drafts], hlt, h⟩

theorem stacked_push {machine : Machine} (h : Stacked machine.frames) (symbol : Option Draft)
    (scope : Scope) : Stacked (machine.push symbol scope).frames := by
  obtain ⟨frame, hframes, -, hstacked⟩ := frames_push h symbol scope
  rw [hframes]
  exact hstacked

theorem spine_push_none {machine : Machine} (h : Stacked machine.frames) (scope : Scope) :
    (machine.push none scope).spine = machine.spine := by
  obtain ⟨frame, hframes, hsymbol, -⟩ := frames_push h none scope
  rw [ite_self] at hsymbol
  unfold spine
  rw [hframes]
  simp [drafts, hsymbol, push]

theorem spine_push_some {machine : Machine} (h : Stacked machine.frames) (draft : Draft)
    (scope : Scope) : (machine.push (some draft) scope).spine = machine.spine.push draft := by
  obtain ⟨frame, hframes, hsymbol, -⟩ := frames_push h (some draft) scope
  unfold spine Spine.push
  rw [hframes]
  dsimp only
  split
  · rename_i hlt
    rw [if_pos hlt] at hsymbol
    simp [drafts, hsymbol, push]
  · rename_i hge
    rw [if_neg hge] at hsymbol
    simp [drafts, hsymbol, push]

/-- A machine without its innermost frame. -/
def dropFrame (machine : Machine) : Machine := { machine with stack := machine.stack.pop }

@[simp]
theorem frames_dropFrame (machine : Machine) : machine.dropFrame.frames = machine.frames.tail := by
  simp [frames, dropFrame]

theorem stacked_tail {frames : List Frame} (h : Stacked frames) : Stacked frames.tail := by
  cases frames with
  | nil => exact h
  | cons frame frames => exact h.2.2.2

theorem pop_eq (stop : Position) (machine : Machine) :
    machine.pop stop =
      match machine.frames with
      | [] => machine.settle
      | frame :: _ =>
        match frame.symbol with
        | none => machine.dropFrame.settle
        | some draft => machine.dropFrame.close draft stop := by
  unfold pop
  rw [back?_eq_head?_frames]
  cases machine.frames with
  | nil => rfl
  | cons frame frames =>
    dsimp only [List.head?_cons]
    cases frame.symbol <;> rfl

theorem settle_pop (stop : Position) (machine : Machine) :
    (machine.pop stop).settle = machine.pop stop := by
  rw [pop_eq]
  split
  · rfl
  · split <;> rfl

theorem stacked_pop {machine : Machine} (h : Stacked machine.frames) (stop : Position) :
    Stacked (machine.pop stop).frames := by
  have htail : Stacked machine.dropFrame.frames := by
    rw [frames_dropFrame]
    exact stacked_tail h
  rw [pop_eq]
  split
  · exact h
  · split
    · exact htail
    · exact stacked_attach htail _ _

/-- A closing brace ends the innermost open symbol, or no symbol at all. -/
theorem spine_pop {machine : Machine} (h : Stacked machine.frames) (stop : Position) :
    (machine.pop stop).spine = machine.spine ∨
      (machine.pop stop).spine = machine.spine.pop machine.options.includeDetails stop := by
  rw [pop_eq]
  cases hf : machine.frames with
  | nil => exact Or.inl rfl
  | cons frame frames =>
    have htail : machine.dropFrame.frames = frames := by simp [hf]
    dsimp only
    cases hs : frame.symbol with
    | none =>
      have hdrafts : drafts machine.frames = drafts frames := by simp [hf, hs, drafts]
      refine Or.inl ?_
      unfold spine
      rw [frames_settle, htail, hdrafts]
      rfl
    | some draft =>
      have hdrafts : drafts machine.frames = draft :: drafts frames := by simp [hf, hs, drafts]
      refine Or.inr ?_
      dsimp only
      rw [close, spine_settle, spine_attach (by rw [htail]; rw [hf] at h; exact h.2.2.2)]
      unfold Spine.pop spine
      rw [htail, hdrafts]
      rfl

end Machine

end CaplOutline.Outline
