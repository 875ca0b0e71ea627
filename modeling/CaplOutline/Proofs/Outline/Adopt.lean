-- How a machine takes in finished symbols. A body that takes in symbols and is then
-- closed is one symbol with these symbols as its children. If it is too deep to be
-- a symbol, what is around it has taken them in instead.
import CaplOutline.Proofs.Outline.Grammar
import CaplOutline.Proofs.Outline.Spine

namespace CaplOutline.Outline

namespace Machine

/-! ## Finished symbols -/

/-- Hangs a finished symbol on the innermost frame that has a symbol of its own. -/
def adopt (machine : Machine) (symbol : Symbol) : Machine :=
  match machine.stack.back?.bind (·.owner) with
  | some owner => { machine with stack := machine.stack.modify owner (·.adopt symbol) }
  | none => { machine with roots := machine.roots.push symbol }

def adoptAll (machine : Machine) (symbols : List Symbol) : Machine := symbols.foldl adopt machine

theorem attach_eq_adopt (machine : Machine) (draft : Draft) (stop : Position) :
    machine.attach draft stop = machine.adopt (draft.finish machine.options.includeDetails stop) :=
  rfl

theorem adoptAll_append (machine : Machine) (symbols symbols' : List Symbol) :
    machine.adoptAll (symbols ++ symbols') = (machine.adoptAll symbols).adoptAll symbols' :=
  List.foldl_append

@[simp]
theorem source_adopt (machine : Machine) (symbol : Symbol) :
    (machine.adopt symbol).source = machine.source := by
  unfold adopt; split <;> rfl

@[simp]
theorem options_adopt (machine : Machine) (symbol : Symbol) :
    (machine.adopt symbol).options = machine.options := by
  unfold adopt; split <;> rfl

theorem adopt_phase (machine : Machine) (phase : Phase) (symbol : Symbol) :
    { machine with phase }.adopt symbol = { machine.adopt symbol with phase } := by
  unfold adopt; dsimp only; split <;> rfl

@[simp]
theorem adopt_readHeader (machine : Machine) (header : Header) (symbol : Symbol) :
    (machine.readHeader header).adopt symbol = (machine.adopt symbol).readHeader header :=
  adopt_phase ..

@[simp]
theorem size_stack_adopt (machine : Machine) (symbol : Symbol) :
    (machine.adopt symbol).stack.size = machine.stack.size := by
  unfold adopt; split <;> simp

/-- A machine that has settled does not move when it takes in a symbol. -/
theorem settle_adopt {machine : Machine} (h : machine.settle = machine) (symbol : Symbol) :
    (machine.adopt symbol).settle = machine.adopt symbol := by
  have hadopt : machine.settle.adopt symbol = (machine.adopt symbol).settle := by
    have hempty : machine.stack.isEmpty = (machine.adopt symbol).stack.isEmpty := by
      simp [Array.isEmpty]
    unfold settle
    rw [adopt_phase, hempty]
  rw [← hadopt, h]

theorem settle_adoptAll {machine : Machine} (h : machine.settle = machine) (symbols : List Symbol) :
    (machine.adoptAll symbols).settle = machine.adoptAll symbols := by
  induction symbols generalizing machine with
  | nil => exact h
  | cons symbol symbols ih => exact ih (settle_adopt h symbol)

@[simp]
theorem options_adoptAll (machine : Machine) (symbols : List Symbol) :
    (machine.adoptAll symbols).options = machine.options := by
  induction symbols generalizing machine with
  | nil => rfl
  | cons symbol symbols ih => exact (ih _).trans (options_adopt ..)

theorem adoptAll_readHeader (machine : Machine) (header : Header) (symbols : List Symbol) :
    (machine.readHeader header).adoptAll symbols =
      (machine.adoptAll symbols).readHeader header := by
  induction symbols generalizing machine with
  | nil => rfl
  | cons symbol symbols ih =>
    unfold adoptAll at ih ⊢
    rw [List.foldl_cons, adopt_readHeader, ih, List.foldl_cons]

/-- Without an open brace all symbols are roots. -/
theorem adoptAll_of_empty (machine : Machine) (h : machine.stack = #[]) (symbols : List Symbol) :
    machine.adoptAll symbols = { machine with roots := machine.roots ++ symbols.toArray } := by
  induction symbols generalizing machine with
  | nil => simp [adoptAll]
  | cons symbol symbols ih =>
    have hadopt : machine.adopt symbol = { machine with roots := machine.roots.push symbol } := by
      unfold adopt
      rw [h]
      rfl
    unfold adoptAll at ih ⊢
    rw [List.foldl_cons, hadopt]
    refine (ih { machine with roots := machine.roots.push symbol } h).trans ?_
    simp

/-! ## The innermost frame -/

/-- The number of open symbols, as the innermost frame has it. -/
def nesting (machine : Machine) : Nat := (machine.stack.back?.map (·.nesting)).getD 0

/-- The frame that takes in a symbol. -/
def owner (machine : Machine) : Option Nat := machine.stack.back?.bind (·.owner)

/-- A symbol changes no more than the symbols of the frames. -/
theorem map_back?_adopt {α : Type} (f : Frame → α)
    (hf : ∀ frame symbol, f (frame.adopt symbol) = f frame) (machine : Machine) (symbol : Symbol) :
    (machine.adopt symbol).stack.back?.map f = machine.stack.back?.map f := by
  unfold adopt
  split
  · rename_i owner _
    dsimp only
    rw [Array.back?_eq_getElem?, Array.back?_eq_getElem?, Array.size_modify, Array.getElem?_modify]
    split
    · rw [Option.map_map]
      exact congrArg (Option.map · _) (funext fun frame => hf frame symbol)
    · rfl
  · rfl

@[simp]
theorem nesting_adopt (machine : Machine) (symbol : Symbol) :
    (machine.adopt symbol).nesting = machine.nesting := by
  unfold nesting
  rw [map_back?_adopt _ fun _ _ => rfl]

@[simp]
theorem owner_adopt (machine : Machine) (symbol : Symbol) :
    (machine.adopt symbol).owner = machine.owner := by
  have h (machine : Machine) :
      machine.owner = (machine.stack.back?.map (·.owner)).join := by
    unfold owner
    cases machine.stack.back? <;> rfl
  rw [h, h, map_back?_adopt _ fun _ _ => rfl]

@[simp]
theorem scope_adopt (machine : Machine) (symbol : Symbol) :
    (machine.adopt symbol).scope = machine.scope := by
  have h (machine : Machine) :
      machine.scope = (machine.stack.back?.map (·.scope)).getD .topLevel := by
    unfold scope
    cases machine.stack.back? <;> rfl
  rw [h, h, map_back?_adopt _ fun _ _ => rfl]

/-! ## A body that takes in symbols -/

/-- The machine with one more open brace. -/
def enter (machine : Machine) (frame : Frame) : Machine :=
  { machine with stack := machine.stack.push frame, phase := .inBody }

theorem push_none (machine : Machine) (scope : Scope) :
    machine.push none scope = machine.enter ⟨none, scope, machine.owner, machine.nesting⟩ := by
  unfold push
  dsimp only
  rw [ite_self]
  rfl

theorem push_some_of_lt {machine : Machine} (h : machine.nesting < maxNesting) (draft : Draft)
    (scope : Scope) :
    machine.push (some draft) scope =
      machine.enter ⟨some draft, scope, some machine.stack.size, machine.nesting + 1⟩ := by
  unfold push
  dsimp only
  rw [if_pos (show (machine.stack.back?.map (·.nesting)).getD 0 < maxNesting from h)]
  rfl

/-- A symbol for which there is no room is no symbol. -/
theorem push_some_of_not_lt {machine : Machine} (h : ¬ machine.nesting < maxNesting)
    (draft : Draft) (scope : Scope) :
    machine.push (some draft) scope = machine.push none scope := by
  unfold push
  dsimp only
  rw [if_neg (show ¬ (machine.stack.back?.map (·.nesting)).getD 0 < maxNesting from h), ite_self]

/-- What is closed was the last to be opened. -/
theorem pop_enter (machine : Machine) (frame : Frame) (stop : Position) :
    (machine.enter frame).pop stop =
      match frame.symbol with
      | some draft => (machine.attach draft stop).settle
      | none => machine.settle := by
  unfold pop enter
  rw [Array.back?_push]
  dsimp only
  rw [Array.pop_push]
  cases frame.symbol with
  | none => rfl
  | some draft =>
    dsimp only
    rw [attach_eq_adopt, attach_eq_adopt, adopt_phase]
    rfl

theorem toList_modify_push (stack : Array Frame) (frame : Frame) (owner : Nat) (f : Frame → Frame) :
    ((stack.push frame).modify owner f).toList = (stack.toList ++ [frame]).modify owner f := by
  rw [Array.toList_modify, Array.toList_push]

/-- A frame with a symbol takes in all symbols itself. -/
theorem adoptAll_enter_some (machine : Machine) (draft : Draft) (scope : Scope) (nesting : Nat)
    (symbols : List Symbol) :
    (machine.enter ⟨some draft, scope, some machine.stack.size, nesting⟩).adoptAll symbols =
      machine.enter ⟨some { draft with children := draft.children ++ symbols.toArray }, scope,
        some machine.stack.size, nesting⟩ := by
  induction symbols generalizing draft with
  | nil => simp [adoptAll]
  | cons symbol symbols ih =>
    have hadopt :
        (machine.enter ⟨some draft, scope, some machine.stack.size, nesting⟩).adopt symbol =
          machine.enter ⟨some (draft.adopt symbol), scope, some machine.stack.size, nesting⟩ := by
      have hstack :
          (machine.stack.push ⟨some draft, scope, some machine.stack.size, nesting⟩).modify
              machine.stack.size (·.adopt symbol) =
            machine.stack.push
              ⟨some (draft.adopt symbol), scope, some machine.stack.size, nesting⟩ := by
        apply Array.ext'
        rw [toList_modify_push, ← Array.length_toList, modify_concat_length, Array.toList_push]
        rfl
      unfold adopt enter
      dsimp only
      rw [Array.back?_push]
      dsimp only [Option.bind_some]
      rw [hstack]
    unfold adoptAll at ih ⊢
    rw [List.foldl_cons, hadopt, ih]
    simp [Draft.adopt]

/-- A frame without a symbol passes all symbols on to the frame that its owner is. -/
theorem adoptAll_enter_none (machine : Machine)
    (h : ∀ owner, machine.owner = some owner → owner < machine.stack.size) (scope : Scope)
    (nesting : Nat) (symbols : List Symbol) :
    (machine.enter ⟨none, scope, machine.owner, nesting⟩).adoptAll symbols =
      (machine.adoptAll symbols).enter ⟨none, scope, machine.owner, nesting⟩ := by
  induction symbols generalizing machine with
  | nil => rfl
  | cons symbol symbols ih =>
    have hadopt : (machine.enter ⟨none, scope, machine.owner, nesting⟩).adopt symbol =
        (machine.adopt symbol).enter ⟨none, scope, machine.owner, nesting⟩ := by
      unfold adopt enter
      dsimp only
      rw [Array.back?_push]
      dsimp only [Option.bind_some]
      rw [show machine.stack.back?.bind (·.owner) = machine.owner from rfl]
      cases howner : machine.owner with
      | none => rfl
      | some owner =>
        have hstack : (machine.stack.push ⟨none, scope, some owner, nesting⟩).modify owner
              (·.adopt symbol) =
            (machine.stack.modify owner (·.adopt symbol)).push
              ⟨none, scope, some owner, nesting⟩ := by
          have hlt := h owner howner
          rw [← Array.length_toList] at hlt
          apply Array.ext'
          rw [toList_modify_push, modify_concat_of_lt _ _ hlt, Array.toList_push,
            Array.toList_modify]
        dsimp only
        rw [hstack]
    unfold adoptAll at ih ⊢
    rw [List.foldl_cons, hadopt]
    have := ih (machine.adopt symbol) (by simpa using h)
    rw [owner_adopt] at this
    exact this

/-! ## Between two declarations -/

/-- The machine stands where a declaration may begin, and its variables are reported. -/
structure Ready (machine : Machine) : Prop where
  settled : machine.settle = machine
  reports : machine.scope ≠ .code
  owner_lt : ∀ owner, machine.owner = some owner → owner < machine.stack.size

theorem ready_start (source : String) (options : Options) : (start source options).Ready := by
  refine ⟨rfl, nofun, ?_⟩
  intro owner h
  cases h

theorem Ready.adopt {machine : Machine} (h : machine.Ready) (symbol : Symbol) :
    (machine.adopt symbol).Ready := by
  refine ⟨settle_adopt h.settled symbol, ?_, ?_⟩
  · rw [scope_adopt]
    exact h.reports
  · simpa using h.owner_lt

theorem settle_push (machine : Machine) (symbol : Option Draft) (scope : Scope) :
    (machine.push symbol scope).settle = machine.push symbol scope := by
  unfold push settle
  dsimp only
  rw [if_neg (by simp)]

/-- There is room for declarations in the body of a container, too. -/
theorem Ready.push {machine : Machine} (h : machine.Ready) (draft : Draft) {scope : Scope}
    (hscope : scope ≠ .code) : (machine.push (some draft) scope).Ready := by
  refine ⟨settle_push .., ?_, ?_⟩
  · by_cases hlt : machine.nesting < maxNesting
    · rw [push_some_of_lt hlt]
      simpa [Machine.scope, enter] using hscope
    · rw [push_some_of_not_lt hlt, push_none]
      simpa [Machine.scope, enter] using hscope
  · intro owner howner
    by_cases hlt : machine.nesting < maxNesting
    · rw [push_some_of_lt hlt] at howner ⊢
      simp only [Machine.owner, enter, Array.back?_push, Option.bind_some,
        Option.some.injEq] at howner
      simp [enter, howner]
    · rw [push_some_of_not_lt hlt, push_none] at howner ⊢
      simp only [Machine.owner, enter, Array.back?_push, Option.bind_some] at howner
      have := h.owner_lt owner howner
      simp only [enter, Array.size_push]
      omega

theorem nesting_push_some (machine : Machine) (draft : Draft) (scope : Scope) :
    (machine.push (some draft) scope).nesting =
      if machine.nesting < maxNesting then machine.nesting + 1 else machine.nesting := by
  split
  · rename_i hlt
    rw [push_some_of_lt hlt]
    simp [nesting, enter]
  · rename_i hge
    rw [push_some_of_not_lt hge, push_none]
    simp [nesting, enter]

theorem pop_push_none {machine : Machine} (h : machine.settle = machine) (scope : Scope)
    (stop : Position) : (machine.push none scope).pop stop = machine := by
  rw [push_none, pop_enter]
  exact h

/-- A body that was opened, has taken in symbols and is closed leaves what the grammar says. -/
theorem pop_adoptAll_push {machine : Machine} (h : machine.Ready) {draft : Draft}
    (hdraft : draft.children = #[]) (scope : Scope) (children : List Symbol) (stop : Position) :
    ((machine.push (some draft) scope).adoptAll children).pop stop =
      machine.adoptAll (symbolsOf machine.options machine.nesting draft stop children) := by
  unfold symbolsOf
  split
  · rename_i hlt
    rw [push_some_of_lt hlt, adoptAll_enter_some, pop_enter]
    dsimp only
    rw [attach_eq_adopt, settle_adopt h.settled, hdraft]
    simp [adoptAll, Draft.finish]
  · rename_i hge
    rw [push_some_of_not_lt hge, push_none, adoptAll_enter_none _ h.owner_lt, pop_enter]
    exact settle_adoptAll h.settled children

end Machine

end CaplOutline.Outline
