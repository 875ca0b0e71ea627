-- The machine that builds an outline. It keeps a stack with one frame for each
-- open brace, and hangs every finished symbol on the innermost frame that has a
-- symbol of its own.
import CaplOutline.Symbol
import CaplOutline.Outline.Header

namespace CaplOutline.Outline

/-- What an outline shows. -/
structure Options where
  /-- Report variables that are declared inside functions and event handlers. -/
  includeLocals : Bool := false
  includeDetails : Bool := true
  deriving DecidableEq, Repr, Inhabited

/-- The most symbols that may be open at once. A body below that many is walked over, and has no
symbol of its own. -/
def maxNesting : Nat := 256

/-! ## Frames -/

/-- An open brace. -/
structure Frame where
  symbol : Option Draft
  scope : Scope
  /-- The index of the innermost frame with a symbol, up to and with this one. So a symbol finds its
  place without a walk down the stack. -/
  owner : Option Nat
  /-- The number of frames with a symbol, up to and with this one. -/
  nesting : Nat

namespace Frame

def adopt (frame : Frame) (child : Symbol) : Frame :=
  { frame with symbol := frame.symbol.map (·.adopt child) }

end Frame

/-! ## The machine -/

/-- Where the machine stands between two tokens. -/
inductive Phase where
  | topLevel
  | inBody
  | inHeader (header : Header)

structure Machine where
  source : String
  options : Options
  phase : Phase
  /-- The open braces, outermost first. -/
  stack : Array Frame
  /-- The finished symbols that no open symbol holds. -/
  roots : Array Symbol
  /-- How often a token was handled. -/
  steps : Nat

namespace Machine

def start (source : String) (options : Options) : Machine :=
  { source, options, phase := .topLevel, stack := #[], roots := #[], steps := 0 }

def scope (machine : Machine) : Scope :=
  match machine.stack.back? with
  | none => .topLevel
  | some frame => frame.scope

/-- Variables that are declared here are reported. -/
def reportsVariables (machine : Machine) : Bool :=
  machine.scope != .code || machine.options.includeLocals

/-- Goes on to read a header. -/
def readHeader (machine : Machine) (header : Header) : Machine :=
  { machine with phase := .inHeader header }

/-- Goes on without a header. -/
def settle (machine : Machine) : Machine :=
  { machine with phase := if machine.stack.isEmpty then .topLevel else .inBody }

/-- Finishes a symbol and hangs it on its owner. It is a root if no frame has a symbol. -/
def attach (machine : Machine) (draft : Draft) (stop : Position) : Machine :=
  let symbol := draft.finish machine.options.includeDetails stop
  match machine.stack.back?.bind (·.owner) with
  | some owner => { machine with stack := machine.stack.modify owner (·.adopt symbol) }
  | none => { machine with roots := machine.roots.push symbol }

/-- Opens a brace. Its symbol is dropped if as many symbols are open as may be. -/
def push (machine : Machine) (symbol : Option Draft) (scope : Scope) : Machine :=
  let top := machine.stack.back?
  let nesting := (top.map (·.nesting)).getD 0
  let symbol := if nesting < maxNesting then symbol else none
  let frame :=
    match symbol with
    | some draft =>
      { symbol := some draft, scope, owner := some machine.stack.size, nesting := nesting + 1 }
    | none => { symbol := none, scope, owner := top.bind (·.owner), nesting }
  { machine with stack := machine.stack.push frame, phase := .inBody }

/-- Closes the innermost brace, and the symbol that it has, at `stop`. Without an open brace nothing
happens. -/
def pop (stop : Position) (machine : Machine) : Machine :=
  match machine.stack.back? with
  | none => machine.settle
  | some frame =>
    let machine := { machine with stack := machine.stack.pop }
    match frame.symbol with
    | some draft => (machine.attach draft stop).settle
    | none => machine.settle

/-- Finishes a symbol that has no body, and goes on behind its header. -/
def close (machine : Machine) (draft : Draft) (stop : Position) : Machine :=
  (machine.attach draft stop).settle

/-- Reports the variable that a list of declarators is at, if there is one. -/
def report (machine : Machine) (list : DeclaratorList) (stop : Position) : Machine :=
  match list.current with
  | some draft =>
    if list.emit then machine.attach { draft with detail := list.typeText } stop else machine
  | none => machine

/-- The first words of a declaration have ended: what they name is its first variable. -/
def readDeclarators (machine : Machine) (header : DeclarationHeader) : Machine :=
  let typeText := header.name.map fun name =>
    detailOf (Text.slice machine.source header.first.span.start name.span.start)
  machine.readHeader <| .declarators
    { current := some (.ofTokens .var header.first header.name)
      typeText
      emit := machine.reportsVariables
      parens := 0
      braces := 0
      afterGroup := false
      last := header.last }

/-! ## What the operations leave alone -/

@[simp]
theorem stack_settle (machine : Machine) : machine.settle.stack = machine.stack := rfl

@[simp]
theorem source_attach (machine : Machine) (draft : Draft) (stop : Position) :
    (machine.attach draft stop).source = machine.source := by
  unfold attach; dsimp only; split <;> rfl

@[simp]
theorem options_attach (machine : Machine) (draft : Draft) (stop : Position) :
    (machine.attach draft stop).options = machine.options := by
  unfold attach; dsimp only; split <;> rfl

@[simp]
theorem phase_attach (machine : Machine) (draft : Draft) (stop : Position) :
    (machine.attach draft stop).phase = machine.phase := by
  unfold attach; dsimp only; split <;> rfl

@[simp]
theorem steps_attach (machine : Machine) (draft : Draft) (stop : Position) :
    (machine.attach draft stop).steps = machine.steps := by
  unfold attach; dsimp only; split <;> rfl

/-- A finished symbol opens and closes no brace. -/
@[simp]
theorem size_stack_attach (machine : Machine) (draft : Draft) (stop : Position) :
    (machine.attach draft stop).stack.size = machine.stack.size := by
  unfold attach; dsimp only; split <;> simp

@[simp]
theorem phase_report (machine : Machine) (list : DeclaratorList) (stop : Position) :
    (machine.report list stop).phase = machine.phase := by
  unfold report
  split
  · split <;> simp
  · rfl

@[simp]
theorem size_stack_report (machine : Machine) (list : DeclaratorList) (stop : Position) :
    (machine.report list stop).stack.size = machine.stack.size := by
  unfold report
  split
  · split <;> simp
  · rfl

@[simp]
theorem size_stack_push (machine : Machine) (symbol : Option Draft) (scope : Scope) :
    (machine.push symbol scope).stack.size = machine.stack.size + 1 := by
  simp [push]

@[simp]
theorem size_stack_pop (machine : Machine) (stop : Position) :
    (machine.pop stop).stack.size = machine.stack.size - 1 := by
  unfold pop
  split
  · rename_i h
    simp_all
  · split <;> simp

end Machine

end CaplOutline.Outline
