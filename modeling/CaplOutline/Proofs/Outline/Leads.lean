-- Where a run of tokens leads the machine. The count of steps is left out of it,
-- since no step reads the count. So two runs, one behind the other, lead where the
-- second one leads from where the first one does.
import CaplOutline.Outline.Extract

namespace CaplOutline.Outline

/-! ## The count is never read -/

namespace Machine

/-- The machine with another count of steps. -/
def counting (machine : Machine) (steps : Nat) : Machine := { machine with steps }

theorem settle_counting (machine : Machine) (steps : Nat) :
    (machine.counting steps).settle = machine.settle.counting steps := rfl

theorem readHeader_counting (machine : Machine) (steps : Nat) (header : Header) :
    (machine.counting steps).readHeader header = (machine.readHeader header).counting steps := rfl

theorem attach_counting (machine : Machine) (steps : Nat) (draft : Draft) (stop : Position) :
    (machine.counting steps).attach draft stop = (machine.attach draft stop).counting steps := by
  unfold attach counting
  dsimp only
  split <;> rfl

theorem close_counting (machine : Machine) (steps : Nat) (draft : Draft) (stop : Position) :
    (machine.counting steps).close draft stop = (machine.close draft stop).counting steps := by
  unfold close
  rw [attach_counting]
  rfl

theorem report_counting (machine : Machine) (steps : Nat) (list : DeclaratorList)
    (stop : Position) :
    (machine.counting steps).report list stop = (machine.report list stop).counting steps := by
  unfold report
  split
  · split
    · exact attach_counting ..
    · rfl
  · rfl

theorem pop_counting (machine : Machine) (steps : Nat) (stop : Position) :
    (machine.counting steps).pop stop = (machine.pop stop).counting steps := by
  unfold pop
  rw [show (machine.counting steps).stack = machine.stack from rfl]
  split
  · rfl
  · rename_i frame _
    dsimp only
    cases frame.symbol with
    | none => rfl
    | some draft => exact close_counting { machine with stack := machine.stack.pop } ..

end Machine

/-- The step to a machine with another count of steps. -/
def Step.counting (steps : Nat) : Step → Step
  | consumed machine => .consumed (machine.counting steps)
  | retry machine => .retry (machine.counting steps)

namespace Machine

variable {machine next : Machine} {token last : Token} {step : Step}

theorem ScanRule.counting (h : machine.ScanRule token next) (steps : Nat) :
    (machine.counting steps).ScanRule token (next.counting steps) := by
  cases h with
  | event hkind => exact .event hkind
  | block hkind => exact .block hkind
  | declaration hopens => exact .declaration hopens
  | opens hkind => exact .opens hkind
  | closes hkind =>
    rw [← pop_counting]
    exact .closes hkind
  | passes hword hopen hclose => exact .passes hword hopen hclose

theorem EventRule.counting {header : EventHeader} (h : machine.EventRule header token step)
    (steps : Nat) : (machine.counting steps).EventRule header token (step.counting steps) := by
  cases h with
  | body hkind => exact .body hkind
  | semicolon hkind =>
    rw [Step.counting, ← close_counting]
    exact .semicolon hkind
  | ends hopen hsemicolon hends =>
    rw [Step.counting, ← close_counting]
    exact .ends hopen hsemicolon hends
  | more hopen hsemicolon hclose hblock hline => exact .more hopen hsemicolon hclose hblock hline

theorem DeclarationRule.counting {header : DeclarationHeader}
    (h : machine.DeclarationRule header token step) (steps : Nat) :
    (machine.counting steps).DeclarationRule header token (step.counting steps) := by
  cases h with
  | var hdeclarator hends => exact .var hdeclarator hends
  | word hends hblock hword => exact .word hends hblock hword
  | connector hconnector => exact .connector hconnector
  | function hkind hwords => exact .function hkind hwords
  | aggregate hkind haggregate => exact .aggregate hkind haggregate
  | nothing hends hnothing => exact .nothing hends hnothing

theorem ParametersRule.counting {list : ParameterList} (h : machine.ParametersRule list token step)
    (steps : Nat) : (machine.counting steps).ParametersRule list token (step.counting steps) := by
  cases h with
  | opens hkind => exact .opens hkind
  | ends hkind hparens => exact .ends hkind hparens
  | closes hkind hparens => exact .closes hkind hparens
  | cut hkind => exact .cut hkind
  | takes hopen hclose hcut => exact .takes hopen hclose hcut

theorem BodyRule.counting {draft : Draft} (h : machine.BodyRule draft last token step)
    (steps : Nat) : (machine.counting steps).BodyRule draft last token (step.counting steps) := by
  cases h with
  | body hkind => exact .body hkind
  | semicolon hkind =>
    rw [Step.counting, ← close_counting]
    exact .semicolon hkind
  | ends hopen hsemicolon =>
    rw [Step.counting, ← close_counting]
    exact .ends hopen hsemicolon

theorem DeclaratorsRule.counting {list : DeclaratorList}
    (h : machine.DeclaratorsRule list token step) (steps : Nat) :
    (machine.counting steps).DeclaratorsRule list token (step.counting steps) := by
  cases h with
  | semicolon hkind =>
    rw [Step.counting, ← settle_counting, ← report_counting]
    exact .semicolon hkind
  | ends hends =>
    rw [Step.counting, ← settle_counting, ← report_counting]
    exact .ends hends
  | comma hkind htop =>
    rw [Step.counting, ← readHeader_counting, ← report_counting]
    exact .comma hkind htop
  | name hends htop hcurrent hword => exact .name hends htop hcurrent hword
  | takes hsemicolon hends hcomma hname => exact .takes hsemicolon hends hcomma hname

/-- No rule reads the count of steps. -/
theorem Rule.counting (h : machine.Rule token step) (steps : Nat) :
    (machine.counting steps).Rule token (step.counting steps) := by
  cases h with
  | scan hphase hrule => exact .scan hphase (hrule.counting steps)
  | event hphase hrule => exact .event hphase (hrule.counting steps)
  | declaration hphase hrule => exact .declaration hphase (hrule.counting steps)
  | parameters hphase hrule => exact .parameters hphase (hrule.counting steps)
  | body hphase hrule => exact .body hphase (hrule.counting steps)
  | declarators hphase hrule => exact .declarators hphase (hrule.counting steps)

theorem step_counting (machine : Machine) (steps : Nat) (token : Token) :
    (machine.counting steps).step token = (machine.handle token).counting (steps + 1) :=
  handle_eq_iff.2 ((machine.handle_rule token).counting (steps + 1))

end Machine

/-! ## Where tokens lead -/

/-- The tokens lead from one machine to another, but for the count of steps. -/
inductive Leads : Machine → List Token → Machine → Prop
  | nowhere (machine : Machine) : Leads machine [] machine
  | consumed {machine machine' last : Machine} {token : Token} {tokens : List Token} :
      machine.handle token = .consumed machine' → Leads machine' tokens last →
      Leads machine (token :: tokens) last
  | retry {machine machine' last : Machine} {token : Token} {tokens : List Token} :
      machine.handle token = .retry machine' → Leads machine' (token :: tokens) last →
      Leads machine (token :: tokens) last

namespace Leads

theorem one {machine machine' : Machine} {token : Token}
    (h : machine.handle token = .consumed machine') : Leads machine [token] machine' :=
  .consumed h (.nowhere machine')

theorem trans {machine between last : Machine} {tokens tokens' : List Token}
    (h : Leads machine tokens between) (h' : Leads between tokens' last) :
    Leads machine (tokens ++ tokens') last := by
  induction h with
  | nowhere => exact h'
  | consumed hstep _ ih => exact .consumed hstep (ih h')
  | retry hstep _ ih => exact .retry hstep (ih h')

/-- The machine goes where the tokens lead, whatever it has counted before. -/
theorem foldl_feed {machine last : Machine} {tokens : List Token} (h : Leads machine tokens last) :
    ∀ steps, ∃ steps',
      tokens.foldl Machine.feed (machine.counting steps) = last.counting steps' := by
  induction h with
  | nowhere => exact fun steps => ⟨steps, rfl⟩
  | consumed hstep _ ih =>
    intro steps
    rw [List.foldl_cons, Machine.feed_of_consumed]
    · exact ih (steps + 1)
    · rw [Machine.step_counting, hstep]
      rfl
  | retry hstep _ ih =>
    intro steps
    rw [List.foldl_cons, Machine.feed_of_retry]
    · exact ih (steps + 1)
    · rw [Machine.step_counting, hstep]
      rfl

end Leads

end CaplOutline.Outline
