-- The machine never has more braces open than the text. Each brace that is open
-- in the machine is a frame, or is counted in a list of declarators.
import CaplOutline.Proofs.Outline.Run

namespace CaplOutline.Outline

/-- The last brace of a list of declarators is not closed twice. -/
theorem DeclaratorList.braces_pos {list : DeclaratorList} {token : Token}
    (h : list.endsBefore token = false) (hkind : token.kind = .closeBrace) : 0 < list.braces := by
  unfold endsBefore at h
  rw [hkind] at h
  exact Nat.pos_of_ne_zero (by simpa using h)

/-- The braces that are counted in a header. -/
def Header.braces : Header → Nat
  | .declarators list => list.braces
  | _ => 0

namespace Machine

/-- The number of braces that are open in the machine. -/
def openBraces (machine : Machine) : Nat :=
  machine.stack.size +
    match machine.phase with
    | .inHeader header => header.braces
    | _ => 0

variable {machine : Machine} {token : Token} {depth : Nat} {step : Step}

theorem le_depthAfter {kind : TokenKind} (h : kind ≠ .closeBrace) :
    depth ≤ Cursor.depthAfter depth kind := by
  unfold Cursor.depthAfter
  split
  · exact Nat.le_succ depth
  · exact absurd rfl h
  · exact Nat.le_refl depth

@[simp]
theorem openBraces_settle (machine : Machine) : machine.settle.openBraces = machine.stack.size := by
  unfold openBraces settle
  dsimp only
  split
  · rename_i h
    split at h <;> cases h
  · rfl

@[simp]
theorem openBraces_readHeader (machine : Machine) (header : Header) :
    (machine.readHeader header).openBraces = machine.stack.size + header.braces := rfl

@[simp]
theorem openBraces_close (machine : Machine) (draft : Draft) (stop : Position) :
    (machine.close draft stop).openBraces = machine.stack.size := by
  simp [close]

@[simp]
theorem openBraces_push (machine : Machine) (symbol : Option Draft) (scope : Scope) :
    (machine.push symbol scope).openBraces = machine.stack.size + 1 := by
  have hsize := size_stack_push machine symbol scope
  unfold openBraces
  rw [hsize]
  rfl

@[simp]
theorem openBraces_pop (machine : Machine) (stop : Position) :
    (machine.pop stop).openBraces = machine.stack.size - 1 := by
  have hsize := size_stack_pop machine stop
  rw [← settle_pop, openBraces_settle, hsize]

/-! ## One step -/

/-- A step opens no more braces than its token, and closes one if the token does. -/
def Balanced (depth : Nat) (token : Token) (step : Step) : Prop :=
  step.Ends (fun machine => machine.openBraces ≤ depth)
    (fun machine => machine.openBraces ≤ Cursor.depthAfter depth token.kind)

theorem ScanRule.balanced {next : Machine} (hrule : machine.ScanRule token next)
    (h : machine.stack.size ≤ depth) :
    next.openBraces ≤ Cursor.depthAfter depth token.kind := by
  cases hrule with
  | event hkind => exact Nat.le_trans h (le_depthAfter (by simp [hkind]))
  | block hkind =>
    refine Nat.le_trans h (le_depthAfter ?_)
    rcases hkind with hkind | hkind <;> simp [hkind]
  | declaration hopens =>
    refine Nat.le_trans h (le_depthAfter ?_)
    intro hkind
    simp [TokenKind.opensDeclaration, hkind] at hopens
  | opens hkind =>
    rw [openBraces_push, hkind]
    exact Nat.succ_le_succ h
  | closes hkind =>
    rw [openBraces_pop, hkind]
    exact Nat.sub_le_sub_right h 1
  | passes _ _ hclose =>
    rw [openBraces_settle]
    exact Nat.le_trans h (le_depthAfter hclose)

theorem EventRule.balanced {header : EventHeader} (hrule : machine.EventRule header token step)
    (h : machine.stack.size ≤ depth) : Balanced depth token step := by
  cases hrule with
  | body hkind =>
    change (machine.push _ _).openBraces ≤ _
    rw [openBraces_push, hkind]
    exact Nat.succ_le_succ h
  | semicolon hkind =>
    change (machine.close _ _).openBraces ≤ _
    rw [openBraces_close, hkind]
    exact h
  | ends =>
    change (machine.close _ _).openBraces ≤ _
    rw [openBraces_close]
    exact h
  | more _ _ hclose => exact Nat.le_trans h (le_depthAfter hclose)

theorem DeclarationRule.balanced {header : DeclarationHeader}
    (hrule : machine.DeclarationRule header token step) (h : machine.stack.size ≤ depth) :
    Balanced depth token step := by
  cases hrule with
  | var => exact h
  | word _ _ hword => exact Nat.le_trans h (le_depthAfter (kind_ne_brace_of_isWord hword).2)
  | connector hconnector =>
    exact Nat.le_trans h (le_depthAfter (kind_ne_brace_of_isConnector hconnector).2)
  | function hkind => exact Nat.le_trans h (le_depthAfter (by simp [hkind]))
  | aggregate hkind =>
    change (machine.push _ _).openBraces ≤ _
    rw [openBraces_push, hkind]
    exact Nat.succ_le_succ h
  | nothing =>
    change machine.settle.openBraces ≤ _
    rwa [openBraces_settle]

theorem ParametersRule.balanced {list : ParameterList}
    (hrule : machine.ParametersRule list token step) (h : machine.stack.size ≤ depth) :
    Balanced depth token step := by
  cases hrule with
  | opens hkind => exact Nat.le_trans h (le_depthAfter (by simp [hkind]))
  | ends hkind => exact Nat.le_trans h (le_depthAfter (by simp [hkind]))
  | closes hkind => exact Nat.le_trans h (le_depthAfter (by simp [hkind]))
  | cut => exact h
  | takes _ _ hcut => exact Nat.le_trans h (le_depthAfter (by simp_all))

theorem BodyRule.balanced {draft : Draft} {last : Token}
    (hrule : machine.BodyRule draft last token step) (h : machine.stack.size ≤ depth) :
    Balanced depth token step := by
  cases hrule with
  | body hkind =>
    change (machine.push _ _).openBraces ≤ _
    rw [openBraces_push, hkind]
    exact Nat.succ_le_succ h
  | semicolon hkind =>
    change (machine.close _ _).openBraces ≤ _
    rw [openBraces_close, hkind]
    exact h
  | ends =>
    change (machine.close _ _).openBraces ≤ _
    rw [openBraces_close]
    exact h

/-- A list of declarators counts the braces of the tokens that it takes. A closing brace without an
opening one ends it. -/
theorem braces_add_le (list : DeclaratorList) (hclose : token.kind = .closeBrace → 0 < list.braces)
    (h : machine.stack.size + list.braces ≤ depth) :
    machine.stack.size + (list.add token).braces ≤ Cursor.depthAfter depth token.kind := by
  unfold DeclaratorList.add Cursor.depthAfter
  dsimp only
  cases hkind : token.kind with
  | openBrace => dsimp only; omega
  | closeBrace =>
    have := hclose hkind
    dsimp only
    omega
  | _ => exact h

theorem DeclaratorsRule.balanced {list : DeclaratorList}
    (hrule : machine.DeclaratorsRule list token step)
    (h : machine.stack.size + list.braces ≤ depth) : Balanced depth token step := by
  have hsize : machine.stack.size ≤ depth := Nat.le_trans (Nat.le_add_right _ _) h
  cases hrule with
  | semicolon hkind =>
    change (Machine.settle _).openBraces ≤ _
    rw [openBraces_settle, size_stack_report, hkind]
    exact hsize
  | ends =>
    change (Machine.settle _).openBraces ≤ _
    rw [openBraces_settle, size_stack_report]
    exact hsize
  | comma hkind =>
    change (Machine.readHeader _ _).openBraces ≤ _
    rw [openBraces_readHeader, size_stack_report]
    exact braces_add_le { list with current := none } (by simp [hkind]) h
  | name hends =>
    exact braces_add_le { list with current := some _ } (DeclaratorList.braces_pos hends) h
  | takes _ hends => exact braces_add_le list (DeclaratorList.braces_pos hends) h

theorem Rule.balanced (hrule : machine.Rule token step) (h : machine.openBraces ≤ depth) :
    Balanced depth token step := by
  have hsize : machine.stack.size ≤ depth := Nat.le_trans (Nat.le_add_right _ _) h
  cases hrule with
  | scan _ hrule => exact hrule.balanced hsize
  | event _ hrule => exact hrule.balanced hsize
  | declaration _ hrule => exact hrule.balanced hsize
  | parameters _ hrule => exact hrule.balanced hsize
  | body _ hrule => exact hrule.balanced hsize
  | declarators hphase hrule =>
    refine hrule.balanced ?_
    unfold openBraces at h
    rwa [hphase] at h

theorem balanced_step (h : machine.openBraces ≤ depth) :
    Balanced depth token (machine.step token) :=
  (machine.step_rule token).balanced h

/-- No more symbols are open than braces. -/
theorem length_drafts_le_openBraces (machine : Machine) :
    machine.spine.drafts.length ≤ machine.openBraces := by
  have hsize : machine.frames.length = machine.stack.size := by simp [frames]
  calc machine.spine.drafts.length
    _ ≤ machine.frames.length := List.length_filterMap_le _ _
    _ = machine.stack.size := hsize
    _ ≤ machine.openBraces := Nat.le_add_right _ _

end Machine

end CaplOutline.Outline
