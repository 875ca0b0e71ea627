-- How the tokens of a text follow one another. A cursor never goes back, no
-- token is empty, and the depth of a token is the number of braces that are open
-- where it starts.
import CaplOutline.Proofs.Position
import CaplOutline.Token.Cursor

namespace CaplOutline

namespace Cursor

/-! ## Moving on -/

theorem position_le_bump (cursor : Cursor) : cursor.position ≤ cursor.bump.position := by
  unfold bump
  split
  · exact le_refl _
  · exact le_of_lt (Text.lt_advance _ _ _)

theorem position_le_advance (n : Nat) (cursor : Cursor) :
    cursor.position ≤ (cursor.advance n).position := by
  induction n generalizing cursor with
  | zero => exact le_refl _
  | succ n ih => exact le_trans (position_le_bump cursor) (ih cursor.bump)

/-! ## One token -/

/-- What the next token has to do with the cursor before it and the cursor behind it. -/
structure Yields (cursor : Cursor) (token : Token) (cursor' : Cursor) : Prop where
  start_ge : cursor.position ≤ token.range.start
  start_le_stop : token.range.start ≤ token.range.stop
  position_eq : cursor'.position = token.range.stop
  depth_at : token.depth = depthAt cursor.depth token.kind
  depth_after : cursor'.depth = depthAfter cursor.depth token.kind
  text_ne : token.text ≠ ""

theorem yields_of_next {cursor cursor' : Cursor} {token : Token}
    (h : cursor.next = (some token, cursor')) : Yields cursor token cursor' := by
  unfold next at h
  dsimp only at h
  split at h
  · cases h
  · rename_i c cs hrest
    simp only [Prod.mk.injEq, Option.some.injEq] at h
    obtain ⟨rfl, rfl⟩ := h
    refine ⟨position_le_advance _ _, position_le_advance _ _, rfl, by simp, by simp, ?_⟩
    intro htext
    rw [String.ofList_eq_empty_iff, List.take_eq_nil_iff, hrest] at htext
    rcases htext with h | h
    · exact absurd h (Nat.succ_ne_zero _)
    · cases h

/-- At the end of the text the cursor moves over what is left, and no brace opens or closes. -/
theorem stop_of_next {cursor stop : Cursor} (h : cursor.next = (none, stop)) :
    cursor.position ≤ stop.position ∧ stop.depth = cursor.depth := by
  unfold next at h
  dsimp only at h
  split at h
  · cases h
    exact ⟨position_le_advance _ _, by simp⟩
  · cases h

/-! ## All tokens -/

/-- From `cursor` on exactly these tokens are read, one after another, up to `stop`. -/
inductive Reads : Cursor → List Token → Cursor → Prop
  | nil {cursor stop : Cursor} : cursor.next = (none, stop) → Reads cursor [] stop
  | cons {cursor cursor' stop : Cursor} {token : Token} {tokens : List Token} :
      cursor.next = (some token, cursor') → Reads cursor' tokens stop →
      Reads cursor (token :: tokens) stop

theorem reads_drain (cursor : Cursor) :
    Reads cursor (cursor.drain #[]).1.toList (cursor.drain #[]).2 := by
  match h : cursor.next with
  | (none, stop) =>
    rw [drain_of_none _ h]
    exact .nil h
  | (some token, cursor') =>
    have := length_rest_next h
    rw [drain_of_some _ h, drain_eq_append]
    simpa using Reads.cons h (reads_drain cursor')
termination_by cursor.rest.length

theorem reads_scan (text : String) : Reads (ofText text) (Token.ofText text) (Token.scan text).2 :=
  reads_drain (ofText text)

/-- The tokens that are read are fixed by the cursor. -/
theorem Reads.unique {cursor stop stop' : Cursor} {tokens tokens' : List Token}
    (h : cursor.Reads tokens stop) (h' : cursor.Reads tokens' stop') : tokens = tokens' := by
  induction h generalizing tokens' with
  | nil hnext =>
    cases h' with
    | nil _ => rfl
    | cons hnext' _ =>
      rw [hnext] at hnext'
      cases hnext'
  | cons hnext _ ih =>
    cases h' with
    | nil hnext' =>
      rw [hnext] at hnext'
      cases hnext'
    | cons hnext' hreads' =>
      rw [hnext] at hnext'
      cases hnext'
      rw [ih hreads']

theorem Reads.start_le_stop {cursor stop : Cursor} {tokens : List Token}
    (h : Reads cursor tokens stop) {token : Token} (ht : token ∈ tokens) :
    token.range.start ≤ token.range.stop := by
  induction h with
  | nil _ => cases ht
  | cons hnext _ ih =>
    rcases List.mem_cons.1 ht with rfl | ht
    · exact (yields_of_next hnext).start_le_stop
    · exact ih ht

end Cursor

end CaplOutline
