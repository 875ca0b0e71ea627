-- The machine at each place of a text. The place where a token starts fixes all tokens
-- before it, and so the machine that reads it. A property of a run can be carried from
-- token to token, with all that is known of each token where it stands.
import Mathlib.Data.List.Induction
import CaplOutline.Proofs.Token.Words
import CaplOutline.Proofs.Outline.Braces
import CaplOutline.Proofs.Outline.Regular

namespace CaplOutline.Outline

namespace Machine

variable {source : String} {options : Options} {seen after : List Token} {token : Token}

/-! ## From token to token -/

theorem run_concat (source : String) (options : Options) (seen : List Token) (token : Token) :
    run source options (seen ++ [token]) = (run source options seen).feed token :=
  List.foldl_concat ..

/-- What holds at the start, and is kept by each token where it stands in the text, holds at every
place. -/
theorem run_induction {P : List Token → Machine → Prop} (hstart : P [] (start source options))
    (hfeed : ∀ seen token after, Token.ofText source = seen ++ token :: after →
      P seen (run source options seen) →
      P (seen ++ [token]) ((run source options seen).feed token))
    (h : Token.ofText source = seen ++ after) : P seen (run source options seen) := by
  induction seen using List.reverseRecOn generalizing after with
  | nil => exact hstart
  | append_singleton seen token ih =>
    rw [List.append_assoc] at h
    rw [run_concat]
    exact hfeed seen token after h (ih h)

theorem regular_run (source : String) (options : Options) (seen : List Token) :
    (run source options seen).Regular := by
  induction seen using List.reverseRecOn with
  | nil => exact regular_start source options
  | append_singleton seen token ih =>
    rw [run_concat]
    exact feed_ends (fun _ h => regular_step h token) ih

/-! ## Room for a body -/

theorem openBraces_foldl_le {cursor stop : Cursor} {machine : Machine}
    (hreads : cursor.Reads (seen ++ token :: after) stop)
    (h : machine.openBraces ≤ cursor.depth) (hopen : token.kind = .openBrace) :
    (seen.foldl feed machine).openBraces ≤ token.depth := by
  induction seen generalizing cursor machine with
  | nil =>
    cases hreads with
    | cons hnext _ =>
      rw [(Cursor.yields_of_next hnext).depth_at, hopen]
      exact h
  | cons first seen ih =>
    cases hreads with
    | cons hnext hreads =>
      refine ih hreads ?_
      rw [(Cursor.yields_of_next hnext).depth_after]
      exact feed_ends (fun _ h => balanced_step h) h

/-- If the token opens a brace, no more braces are open in the machine than the text has open. -/
def HasRoom (token : Token) (machine : Machine) : Prop :=
  token.kind = .openBrace → machine.openBraces ≤ token.depth

theorem hasRoom_run (options : Options) (h : Token.ofText source = seen ++ token :: after) :
    (run source options seen).HasRoom token := by
  intro hopen
  have hreads := Cursor.reads_scan source
  rw [h] at hreads
  exact openBraces_foldl_le hreads (Nat.zero_le _) hopen

/-- A token that is handled again still has its room. -/
theorem HasRoom.retry {machine machine' : Machine} (h : machine.HasRoom token)
    (hstep : machine.step token = .retry machine') : machine'.HasRoom token := by
  intro hopen
  have hbalanced : Balanced token.depth token (machine.step token) := balanced_step (h hopen)
  rwa [hstep] at hbalanced

/-- There is room for the symbol of a brace that is not below the levels of an outline. -/
theorem HasRoom.length_drafts_lt {machine : Machine} (h : machine.HasRoom token)
    (hdepth : token.depth < maxNesting) (hopen : token.kind = .openBrace) :
    machine.spine.drafts.length < maxNesting := by
  calc machine.spine.drafts.length
    _ ≤ machine.openBraces := length_drafts_le_openBraces machine
    _ ≤ token.depth := h hopen
    _ < maxNesting := hdepth

/-! ## Places -/

/-- The machine behind all tokens that start before a place of the text. -/
def before (source : String) (options : Options) (place : Position) : Machine :=
  run source options ((Token.ofText source).takeWhile (·.range.start < place))

/-- The tokens that start before a token are those that stand before it. -/
theorem before_start (options : Options) (h : Token.ofText source = seen ++ token :: after) :
    before source options token.range.start = run source options seen := by
  have hseen : ∀ other ∈ seen, decide (other.range.start < token.range.start) = true := by
    intro other hmem
    have hpairs := Token.pairwise_ofText source
    rw [h, List.pairwise_append] at hpairs
    have hstands : other.StandsIn source := Token.standsIn_of_mem (by rw [h]; simp [hmem])
    exact decide_eq_true
      (lt_of_lt_of_le hstands.start_lt_stop (hpairs.2.2 other hmem token (by simp)))
  unfold before
  rw [h, List.takeWhile_append_of_pos hseen, List.takeWhile_cons_of_neg (by simp),
    List.append_nil]

end Machine

end CaplOutline.Outline
