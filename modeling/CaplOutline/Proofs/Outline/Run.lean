-- How a property of the machine is carried through a whole text. It is enough to
-- look at one handling of one token: the rest is the same for every property, and
-- is done here once.
import CaplOutline.Proofs.Token.Reading
import CaplOutline.Proofs.Outline.Spine

namespace CaplOutline.Outline

/-! ## One token -/

/-- Where a step ends: the token is used up and `consumed` holds, or it is handled again and
`retry` holds. -/
def Step.Ends (retry consumed : Machine → Prop) : Step → Prop
  | .consumed machine => consumed machine
  | .retry machine => retry machine

/-- Where two steps end: both use their token up and `consumed` holds, or both have to handle it
again and `retry` holds. -/
inductive Step.Pairs (retry consumed : Machine → Machine → Prop) : Step → Step → Prop
  | consumed {machine machine' : Machine} :
      consumed machine machine' → Pairs retry consumed (.consumed machine) (.consumed machine')
  | retry {machine machine' : Machine} :
      retry machine machine' → Pairs retry consumed (.retry machine) (.retry machine')

/-- What is known of the first of two steps by itself is known of both. -/
theorem Step.Pairs.and_ends {retry consumed : Machine → Machine → Prop}
    {retry' consumed' : Machine → Prop} {step step' : Step}
    (h : Step.Pairs retry consumed step step') (hends : step.Ends retry' consumed') :
    Step.Pairs (fun machine machine' => retry machine machine' ∧ retry' machine)
      (fun machine machine' => consumed machine machine' ∧ consumed' machine) step step' := by
  cases h with
  | consumed hpair => exact .consumed ⟨hpair, hends⟩
  | retry hpair => exact .retry ⟨hpair, hends⟩

namespace Machine

/-- What every handling of a token keeps until it uses it up is there when the token is used up. -/
theorem feed_ends {P Q : Machine → Prop} {token : Token}
    (h : ∀ machine, P machine → (machine.step token).Ends P Q) {machine : Machine}
    (hP : P machine) : Q (machine.feed token) := by
  have hstep := h machine hP
  match hs : machine.step token with
  | .consumed machine' =>
    rw [hs] at hstep
    rw [feed_of_consumed hs]
    exact hstep
  | .retry machine' =>
    have := rank_lt_of_retry hs
    rw [hs] at hstep
    rw [feed_of_retry hs]
    exact feed_ends h hstep
termination_by machine.phase.rank

/-- Two machines that handle their tokens alike do so as often as each other. -/
theorem feed_pairs {R Q : Machine → Machine → Prop} {token token' : Token}
    (h : ∀ machine machine', R machine machine' →
      Step.Pairs R Q (machine.step token) (machine'.step token'))
    {machine machine' : Machine} (hR : R machine machine') :
    Q (machine.feed token) (machine'.feed token') := by
  have hsteps := h machine machine' hR
  cases hs : machine.step token with
  | consumed next =>
    cases hs' : machine'.step token' with
    | consumed next' =>
      rw [hs, hs'] at hsteps
      rw [feed_of_consumed hs, feed_of_consumed hs']
      cases hsteps with
      | consumed hnext => exact hnext
    | retry next' =>
      rw [hs, hs'] at hsteps
      cases hsteps
  | retry next =>
    cases hs' : machine'.step token' with
    | consumed next' =>
      rw [hs, hs'] at hsteps
      cases hsteps
    | retry next' =>
      have := rank_lt_of_retry hs
      rw [hs, hs'] at hsteps
      rw [feed_of_retry hs, feed_of_retry hs']
      cases hsteps with
      | retry hnext => exact feed_pairs h hnext
termination_by machine.phase.rank

/-! ## All tokens -/

theorem foldl_feed_invariant {P : List Token → Cursor → Machine → Prop}
    (hfeed : ∀ seen cursor token cursor' machine, cursor.Yields token cursor' →
      P seen cursor machine → P (seen ++ [token]) cursor' (machine.feed token))
    {seen tokens : List Token} {cursor stop : Cursor} {machine : Machine}
    (hreads : cursor.Reads tokens stop) (hP : P seen cursor machine) :
    ∃ last, last.position ≤ stop.position ∧ last.depth = stop.depth ∧
      P (seen ++ tokens) last (tokens.foldl feed machine) := by
  induction hreads generalizing seen machine with
  | nil hnext =>
    obtain ⟨hle, hdepth⟩ := Cursor.stop_of_next hnext
    exact ⟨_, hle, hdepth.symm, by simpa using hP⟩
  | cons hnext _ ih =>
    obtain ⟨last, hle, hdepth, hlast⟩ := ih (hfeed _ _ _ _ _ (Cursor.yields_of_next hnext) hP)
    exact ⟨last, hle, hdepth, by simpa using hlast⟩

/-- What holds at the start and is kept by every token holds behind the last token. -/
theorem run_invariant {P : List Token → Cursor → Machine → Prop} (source : String)
    (options : Options)
    (hfeed : ∀ seen cursor token cursor' machine, cursor.Yields token cursor' →
      P seen cursor machine → P (seen ++ [token]) cursor' (machine.feed token))
    (hstart : P [] (Cursor.ofText source) (start source options)) :
    ∃ last, last.position ≤ (Token.scan source).2.position ∧
      last.depth = (Token.scan source).2.depth ∧
      P (Token.ofText source) last (run source options (Token.ofText source)) :=
  foldl_feed_invariant hfeed (Cursor.reads_scan source) hstart

/-! ## The end of the text -/

@[simp]
theorem options_pop (stop : Position) (machine : Machine) :
    (machine.pop stop).options = machine.options := by
  rw [pop_eq]
  split
  · rfl
  · split
    · rfl
    · exact options_attach _ _ _

@[simp]
theorem source_pop (stop : Position) (machine : Machine) :
    (machine.pop stop).source = machine.source := by
  rw [pop_eq]
  split
  · rfl
  · split
    · rfl
    · exact source_attach _ _ _

theorem stacked_repeat_pop {machine : Machine} (h : Stacked machine.frames) (stop : Position)
    (n : Nat) : Stacked (Nat.repeat (pop stop) n machine).frames := by
  induction n with
  | zero => exact h
  | succ n ih => exact stacked_pop ih stop

/-- Closing braces without end leave no symbol open. -/
theorem repeat_pop_invariant {P : Spine → Prop} {machine : Machine} {stop : Position}
    (hpop : ∀ spine, P spine → P (spine.pop machine.options.includeDetails stop)) (n : Nat)
    (hstacked : Stacked machine.frames) (hP : P machine.spine) :
    (Nat.repeat (pop stop) n machine).frames.length = machine.frames.length - n ∧
      P (Nat.repeat (pop stop) n machine).spine := by
  suffices h : (Nat.repeat (pop stop) n machine).options = machine.options ∧
      (Nat.repeat (pop stop) n machine).frames.length = machine.frames.length - n ∧
      P (Nat.repeat (pop stop) n machine).spine from h.2
  induction n with
  | zero => exact ⟨rfl, rfl, hP⟩
  | succ n ih =>
    obtain ⟨hoptions, hlength, hP'⟩ := ih
    simp only [Nat.repeat]
    refine ⟨(options_pop _ _).trans hoptions, ?_, ?_⟩
    · have hsize := size_stack_pop (Nat.repeat (pop stop) n machine) stop
      simp only [frames, List.length_reverse, Array.length_toList] at hlength ⊢
      omega
    · rcases spine_pop (stacked_repeat_pop hstacked stop n) stop with h | h
      · rw [h]
        exact hP'
      · rw [h, hoptions]
        exact hpop _ hP'

/-- At the end of a text all symbols are closed, and the finished roots are all that is left. -/
theorem finish_invariant {P : Spine → Prop} {machine : Machine} (stop : Position)
    (hpop : ∀ spine, P spine → P (spine.pop machine.endHeader.options.includeDetails stop))
    (hstacked : Stacked machine.endHeader.frames) (hP : P machine.endHeader.spine) :
    P ⟨(machine.finish stop).roots.toList, []⟩ := by
  obtain ⟨hlength, hspine⟩ := repeat_pop_invariant hpop machine.endHeader.stack.size hstacked hP
  have hnil : (machine.finish stop).frames = [] := by
    rw [← List.length_eq_zero_iff]
    refine Eq.trans hlength ?_
    simp [frames]
  have hfinish : (machine.finish stop).spine = ⟨(machine.finish stop).roots.toList, []⟩ := by
    unfold spine
    rw [hnil]
    rfl
  rw [← hfinish]
  exact hspine

end Machine

end CaplOutline.Outline
