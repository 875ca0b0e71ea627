-- What an outline costs. A token is handled at most three times, since each time that it is
-- given back the header is nearer to its end. Every symbol has a token of its own to be
-- selected by, so there are no more symbols than there are names, and what they say is not
-- much longer than the text.
import Mathlib.Algebra.Order.BigOperators.Group.List
import Mathlib.Algebra.Order.Ring.Nat
import CaplOutline.Proofs.Outline.Bodies
import CaplOutline.Proofs.Outline.Leads
import CaplOutline.Proofs.Outline.Origins

namespace CaplOutline

/-- The bytes that a symbol adds to a listing: its name, its detail and a line break. -/
def Symbol.listedSize (symbol : Symbol) : Nat :=
  1 + symbol.name.utf8ByteSize + (symbol.detail.getD "").utf8ByteSize

/-- Names are words, or the star that stands for all events. -/
def Token.mayName (token : Token) : Bool := token.isWord || token.text == "*"

namespace Outline

/-! ## Work -/

namespace Machine

/-- A token is handled `times` times: each time but the last it is given back. -/
inductive Handles (token : Token) : Nat → Machine → Machine → Prop
  | once {machine machine' : Machine} :
      machine.step token = .consumed machine' → Handles token 1 machine machine'
  | again {times : Nat} {machine between machine' : Machine} :
      machine.step token = .retry between → Handles token times between machine' →
      Handles token (times + 1) machine machine'

variable {machine machine' : Machine} {token : Token}

theorem handles_feed (machine : Machine) (token : Token) :
    ∃ times, times ≤ machine.phase.rank + 1 ∧ Handles token times machine (machine.feed token) := by
  match hs : machine.step token with
  | .consumed machine' =>
    rw [feed_of_consumed hs]
    exact ⟨1, Nat.le_add_left 1 _, .once hs⟩
  | .retry machine' =>
    have hrank := rank_lt_of_retry hs
    obtain ⟨times, hle, hhandles⟩ := handles_feed machine' token
    rw [feed_of_retry hs]
    exact ⟨times + 1, by omega, .again hs hhandles⟩
termination_by machine.phase.rank

theorem rank_le_two (phase : Phase) : phase.rank ≤ 2 := by
  unfold Phase.rank
  split <;> omega

/-! ## The count of steps -/

/-- One handling is one step. -/
theorem steps_step (machine : Machine) (token : Token) :
    (machine.step token).Ends (·.steps = machine.steps + 1) (·.steps = machine.steps + 1) := by
  have hcounting : machine.step token = (machine.handle token).counting (machine.steps + 1) :=
    machine.step_counting machine.steps token
  rw [hcounting]
  cases machine.handle token <;> rfl

theorem Handles.steps_eq {times : Nat} (h : Handles token times machine machine') :
    machine'.steps = machine.steps + times := by
  induction h with
  | @once machine _ hs =>
    have hstep := steps_step machine token
    rw [hs] at hstep
    exact hstep
  | @again _ machine _ _ hs _ ih =>
    have hstep := steps_step machine token
    rw [hs] at hstep
    change _ = _ at hstep
    omega

theorem steps_foldl_feed_le (tokens : List Token) (machine : Machine) :
    (tokens.foldl feed machine).steps ≤ machine.steps + 3 * tokens.length := by
  induction tokens generalizing machine with
  | nil => exact Nat.le_refl _
  | cons token tokens ih =>
    obtain ⟨times, hle, hhandles⟩ := handles_feed machine token
    have hrank := rank_le_two machine.phase
    have hsteps := hhandles.steps_eq
    have hrest := ih (machine.feed token)
    rw [List.foldl_cons, List.length_cons]
    omega

theorem steps_report (machine : Machine) (list : DeclaratorList) (stop : Position) :
    (machine.report list stop).steps = machine.steps := by
  unfold report
  split
  · split
    · exact steps_attach ..
    · rfl
  · rfl

theorem steps_pop (machine : Machine) (stop : Position) :
    (machine.pop stop).steps = machine.steps := by
  have hcounting := congrArg Machine.steps (pop_counting machine machine.steps stop)
  exact hcounting

theorem EndRule.steps_eq {machine next : Machine} (hrule : machine.EndRule next) :
    next.steps = machine.steps := by
  cases hrule with
  | outside | word | hidden => rfl
  | event | function | var | parameters | body => exact steps_attach ..
  | declarators => exact steps_report ..

theorem steps_endHeader (machine : Machine) : machine.endHeader.steps = machine.steps :=
  machine.end_rule.steps_eq

/-- The end of the text handles no token. -/
theorem steps_finish (machine : Machine) (stop : Position) :
    (machine.finish stop).steps = machine.steps := by
  have hpops : ∀ n,
      (Nat.repeat (pop stop) n machine.endHeader).steps = machine.endHeader.steps := by
    intro n
    induction n with
    | zero => rfl
    | succ n ih => rw [Nat.repeat, steps_pop, ih]
  exact (hpops _).trans (steps_endHeader machine)

end Machine

/-! ## Output -/

variable {source : String} {options : Options}

/-- The entry can be named by this token, and is not much longer. -/
structure Listed (entry : Nat × Symbol) (name : Token) : Prop where
  mayName : name.mayName = true
  size_le : entry.2.listedSize ≤ name.text.utf8ByteSize + 133

theorem sum_listedSize_le {entries : List (Nat × Symbol)} {names : List Token}
    (h : List.Forall₂ Listed entries names) :
    (entries.map (·.2.listedSize)).sum ≤
      (names.map (·.text.utf8ByteSize)).sum + 133 * entries.length := by
  induction h with
  | nil => exact Nat.le_refl _
  | cons hlisted _ ih =>
    have hsize := hlisted.size_le
    simp only [List.map_cons, List.sum_cons, List.length_cons]
    omega

theorem mayName_of_listed {entries : List (Nat × Symbol)} {names : List Token}
    (h : List.Forall₂ Listed entries names) : ∀ name ∈ names, name.mayName = true := by
  induction h with
  | nil => exact nofun
  | cons hlisted _ ih => exact List.forall_mem_cons.2 ⟨hlisted.mayName, ih⟩

/-- The token that a symbol is selected by lists it. -/
theorem exists_listed {entry : Nat × Symbol} (hmem : entry ∈ (extract source options).levels) :
    ∃ name ∈ Token.ofText source, entry.2.selection = name.range ∧ Listed entry name := by
  have hdetail : (entry.2.detail.getD "").utf8ByteSize ≤ 123 := by
    have hfits := (isExplained_extract source options entry hmem).fits
    cases hshown : entry.2.detail with
    | none => exact Nat.zero_le _
    | some detail => exact hfits detail hshown
  obtain ⟨before, name, after, htokens, ⟨hselection, first, -, -, -, hname⟩, -⟩ :=
    Everywhere.of_mem_listAllFrom (tells_extract source options).all.roots hmem
  refine ⟨name, by simp [htokens], hselection, ?_, ?_⟩
  · rcases hname with ⟨-, hword⟩ | ⟨-, -, rfl, hfirst⟩
    · simpa [Token.mayName] using hword
    · simp only [List.mem_cons, List.not_mem_nil, or_false] at hfirst
      rcases hfirst with hkind | hkind | hkind <;>
        simp [Token.mayName, Token.isWord, TokenKind.isWord, hkind]
  · unfold Symbol.listedSize
    rcases hname with ⟨htext, -⟩ | ⟨hnone, -⟩
    · change entry.2.name = name.text at htext
      rw [htext]
      omega
    · change entry.2.name = unnamed at hnone
      have hunnamed : unnamed.utf8ByteSize = 9 := rfl
      rw [hnone, hunnamed]
      omega

/-- Each symbol is listed with a token of its own that it is selected by, in the order of the
text. -/
theorem exists_names (source : String) (options : Options) :
    ∃ names, names.Sublist (Token.ofText source) ∧
      List.Forall₂ Listed (extract source options).levels names := by
  obtain ⟨names, hnames, hselections⟩ :=
    List.sublist_map_iff.1 (tells_extract source options).levels
  have hlength := congrArg List.length hselections
  rw [List.length_map, List.length_map] at hlength
  refine ⟨names, hnames, List.forall₂_iff_get.2 ⟨hlength, ?_⟩⟩
  intro i hi hi'
  have hselection : ((extract source options).levels.get ⟨i, hi⟩).2.selection =
      (names.get ⟨i, hi'⟩).range := by
    have hget := congrArg (·[i]?) hselections
    simpa [hi, hi'] using hget
  obtain ⟨name, hmem, hname, hentry⟩ := exists_listed (List.get_mem _ ⟨i, hi⟩)
  have heq : names.get ⟨i, hi'⟩ = name :=
    List.inj_on_of_nodup_map (Token.nodup_ranges source) (hnames.subset (List.get_mem _ _)) hmem
      (hselection.symm.trans hname)
  rw [heq]
  exact hentry

/-! ## The laws -/

/-- Every token is handled at most three times, and so the count of steps is at most three times the
number of tokens. An outline has no more symbols than its text has words and stars. All names and
details of an outline, with one byte for each symbol, are no longer than the text and 133 bytes for
each symbol. -/
theorem work_and_output_are_linear (source : String) (options : Options) :
    (∀ (machine : Machine) (token : Token),
      ∃ times, times ≤ 3 ∧ Machine.Handles token times machine (machine.feed token)) ∧
    ((Machine.run source options (Token.ofText source)).finish
      (Token.scan source).2.position).steps ≤ 3 * (Token.ofText source).length ∧
    (extract source options).levels.length ≤
      ((Token.ofText source).filter Token.mayName).length ∧
    ((extract source options).levels.map (·.2.listedSize)).sum ≤
      source.utf8ByteSize + 133 * (extract source options).levels.length := by
  obtain ⟨names, hnames, hlisted⟩ := exists_names source options
  refine ⟨?_, ?_, ?_, ?_⟩
  · intro machine token
    obtain ⟨times, hle, hhandles⟩ := Machine.handles_feed machine token
    exact ⟨times, Nat.le_trans hle (Nat.succ_le_succ (Machine.rank_le_two _)), hhandles⟩
  · rw [Machine.steps_finish]
    have hsteps := Machine.steps_foldl_feed_le (Token.ofText source) (.start source options)
    change _ ≤ 0 + _ at hsteps
    rwa [Nat.zero_add] at hsteps
  · have hall : names.filter Token.mayName = names :=
      List.filter_eq_self.2 (mayName_of_listed hlisted)
    rw [hlisted.length_eq, ← hall]
    exact (hnames.filter _).length_le
  · have hbytes : (names.map (·.text.utf8ByteSize)).sum ≤ source.utf8ByteSize :=
      Nat.le_trans ((hnames.map _).sum_le_sum fun _ _ => Nat.zero_le _)
        (Token.size_ofText_le source)
    have hsizes := sum_listedSize_le hlisted
    omega

end Outline

end CaplOutline
