-- The outline of a source text: the machine is fed all its tokens, and then all
-- that is still open is closed. Every text has an outline.
import CaplOutline.Outline.Rules
import CaplOutline.Token.Cursor

namespace CaplOutline.Outline

/-! ## A token is handled until it is used up -/

/-- How far a header is from its end. A token that is handled again meets a smaller rank. -/
def Phase.rank : Phase → Nat
  | topLevel | inBody => 0
  | inHeader (.event _) | inHeader (.awaitBody _ _) | inHeader (.declarators _) => 1
  | inHeader (.declaration _) | inHeader (.parameters _) => 2

namespace Machine

theorem rank_settle (machine : Machine) : machine.settle.phase.rank = 0 := by
  unfold settle; dsimp only; split <;> rfl

/-- A header leads to a later one, or out of all headers. -/
theorem Rule.rank_lt {machine machine' : Machine} {token : Token}
    (h : machine.Rule token (.retry machine')) : machine'.phase.rank < machine.phase.rank := by
  cases h with
  | event hphase hrule =>
    cases hrule
    rw [hphase, close, rank_settle]
    exact Nat.zero_lt_one
  | declaration hphase hrule =>
    rw [hphase]
    cases hrule with
    | var => exact Nat.one_lt_two
    | nothing =>
      rw [rank_settle]
      exact Nat.zero_lt_two
  | parameters hphase hrule =>
    cases hrule
    rw [hphase]
    exact Nat.one_lt_two
  | body hphase hrule =>
    cases hrule
    rw [hphase, close, rank_settle]
    exact Nat.zero_lt_one
  | declarators hphase hrule =>
    cases hrule
    rw [hphase, rank_settle]
    exact Nat.zero_lt_one

theorem rank_lt_of_retry {machine machine' : Machine} {token : Token}
    (h : machine.step token = .retry machine') : machine'.phase.rank < machine.phase.rank := by
  have hrule := machine.step_rule token
  rw [h] at hrule
  exact hrule.rank_lt

/-- Handles a token until it is used up. -/
def feed (machine : Machine) (token : Token) : Machine :=
  match _h : machine.step token with
  | .consumed machine' => machine'
  | .retry machine' => machine'.feed token
termination_by machine.phase.rank
decreasing_by exact rank_lt_of_retry _h

theorem feed_of_consumed {machine machine' : Machine} {token : Token}
    (h : machine.step token = .consumed machine') : machine.feed token = machine' := by
  rw [feed]; split <;> simp_all

theorem feed_of_retry {machine machine' : Machine} {token : Token}
    (h : machine.step token = .retry machine') : machine.feed token = machine'.feed token := by
  rw [feed]; split <;> simp_all

/-! ## The end of the text -/

/-- Closes the header, and then all open braces, at the end of the text. -/
def finish (machine : Machine) (stop : Position) : Machine :=
  let machine := machine.endHeader
  Nat.repeat (pop stop) machine.stack.size machine

/-- The machine behind the last token of a text. -/
def run (source : String) (options : Options) (tokens : List Token) : Machine :=
  tokens.foldl feed (start source options)

end Machine

/-- The outline of a source text. -/
def extract (source : String) (options : Options) : Outline :=
  let (tokens, stop) := Token.scan source
  ((Machine.run source options tokens).finish stop.position).roots.toList

end CaplOutline.Outline
