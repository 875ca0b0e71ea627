-- A cursor walks over a text and reads one token after another. It keeps its
-- byte offset, its position and the number of open braces as it goes, so that a
-- whole text is read in one pass.
import CaplOutline.Token
import CaplOutline.Token.Lexeme
import CaplOutline.Text.Units

namespace CaplOutline

structure Cursor where
  /-- The characters that are still to be read. -/
  rest : List Char
  offset : Nat
  position : Position
  /-- The number of open braces. -/
  depth : Nat
  deriving DecidableEq, Repr

namespace Cursor

def ofText (text : String) : Cursor := ⟨text.toList, 0, .origin, 0⟩

/-! ## Moving on -/

/-- Moves over one character, if there is one. -/
def bump (cursor : Cursor) : Cursor :=
  match cursor.rest with
  | [] => cursor
  | c :: cs =>
    { cursor with
      rest := cs
      offset := cursor.offset + c.utf8Size
      position := Text.advance cursor.position c cs }

def advance : Nat → Cursor → Cursor
  | 0, cursor => cursor
  | n + 1, cursor => advance n cursor.bump

theorem rest_bump (cursor : Cursor) : cursor.bump.rest = cursor.rest.tail := by
  unfold bump; split <;> simp_all

@[simp]
theorem rest_advance (n : Nat) (cursor : Cursor) :
    (cursor.advance n).rest = cursor.rest.drop n := by
  induction n generalizing cursor with
  | zero => rfl
  | succ n ih => rw [advance, ih, rest_bump, List.drop_tail]

@[simp]
theorem depth_bump (cursor : Cursor) : cursor.bump.depth = cursor.depth := by
  unfold bump; split <;> rfl

@[simp]
theorem depth_advance (n : Nat) (cursor : Cursor) : (cursor.advance n).depth = cursor.depth := by
  induction n generalizing cursor with
  | zero => rfl
  | succ n ih => rw [advance, ih, depth_bump]

/-! ## Reading tokens -/

/-- The open braces outside a token of this kind, if `depth` are open before it. A closing brace
without an opening one changes nothing. -/
def depthAt (depth : Nat) : TokenKind → Nat
  | .closeBrace => depth - 1
  | _ => depth

/-- The open braces behind a token of this kind, if `depth` are open before it. -/
def depthAfter (depth : Nat) : TokenKind → Nat
  | .openBrace => depth + 1
  | .closeBrace => depth - 1
  | _ => depth

/-- Reads the next token. Without one the cursor moves to the end of the text. -/
def next (cursor : Cursor) : Option Token × Cursor :=
  let start := cursor.advance (Gap.length cursor.rest)
  match start.rest with
  | [] => (none, start)
  | c :: cs =>
    let lexeme := Lexeme.read c cs
    let stop := start.advance lexeme.length
    let token :=
      { kind := lexeme.kind
        text := String.ofList (start.rest.take lexeme.length)
        span := ⟨start.offset, stop.offset⟩
        range := ⟨start.position, stop.position⟩
        depth := depthAt start.depth lexeme.kind }
    (some token, { stop with depth := depthAfter start.depth lexeme.kind })

/-- A token takes at least one character. -/
theorem length_rest_next {cursor cursor' : Cursor} {token : Token}
    (h : cursor.next = (some token, cursor')) : cursor'.rest.length < cursor.rest.length := by
  unfold next at h
  dsimp only at h
  split at h
  · simp at h
  · rename_i c cs hrest
    simp only [Prod.mk.injEq] at h
    obtain ⟨-, rfl⟩ := h
    have hlen := congrArg List.length hrest
    simp only [rest_advance, List.length_drop, List.length_cons, Lexeme.length] at hlen ⊢
    omega

/-- Reads all tokens that are left, behind those of `done`. -/
def drain (done : Array Token) (cursor : Cursor) : Array Token × Cursor :=
  match _h : cursor.next with
  | (none, stop) => (done, stop)
  | (some token, cursor') => drain (done.push token) cursor'
termination_by cursor.rest.length
decreasing_by exact length_rest_next _h

theorem drain_of_none {cursor stop : Cursor} (done : Array Token)
    (h : cursor.next = (none, stop)) : cursor.drain done = (done, stop) := by
  rw [drain]; split <;> simp_all

theorem drain_of_some {cursor cursor' : Cursor} {token : Token} (done : Array Token)
    (h : cursor.next = (some token, cursor')) :
    cursor.drain done = cursor'.drain (done.push token) := by
  rw [drain]; split <;> simp_all

/-- Tokens that were read before stand in front, and change nothing else. -/
theorem drain_eq_append (done : Array Token) (cursor : Cursor) :
    cursor.drain done = (done ++ (cursor.drain #[]).1, (cursor.drain #[]).2) := by
  match h : cursor.next with
  | (none, stop) => simp [drain_of_none _ h]
  | (some token, cursor') =>
    have := length_rest_next h
    rw [drain_of_some _ h, drain_of_some _ h, drain_eq_append (done.push token),
      drain_eq_append (#[].push token)]
    simp
termination_by cursor.rest.length

/-- Reads at most `limit` tokens, behind those of `done`. It does not look for another one once
it has as many. -/
def take (done : Array Token) : Nat → Cursor → Array Token × Cursor
  | 0, cursor => (done, cursor)
  | limit + 1, cursor =>
    match cursor.next with
    | (none, stop) => (done, stop)
    | (some token, cursor') => take (done.push token) limit cursor'

end Cursor

/-! ## The tokens of a text -/

namespace Token

/-- All tokens of a text, and the cursor at its end. -/
def scan (text : String) : List Token × Cursor :=
  let (tokens, stop) := (Cursor.ofText text).drain #[]
  (tokens.toList, stop)

def ofText (text : String) : List Token := (scan text).1

end Token

end CaplOutline
