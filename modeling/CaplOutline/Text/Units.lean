-- How much of a text a run of characters takes up: bytes of UTF-8, units of
-- UTF-16, and lines. A line ends with a line feed, with a carriage return and a
-- line feed, or with a carriage return alone.
import CaplOutline.Position

namespace CaplOutline.Text

/-! ## Bytes and units -/

/-- UTF-16 writes the characters of the first plane with one unit and all others with two. -/
def units (c : Char) : Nat := if c.toNat < 0x10000 then 1 else 2

def unitLength (cs : List Char) : Nat := cs.foldl (fun n c => n + units c) 0

def byteLength (cs : List Char) : Nat := cs.foldl (fun n c => n + c.utf8Size) 0

theorem foldl_add_eq (f : Char → Nat) (n : Nat) (cs : List Char) :
    cs.foldl (fun n c => n + f c) n = n + cs.foldl (fun n c => n + f c) 0 := by
  induction cs generalizing n with
  | nil => rfl
  | cons c cs ih => simp only [List.foldl_cons]; rw [ih, ih (0 + f c)]; omega

@[simp]
theorem unitLength_nil : unitLength [] = 0 := rfl

@[simp]
theorem unitLength_cons (c : Char) (cs : List Char) :
    unitLength (c :: cs) = units c + unitLength cs := by
  simp only [unitLength, List.foldl_cons, Nat.zero_add]; exact foldl_add_eq ..

@[simp]
theorem unitLength_append (cs ds : List Char) :
    unitLength (cs ++ ds) = unitLength cs + unitLength ds := by
  simp only [unitLength, List.foldl_append]; exact foldl_add_eq ..

@[simp]
theorem byteLength_nil : byteLength [] = 0 := rfl

@[simp]
theorem byteLength_cons (c : Char) (cs : List Char) :
    byteLength (c :: cs) = c.utf8Size + byteLength cs := by
  simp only [byteLength, List.foldl_cons, Nat.zero_add]; exact foldl_add_eq ..

@[simp]
theorem byteLength_append (cs ds : List Char) :
    byteLength (cs ++ ds) = byteLength cs + byteLength ds := by
  simp only [byteLength, List.foldl_append]; exact foldl_add_eq ..

/-- A front of a text is known by its length. -/
theorem front_eq_of_byteLength_eq {front front' back back' : List Char}
    (h : front ++ back = front' ++ back') (hlength : byteLength front = byteLength front') :
    front = front' := by
  have hnil : ∀ more, byteLength more = 0 → more = [] := by
    intro more hzero
    cases more with
    | nil => rfl
    | cons c more =>
      have := c.utf8Size_pos
      rw [byteLength_cons] at hzero
      omega
  rcases List.append_eq_append_iff.1 h with ⟨more, rfl, -⟩ | ⟨more, rfl, -⟩
  · rw [byteLength_append] at hlength
    rw [hnil more (by omega), List.append_nil]
  · rw [byteLength_append] at hlength
    rw [hnil more (by omega), List.append_nil]

theorem units_pos (c : Char) : 0 < units c := by unfold units; split <;> omega

/-- The bytes before the first character boundary with at least `wanted` units before it, or
nothing if the text has fewer units. So a wish in the middle of a pair of units is rounded up. -/
def byteOfUnitsFrom? (bytes : Nat) : Nat → List Char → Option Nat
  | 0, _ => some bytes
  | _ + 1, [] => none
  | wanted + 1, c :: cs => byteOfUnitsFrom? (bytes + c.utf8Size) (wanted + 1 - units c) cs

def byteOfUnits? (wanted : Nat) (cs : List Char) : Option Nat := byteOfUnitsFrom? 0 wanted cs

theorem byteOfUnitsFrom?_eq (bytes wanted : Nat) (cs : List Char) :
    byteOfUnitsFrom? bytes wanted cs = (byteOfUnits? wanted cs).map (bytes + ·) := by
  unfold byteOfUnits?
  induction cs generalizing bytes wanted with
  | nil => cases wanted <;> rfl
  | cons c cs ih =>
    cases wanted with
    | zero => rfl
    | succ wanted =>
      simp only [byteOfUnitsFrom?]
      rw [ih, ih (0 + c.utf8Size), Option.map_map]
      exact congrArg (Option.map · _) (funext fun n => by simp only [Function.comp_apply]; omega)

/-! ## Lines -/

/-- The character `c`, with `rest` after it, ends a line. The carriage return of a pair does
not: its line feed does. -/
def endsLine (c : Char) (rest : List Char) : Bool :=
  c == '\n' || (c == '\r' && rest.head? != some '\n')

/-- The position behind the character `c` at position `p`, with `rest` after it. -/
def advance (p : Position) (c : Char) (rest : List Char) : Position :=
  if endsLine c rest then ⟨p.line + 1, 0⟩ else ⟨p.line, p.character + units c⟩

end CaplOutline.Text
