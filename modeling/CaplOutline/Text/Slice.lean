-- Pieces of a text between two byte offsets. Where both offsets are between
-- characters, the piece holds exactly the characters between them.
import CaplOutline.Text.Units

namespace CaplOutline.Text

/-- The text from byte `start` up to byte `stop`. -/
def slice (text : String) (start stop : Nat) : String := String.Pos.Raw.extract text ⟨start⟩ ⟨stop⟩

/-- No character of the text has byte `offset` in its middle. -/
def isBoundary (text : String) (offset : Nat) : Bool := String.Pos.Raw.isValid text ⟨offset⟩

/-- The character that starts with byte `offset`. -/
def charAt? (text : String) (offset : Nat) : Option Char := String.Pos.Raw.get? text ⟨offset⟩

/-! ## Bytes of a string -/

theorem byteLength_eq_utf8ByteSize (cs : List Char) :
    byteLength cs = (String.ofList cs).utf8ByteSize := by
  induction cs with
  | nil => simp
  | cons c cs ih =>
    have h : String.ofList (c :: cs) = String.ofList [c] ++ String.ofList cs := by
      rw [← String.ofList_append]; rfl
    rw [byteLength_cons, ih, h, String.utf8ByteSize_append, ← String.singleton_eq_ofList,
      String.utf8ByteSize_singleton]

@[simp]
theorem byteLength_toList (text : String) : byteLength text.toList = text.utf8ByteSize := by
  rw [byteLength_eq_utf8ByteSize, String.ofList_toList]

/-! ## What a slice holds -/

theorem raw_ne_of_lt {a b : Nat} (h : a < b) : (⟨a⟩ : String.Pos.Raw) ≠ ⟨b⟩ := by
  intro he
  exact Nat.ne_of_lt h (congrArg String.Pos.Raw.byteIdx he)

/-- The characters of `mid` are taken up to the byte behind them. -/
theorem takeTo_eq (mid post : List Char) (offset : Nat) :
    String.Pos.Raw.extract.go₂ (mid ++ post) ⟨offset⟩ ⟨offset + byteLength mid⟩ = mid := by
  induction mid generalizing offset with
  | nil =>
    cases post with
    | nil => rfl
    | cons c cs => exact if_pos rfl
  | cons c cs ih =>
    have hne := raw_ne_of_lt (Nat.lt_add_of_pos_right (n := offset)
      (Nat.add_pos_left c.utf8Size_pos (byteLength cs)))
    rw [byteLength_cons]
    refine (if_neg hne).trans ?_
    rw [← Nat.add_assoc]
    exact congrArg (c :: ·) (ih (offset + c.utf8Size))

/-- The characters of `pre` are passed over up to the byte behind them. -/
theorem dropTo_eq (pre rest : List Char) (offset : Nat) (stop : String.Pos.Raw) :
    String.Pos.Raw.extract.go₁ (pre ++ rest) ⟨offset⟩ ⟨offset + byteLength pre⟩ stop =
      String.Pos.Raw.extract.go₂ rest ⟨offset + byteLength pre⟩ stop := by
  induction pre generalizing offset with
  | nil =>
    cases rest with
    | nil => rfl
    | cons c cs => exact if_pos rfl
  | cons c cs ih =>
    have hne := raw_ne_of_lt (Nat.lt_add_of_pos_right (n := offset)
      (Nat.add_pos_left c.utf8Size_pos (byteLength cs)))
    rw [byteLength_cons]
    refine (if_neg hne).trans ?_
    rw [← Nat.add_assoc]
    exact ih (offset + c.utf8Size)

/-- A slice holds the characters between its ends. -/
theorem slice_eq {text : String} {pre mid post : List Char} (h : text.toList = pre ++ mid ++ post) :
    slice text (byteLength pre) (byteLength pre + byteLength mid) = String.ofList mid := by
  unfold slice String.Pos.Raw.extract
  dsimp only
  split
  · cases mid with
    | nil => rfl
    | cons c cs =>
      have := c.utf8Size_pos
      simp only [byteLength_cons] at *
      omega
  · have hdrop := dropTo_eq pre (mid ++ post) 0 ⟨byteLength pre + byteLength mid⟩
    have htake := takeTo_eq mid post (byteLength pre)
    rw [Nat.zero_add, htake, ← List.append_assoc, ← h] at hdrop
    exact congrArg String.ofList hdrop

/-- The offsets between characters are the lengths of the fronts of the text. -/
theorem isBoundary_iff {text : String} {offset : Nat} :
    isBoundary text offset = true ↔
      ∃ pre post, text.toList = pre ++ post ∧ byteLength pre = offset := by
  unfold isBoundary
  rw [String.Pos.Raw.isValid_eq_true_iff, String.Pos.Raw.isValid_iff_exists_append]
  constructor
  · rintro ⟨front, back, rfl, h⟩
    refine ⟨front.toList, back.toList, String.toList_append, ?_⟩
    rw [byteLength_toList]
    exact (congrArg String.Pos.Raw.byteIdx h).symm
  · rintro ⟨pre, post, h, rfl⟩
    refine ⟨String.ofList pre, String.ofList post, ?_, ?_⟩
    · rw [← String.ofList_append, ← h, String.ofList_toList]
    · rw [byteLength_eq_utf8ByteSize]; rfl

theorem getFrom?_eq_some_iff {cs : List Char} {start offset : Nat} {c : Char} :
    String.Pos.Raw.utf8GetAux? cs ⟨start⟩ ⟨offset⟩ = some c ↔
      ∃ pre post, cs = pre ++ c :: post ∧ start + byteLength pre = offset := by
  induction cs generalizing start with
  | nil =>
    change none = some c ↔ _
    simp
  | cons d cs ih =>
    change (if String.Pos.Raw.mk start = ⟨offset⟩ then some d
      else String.Pos.Raw.utf8GetAux? cs ⟨start + d.utf8Size⟩ ⟨offset⟩) = some c ↔ _
    split
    · rename_i hhere
      obtain rfl : start = offset := congrArg String.Pos.Raw.byteIdx hhere
      constructor
      · rintro ⟨⟩
        exact ⟨[], cs, rfl, rfl⟩
      · rintro ⟨pre, post, hsplit, hplace⟩
        cases pre with
        | nil => exact congrArg List.head? hsplit
        | cons e pre =>
          have := e.utf8Size_pos
          rw [byteLength_cons] at hplace
          omega
    · rename_i hhere
      refine ih.trans ?_
      constructor
      · rintro ⟨pre, post, rfl, hplace⟩
        exact ⟨d :: pre, post, rfl, by rw [byteLength_cons, ← Nat.add_assoc, hplace]⟩
      · rintro ⟨pre, post, hsplit, hplace⟩
        cases pre with
        | nil => exact absurd (congrArg String.Pos.Raw.mk hplace) hhere
        | cons e pre =>
          obtain ⟨rfl, rfl⟩ := List.cons.inj hsplit
          exact ⟨pre, post, rfl, by rwa [byteLength_cons, ← Nat.add_assoc] at hplace⟩

theorem charAt?_eq_some_iff {text : String} {offset : Nat} {c : Char} :
    charAt? text offset = some c ↔
      ∃ pre post, text.toList = pre ++ c :: post ∧ byteLength pre = offset := by
  refine (@getFrom?_eq_some_iff text.toList 0 offset c).trans ?_
  simp only [Nat.zero_add]

end CaplOutline.Text
