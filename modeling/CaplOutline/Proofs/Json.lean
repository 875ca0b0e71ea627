-- JSON values as they can be given. Every number in one stands for some literal. So an integer
-- has 64 bits, with a sign or without one, whatever is written.
import CaplOutline.Json

namespace CaplOutline

namespace Json

/-- The number of some literal. -/
def Number.IsGiven (number : Number) : Prop :=
  ∃ negative digits exponent, ofLiteral? negative digits exponent = some number

theorem Number.bounds_of_ofLiteral? {negative : Bool} {digits : Nat} {exponent : Option Int}
    {n : Int} (h : ofLiteral? negative digits exponent = some (.integer n)) :
    leastInteger ≤ n ∧ n ≤ greatestInteger := by
  unfold ofLiteral? at h
  dsimp only at h
  generalize (if negative = true then -(digits : Int) else digits) = value at h
  split at h
  · rename_i hfits
    simp only [Bool.and_eq_true, decide_eq_true_eq] at hfits
    cases h
    exact ⟨hfits.1.1.2, hfits.1.2⟩
  · obtain ⟨double, -, hdouble⟩ := Option.map_eq_some_iff.1 h
    cases hdouble

/-- The integers that can be given are those of 64 bits, with a sign or without one. -/
theorem Number.isGiven_integer_iff {n : Int} :
    (integer n).IsGiven ↔ leastInteger ≤ n ∧ n ≤ greatestInteger := by
  constructor
  · rintro ⟨negative, digits, exponent, h⟩
    exact bounds_of_ofLiteral? h
  · rintro ⟨hleast, hgreatest⟩
    by_cases hsign : n < 0
    · obtain ⟨digits, rfl⟩ : ∃ digits : Nat, n = -(digits : Int) := ⟨n.natAbs, by omega⟩
      have hdigits : digits ≠ 0 := by omega
      exact ⟨true, digits, none, by simp [ofLiteral?, hleast, hgreatest, hdigits]⟩
    · obtain ⟨digits, rfl⟩ : ∃ digits : Nat, n = (digits : Int) := ⟨n.natAbs, by omega⟩
      exact ⟨false, digits, none, by simp [ofLiteral?, hleast, hgreatest]⟩

/-- A value with numbers that can be given. -/
inductive IsGiven : Json → Prop
  | null : IsGiven .null
  | bool (value : Bool) : IsGiven (.bool value)
  | number {number : Number} : number.IsGiven → IsGiven (.number number)
  | string (value : String) : IsGiven (.string value)
  | array {items : List Json} : (∀ item ∈ items, item.IsGiven) → IsGiven (.array items)
  | object {members : List (String × Json)} : (∀ member ∈ members, member.2.IsGiven) →
      IsGiven (.object members)

theorem isGiven_int {n : Int} (hleast : leastInteger ≤ n) (hgreatest : n ≤ greatestInteger) :
    (int n).IsGiven := .number (Number.isGiven_integer_iff.2 ⟨hleast, hgreatest⟩)

theorem IsGiven.bounds {n : Int} (h : (int n).IsGiven) :
    leastInteger ≤ n ∧ n ≤ greatestInteger := by
  cases h with
  | number hnumber => exact Number.isGiven_integer_iff.1 hnumber

theorem IsGiven.member {value found : Json} (h : value.IsGiven) {name : String}
    (hfound : value.member? name = some found) : found.IsGiven := by
  cases h with
  | @object members hmembers =>
    obtain ⟨member, hmember, rfl⟩ := Option.map_eq_some_iff.1 hfound
    exact hmembers member (List.mem_reverse.1 (List.mem_of_find?_eq_some hmember))
  | _ => cases hfound

/-- The last member with a name is the one that counts. -/
theorem member?_cons (first name : String) (item : Json) (members : List (String × Json)) :
    (object ((first, item) :: members)).member? name =
      ((object members).member? name).or (if first == name then some item else none) := by
  simp only [member?, List.reverse_cons, List.find?_append, Option.map_or, List.find?_cons,
    List.find?_nil]
  cases first == name <;> rfl

/-- An object with these names, each of them once, and these items has the items in their places. -/
theorem member?_zip {names : List String} (hnodup : names.Nodup) {place : Nat} {name : String}
    (hname : names[place]? = some name) (items : List Json) :
    (object (names.zip items)).member? name = items[place]? := by
  induction names generalizing place items with
  | nil => cases hname
  | cons first names ih =>
    obtain ⟨hfirst, hnodup⟩ := List.nodup_cons.1 hnodup
    cases items with
    | nil => rfl
    | cons item items =>
      rw [List.zip_cons_cons, member?_cons]
      cases place with
      | zero =>
        cases hname
        have hnone : (object (names.zip items)).member? name = none := by
          refine Option.map_eq_none_iff.2 (List.find?_eq_none.2 ?_)
          intro member hmember
          rw [beq_iff_eq]
          rintro rfl
          exact hfirst (List.of_mem_zip (List.mem_reverse.1 hmember)).1
        simp [hnone]
      | succ place =>
        rw [List.getElem?_cons_succ] at hname ⊢
        have hne : first ≠ name := by
          rintro rfl
          exact hfirst (List.mem_of_getElem? hname)
        simp [ih hnodup hname items, hne]

end Json

end CaplOutline
