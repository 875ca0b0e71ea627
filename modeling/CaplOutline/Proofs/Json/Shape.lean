-- What a shape takes from a value. Reading a value with a shape says whether the value has the
-- shape, and leaves of it what the shape knows. Both are told here apart from how it is read.
import Mathlib.Data.List.Forall2
import CaplOutline.Json.Shape

namespace CaplOutline.Shape

/-! ## What has a shape -/

mutual

/-- The value has the shape, and `taken` is what the shape knows of it: its records are objects with
just the members of their shapes, in the order of these. -/
def Takes : Shape → Json → Json → Prop
  | any, value, taken => taken = value
  | bool, value, taken => taken = value ∧ ∃ flag, value = .bool flag
  | string, value, taken => taken = value ∧ ∃ text, value = .string text
  | uri, value, taken => taken = value ∧ ∃ text, value = .string text ∧ Uri.isValid text = true
  | integer least most, value, taken =>
    taken = value ∧ ∃ n, value = .int n ∧ least ≤ n ∧ n ≤ most
  | word words, value, taken =>
    taken = value ∧ ∃ name ∈ words, value = .string name ∨ value = .object [(name, .null)]
  | optional shape, value, taken =>
    value = .null ∧ taken = .null ∨ value ≠ .null ∧ shape.Takes value taken
  | either first second, value, taken =>
    first.Takes value taken ∨ (∀ other, ¬ first.Takes value other) ∧ second.Takes value taken
  | list item, value, taken => ∃ items takenItems, value = .array items ∧
    taken = .array takenItems ∧ List.Forall₂ item.Takes items takenItems
  | object members, value, taken => ∃ given takenMembers, value = .object given ∧
    taken = .object takenMembers ∧ TakesMembers members
      (members.map fun member => (value.member? member.1).getD .null) takenMembers
  | record members, value, taken => ∃ values takenMembers, taken = .object takenMembers ∧
    (value = .array values ∨ (∃ given, value = .object given) ∧
      values = members.map fun member => (value.member? member.1).getD .null) ∧
    TakesMembers members values takenMembers

/-- There is one value for each member. -/
def TakesMembers : List (String × Shape) → List Json → List (String × Json) → Prop
  | [], values, taken => values = [] ∧ taken = []
  | (name, shape) :: members, values, taken => ∃ value rest item takenRest,
    values = value :: rest ∧ taken = (name, item) :: takenRest ∧ shape.Takes value item ∧
    TakesMembers members rest takenRest

end

/-! ## What is read -/

theorem mapM_eq_some_iff {α β : Type} {f : α → Option β} {items : List α} {results : List β} :
    items.mapM f = some results ↔ List.Forall₂ (fun item result => f item = some result) items
      results := by
  induction items generalizing results with
  | nil => cases results <;> simp
  | cons item items ih =>
    simp only [List.mapM_cons, Option.pure_def, Option.bind_eq_bind, Option.bind_eq_some_iff,
      Option.some.injEq, List.forall₂_cons_left_iff]
    constructor
    · rintro ⟨result, hresult, rest, hrest, rfl⟩
      exact ⟨result, rest, hresult, ih.1 hrest, rfl⟩
    · rintro ⟨result, rest, hresult, hrest, rfl⟩
      exact ⟨result, hresult, rest, ih.2 hrest, rfl⟩

theorem isWord_iff {words : List String} {value : Json} :
    isWord words value = true ↔
      ∃ name ∈ words, value = .string name ∨ value = .object [(name, .null)] := by
  constructor
  · intro h
    unfold isWord at h
    split at h
    · exact ⟨_, List.contains_iff_mem.1 h, .inl rfl⟩
    · exact ⟨_, List.contains_iff_mem.1 h, .inr rfl⟩
    · cases h
  · rintro ⟨name, hmem, rfl | rfl⟩
    · exact List.contains_iff_mem.2 hmem
    · exact List.contains_iff_mem.2 hmem

mutual

theorem read?_eq_some_iff : (shape : Shape) → (value taken : Json) →
    (shape.read? value = some taken ↔ shape.Takes value taken)
  | any, value, taken => by simp [read?, Takes, eq_comm]
  | bool, value, taken => by cases value <;> simp [read?, Takes, eq_comm]
  | string, value, taken => by cases value <;> simp [read?, Takes, eq_comm]
  | uri, value, taken => by
    cases value with
    | string text =>
      simp only [read?, Takes, Option.ite_none_right_eq_some, Option.some.injEq, Json.string.injEq,
        exists_eq_left']
      exact and_comm.trans (and_congr_left' eq_comm)
    | _ => simp [read?, Takes]
  | integer least most, value, taken => by
    cases value with
    | number number =>
      cases number with
      | integer n =>
        rw [read?, Takes, Option.ite_none_right_eq_some, Bool.and_eq_true, decide_eq_true_eq,
          decide_eq_true_eq, Option.some.injEq]
        constructor
        · rintro ⟨hbounds, rfl⟩
          exact ⟨rfl, n, rfl, hbounds⟩
        · rintro ⟨rfl, _, ⟨⟩, hbounds⟩
          exact ⟨hbounds, rfl⟩
      | double => simp [read?, Takes, Json.int]
    | _ => simp [read?, Takes, Json.int]
  | word words, value, taken => by
    rw [read?, Takes, Option.ite_none_right_eq_some, isWord_iff, Option.some.injEq]
    exact and_comm.trans (and_congr_left' eq_comm)
  | optional shape, value, taken => by
    rw [Takes, ← read?_eq_some_iff shape value taken]
    cases value <;> simp [read?, eq_comm]
  | either first second, value, taken => by
    rw [read?, Takes, Option.or_eq_some_iff, Option.eq_none_iff_forall_ne_some]
    simp only [← read?_eq_some_iff first value, ← read?_eq_some_iff second value, ne_eq]
  | list item, value, taken => by
    have hitems : ∀ items takenItems, items.mapM (fun value => item.read? value) = some takenItems ↔
        List.Forall₂ item.Takes items takenItems := by
      intro items takenItems
      rw [mapM_eq_some_iff]
      simp only [read?_eq_some_iff item]
    rw [Takes]
    cases value with
    | array items =>
      rw [read?, Option.map_eq_some_iff]
      simp only [hitems]
      constructor
      · rintro ⟨takenItems, htakes, rfl⟩
        exact ⟨items, takenItems, rfl, rfl, htakes⟩
      · rintro ⟨_, takenItems, ⟨⟩, rfl, htakes⟩
        exact ⟨takenItems, htakes, rfl⟩
    | _ => simp [read?]
  | object members, value, taken => by
    rw [Takes]
    cases value with
    | object given =>
      rw [read?, Option.map_eq_some_iff]
      simp only [readMembers?_eq_some_iff members]
      constructor
      · rintro ⟨takenMembers, htakes, rfl⟩
        exact ⟨given, takenMembers, rfl, rfl, htakes⟩
      · rintro ⟨_, takenMembers, ⟨⟩, rfl, htakes⟩
        exact ⟨takenMembers, htakes, rfl⟩
    | _ => simp [read?]
  | record members, value, taken => by
    rw [Takes]
    cases value with
    | object given =>
      rw [read?, Option.map_eq_some_iff]
      simp only [readMembers?_eq_some_iff members]
      constructor
      · rintro ⟨takenMembers, htakes, rfl⟩
        exact ⟨_, takenMembers, rfl, .inr ⟨⟨given, rfl⟩, rfl⟩, htakes⟩
      · rintro ⟨values, takenMembers, rfl, ⟨⟨⟩⟩ | ⟨-, rfl⟩, htakes⟩
        exact ⟨takenMembers, htakes, rfl⟩
    | array items =>
      rw [read?, Option.map_eq_some_iff]
      simp only [readMembers?_eq_some_iff members]
      constructor
      · rintro ⟨takenMembers, htakes, rfl⟩
        exact ⟨items, takenMembers, rfl, .inl rfl, htakes⟩
      · rintro ⟨values, takenMembers, rfl, ⟨⟨⟩⟩ | ⟨⟨_, ⟨⟩⟩, -⟩, htakes⟩
        exact ⟨takenMembers, htakes, rfl⟩
    | _ => simp [read?]

theorem readMembers?_eq_some_iff : (members : List (String × Shape)) → (values : List Json) →
    (taken : List (String × Json)) →
    (readMembers? members values = some taken ↔ TakesMembers members values taken)
  | [], values, taken => by
    cases values <;> simp [readMembers?, TakesMembers, eq_comm]
  | (name, shape) :: members, values, taken => by
    rw [TakesMembers]
    cases values with
    | nil => simp [readMembers?]
    | cons value rest =>
      simp only [readMembers?, Option.pure_def, Option.bind_eq_bind, Option.bind_eq_some_iff,
        Option.some.injEq, read?_eq_some_iff shape, readMembers?_eq_some_iff members]
      constructor
      · rintro ⟨item, hitem, takenRest, hrest, rfl⟩
        exact ⟨value, rest, item, takenRest, rfl, rfl, hitem, hrest⟩
      · rintro ⟨_, _, item, takenRest, ⟨⟩, rfl, hitem, hrest⟩
        exact ⟨item, hitem, takenRest, hrest, rfl⟩

end

end CaplOutline.Shape
