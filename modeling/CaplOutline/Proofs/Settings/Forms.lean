-- Settings come in two forms: an object gives a group of them by name, and an array by place.
-- Both forms are accepted wherever a group stands, and it does not matter which one is taken.
-- What is missing has its default, and one value that is not right spoils all the others.
import CaplOutline.Proofs.Json
import CaplOutline.Proofs.Settings.Reading

namespace CaplOutline

namespace Settings

/-! ## What a field may be -/

namespace Wanted

/-- The fields in the order of their places. -/
def fields : Wanted → List Field
  | settings => [.symbols, .sync]
  | symbols => [.includeLocals, .includeDetails, .maxDepth]
  | sync => [.incremental]
  | boolean | count => []

/-- A value that can be read: a boolean, a count of 64 bits, or a group of which all that it gives
can be read. -/
inductive Accepts : Wanted → Json → Prop
  | boolean (flag : Bool) : Accepts boolean (.bool flag)
  | count {n : Nat} : n < Nat.pow 2 64 → Accepts count (.int n)
  | group {wanted : Wanted} {value : Json} : wanted.fields ≠ [] →
      value.IsGroup wanted.fields.length →
      (∀ field ∈ wanted.fields, ∀ given, field.get? value = some given →
        field.wanted.Accepts given) →
      Accepts wanted value

/-- The object with the fields of an array. -/
def named (wanted : Wanted) (items : List Json) : Json :=
  .object ((wanted.fields.map (·.name)).zip items)

/-- Two values that differ only in the form of their groups, and in members of objects that are not
fields. -/
inductive Alike : Wanted → Json → Json → Prop
  | refl (wanted : Wanted) (value : Json) : Alike wanted value value
  | symm {wanted : Wanted} {value other : Json} : Alike wanted value other →
      Alike wanted other value
  | trans {wanted : Wanted} {value other third : Json} : Alike wanted value other →
      Alike wanted other third → Alike wanted value third
  /-- An array and the object with the same fields. -/
  | named {wanted : Wanted} {items : List Json} : items.length ≤ wanted.fields.length →
      Alike wanted (.array items) (wanted.named items)
  /-- Two objects with the same fields, up to the form of what they give for them. -/
  | members {wanted : Wanted} {members others : List (String × Json)} :
      (∀ field ∈ wanted.fields,
        (field.get? (.object members)).isSome = (field.get? (.object others)).isSome) →
      (∀ field ∈ wanted.fields, ∀ given other, field.get? (.object members) = some given →
        field.get? (.object others) = some other → field.wanted.Alike given other) →
      Alike wanted (.object members) (.object others)

theorem not_accepts_null (wanted : Wanted) : ¬ wanted.Accepts .null := by
  intro h
  cases h with
  | group _ hgroup _ => exact hgroup

end Wanted

end Settings

/-! ## What settings mean -/

open Settings in
/-- The settings of a group, each by itself. -/
structure SymbolSettings.GivenBy (value : Json) (settings : SymbolSettings) : Prop where
  group : value.IsGroup 3
  includeLocals : Gives false (fun given flag => given = .bool flag)
    (Field.includeLocals.get? value) settings.includeLocals
  includeDetails : Gives true (fun given flag => given = .bool flag)
    (Field.includeDetails.get? value) settings.includeDetails
  /-- Whatever depth is asked for, it comes out from 1 up to 256. -/
  maxDepth : Gives 32 (fun given depth => ∃ n : Nat, given = .int n ∧ depth = max 1 (min n 256))
    (Field.maxDepth.get? value) settings.maxDepth

open Settings in
structure SyncSettings.GivenBy (value : Json) (settings : SyncSettings) : Prop where
  group : value.IsGroup 1
  incremental : Gives true (fun given flag => given = .bool flag)
    (Field.incremental.get? value) settings.incremental

namespace Settings

structure GivenBy (value : Json) (settings : Settings) : Prop where
  group : value.IsGroup 2
  symbols : Gives ⟨false, true, 32⟩ SymbolSettings.GivenBy (Field.symbols.get? value)
    settings.symbols
  sync : Gives ⟨true⟩ SyncSettings.GivenBy (Field.sync.get? value) settings.sync

/-! ## What is accepted -/

section Accepted

variable {value : Json}

theorem Field.isGiven_get? (h : value.IsGiven) {field : Field} {given : Json}
    (hgiven : field.get? value = some given) : given.IsGiven := by
  cases h with
  | array hitems => exact hitems _ (List.mem_of_getElem? hgiven)
  | object hmembers => exact Json.IsGiven.member (.object hmembers) hgiven
  | _ => cases hgiven

theorem accepts_group_iff {wanted : Wanted} (h : wanted.fields ≠ []) :
    wanted.Accepts value ↔ value.IsGroup wanted.fields.length ∧
      ∀ field ∈ wanted.fields, ∀ given, field.get? value = some given →
        field.wanted.Accepts given := by
  constructor
  · intro haccepts
    cases haccepts with
    | boolean flag => exact absurd rfl h
    | count hlt => exact absurd rfl h
    | group _ hgroup hfields => exact ⟨hgroup, hfields⟩
  · rintro ⟨hgroup, hfields⟩
    exact .group h hgroup hfields

/-- A field can be read if nothing is given for it, or what can be read. -/
theorem exists_readOr_iff {α : Type} (value : Json) (field : Field) (default : α)
    {read : Json → Except Error α}
    (hread : ∀ given, field.get? value = some given →
      ((∃ result, read given = .ok result) ↔ field.wanted.Accepts given)) :
    (∃ result, readOr default read (field.get? value) = .ok result) ↔
      ∀ given, field.get? value = some given → field.wanted.Accepts given := by
  cases hfield : field.get? value with
  | none => exact ⟨fun _ => nofun, fun _ => ⟨default, rfl⟩⟩
  | some given =>
    simp only [Option.some.injEq, forall_eq']
    exact hread given hfield

theorem exists_readBool_iff :
    (∃ flag, readBool value = .ok flag) ↔ Wanted.boolean.Accepts value := by
  simp only [readBool_eq_ok_iff]
  constructor
  · rintro ⟨flag, rfl⟩
    exact .boolean flag
  · intro h
    cases h with
    | boolean flag => exact ⟨flag, rfl⟩
    | group hfields _ _ => exact absurd rfl hfields

/-- No literal stands for a larger count. -/
theorem exists_readDepth_iff (h : value.IsGiven) :
    (∃ depth, readDepth value = .ok depth) ↔ Wanted.count.Accepts value := by
  simp only [readDepth_eq_ok_iff]
  constructor
  · rintro ⟨depth, n, rfl, -⟩
    obtain ⟨-, hgreatest⟩ := h.bounds
    have hbound : Json.greatestInteger = (Nat.pow 2 64 : Nat) - 1 := rfl
    exact .count (by omega)
  · intro haccepts
    cases haccepts with
    | @count n _ => exact ⟨_, n, rfl, rfl⟩
    | group hfields _ _ => exact absurd rfl hfields

theorem exists_readSymbols_iff (h : value.IsGiven) :
    (∃ settings, readSymbols value = .ok settings) ↔ Wanted.symbols.Accepts value := by
  have hlocals := exists_readOr_iff value .includeLocals false fun _ _ =>
    exists_readBool_iff
  have hdetails := exists_readOr_iff value .includeDetails true fun _ _ =>
    exists_readBool_iff
  have hdepth := exists_readOr_iff value .maxDepth 32 fun _ hgiven =>
    exists_readDepth_iff (Field.isGiven_get? h hgiven)
  have hfields : Wanted.symbols.fields ≠ [] := List.cons_ne_nil _ _
  rw [accepts_group_iff hfields]
  simp only [Wanted.fields, List.forall_mem_cons, ← hlocals, ← hdetails, ← hdepth]
  constructor
  · rintro ⟨settings, hread⟩
    obtain ⟨hgroup, hlocals, hdetails, hdepth⟩ := readSymbols_eq_ok_iff.1 hread
    exact ⟨hgroup, ⟨_, hlocals⟩, ⟨_, hdetails⟩, ⟨_, hdepth⟩, List.forall_mem_nil _⟩
  · rintro ⟨hgroup, ⟨locals, hlocals⟩, ⟨details, hdetails⟩, ⟨depth, hdepth⟩, -⟩
    exact ⟨⟨locals, details, depth⟩,
      readSymbols_eq_ok_iff.2 ⟨hgroup, hlocals, hdetails, hdepth⟩⟩

theorem exists_readSync_iff :
    (∃ settings, readSync value = .ok settings) ↔ Wanted.sync.Accepts value := by
  have hincremental := exists_readOr_iff value .incremental true fun _ _ =>
    exists_readBool_iff
  have hfields : Wanted.sync.fields ≠ [] := List.cons_ne_nil _ _
  rw [accepts_group_iff hfields]
  simp only [Wanted.fields, List.forall_mem_cons, ← hincremental]
  constructor
  · rintro ⟨settings, hread⟩
    obtain ⟨hgroup, hincremental⟩ := readSync_eq_ok_iff.1 hread
    exact ⟨hgroup, ⟨_, hincremental⟩, List.forall_mem_nil _⟩
  · rintro ⟨hgroup, ⟨incremental, hincremental⟩, -⟩
    exact ⟨⟨incremental⟩, readSync_eq_ok_iff.2 ⟨hgroup, hincremental⟩⟩

theorem exists_read_iff (h : value.IsGiven) :
    (∃ settings, read value = .ok settings) ↔ Wanted.settings.Accepts value := by
  have hsymbols := exists_readOr_iff value .symbols {} fun _ hgiven =>
    exists_readSymbols_iff (Field.isGiven_get? h hgiven)
  have hsync := exists_readOr_iff value .sync {} fun _ _ =>
    exists_readSync_iff
  have hfields : Wanted.settings.fields ≠ [] := List.cons_ne_nil _ _
  rw [accepts_group_iff hfields]
  simp only [Wanted.fields, List.forall_mem_cons, ← hsymbols, ← hsync]
  constructor
  · rintro ⟨settings, hread⟩
    obtain ⟨hgroup, hsymbols, hsync⟩ := read_eq_ok_iff.1 hread
    exact ⟨hgroup, ⟨_, hsymbols⟩, ⟨_, hsync⟩, List.forall_mem_nil _⟩
  · rintro ⟨hgroup, ⟨symbols, hsymbols⟩, ⟨sync, hsync⟩, -⟩
    exact ⟨⟨symbols, sync⟩, read_eq_ok_iff.2 ⟨hgroup, hsymbols, hsync⟩⟩

end Accepted

/-! ## What is read -/

section Read

variable {value : Json}

theorem readSymbols_iff_givenBy {settings : SymbolSettings} :
    readSymbols value = .ok settings ↔ settings.GivenBy value := by
  simp only [readSymbols_eq_ok_iff, readOr_eq_ok_iff, readBool_eq_ok_iff, readDepth_eq_ok_iff]
  constructor
  · rintro ⟨hgroup, hlocals, hdetails, hdepth⟩
    exact ⟨hgroup, hlocals, hdetails, hdepth⟩
  · rintro ⟨hgroup, hlocals, hdetails, hdepth⟩
    exact ⟨hgroup, hlocals, hdetails, hdepth⟩

theorem readSync_iff_givenBy {settings : SyncSettings} :
    readSync value = .ok settings ↔ settings.GivenBy value := by
  simp only [readSync_eq_ok_iff, readOr_eq_ok_iff, readBool_eq_ok_iff]
  constructor
  · rintro ⟨hgroup, hincremental⟩
    exact ⟨hgroup, hincremental⟩
  · rintro ⟨hgroup, hincremental⟩
    exact ⟨hgroup, hincremental⟩

theorem read_iff_givenBy {settings : Settings} :
    read value = .ok settings ↔ settings.GivenBy value := by
  simp only [read_eq_ok_iff, readOr_eq_ok_iff, readSymbols_iff_givenBy, readSync_iff_givenBy]
  constructor
  · rintro ⟨hgroup, hsymbols, hsync⟩
    exact ⟨hgroup, hsymbols, hsync⟩
  · rintro ⟨hgroup, hsymbols, hsync⟩
    exact ⟨hgroup, hsymbols, hsync⟩

end Read

/-! ## Either form -/

/-- Both values are read as the same, or neither is read. -/
def ReadAlike {α : Type} (read : Json → Except Error α) (value other : Json) : Prop :=
  ∀ result, read value = .ok result ↔ read other = .ok result

/-- What is given for a field, if anything is, is read alike. -/
theorem readAlike_readOr {α : Type} {read : Json → Except Error α} {given given' : Option Json}
    (hsome : given.isSome = given'.isSome)
    (hread : ∀ json json', given = some json → given' = some json' → ReadAlike read json json')
    (default result : α) :
    readOr default read given = .ok result ↔ readOr default read given' = .ok result := by
  cases given with
  | none =>
    cases given' with
    | none => exact Iff.rfl
    | some json' => cases hsome
  | some json =>
    cases given' with
    | none => cases hsome
    | some json' => exact hread json json' rfl rfl result

namespace Wanted

/-- Both values are read alike as what is wanted. The only count that is wanted is a depth. -/
def ReadsAlike : Wanted → Json → Json → Prop
  | settings => ReadAlike Settings.read
  | symbols => ReadAlike readSymbols
  | sync => ReadAlike readSync
  | boolean => ReadAlike readBool
  | count => ReadAlike readDepth

variable {wanted : Wanted} {value other third : Json}

theorem ReadsAlike.refl (wanted : Wanted) (value : Json) : wanted.ReadsAlike value value := by
  cases wanted <;> exact fun result => Iff.rfl

theorem ReadsAlike.symm (h : wanted.ReadsAlike value other) : wanted.ReadsAlike other value := by
  cases wanted <;> exact fun result => (h result).symm

theorem ReadsAlike.trans (h : wanted.ReadsAlike value other) (h' : wanted.ReadsAlike other third) :
    wanted.ReadsAlike value third := by
  cases wanted <;> exact fun result => (h result).trans (h' result)

/-- Only the fields of a group are read. -/
theorem readsAlike_of_fields (hvalue : value.IsGroup wanted.fields.length)
    (hother : other.IsGroup wanted.fields.length)
    (hsome : ∀ field ∈ wanted.fields, (field.get? value).isSome = (field.get? other).isSome)
    (hfields : ∀ field ∈ wanted.fields, ∀ given given', field.get? value = some given →
      field.get? other = some given' → field.wanted.ReadsAlike given given') :
    wanted.ReadsAlike value other := by
  have hgroup : value.IsGroup wanted.fields.length ↔ other.IsGroup wanted.fields.length :=
    iff_of_true hvalue hother
  cases wanted with
  | settings =>
    intro result
    rw [read_eq_ok_iff, read_eq_ok_iff]
    exact and_congr hgroup (and_congr
      (readAlike_readOr (hsome .symbols (by simp [fields]))
        (hfields .symbols (by simp [fields])) _ _)
      (readAlike_readOr (hsome .sync (by simp [fields]))
        (hfields .sync (by simp [fields])) _ _))
  | symbols =>
    intro result
    rw [readSymbols_eq_ok_iff, readSymbols_eq_ok_iff]
    exact and_congr hgroup (and_congr
      (readAlike_readOr (hsome .includeLocals (by simp [fields]))
        (hfields .includeLocals (by simp [fields])) _ _)
      (and_congr
        (readAlike_readOr (hsome .includeDetails (by simp [fields]))
          (hfields .includeDetails (by simp [fields])) _ _)
        (readAlike_readOr (hsome .maxDepth (by simp [fields]))
          (hfields .maxDepth (by simp [fields])) _ _)))
  | sync =>
    intro result
    rw [readSync_eq_ok_iff, readSync_eq_ok_iff]
    exact and_congr hgroup
      (readAlike_readOr (hsome .incremental (by simp [fields]))
        (hfields .incremental (by simp [fields])) _ _)
  | boolean =>
    -- A group is no boolean, so neither is read.
    have hnot : ∀ flag group, Json.IsGroup 0 group → ¬ readBool group = .ok flag := by
      intro flag group hgroup hread
      rw [readBool_eq_ok_iff.1 hread] at hgroup
      exact hgroup
    exact fun flag => iff_of_false (hnot flag _ hvalue) (hnot flag _ hother)
  | count =>
    have hnot : ∀ depth group, Json.IsGroup 0 group → ¬ readDepth group = .ok depth := by
      intro depth group hgroup hread
      obtain ⟨n, rfl, -⟩ := readDepth_eq_ok_iff.1 hread
      exact hgroup
    exact fun depth => iff_of_false (hnot depth _ hvalue) (hnot depth _ hother)

theorem nodup_names (wanted : Wanted) : (wanted.fields.map (·.name)).Nodup := by
  cases wanted <;> decide

theorem name_of_place (wanted : Wanted) :
    ∀ field ∈ wanted.fields, (wanted.fields.map (·.name))[field.place]? = some field.name := by
  cases wanted <;> simp [fields, Field.symbols, Field.sync, Field.includeLocals,
    Field.includeDetails, Field.maxDepth, Field.incremental]

/-- The object with the fields of an array gives what the array gives. -/
theorem get?_named (items : List Json) {field : Field} (hfield : field ∈ wanted.fields) :
    field.get? (wanted.named items) = field.get? (.array items) :=
  Json.member?_zip wanted.nodup_names (wanted.name_of_place field hfield) items

theorem Alike.readsAlike (h : wanted.Alike value other) : wanted.ReadsAlike value other := by
  induction h with
  | refl wanted value => exact .refl wanted value
  | symm _ ih => exact ih.symm
  | trans _ _ ih ih' => exact ih.trans ih'
  | @named wanted items hlength =>
    refine readsAlike_of_fields hlength trivial ?_ ?_
    · intro field hfield
      rw [get?_named items hfield]
    · intro field hfield given given' hgiven hgiven'
      rw [get?_named items hfield, hgiven] at hgiven'
      cases hgiven'
      exact .refl _ given
  | members hsome _ ih => exact readsAlike_of_fields trivial trivial hsome ih

end Wanted

/-! ## The law -/

/-- Settings can be read exactly if each group is an object or an array that is not too long, and
each field of it is missing or can be read, which null never can. Then each setting is the one that
is given, or the default if none is, and a depth comes out from 1 up to 256. Neither the form of a
group nor a member that is not known makes a difference. -/
theorem settings_are_the_same_in_every_form (value : Json) (hvalue : value.IsGiven) :
    ((∃ settings, read value = .ok settings) ↔ Wanted.settings.Accepts value) ∧
    (∀ wanted : Wanted, ¬ wanted.Accepts .null) ∧
    (∀ settings, read value = .ok settings ↔ settings.GivenBy value) ∧
    ∀ other, Wanted.settings.Alike value other →
      ∀ settings, read value = .ok settings ↔ read other = .ok settings := by
  refine ⟨exists_read_iff hvalue, Wanted.not_accepts_null, ?_, ?_⟩
  · intro settings
    exact read_iff_givenBy
  · intro other halike
    exact halike.readsAlike

/-- Groups in both forms, one in the other: the symbols in an array with the greatest count, and the
sync in an object with a member that is not known. -/
def mixedForms : Json :=
  .array [.array [.bool true, .bool false, .int (Nat.pow 2 64 - 1 : Nat)],
    .object [("incremental", .bool false), ("other", .null)]]

theorem the_settings_in_mixed_forms :
    mixedForms.IsGiven ∧ read mixedForms = .ok ⟨⟨true, false, 256⟩, ⟨false⟩⟩ := by
  have hgiven : mixedForms.IsGiven := by
    refine .array ?_
    simp only [List.forall_mem_cons]
    refine ⟨.array ?_, .object ?_, List.forall_mem_nil _⟩
    · simp only [List.forall_mem_cons]
      exact ⟨.bool true, .bool false, Json.isGiven_int (by decide) (by decide),
        List.forall_mem_nil _⟩
    · simp only [List.forall_mem_cons]
      exact ⟨.bool false, .null, List.forall_mem_nil _⟩
  obtain ⟨-, -, hread, -⟩ := settings_are_the_same_in_every_form mixedForms hgiven
  refine ⟨hgiven, (hread _).2 ⟨Nat.le_refl 2, ?_, trivial, rfl⟩⟩
  exact ⟨Nat.le_refl 3, rfl, rfl, _, rfl, rfl⟩

end Settings

end CaplOutline
