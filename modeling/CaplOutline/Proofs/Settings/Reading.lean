-- How settings are read. A group is read field by field, by name or by place, and nothing else of
-- it counts. Settings that were read can be used as they are: whatever the user asks for, an
-- outline has at least one level, and no more levels than there can be.
import CaplOutline.Settings.Read

namespace CaplOutline

/-- The depth is one that the server works with. -/
structure SymbolSettings.Bounded (settings : SymbolSettings) : Prop where
  positive : 1 ≤ settings.maxDepth
  le_nesting : settings.maxDepth ≤ Outline.maxNesting

theorem SymbolSettings.bounded_default : Bounded {} := ⟨by decide, by decide⟩

/-- An object, or an array with no more than this many items. -/
def Json.IsGroup (most : Nat) : Json → Prop
  | .object _ => True
  | .array items => items.length ≤ most
  | _ => False

namespace Settings

/-! ## The fields of a group -/

/-- A setting, or a group of settings: its name in an object, its place in an array, and what it is
read as. -/
structure Field where
  name : String
  place : Nat
  wanted : Wanted

namespace Field

def symbols : Field := ⟨"symbols", 0, .symbols⟩

def sync : Field := ⟨"sync", 1, .sync⟩

def includeLocals : Field := ⟨"include_locals", 0, .boolean⟩

def includeDetails : Field := ⟨"include_details", 1, .boolean⟩

def maxDepth : Field := ⟨"max_depth", 2, .count⟩

def incremental : Field := ⟨"incremental", 0, .boolean⟩

/-- What a group gives for the field. -/
def get? (field : Field) : Json → Option Json
  | .array items => items[field.place]?
  | value => value.member? field.name

end Field

/-- What is given for a field, or its default if nothing is. -/
def Gives {α : Type} (default : α) (means : Json → α → Prop) : Option Json → α → Prop
  | none, result => result = default
  | some value, result => means value result

/-- What may be missing has a property if its default has it, and what is given. -/
theorem Gives.of {α : Type} {P : α → Prop} {default result : α} {means : Json → α → Prop}
    {value : Option Json} (h : Gives default means value result) (hdefault : P default)
    (hmeans : ∀ given, means given result → P result) : P result := by
  cases value with
  | none =>
    cases h
    exact hdefault
  | some given => exact hmeans given h

/-! ## Reading in steps -/

theorem bind_eq_ok_iff {ε α β : Type} {first : Except ε α} {next : α → Except ε β} {last : β} :
    first >>= next = .ok last ↔ ∃ value, first = .ok value ∧ next value = .ok last := by
  cases first with
  | error error => exact ⟨nofun, nofun⟩
  | ok value =>
    constructor
    · intro hnext
      exact ⟨value, rfl, hnext⟩
    · rintro ⟨_, ⟨⟩, hnext⟩
      exact hnext

theorem checkLength_eq_ok_iff {items : List Json} {most : Nat} {result : Unit} :
    checkLength items most = .ok result ↔ items.length ≤ most := by
  unfold checkLength
  split
  · rename_i hmore
    exact ⟨nofun, fun hle => absurd hmore (by omega)⟩
  · rename_i hle
    exact ⟨fun _ => by omega, fun _ => rfl⟩

theorem readOr_eq_ok_iff {α : Type} {default result : α} {read : Json → Except Error α}
    {value : Option Json} :
    readOr default read value = .ok result ↔
      Gives default (fun given result => read given = .ok result) value result := by
  cases value with
  | none => exact ⟨fun h => by cases h; rfl, fun h => congrArg Except.ok (Eq.symm h)⟩
  | some given => exact Iff.rfl

theorem readBool_eq_ok_iff {value : Json} {flag : Bool} :
    readBool value = .ok flag ↔ value = .bool flag := by
  cases value <;> simp [readBool]

theorem readCount_eq_ok_iff {value : Json} {n : Nat} :
    readCount value = .ok n ↔ value = .int n := by
  constructor
  · intro h
    unfold readCount at h
    split at h
    · rename_i number
      split at h
      · cases h
      · cases h
        rw [show number = (number.toNat : Int) by omega]
        rfl
    · cases h
  · rintro rfl
    simp [readCount, Json.int]

theorem readDepth_eq_ok_iff {value : Json} {depth : Nat} :
    readDepth value = .ok depth ↔ ∃ n : Nat, value = .int n ∧ depth = max 1 (min n 256) := by
  unfold readDepth
  constructor
  · intro h
    cases hcount : readCount value with
    | error error =>
      rw [hcount] at h
      cases h
    | ok n =>
      rw [hcount] at h
      cases h
      exact ⟨n, readCount_eq_ok_iff.1 hcount, rfl⟩
  · rintro ⟨n, hvalue, rfl⟩
    rw [readCount_eq_ok_iff.2 hvalue]
    rfl

/-! ## Groups in either form -/

section Groups

variable {value : Json}

theorem readSymbols_eq_ok_iff {settings : SymbolSettings} :
    readSymbols value = .ok settings ↔ value.IsGroup 3 ∧
      readOr false readBool (Field.includeLocals.get? value) = .ok settings.includeLocals ∧
      readOr true readBool (Field.includeDetails.get? value) = .ok settings.includeDetails ∧
      readOr 32 readDepth (Field.maxDepth.get? value) = .ok settings.maxDepth := by
  unfold readSymbols
  cases value with
  | object members =>
    simp only [bind_eq_ok_iff]
    constructor
    · rintro ⟨details, hdetails, locals, hlocals, depth, hdepth, ⟨⟩⟩
      exact ⟨trivial, hlocals, hdetails, hdepth⟩
    · rintro ⟨-, hlocals, hdetails, hdepth⟩
      exact ⟨_, hdetails, _, hlocals, _, hdepth, rfl⟩
  | array items =>
    simp only [bind_eq_ok_iff, checkLength_eq_ok_iff]
    constructor
    · rintro ⟨locals, hlocals, details, hdetails, depth, hdepth, -, hlength, ⟨⟩⟩
      exact ⟨hlength, hlocals, hdetails, hdepth⟩
    · rintro ⟨hlength, hlocals, hdetails, hdepth⟩
      exact ⟨_, hlocals, _, hdetails, _, hdepth, (), hlength, rfl⟩
  | _ => exact ⟨nofun, fun h => h.1.elim⟩

theorem readSync_eq_ok_iff {settings : SyncSettings} :
    readSync value = .ok settings ↔ value.IsGroup 1 ∧
      readOr true readBool (Field.incremental.get? value) = .ok settings.incremental := by
  unfold readSync
  cases value with
  | object members =>
    simp only [bind_eq_ok_iff]
    constructor
    · rintro ⟨incremental, hincremental, ⟨⟩⟩
      exact ⟨trivial, hincremental⟩
    · rintro ⟨-, hincremental⟩
      exact ⟨_, hincremental, rfl⟩
  | array items =>
    simp only [bind_eq_ok_iff, checkLength_eq_ok_iff]
    constructor
    · rintro ⟨incremental, hincremental, -, hlength, ⟨⟩⟩
      exact ⟨hlength, hincremental⟩
    · rintro ⟨hlength, hincremental⟩
      exact ⟨_, hincremental, (), hlength, rfl⟩
  | _ => exact ⟨nofun, fun h => h.1.elim⟩

theorem read_eq_ok_iff {settings : Settings} :
    read value = .ok settings ↔ value.IsGroup 2 ∧
      readOr {} readSymbols (Field.symbols.get? value) = .ok settings.symbols ∧
      readOr {} readSync (Field.sync.get? value) = .ok settings.sync := by
  unfold read
  cases value with
  | object members =>
    simp only [bind_eq_ok_iff]
    constructor
    · rintro ⟨symbols, hsymbols, sync, hsync, ⟨⟩⟩
      exact ⟨trivial, hsymbols, hsync⟩
    · rintro ⟨-, hsymbols, hsync⟩
      exact ⟨_, hsymbols, _, hsync, rfl⟩
  | array items =>
    simp only [bind_eq_ok_iff, checkLength_eq_ok_iff]
    constructor
    · rintro ⟨symbols, hsymbols, sync, hsync, -, hlength, ⟨⟩⟩
      exact ⟨hlength, hsymbols, hsync⟩
    · rintro ⟨hlength, hsymbols, hsync⟩
      exact ⟨_, hsymbols, _, hsync, (), hlength, rfl⟩
  | _ => exact ⟨nofun, fun h => h.1.elim⟩

end Groups

/-! ## Bounds -/

theorem bounded_of_readSymbols {json : Json} {settings : SymbolSettings}
    (h : readSymbols json = .ok settings) : settings.Bounded := by
  obtain ⟨-, -, -, hdepth⟩ := readSymbols_eq_ok_iff.1 h
  rw [readOr_eq_ok_iff] at hdepth
  have hbounds : 1 ≤ settings.maxDepth ∧ settings.maxDepth ≤ Outline.maxNesting := by
    refine hdepth.of (P := fun depth => 1 ≤ depth ∧ depth ≤ Outline.maxNesting) (by decide) ?_
    intro given hread
    obtain ⟨n, -, hdepth⟩ := readDepth_eq_ok_iff.1 hread
    unfold Outline.maxNesting
    omega
  exact ⟨hbounds.1, hbounds.2⟩

theorem bounded_of_read {json : Json} {settings : Settings} (h : read json = .ok settings) :
    settings.symbols.Bounded := by
  obtain ⟨-, hsymbols, -⟩ := read_eq_ok_iff.1 h
  rw [readOr_eq_ok_iff] at hsymbols
  exact hsymbols.of SymbolSettings.bounded_default fun _ => bounded_of_readSymbols

end Settings

end CaplOutline
