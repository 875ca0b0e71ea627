-- All open documents, each under its own id. Only a document that is open can be
-- changed, closed or read.
import Std.Data.TreeMap
import CaplOutline.Document
import CaplOutline.Outline.Extract

namespace CaplOutline

structure Store where
  documents : Std.TreeMap String Document

namespace Store

inductive Error where
  | unknownDocument (id : String)
  deriving DecidableEq, Repr, Inhabited

def Error.message : Error → String
  | unknownDocument id => "unknown document: " ++ id

def empty : Store := ⟨∅⟩

/-! ## Reading -/

def find (store : Store) (id : String) : Except Error Document :=
  match store.documents[id]? with
  | some document => .ok document
  | none => .error (.unknownDocument id)

def contains (store : Store) (id : String) : Bool := store.documents.contains id

def size (store : Store) : Nat := store.documents.size

def isEmpty (store : Store) : Bool := store.documents.isEmpty

def snapshot (store : Store) (id : String) : Except Error (String × Int) :=
  (·.snapshot) <$> store.find id

def staleEdits (store : Store) (id : String) : Except Error Nat := (·.staleEdits) <$> store.find id

/-- The outline of a document, with the version of the text that it was taken from. -/
def symbols (store : Store) (id : String) (options : Outline.Options) :
    Except Error (Int × Outline) :=
  (fun document => (document.version, Outline.extract document.text options)) <$> store.find id

/-! ## Writing -/

/-- Opens a document, and says whether it takes the place of an open one. -/
def insert (store : Store) (id text : String) (version : Int) : Bool × Store :=
  (store.contains id, ⟨store.documents.insert id (.new id text version)⟩)

/-- Applies a batch of edits to an open document, if it is newer. -/
def change (store : Store) (id : String) (version : Int) (changes : List Text.Change) :
    Except Error (ChangeOutcome × Store) :=
  (fun document =>
    let (outcome, document) := document.change version changes
    (outcome, ⟨store.documents.insert id document⟩)) <$> store.find id

/-- Applies a single edit, as a batch of its own. -/
def changeOne (store : Store) (id : String) (version : Int) (change : Text.Change) :
    Except Error (ChangeOutcome × Store) := store.change id version [change]

/-- Closes an open document. -/
def erase (store : Store) (id : String) : Except Error Store :=
  (fun _ => ⟨store.documents.erase id⟩) <$> store.find id

/-! ## What is found after an operation -/

theorem find_eq_ok_iff {store : Store} {id : String} {document : Document} :
    store.find id = .ok document ↔ store.documents[id]? = some document := by
  unfold find; split <;> simp_all

@[simp]
theorem find_empty (id : String) : empty.find id = .error (.unknownDocument id) := by
  simp [find, empty]

theorem contains_iff {store : Store} {id : String} :
    store.contains id = true ↔ ∃ document, store.find id = .ok document := by
  unfold contains
  rw [Std.TreeMap.contains_eq_isSome_getElem?, Option.isSome_iff_exists]
  simp only [find_eq_ok_iff]

theorem find_insert (store : Store) (id text : String) (version : Int) (other : String) :
    (store.insert id text version).2.find other =
      if id = other then .ok (.new id text version) else store.find other := by
  unfold find insert
  rw [Std.TreeMap.getElem?_insert]
  by_cases h : id = other <;> simp [h]

theorem find_change {store store' : Store} {id : String} {version : Int}
    {changes : List Text.Change} {outcome : ChangeOutcome}
    (h : store.change id version changes = .ok (outcome, store')) (other : String) :
    store'.find other =
      if id = other then (fun document => (document.change version changes).2) <$> store.find id
      else store.find other := by
  unfold change at h
  cases hfind : store.find id with
  | error error => rw [hfind] at h; cases h
  | ok document =>
    rw [hfind] at h
    simp only [Functor.map, Except.map, Except.ok.injEq, Prod.mk.injEq] at h ⊢
    obtain ⟨-, rfl⟩ := h
    unfold find
    rw [Std.TreeMap.getElem?_insert]
    by_cases h : id = other <;> simp [h]

theorem find_erase {store store' : Store} {id : String} (h : store.erase id = .ok store')
    (other : String) :
    store'.find other = if id = other then .error (.unknownDocument id) else store.find other := by
  unfold erase at h
  cases hfind : store.find id with
  | error error => rw [hfind] at h; cases h
  | ok document =>
    rw [hfind] at h
    cases h
    unfold find
    rw [Std.TreeMap.getElem?_erase]
    by_cases h : id = other <;> simp [h]

end Store

end CaplOutline
