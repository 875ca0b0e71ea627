-- The copy of a document that an editor keeps while the store has it open. The
-- editor changes its own copy first, and sends each change with the positions that
-- it finds in that copy. What it sends may be late. The two texts never drift
-- apart, and neither do the two versions.
import CaplOutline.Document.Store
import CaplOutline.Proofs.Text.Addressing

namespace CaplOutline

open Text

/-! ## The editor's side -/

/-- What the editor has of the document: its own copy, and the version that it sent last. -/
structure Client where
  copy : String
  version : Int
  deriving DecidableEq, Repr

/-- A batch of edits, as it is sent. -/
structure Notification where
  version : Int
  changes : List Change
  deriving DecidableEq, Repr

namespace Client

/-- The editor changes its copy, and sends the change. A part of the text is named by the positions
of its two ends in the copy before the change. -/
inductive Edits : String → Change → String → Prop
  | fullText (copy text : String) : Edits copy (.fullText text) text
  | splice {copy : String} {i j : Nat} (text : String) :
      IsCut copy i → IsCut copy j → i ≤ j →
      Edits copy
        (.rangeEdit ⟨(LineTable.of copy).positionOf i, (LineTable.of copy).positionOf j⟩ text)
        (slice copy 0 i ++ text ++ slice copy j copy.utf8ByteSize)

/-- The edits of a batch, each made in the copy that the ones before it leave. -/
inductive EditsAll : String → List Change → String → Prop
  | none (copy : String) : EditsAll copy [] copy
  | more {copy next last : String} {change : Change} {changes : List Change} :
      Edits copy change next → EditsAll next changes last → EditsAll copy (change :: changes) last

/-- A newer batch is what the editor just did to its copy. A late one may hold anything. -/
inductive Sends : Client → Notification → Client → Prop
  | newer {client : Client} {version : Int} {changes : List Change} {copy : String} :
      client.version < version → EditsAll client.copy changes copy →
      Sends client ⟨version, changes⟩ ⟨copy, version⟩
  | late {client : Client} {version : Int} (changes : List Change) :
      version ≤ client.version → Sends client ⟨version, changes⟩ client

/-- All that the editor sends, one batch after the other. -/
inductive Session : Client → List Notification → Client → Prop
  | start (client : Client) : Session client [] client
  | next {client between last : Client} {notification : Notification}
      {notifications : List Notification} :
      Sends client notification between → Session between notifications last →
      Session client (notification :: notifications) last

end Client

/-! ## The store's side -/

/-- The store takes the batches in the order in which they are sent. -/
def Store.serve (store : Store) (id : String) : List Notification → Except Store.Error Store
  | [] => .ok store
  | notification :: notifications =>
    match store.change id notification.version notification.changes with
    | .error error => .error error
    | .ok (_, store) => store.serve id notifications

/-- What is read from the store is what the editor has. -/
def Store.Mirrors (store : Store) (id : String) (client : Client) : Prop :=
  store.snapshot id = .ok (client.copy, client.version)

theorem Store.mirrors_insert (store : Store) (id text : String) (version : Int) :
    (store.insert id text version).2.Mirrors id ⟨text, version⟩ := by
  unfold Store.Mirrors Store.snapshot
  rw [Store.find_insert, if_pos rfl]
  rfl

namespace Client

/-! ## One change -/

theorem Edits.apply_eq {copy copy' : String} {change : Change} (h : Edits copy change copy') :
    change.apply copy = copy' := by
  cases h with
  | fullText => rfl
  | splice text hi hj hle =>
    unfold Change.apply
    dsimp only
    rw [LineTable.offsetOf_positionOf hi, LineTable.offsetOf_positionOf hj, Nat.min_eq_left hle,
      Nat.max_eq_right hle]

theorem EditsAll.applyAll_eq {copy copy' : String} {changes : List Change}
    (h : EditsAll copy changes copy') : Change.applyAll copy changes = copy' := by
  induction h with
  | none => rfl
  | more hfirst _ ih =>
    unfold Change.applyAll at ih ⊢
    rw [List.foldl_cons, hfirst.apply_eq]
    exact ih

/-! ## One batch -/

/-- A document takes a batch as the editor meant it. -/
theorem Sends.snapshot_change {client client' : Client} {notification : Notification}
    {document : Document} (h : client.Sends notification client')
    (hsame : document.snapshot = (client.copy, client.version)) :
    (document.change notification.version notification.changes).2.snapshot =
      (client'.copy, client'.version) := by
  obtain ⟨htext, hversion⟩ := Prod.mk.inj hsame
  unfold Document.change
  cases h with
  | newer hlt hedits =>
    rw [if_neg (by dsimp only; omega)]
    unfold Document.snapshot
    dsimp only
    rw [htext, hedits.applyAll_eq]
  | late changes hle =>
    rw [if_pos (by dsimp only; omega)]
    exact hsame

/-- The store takes a batch, whatever it holds, and has what the editor has again. -/
theorem Sends.mirrors_change {store : Store} {id : String} {client client' : Client}
    {notification : Notification} (h : client.Sends notification client')
    (hmirrors : store.Mirrors id client) :
    ∃ outcome store', store.change id notification.version notification.changes =
      .ok (outcome, store') ∧ store'.Mirrors id client' := by
  unfold Store.Mirrors Store.snapshot at hmirrors
  cases hfind : store.find id with
  | error error =>
    rw [hfind] at hmirrors
    cases hmirrors
  | ok document =>
    rw [hfind] at hmirrors
    have hchange : ∃ outcome store', store.change id notification.version notification.changes =
        .ok (outcome, store') := by
      unfold Store.change
      rw [hfind]
      exact ⟨_, _, rfl⟩
    obtain ⟨outcome, store', hchange⟩ := hchange
    refine ⟨outcome, store', hchange, ?_⟩
    unfold Store.Mirrors Store.snapshot
    rw [Store.find_change hchange, if_pos rfl, hfind]
    exact congrArg Except.ok (h.snapshot_change (Except.ok.inj hmirrors))

/-! ## All that is sent -/

theorem Session.mirrors_serve {store : Store} {id : String} {client last : Client}
    {notifications : List Notification} (h : client.Session notifications last)
    (hmirrors : store.Mirrors id client) :
    ∃ store', store.serve id notifications = .ok store' ∧ store'.Mirrors id last := by
  induction h generalizing store with
  | start => exact ⟨store, rfl, hmirrors⟩
  | next hsends _ ih =>
    obtain ⟨outcome, between, hchange, hbetween⟩ := hsends.mirrors_change hmirrors
    obtain ⟨store', hserve, hlast⟩ := ih hbetween
    refine ⟨store', ?_, hlast⟩
    unfold Store.serve
    rw [hchange]
    exact hserve

/-! ## The laws -/

/-- From the moment a document is opened, and after every batch that the editor sends, the store
gives back exactly the editor's copy, with the version of the last batch that was newer. -/
theorem the_two_copies_never_drift_apart (store : Store) (id text : String) (version : Int)
    {client : Client} {sent : List Notification} (h : Session ⟨text, version⟩ sent client) :
    ∃ store', (store.insert id text version).2.serve id sent = .ok store' ∧
      store'.snapshot id = .ok (client.copy, client.version) :=
  h.mirrors_serve (Store.mirrors_insert store id text version)

theorem Edits.splice_of_eq {copy next : String} {start stop : Position} (i j : Nat) (text : String)
    (hi : IsCut copy i) (hj : IsCut copy j) (hle : i ≤ j)
    (hstart : (LineTable.of copy).positionOf i = start)
    (hstop : (LineTable.of copy).positionOf j = stop)
    (hnext : slice copy 0 i ++ text ++ slice copy j copy.utf8ByteSize = next) :
    Edits copy (.rangeEdit ⟨start, stop⟩ text) next := by
  subst hstart hstop hnext
  exact .splice text hi hj hle

/-- A removal, an insertion that makes a pair, a late batch, and an edit between two pairs. -/
def sampleSent : List Notification :=
  [⟨2, [.rangeEdit ⟨⟨1, 2⟩, ⟨1, 3⟩⟩ "", .rangeEdit ⟨⟨2, 0⟩, ⟨2, 0⟩⟩ "\n"]⟩,
    ⟨2, [.fullText "late"]⟩, ⟨5, [.rangeEdit ⟨⟨1, 0⟩, ⟨1, 2⟩⟩ "x"]⟩]

theorem the_two_copies_of_a_text_with_pairs :
    Session ⟨"a\r\n𝄞b\rc", 1⟩ sampleSent ⟨"a\r\nx\r\nc", 5⟩ ∧
      ∃ store', (Store.empty.insert "node" "a\r\n𝄞b\rc" 1).2.serve "node" sampleSent = .ok store' ∧
        store'.snapshot "node" = .ok ("a\r\nx\r\nc", 5) := by
  have hdrop : Edits "a\r\n𝄞b\rc" (.rangeEdit ⟨⟨1, 2⟩, ⟨1, 3⟩⟩ "") "a\r\n𝄞\rc" := by
    apply Edits.splice_of_eq 7 8 "" <;> decide +kernel
  have hpair : Edits "a\r\n𝄞\rc" (.rangeEdit ⟨⟨2, 0⟩, ⟨2, 0⟩⟩ "\n") "a\r\n𝄞\r\nc" := by
    apply Edits.splice_of_eq 8 8 "\n" <;> decide +kernel
  have hnote : Edits "a\r\n𝄞\r\nc" (.rangeEdit ⟨⟨1, 0⟩, ⟨1, 2⟩⟩ "x") "a\r\nx\r\nc" := by
    apply Edits.splice_of_eq 3 7 "x" <;> decide +kernel
  have hsession : Session ⟨"a\r\n𝄞b\rc", 1⟩ sampleSent ⟨"a\r\nx\r\nc", 5⟩ := by
    apply Session.next (.newer (by decide) (.more hdrop (.more hpair (.none _))))
    apply Session.next (.late _ (by decide))
    exact .next (.newer (by decide) (.more hnote (.none _))) (.start _)
  exact ⟨hsession, the_two_copies_never_drift_apart Store.empty "node" _ 1 hsession⟩

end Client

end CaplOutline
