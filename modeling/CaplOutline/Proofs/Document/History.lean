-- What the store makes of a sequence of calls. Each document has a history of its
-- own: the calls on it since it was last opened say what it is now, and the calls
-- on other documents have no part in it.
import CaplOutline.Proofs.Document.Replica

namespace CaplOutline

open Text

/-! ## Batches one after another -/

/-- The batches that are newer than the text that they meet, if it has this version at first. -/
def Notification.newer (version : Int) : List Notification → List Notification
  | [] => []
  | batch :: batches =>
    if version < batch.version then batch :: newer batch.version batches else newer version batches

theorem Notification.newer_of_lt {version : Int} {batch : Notification}
    (h : version < batch.version) (batches : List Notification) :
    newer version (batch :: batches) = batch :: newer batch.version batches := by
  simp [newer, h]

theorem Notification.newer_of_le {version : Int} {batch : Notification}
    (h : batch.version ≤ version) (batches : List Notification) :
    newer version (batch :: batches) = newer version batches := by
  have hlt : ¬ version < batch.version := by omega
  simp [newer, hlt]

theorem Notification.length_newer_le (version : Int) (batches : List Notification) :
    (newer version batches).length ≤ batches.length := by
  induction batches generalizing version with
  | nil => simp [newer]
  | cons batch batches ih =>
    by_cases h : version < batch.version
    · have := ih batch.version
      simp only [newer_of_lt h, List.length_cons]
      omega
    · have := ih version
      rw [newer_of_le (by omega), List.length_cons]
      omega

/-- Versions go up from one newer batch to the next. -/
theorem Notification.increasing_newer (version : Int) (batches : List Notification) :
    (version :: (newer version batches).map (·.version)).Pairwise (· < ·) := by
  induction batches generalizing version with
  | nil => simp [newer]
  | cons batch batches ih =>
    by_cases h : version < batch.version
    · have hrest := ih batch.version
      rw [newer_of_lt h, List.map_cons, List.pairwise_cons]
      refine ⟨?_, hrest⟩
      intro later hlater
      rcases List.mem_cons.1 hlater with rfl | hlater
      · exact h
      · have := (List.pairwise_cons.1 hrest).1 later hlater
        omega
    · rw [newer_of_le (by omega)]
      exact ih version

/-- The document after a number of batches: the edits of the newer ones are made one after another,
and the others are counted. -/
def Document.replay (document : Document) (batches : List Notification) : Document :=
  let newer := Notification.newer document.version batches
  { document with
    text := (newer.flatMap (·.changes)).foldl (fun text change => change.apply text) document.text
    version := (newer.getLast?.map (·.version)).getD document.version
    staleEdits := document.staleEdits + (batches.length - newer.length) }

theorem Document.replay_cons (document : Document) (batch : Notification)
    (batches : List Notification) :
    document.replay (batch :: batches) =
      (document.change batch.version batch.changes).2.replay batches := by
  unfold replay
  by_cases h : document.version < batch.version
  · rw [Notification.newer_of_lt h, change, if_neg (by omega)]
    simp only [Document.mk.injEq]
    refine ⟨trivial, ?_, ?_, ?_⟩
    · rw [List.getLast?_cons]
      cases (Notification.newer batch.version batches).getLast? <;> rfl
    · simp [Change.applyAll, List.foldl_append]
    · simp
  · have hlength := Notification.length_newer_le document.version batches
    rw [Notification.newer_of_le (by omega), change, if_pos (by omega)]
    simp only [Document.mk.injEq]
    refine ⟨trivial, trivial, trivial, ?_⟩
    rw [List.length_cons]
    omega

namespace Store

/-! ## Calls and their answers -/

/-- What is asked of the store about one document. -/
inductive Request where
  | insert (text : String) (version : Int)
  | changeOne (version : Int) (edit : Change)
  | change (version : Int) (changes : List Change)
  | erase
  | snapshot
  | symbols (options : Outline.Options)
  | staleEdits

structure Call where
  id : String
  request : Request

inductive Answer where
  | opened (replaced : Bool)
  | changed (outcome : ChangeOutcome)
  | closed
  | snapshot (text : String) (version : Int)
  | symbols (version : Int) (outline : Outline)
  | staleEdits (count : Nat)
  | refused (error : Error)

/-- An answer that is read from the store. -/
def Answer.read {α : Type} (make : α → Answer) : Except Error α → Answer
  | .ok value => make value
  | .error error => .refused error

def answer (store : Store) (call : Call) : Answer × Store :=
  match call.request with
  | .insert text version =>
    let (replaced, store) := store.insert call.id text version
    (.opened replaced, store)
  | .changeOne version edit =>
    match store.changeOne call.id version edit with
    | .ok (outcome, store) => (.changed outcome, store)
    | .error error => (.refused error, store)
  | .change version changes =>
    match store.change call.id version changes with
    | .ok (outcome, store) => (.changed outcome, store)
    | .error error => (.refused error, store)
  | .erase =>
    match store.erase call.id with
    | .ok store => (.closed, store)
    | .error error => (.refused error, store)
  | .snapshot =>
    (.read (fun (text, version) => .snapshot text version) (store.snapshot call.id), store)
  | .symbols options =>
    (.read (fun (version, outline) => .symbols version outline) (store.symbols call.id options),
      store)
  | .staleEdits => (.read .staleEdits (store.staleEdits call.id), store)

/-- A call with its answer. -/
structure Exchange where
  call : Call
  answer : Answer

/-- Answers the calls one after another. -/
def run (store : Store) : List Call → List Exchange × Store
  | [] => ([], store)
  | call :: calls =>
    let (answer, store) := store.answer call
    let (log, last) := store.run calls
    (⟨call, answer⟩ :: log, last)

/-- The calls on one document. -/
def Call.on (id : String) (calls : List Call) : List Call := calls.filter (·.id == id)

/-- What a log says about one document. -/
def Exchange.about (id : String) (log : List Exchange) : List Exchange :=
  log.filter (·.call.id == id)

/-- The batch of edits that a request holds. -/
def Request.batch? : Request → Option Notification
  | .changeOne version edit => some ⟨version, [edit]⟩
  | .change version changes => some ⟨version, changes⟩
  | _ => none

def Exchange.batches (log : List Exchange) : List Notification :=
  log.filterMap (·.call.request.batch?)

/-- The document was opened or closed. -/
def Answer.turns : Answer → Bool
  | .opened _ | .closed => true
  | _ => false

def Answer.applied? : Answer → Option Int
  | .changed (.applied version) => some version
  | _ => none

/-- The versions of the batches that were applied. -/
def Exchange.applied (log : List Exchange) : List Int := log.filterMap (·.answer.applied?)

/-- What is answered to a request that only reads. -/
def Request.read? (document : Document) : Request → Option Answer
  | .snapshot => some (.snapshot document.text document.version)
  | .symbols options => some (.symbols document.version (Outline.extract document.text options))
  | .staleEdits => some (.staleEdits document.staleEdits)
  | _ => none

/-- A request opens the document, changes it, closes it, or only reads it. -/
theorem Request.kinds (request : Request) (document : Document) :
    (∃ text version, request = .insert text version) ∨
      (∃ batch, request.batch? = some batch ∧ request.read? document = none) ∨
      request = .erase ∨
      ∃ answer, request.read? document = some answer ∧ request.batch? = none := by
  cases request with
  | insert text version => exact Or.inl ⟨text, version, rfl⟩
  | changeOne version edit => exact Or.inr (Or.inl ⟨_, rfl, rfl⟩)
  | change version changes => exact Or.inr (Or.inl ⟨_, rfl, rfl⟩)
  | erase => exact Or.inr (Or.inr (Or.inl rfl))
  | snapshot => exact Or.inr (Or.inr (Or.inr ⟨_, rfl, rfl⟩))
  | symbols options => exact Or.inr (Or.inr (Or.inr ⟨_, rfl, rfl⟩))
  | staleEdits => exact Or.inr (Or.inr (Or.inr ⟨_, rfl, rfl⟩))

theorem Request.applied?_of_read? {request : Request} {document : Document} {answer : Answer}
    (h : request.read? document = some answer) : answer.applied? = none := by
  cases request <;> cases h <;> rfl

/-! ## One answer -/

/-- What a call does to the document it is on, and to the store. -/
structure Answered (store : Store) (call : Call) : Prop where
  others : ∀ id, id ≠ call.id → (store.answer call).2.find id = store.find id
  opened : ∀ text version, call.request = .insert text version →
    (store.answer call).1 = .opened (store.contains call.id) ∧
      (store.answer call).2.find call.id = .ok (.new call.id text version)
  unknown : store.contains call.id = false →
    (∀ text version, call.request ≠ .insert text version) →
      store.answer call = (.refused (.unknownDocument call.id), store)
  stale : ∀ document batch, store.find call.id = .ok document →
    call.request.batch? = some batch → batch.version ≤ document.version →
      (store.answer call).1 = .changed (.stale document.version batch.version) ∧
      (store.answer call).2.find call.id =
        .ok { document with staleEdits := document.staleEdits + 1 }
  applied : ∀ document batch, store.find call.id = .ok document →
    call.request.batch? = some batch → document.version < batch.version →
      (store.answer call).1 = .changed (.applied batch.version) ∧
      (store.answer call).2.find call.id =
        .ok { document with
          text := batch.changes.foldl (fun text change => change.apply text) document.text
          version := batch.version }
  closed : ∀ document, store.find call.id = .ok document → call.request = .erase →
    (store.answer call).1 = .closed ∧
      (store.answer call).2.find call.id = .error (.unknownDocument call.id)
  read : ∀ document answer, store.find call.id = .ok document →
    call.request.read? document = some answer → store.answer call = (answer, store)

variable {store : Store} {call : Call} {id : String} {document : Document}

theorem find_eq_error_iff :
    store.find id = .error (.unknownDocument id) ↔ store.contains id = false := by
  rw [← Bool.not_eq_true, contains_iff]
  unfold find
  split <;> simp

theorem contains_of_find_error {error : Error} (h : store.find id = .error error) :
    store.contains id = false := by
  rw [← Bool.not_eq_true, contains_iff, h]
  rintro ⟨document, hdocument⟩
  cases hdocument

/-- A batch is given to the document, if it is there. -/
theorem answer_of_batch {batch : Notification} (h : call.request.batch? = some batch) :
    store.answer call =
      match store.change call.id batch.version batch.changes with
      | .ok (outcome, store) => (.changed outcome, store)
      | .error error => (.refused error, store) := by
  unfold answer
  cases hrequest : call.request <;> rw [hrequest] at h <;> cases h
  · rfl
  · rfl

theorem change_of_find (hfind : store.find id = .ok document) (version : Int)
    (changes : List Change) :
    ∃ store', store.change id version changes =
        .ok ((document.change version changes).1, store') ∧
      store'.find id = .ok (document.change version changes).2 := by
  have hchange : ∃ store', store.change id version changes =
      .ok ((document.change version changes).1, store') := by
    unfold change
    rw [hfind]
    exact ⟨_, rfl⟩
  obtain ⟨store', hchange⟩ := hchange
  refine ⟨store', hchange, ?_⟩
  rw [find_change hchange, if_pos rfl, hfind]
  rfl

theorem answer_change {batch : Notification} (h : call.request.batch? = some batch)
    (hfind : store.find call.id = .ok document) :
    (store.answer call).1 = .changed (document.change batch.version batch.changes).1 ∧
      (store.answer call).2.find call.id =
        .ok (document.change batch.version batch.changes).2 := by
  obtain ⟨store', hchange, hfind'⟩ := change_of_find hfind batch.version batch.changes
  rw [answer_of_batch h, hchange]
  exact ⟨rfl, hfind'⟩

theorem find_answer_of_ne (hne : id ≠ call.id) :
    (store.answer call).2.find id = store.find id := by
  have hchange : ∀ version changes outcome store',
      store.change call.id version changes = .ok (outcome, store') →
        store'.find id = store.find id := by
    intro version changes outcome store' h
    rw [find_change h, if_neg (Ne.symm hne)]
  unfold answer
  split
  · dsimp only
    rw [find_insert, if_neg (Ne.symm hne)]
  · split
    · rename_i h
      exact hchange _ _ _ _ h
    · rfl
  · split
    · rename_i h
      exact hchange _ _ _ _ h
    · rfl
  · split
    · rename_i h
      rw [find_erase h, if_neg (Ne.symm hne)]
    · rfl
  · rfl
  · rfl
  · rfl

theorem answer_of_unknown (hfind : store.find call.id = .error (.unknownDocument call.id))
    (hinsert : ∀ text version, call.request ≠ .insert text version) :
    store.answer call = (.refused (.unknownDocument call.id), store) := by
  have hchange : ∀ version changes,
      store.change call.id version changes = .error (.unknownDocument call.id) := by
    intro version changes
    unfold change
    rw [hfind]
    rfl
  unfold answer
  split
  · rename_i text version hrequest
    exact absurd hrequest (hinsert text version)
  · rw [changeOne, hchange]
  · rw [hchange]
  · rw [erase, hfind]
    rfl
  · rw [snapshot, hfind]
    rfl
  · rw [symbols, hfind]
    rfl
  · rw [staleEdits, hfind]
    rfl

theorem answer_erase (hfind : store.find call.id = .ok document)
    (hrequest : call.request = .erase) :
    (store.answer call).1 = .closed ∧
      (store.answer call).2.find call.id = .error (.unknownDocument call.id) := by
  have herase : ∃ store', store.erase call.id = .ok store' := by
    unfold erase
    rw [hfind]
    exact ⟨_, rfl⟩
  obtain ⟨store', herase⟩ := herase
  unfold answer
  rw [hrequest]
  dsimp only
  rw [herase]
  refine ⟨rfl, ?_⟩
  dsimp only
  rw [find_erase herase, if_pos rfl]

theorem answer_read {answer : Answer} (hfind : store.find call.id = .ok document)
    (hread : call.request.read? document = some answer) :
    store.answer call = (answer, store) := by
  unfold Store.answer
  cases hrequest : call.request <;> rw [hrequest] at hread <;> cases hread
  · rw [snapshot, hfind]
    rfl
  · unfold symbols
    rw [hfind]
    rfl
  · rw [staleEdits, hfind]
    rfl

theorem answered (store : Store) (call : Call) : store.Answered call where
  others := by
    intro id hne
    exact find_answer_of_ne hne
  opened := by
    intro text version hrequest
    unfold answer
    rw [hrequest]
    refine ⟨rfl, ?_⟩
    dsimp only
    rw [find_insert, if_pos rfl]
  unknown := by
    intro habsent hinsert
    exact answer_of_unknown (find_eq_error_iff.2 habsent) hinsert
  stale := by
    intro document batch hfind hbatch hle
    have h := answer_change hbatch hfind
    rwa [Document.change, if_pos hle] at h
  applied := by
    intro document batch hfind hbatch hlt
    have h := answer_change hbatch hfind
    rwa [Document.change, if_neg (by omega)] at h
  closed := by
    intro document hfind hrequest
    exact answer_erase hfind hrequest
  read := by
    intro document answer hfind hread
    exact answer_read hfind hread

/-! ## Calls on other documents -/

/-- An answer does not depend on other documents. -/
theorem answer_congr {store' : Store} (h : store.find call.id = store'.find call.id) :
    (store.answer call).1 = (store'.answer call).1 ∧
      (store.answer call).2.find call.id = (store'.answer call).2.find call.id := by
  have hcontains : store.contains call.id = store'.contains call.id := by
    rw [Bool.eq_iff_iff, contains_iff, contains_iff, h]
  have hs := answered store call
  have hs' := answered store' call
  by_cases hinsert : ∃ text version, call.request = .insert text version
  · obtain ⟨text, version, hrequest⟩ := hinsert
    obtain ⟨hanswer, hfind⟩ := hs.opened text version hrequest
    obtain ⟨hanswer', hfind'⟩ := hs'.opened text version hrequest
    rw [hanswer, hanswer', hfind, hfind', hcontains]
    exact ⟨rfl, rfl⟩
  · have hother : ∀ text version, call.request ≠ .insert text version := by
      intro text version hrequest
      exact hinsert ⟨text, version, hrequest⟩
    cases hfind : store.find call.id with
    | error error =>
      have habsent := contains_of_find_error hfind
      rw [hs.unknown habsent hother, hs'.unknown (hcontains ▸ habsent) hother]
      exact ⟨rfl, h⟩
    | ok document =>
      have hfind' : store'.find call.id = .ok document := h ▸ hfind
      rcases call.request.kinds document with hrequest | ⟨batch, hbatch, -⟩ | hrequest |
        ⟨answer, hread, -⟩
      · exact absurd hrequest hinsert
      · obtain ⟨hanswer, hnext⟩ := answer_change hbatch hfind
        obtain ⟨hanswer', hnext'⟩ := answer_change hbatch hfind'
        rw [hanswer, hanswer', hnext, hnext']
        exact ⟨rfl, rfl⟩
      · obtain ⟨hanswer, hnext⟩ := answer_erase hfind hrequest
        obtain ⟨hanswer', hnext'⟩ := answer_erase hfind' hrequest
        rw [hanswer, hanswer', hnext, hnext']
        exact ⟨rfl, rfl⟩
      · rw [answer_read hfind hread, answer_read hfind' hread]
        exact ⟨rfl, h⟩

/-- Neither does a whole log. -/
theorem run_on (calls : List Call) {store' : Store} (h : store.find id = store'.find id) :
    Exchange.about id (store.run calls).1 = (store'.run (Call.on id calls)).1 ∧
      (store.run calls).2.find id = (store'.run (Call.on id calls)).2.find id := by
  induction calls generalizing store store' with
  | nil => exact ⟨rfl, h⟩
  | cons call calls ih =>
    by_cases hid : call.id = id
    · subst hid
      obtain ⟨hanswer, hnext⟩ := answer_congr h
      obtain ⟨hlog, hlast⟩ := ih hnext
      have hon : Call.on call.id (call :: calls) = call :: Call.on call.id calls := by
        simp [Call.on]
      rw [hon]
      simp only [run, Exchange.about, List.filter_cons, beq_self_eq_true, if_true]
      exact ⟨congrArg₂ _ (by rw [hanswer]) hlog, hlast⟩
    · have hnext : (store.answer call).2.find id = store'.find id := by
        rw [find_answer_of_ne (Ne.symm hid), h]
      have hon : Call.on id (call :: calls) = Call.on id calls := by
        simp [Call.on, hid]
      rw [hon]
      simp only [run, Exchange.about, List.filter_cons, beq_iff_eq, hid, if_false]
      exact ih hnext

/-! ## From one opening to the next turn -/

/-- The document was neither opened nor closed. -/
def Stays (log : List Exchange) : Prop := ∀ exchange ∈ log, exchange.answer.turns = false

theorem run_append (store : Store) (calls calls' : List Call) :
    store.run (calls ++ calls') =
      ((store.run calls).1 ++ ((store.run calls).2.run calls').1,
        ((store.run calls).2.run calls').2) := by
  induction calls generalizing store with
  | nil => rfl
  | cons call calls ih => simp only [List.cons_append, run, ih]

theorem map_call_run (store : Store) (calls : List Call) :
    (store.run calls).1.map (·.call) = calls := by
  induction calls generalizing store with
  | nil => rfl
  | cons call calls ih => simp only [run, List.map_cons, ih]

/-- A log that is cut in two comes from calls that are cut in two. -/
theorem run_of_log_eq_append {calls : List Call} {first last : List Exchange}
    (h : (store.run calls).1 = first ++ last) :
    (store.run (first.map (·.call))).1 = first ∧
      (((store.run (first.map (·.call))).2.run (last.map (·.call))).1 = last) ∧
      (store.run calls).2 =
        ((store.run (first.map (·.call))).2.run (last.map (·.call))).2 := by
  have hcalls : calls = first.map (·.call) ++ last.map (·.call) := by
    rw [← List.map_append, ← h, map_call_run]
  have hrun := run_append store (first.map (·.call)) (last.map (·.call))
  rw [← hcalls] at hrun
  have hlog := congrArg Prod.fst hrun
  rw [h] at hlog
  have hlength : first.length = (store.run (first.map (·.call))).1.length := by
    have hmap := congrArg List.length (map_call_run store (first.map (·.call)))
    simpa using hmap.symm
  obtain ⟨hfirst, hlast⟩ := List.append_inj hlog hlength
  refine ⟨hfirst.symm, hlast.symm, ?_⟩
  rw [hrun]

theorem stays_run_cons {calls : List Call} :
    Stays (store.run (call :: calls)).1 ↔
      (store.answer call).1.turns = false ∧ Stays ((store.answer call).2.run calls).1 := by
  simp [Stays, run]

/-- As long as the document stays open it takes the newer batches and counts the others. -/
theorem run_of_open {calls : List Call} (hid : ∀ call ∈ calls, call.id = id)
    (hfind : store.find id = .ok document) (hstays : Stays (store.run calls).1) :
    (store.run calls).2.find id =
        .ok (document.replay (Exchange.batches (store.run calls).1)) ∧
      Exchange.applied (store.run calls).1 =
        (Notification.newer document.version (Exchange.batches (store.run calls).1)).map
          (·.version) := by
  induction calls generalizing store document with
  | nil => exact ⟨hfind, rfl⟩
  | cons call calls ih =>
    have hcall := hid call (by simp)
    subst hcall
    have hrest : ∀ call' ∈ calls, call'.id = call.id := by
      intro call' hmem
      exact hid call' (by simp [hmem])
    obtain ⟨hturn, hstays'⟩ := stays_run_cons.1 hstays
    simp only [run, Exchange.batches, Exchange.applied, List.filterMap_cons]
    rcases call.request.kinds document with ⟨text, version, hrequest⟩ | ⟨batch, hbatch, -⟩ |
      hrequest | ⟨answer, hread, hbatch⟩
    · rw [((answered store call).opened text version hrequest).1] at hturn
      cases hturn
    · obtain ⟨hanswer, hnext⟩ := answer_change hbatch hfind
      obtain ⟨hlast, happlied⟩ := ih hrest hnext hstays'
      rw [hbatch, hanswer]
      refine ⟨?_, ?_⟩
      · rw [Document.replay_cons]
        exact hlast
      · unfold Document.change at happlied ⊢
        by_cases hle : batch.version ≤ document.version
        · simp only [hle, if_true, Answer.applied?, Notification.newer_of_le hle] at happlied ⊢
          exact happlied
        · simp only [hle, if_false, Answer.applied?,
            Notification.newer_of_lt (Int.not_le.1 hle)] at happlied ⊢
          exact congrArg _ happlied
    · rw [(answer_erase hfind hrequest).1] at hturn
      cases hturn
    · rw [answer_read hfind hread] at hstays' ⊢
      rw [hbatch, Request.applied?_of_read? hread]
      exact ih hrest hfind hstays'

/-- A document that is not open stays so until it is opened. -/
theorem run_of_unknown {calls : List Call} (hid : ∀ call ∈ calls, call.id = id)
    (hcontains : store.contains id = false) (hstays : Stays (store.run calls).1) :
    (store.run calls).2.contains id = false := by
  induction calls generalizing store with
  | nil => exact hcontains
  | cons call calls ih =>
    have hcall := hid call (by simp)
    subst hcall
    obtain ⟨hturn, hstays'⟩ := stays_run_cons.1 hstays
    have hinsert : ∀ text version, call.request ≠ .insert text version := by
      intro text version hrequest
      rw [((answered store call).opened text version hrequest).1] at hturn
      cases hturn
    have hsame := (answered store call).unknown hcontains hinsert
    simp only [run]
    rw [hsame] at hstays' ⊢
    refine ih ?_ hcontains hstays'
    intro call' hmem
    exact hid call' (by simp [hmem])

/-! ## Where the last turn was -/

theorem exists_last_turn (log : List Exchange) :
    Stays log ∨ ∃ before turn later,
      log = before ++ turn :: later ∧ turn.answer.turns = true ∧ Stays later := by
  induction log with
  | nil => exact Or.inl nofun
  | cons exchange log ih =>
    rcases ih with hstays | ⟨before, turn, later, rfl, hturn, hstays⟩
    · by_cases hturn : exchange.answer.turns = true
      · exact Or.inr ⟨[], exchange, log, rfl, hturn, hstays⟩
      · left
        intro other hmem
        rcases List.mem_cons.1 hmem with rfl | hmem
        · simpa using hturn
        · exact hstays other hmem
    · exact Or.inr ⟨exchange :: before, turn, later, rfl, hturn, hstays⟩

/-- A turn opens the document, or leaves it closed. -/
theorem opened_or_closed_of_turns (h : (store.answer call).1.turns = true) :
    (∃ text version, call.request = .insert text version) ∨
      (store.answer call).2.contains call.id = false := by
  by_cases hinsert : ∃ text version, call.request = .insert text version
  · exact Or.inl hinsert
  · right
    cases hfind : store.find call.id with
    | error error =>
      have habsent := contains_of_find_error hfind
      have hsame := (answered store call).unknown habsent (by
        intro text version hrequest
        exact hinsert ⟨text, version, hrequest⟩)
      rw [hsame]
      exact habsent
    | ok document =>
      rcases call.request.kinds document with hrequest | ⟨batch, hbatch, -⟩ | hrequest |
        ⟨answer, hread, -⟩
      · exact absurd hrequest hinsert
      · rw [(answer_change hbatch hfind).1] at h
        cases h
      · exact find_eq_error_iff.1 (answer_erase hfind hrequest).2
      · rw [answer_read hfind hread] at h
        cases hrequest : call.request <;> rw [hrequest] at hread <;> cases hread <;> cases h

/-- What the calls behind an opening make of the document, if it stays open. -/
theorem run_of_opening {calls : List Call} (hid : ∀ call ∈ calls, call.id = id)
    {before later : List Exchange} {text : String} {version : Int} {answer : Answer}
    (hlog : (store.run calls).1 = before ++ ⟨⟨id, .insert text version⟩, answer⟩ :: later)
    (hstays : Stays later) :
    (store.run calls).2.find id =
        .ok ((Document.new id text version).replay (Exchange.batches later)) ∧
      Exchange.applied later =
        (Notification.newer version (Exchange.batches later)).map (·.version) := by
  obtain ⟨-, hlast, hend⟩ := run_of_log_eq_append hlog
  rw [hend]
  generalize (store.run (before.map (·.call))).2 = between at hlast
  have hopened := ((answered between ⟨id, .insert text version⟩).opened text version rfl).2
  simp only [List.map_cons, run] at hlast ⊢
  obtain ⟨-, hlater⟩ := List.cons.inj hlast
  have hid' : ∀ call ∈ later.map (·.call), call.id = id := by
    intro call hmem
    obtain ⟨exchange, hexchange, rfl⟩ := List.mem_map.1 hmem
    apply hid
    rw [← map_call_run store calls, hlog]
    exact List.mem_map_of_mem (by simp [hexchange])
  have hrun := run_of_open hid' hopened (by rwa [hlater])
  rwa [hlater] at hrun

/-- An open document was opened, and not closed since. -/
theorem exists_opening {calls : List Call} (hid : ∀ call ∈ calls, call.id = id)
    (hstart : store.contains id = false) (hend : (store.run calls).2.contains id = true) :
    ∃ before text version replaced later,
      (store.run calls).1 = before ++ ⟨⟨id, .insert text version⟩, .opened replaced⟩ :: later ∧
        Stays later := by
  rcases exists_last_turn (store.run calls).1 with
    hstays | ⟨before, turn, later, hlog, hturn, hstays⟩
  · rw [run_of_unknown hid hstart hstays] at hend
    cases hend
  · have hid' : ∀ exchange ∈ turn :: later, exchange.call.id = id := by
      intro exchange hmem
      apply hid
      rw [← map_call_run store calls, hlog]
      exact List.mem_map_of_mem (List.mem_append_right _ hmem)
    obtain ⟨-, hlast, hstore⟩ := run_of_log_eq_append hlog
    generalize (store.run (before.map (·.call))).2 = between at hlast hstore
    simp only [List.map_cons, run] at hlast hstore
    obtain ⟨hfirst, hlater⟩ := List.cons.inj hlast
    have hanswer : (between.answer turn.call).1 = turn.answer := congrArg (·.answer) hfirst
    have hcall := hid' turn (by simp)
    rw [← hanswer] at hturn
    rcases opened_or_closed_of_turns hturn with ⟨text, version, hrequest⟩ | hclosed
    · refine ⟨before, text, version, between.contains turn.call.id, later, ?_, hstays⟩
      have hopened := ((answered between turn.call).opened text version hrequest).1
      rw [hlog, ← hopened, hanswer, ← hcall, ← hrequest]
    · rw [hcall] at hclosed
      rw [hstore, run_of_unknown ?_ hclosed (by rwa [hlater])] at hend
      · cases hend
      · intro call hmem
        obtain ⟨exchange, hexchange, rfl⟩ := List.mem_map.1 hmem
        exact hid' exchange (by simp [hexchange])

/-! ## The laws -/

/-- Every document has its own history. What is answered about it, and what it is in the end, does
not depend on other documents. It is open if the last call that opened or closed it opened it, and
then is what the batches since then make of the text that it was opened with. -/
theorem every_document_has_its_own_history (calls : List Call) :
    (∀ id, Exchange.about id (empty.run calls).1 = (empty.run (Call.on id calls)).1 ∧
      (empty.run calls).2.find id = (empty.run (Call.on id calls)).2.find id) ∧
    (∀ id document, (empty.run calls).2.find id = .ok document ↔
      ∃ before text version replaced later,
        Exchange.about id (empty.run calls).1 =
          before ++ ⟨⟨id, .insert text version⟩, .opened replaced⟩ :: later ∧
        Stays later ∧
        document = (Document.new id text version).replay (Exchange.batches later)) ∧
    (∀ id before text version answer later after,
      Exchange.about id (empty.run calls).1 =
        before ++ ⟨⟨id, .insert text version⟩, answer⟩ :: (later ++ after) →
      Stays later → (version :: Exchange.applied later).Pairwise (· < ·)) ∧
    (∀ call, (empty.run calls).2.Answered call) ∧
    ∃ ids : List String, ids.Nodup ∧ (∀ id, id ∈ ids ↔ (empty.run calls).2.contains id = true) ∧
      (empty.run calls).2.size = ids.length := by
  have hid : ∀ id, ∀ call ∈ Call.on id calls, call.id = id := by
    intro id call hmem
    simpa using (List.mem_filter.1 hmem).2
  refine ⟨fun id => run_on calls rfl, ?_, ?_, answered _, ?_⟩
  · intro id document
    obtain ⟨hlog, hfind⟩ := run_on calls (rfl : empty.find id = empty.find id)
    rw [hlog, hfind]
    constructor
    · intro hdocument
      obtain ⟨before, text, version, replaced, later, hopening, hstays⟩ :=
        exists_opening (hid id) (find_eq_error_iff.1 (find_empty id))
          (contains_iff.2 ⟨document, hdocument⟩)
      refine ⟨before, text, version, replaced, later, hopening, hstays, ?_⟩
      rw [(run_of_opening (hid id) hopening hstays).1] at hdocument
      exact (Except.ok.inj hdocument).symm
    · rintro ⟨before, text, version, replaced, later, hopening, hstays, rfl⟩
      exact (run_of_opening (hid id) hopening hstays).1
  · intro id before text version answer later after hopening hstays
    rw [(run_on calls (rfl : empty.find id = empty.find id)).1] at hopening
    have hsplit : (empty.run (Call.on id calls)).1 =
        (before ++ ⟨⟨id, .insert text version⟩, answer⟩ :: later) ++ after := by
      rw [hopening]
      simp
    obtain ⟨hfirst, -, -⟩ := run_of_log_eq_append hsplit
    have happlied := (run_of_opening ?_ hfirst hstays).2
    · rw [happlied]
      exact Notification.increasing_newer version _
    · intro call hmem
      apply hid id
      rw [← map_call_run empty (Call.on id calls), hsplit, List.map_append]
      exact List.mem_append_left _ hmem
  · refine ⟨(empty.run calls).2.documents.keys, Std.TreeMap.nodup_keys, ?_, ?_⟩
    · intro id
      rw [Std.TreeMap.mem_keys, Std.TreeMap.mem_iff_contains]
      rfl
    · rw [Std.TreeMap.length_keys]
      rfl

/-- A document that is edited between two calls on another one. Its second batch comes too late. -/
def editedCalls : List Call :=
  [⟨"a", .insert "one\ntwo" 1⟩, ⟨"b", .insert "x" 7⟩,
    ⟨"a", .change 3 [.rangeEdit ⟨⟨1, 0⟩, ⟨1, 3⟩⟩ "three", .rangeEdit ⟨⟨0, 0⟩, ⟨0, 1⟩⟩ "O"]⟩,
    ⟨"a", .changeOne 2 (.fullText "lost")⟩, ⟨"b", .erase⟩, ⟨"a", .snapshot⟩]

/-- Both edits of the first batch are made, one after the other. -/
theorem the_history_of_an_edited_document :
    ∃ later, Exchange.about "a" (empty.run editedCalls).1 =
        ⟨⟨"a", .insert "one\ntwo" 1⟩, .opened false⟩ :: later ∧
      Stays later ∧ Exchange.applied later = [3] ∧
      (empty.run editedCalls).2.find "a" = .ok ⟨"a", 3, "One\nthree", 1⟩ ∧
      (empty.run editedCalls).2.size = 1 := by
  obtain ⟨-, hfinal, -⟩ := every_document_has_its_own_history editedCalls
  have hstays : Stays (Exchange.about "a" (empty.run editedCalls).1).tail := by
    unfold Stays
    decide +kernel
  refine ⟨_, rfl, hstays, rfl, (hfinal "a" _).2 ⟨[], "one\ntwo", 1, false, _, rfl, hstays, ?_⟩, rfl⟩
  decide +kernel

end Store

end CaplOutline
