-- Which brace closes which. A closing brace belongs to the nearest opening brace in front of
-- it that no other one has closed, and a text has only one such matching. The depth of a token
-- counts the opening braces in front of it that it leaves unmatched.
import Mathlib.Data.Set.Card
import CaplOutline.Proofs.Token.Reading

namespace CaplOutline

namespace Token

variable {tokens : List Token} {closes closes' : Nat → Nat → Prop} {i j n : Nat}

/-! ## The matching -/

def kindAt (tokens : List Token) (i : Nat) : Option TokenKind := tokens[i]?.map (·.kind)

/-- At the `i`-th token an opening brace stands before the `n`-th token, and nothing in front of the
`n`-th token closes it. -/
def IsUnmatched (tokens : List Token) (closes : Nat → Nat → Prop) (i n : Nat) : Prop :=
  i < n ∧ kindAt tokens i = some .openBrace ∧ ∀ j < n, ¬ closes i j

/-- The `j`-th token closes the `i`-th one if it is a closing brace, and the `i`-th one is the
nearest opening brace in front of it that is unmatched there. -/
def IsMatching (tokens : List Token) (closes : Nat → Nat → Prop) : Prop :=
  ∀ i j, closes i j ↔ kindAt tokens j = some .closeBrace ∧ IsUnmatched tokens closes i j ∧
    ∀ k, IsUnmatched tokens closes k j → k ≤ i

theorem IsUnmatched.congr (h : ∀ j < n, ∀ i, closes i j ↔ closes' i j) :
    IsUnmatched tokens closes i n ↔ IsUnmatched tokens closes' i n := by
  unfold IsUnmatched
  refine and_congr_right fun _ => and_congr_right fun _ => forall₂_congr fun j hj => ?_
  rw [h j hj i]

/-- What a closing brace matches is fixed by the tokens in front of it. -/
theorem IsMatching.unique (h : IsMatching tokens closes) (h' : IsMatching tokens closes') :
    closes = closes' := by
  have hsame : ∀ j i, closes i j ↔ closes' i j := by
    intro j
    induction j using Nat.strong_induction_on with
    | _ j ih =>
      intro i
      have hunmatched : ∀ k, IsUnmatched tokens closes k j ↔ IsUnmatched tokens closes' k j :=
        fun _ => IsUnmatched.congr ih
      rw [h i j, h' i j]
      simp only [hunmatched]
  funext i j
  exact propext (hsame j i)

/-! ## The unmatched braces -/

/-- The opening braces that are unmatched before the `n`-th token, the nearest one first. -/
def unmatched (tokens : List Token) : Nat → List Nat
  | 0 => []
  | n + 1 =>
    match kindAt tokens n with
    | some .openBrace => n :: unmatched tokens n
    | some .closeBrace => (unmatched tokens n).tail
    | _ => unmatched tokens n

theorem unmatched_succ_of_open (h : kindAt tokens n = some .openBrace) :
    unmatched tokens (n + 1) = n :: unmatched tokens n := by
  rw [unmatched, h]

theorem unmatched_succ_of_close (h : kindAt tokens n = some .closeBrace) :
    unmatched tokens (n + 1) = (unmatched tokens n).tail := by
  rw [unmatched, h]

theorem unmatched_succ_of_ne (hopen : kindAt tokens n ≠ some .openBrace)
    (hclose : kindAt tokens n ≠ some .closeBrace) :
    unmatched tokens (n + 1) = unmatched tokens n := by
  rw [unmatched]
  split
  · contradiction
  · contradiction
  · rfl

theorem lt_of_mem_unmatched (h : i ∈ unmatched tokens n) : i < n := by
  induction n with
  | zero => cases h
  | succ n ih =>
    rw [unmatched] at h
    split at h
    · rcases List.mem_cons.1 h with rfl | h
      · exact Nat.lt_succ_self i
      · exact Nat.lt_succ_of_lt (ih h)
    · exact Nat.lt_succ_of_lt (ih (List.mem_of_mem_tail h))
    · exact Nat.lt_succ_of_lt (ih h)

theorem pairwise_unmatched (tokens : List Token) (n : Nat) :
    (unmatched tokens n).Pairwise (· > ·) := by
  induction n with
  | zero => exact .nil
  | succ n ih =>
    rw [unmatched]
    split
    · exact .cons (fun _ h => lt_of_mem_unmatched h) ih
    · exact ih.tail
    · exact ih

theorem nodup_unmatched (tokens : List Token) (n : Nat) : (unmatched tokens n).Nodup :=
  (pairwise_unmatched tokens n).imp fun h => Nat.ne_of_gt h

/-- The `j`-th token is a closing brace, and the `i`-th one the nearest unmatched one before it. -/
def Closes (tokens : List Token) (i j : Nat) : Prop :=
  kindAt tokens j = some .closeBrace ∧ (unmatched tokens j).head? = some i

theorem lt_of_closes (h : Closes tokens i j) : i < j :=
  lt_of_mem_unmatched (List.mem_of_mem_head? h.2)

/-- What one token does to the unmatched braces. -/
theorem isUnmatched_succ :
    IsUnmatched tokens (Closes tokens) i (n + 1) ↔
      (IsUnmatched tokens (Closes tokens) i n ∧ ¬ Closes tokens i n) ∨
        (i = n ∧ kindAt tokens n = some .openBrace) := by
  unfold IsUnmatched
  constructor
  · rintro ⟨hlt, hopen, hfree⟩
    rcases Nat.lt_succ_iff_lt_or_eq.1 hlt with hlt | rfl
    · exact Or.inl ⟨⟨hlt, hopen, fun j hj => hfree j (Nat.lt_succ_of_lt hj)⟩,
        hfree n (Nat.lt_succ_self n)⟩
    · exact Or.inr ⟨rfl, hopen⟩
  · rintro (⟨⟨hlt, hopen, hfree⟩, hnow⟩ | ⟨rfl, hopen⟩)
    · refine ⟨Nat.lt_succ_of_lt hlt, hopen, fun j hj => ?_⟩
      rcases Nat.lt_succ_iff_lt_or_eq.1 hj with hj | rfl
      · exact hfree j hj
      · exact hnow
    · exact ⟨Nat.lt_succ_self i, hopen, fun j hj h =>
        absurd (lt_of_closes h) (Nat.not_lt.2 (Nat.le_of_lt_succ hj))⟩

/-- Without its first member a list still holds all the others. -/
theorem mem_tail_iff_of_nodup {l : List Nat} (h : l.Nodup) :
    i ∈ l.tail ↔ i ∈ l ∧ l.head? ≠ some i := by
  cases l with
  | nil => simp
  | cons k l =>
    have hnotin := (List.nodup_cons.1 h).1
    rw [List.tail_cons, List.head?_cons, List.mem_cons, ne_eq, Option.some.injEq]
    constructor
    · intro hmem
      refine ⟨Or.inr hmem, ?_⟩
      rintro rfl
      exact hnotin hmem
    · rintro ⟨rfl | hmem, hne⟩
      · exact absurd rfl hne
      · exact hmem

theorem mem_unmatched_iff :
    i ∈ unmatched tokens n ↔ IsUnmatched tokens (Closes tokens) i n := by
  induction n with
  | zero => exact ⟨nofun, fun h => absurd h.1 (Nat.not_lt_zero i)⟩
  | succ n ih =>
    rw [isUnmatched_succ, ← ih]
    unfold Closes
    by_cases hopen : kindAt tokens n = some .openBrace
    · rw [unmatched_succ_of_open hopen, hopen, List.mem_cons]
      simp [or_comm]
    by_cases hclose : kindAt tokens n = some .closeBrace
    · rw [unmatched_succ_of_close hclose, mem_tail_iff_of_nodup (nodup_unmatched tokens n), hclose]
      simp
    · rw [unmatched_succ_of_ne hopen hclose]
      simp [hopen, hclose]

/-- Among numbers that fall, the first one is the greatest one. -/
theorem head?_eq_some_iff_of_pairwise {l : List Nat} (h : l.Pairwise (· > ·)) :
    l.head? = some i ↔ i ∈ l ∧ ∀ k ∈ l, k ≤ i := by
  cases h with
  | nil => simp
  | @cons k l hlt _ =>
    rw [List.head?_cons, Option.some.injEq]
    constructor
    · rintro rfl
      exact ⟨List.mem_cons_self, List.forall_mem_cons.2 ⟨le_rfl, fun m hm => (hlt m hm).le⟩⟩
    · rintro ⟨hmem, hmax⟩
      rcases List.mem_cons.1 hmem with rfl | hmem
      · rfl
      · exact absurd (hlt i hmem) (Nat.not_lt.2 (hmax k List.mem_cons_self))

theorem isMatching_closes (tokens : List Token) : IsMatching tokens (Closes tokens) := by
  intro i j
  have hhead := head?_eq_some_iff_of_pairwise (i := i) (pairwise_unmatched tokens j)
  simp only [mem_unmatched_iff] at hhead
  exact and_congr_right fun _ => hhead

/-! ## The braces around a brace -/

/-- Around a brace that is still unmatched stand the braces that were unmatched before it. -/
theorem suffix_unmatched (h : i ∈ unmatched tokens n) :
    i :: unmatched tokens i <:+ unmatched tokens n := by
  induction n with
  | zero => cases h
  | succ n ih =>
    rw [unmatched] at h ⊢
    split at h
    · rcases List.mem_cons.1 h with rfl | h
      · exact List.suffix_rfl
      · exact (ih h).trans (List.suffix_cons _ _)
    · have hsuffix := ih (List.mem_of_mem_tail h)
      cases hbefore : unmatched tokens n with
      | nil =>
        rw [hbefore] at h
        cases h
      | cons k outer =>
        rw [hbefore] at h hsuffix
        rcases List.suffix_cons_iff.1 hsuffix with hall | hsuffix
        · -- The brace would be unmatched before itself.
          cases hall
          exact absurd (lt_of_mem_unmatched h) (Nat.lt_irrefl _)
        · exact hsuffix
    · exact ih h

theorem unmatched_of_closes (h : Closes tokens i j) :
    unmatched tokens j = i :: unmatched tokens i := by
  have hsuffix := suffix_unmatched (List.mem_of_mem_head? h.2)
  obtain ⟨outer, hbefore⟩ := List.head?_eq_some_iff.1 h.2
  have hnodup := nodup_unmatched tokens j
  rw [hbefore] at hsuffix hnodup ⊢
  rcases List.suffix_cons_iff.1 hsuffix with hall | hsuffix
  · exact hall.symm
  · exact absurd (hsuffix.subset List.mem_cons_self) (List.nodup_cons.1 hnodup).1

/-! ## Depths -/

theorem length_unmatched (tokens : List Token) (n : Nat) :
    (tokens.take n).foldl (fun depth token => Cursor.depthAfter depth token.kind) 0 =
      (unmatched tokens n).length := by
  induction n with
  | zero => rfl
  | succ n ih =>
    rw [List.take_add_one, List.foldl_append, ih, unmatched]
    unfold kindAt
    cases tokens[n]? with
    | none => rfl
    | some token =>
      rw [Option.toList_some, List.foldl_cons, List.foldl_nil, Option.map_some]
      cases token.kind <;> simp [Cursor.depthAfter]

theorem ncard_setOf_mem {l : List Nat} (h : l.Nodup) : {i | i ∈ l}.ncard = l.length := by
  rw [← List.coe_toFinset, Set.ncard_coe_finset, List.toFinset_card_of_nodup h]

/-- The unmatched braces before a token, but for the one that it closes. -/
theorem ncard_outside {kind : TokenKind} (h : kindAt tokens n = some kind) :
    {i | IsUnmatched tokens (Closes tokens) i n ∧ ¬ Closes tokens i n}.ncard =
      Cursor.depthAt (unmatched tokens n).length kind := by
  have hnodup := nodup_unmatched tokens n
  simp only [← mem_unmatched_iff]
  unfold Closes
  rw [h]
  by_cases hclose : kind = .closeBrace
  · subst hclose
    have htail : {i | i ∈ unmatched tokens n ∧ ¬ (some TokenKind.closeBrace = some .closeBrace ∧
        (unmatched tokens n).head? = some i)} = {i | i ∈ (unmatched tokens n).tail} := by
      ext i
      rw [Set.mem_ofPred_eq, Set.mem_ofPred_eq, mem_tail_iff_of_nodup hnodup]
      simp
    rw [htail, ncard_setOf_mem hnodup.tail, List.length_tail]
    rfl
  · have hdepth : Cursor.depthAt (unmatched tokens n).length kind =
        (unmatched tokens n).length := by
      unfold Cursor.depthAt
      split
      · contradiction
      · rfl
    simp only [Option.some.injEq, hclose, false_and, not_false_eq_true, and_true]
    rw [ncard_setOf_mem hnodup, hdepth]

/-- Inside a brace that is not closed yet there is one more of them. -/
theorem length_lt_depthAt {kind : TokenKind} (h : i ∈ unmatched tokens (n + 1)) (hlt : i < n)
    (hkind : kindAt tokens n = some kind) :
    (unmatched tokens i).length < Cursor.depthAt (unmatched tokens n).length kind := by
  have hsuffix := (suffix_unmatched h).length_le
  by_cases hopen : kind = .openBrace
  · subst hopen
    rw [unmatched_succ_of_open hkind, List.mem_cons] at h
    exact (suffix_unmatched (h.resolve_left hlt.ne)).length_le
  by_cases hclose : kind = .closeBrace
  · subst hclose
    rw [unmatched_succ_of_close hkind, List.length_tail] at hsuffix
    exact hsuffix
  · rw [unmatched_succ_of_ne (by simpa [hkind]) (by simpa [hkind])] at hsuffix
    unfold Cursor.depthAt
    split
    · contradiction
    · exact hsuffix

end Token

namespace Cursor.Reads

variable {cursor stop : Cursor} {tokens seen after : List Token} {token : Token}

theorem depth_stop (h : cursor.Reads tokens stop) :
    stop.depth = tokens.foldl (fun depth token => depthAfter depth token.kind) cursor.depth := by
  induction h with
  | nil hnext => exact (stop_of_next hnext).2
  | cons hnext _ ih => rw [ih, (yields_of_next hnext).depth_after, List.foldl_cons]

theorem depth_at (h : cursor.Reads (seen ++ token :: after) stop) :
    token.depth = depthAt (seen.foldl (fun depth token => depthAfter depth token.kind)
      cursor.depth) token.kind := by
  induction seen generalizing cursor with
  | nil =>
    cases h with
    | cons hnext _ => exact (yields_of_next hnext).depth_at
  | cons first seen ih =>
    cases h with
    | cons hnext hreads =>
      rw [ih hreads, (yields_of_next hnext).depth_after, List.foldl_cons]

end Cursor.Reads

namespace Token

theorem depth_eq {text : String} {n : Nat} {token : Token} (h : (ofText text)[n]? = some token) :
    token.depth = Cursor.depthAt (unmatched (ofText text) n).length token.kind := by
  have hreads := Cursor.reads_scan text
  rw [← List.take_append_drop n (ofText text), List.drop_eq_getElem?_toList_append, h] at hreads
  rw [hreads.depth_at, ← length_unmatched]
  rfl

/-- What is open at the end of a text is what nothing closes. -/
theorem depth_scan (text : String) :
    (scan text).2.depth = {i | kindAt (ofText text) i = some .openBrace ∧
      ∀ j, ¬ Closes (ofText text) i j}.ncard := by
  have hlt : ∀ {i kind}, kindAt (ofText text) i = some kind → i < (ofText text).length := by
    intro i kind h
    obtain ⟨token, htoken, -⟩ := Option.map_eq_some_iff.1 h
    exact (List.getElem?_eq_some_iff.1 htoken).1
  have hset : {i | kindAt (ofText text) i = some .openBrace ∧ ∀ j, ¬ Closes (ofText text) i j} =
      {i | i ∈ unmatched (ofText text) (ofText text).length} := by
    ext i
    rw [Set.mem_ofPred_eq, Set.mem_ofPred_eq, mem_unmatched_iff]
    constructor
    · rintro ⟨hopen, hfree⟩
      exact ⟨hlt hopen, hopen, fun j _ => hfree j⟩
    · rintro ⟨-, hopen, hfree⟩
      exact ⟨hopen, fun j h => hfree j (hlt h.1) h⟩
  rw [hset, ncard_setOf_mem (nodup_unmatched _ _), ← length_unmatched, List.take_length]
  exact (Cursor.reads_scan text).depth_stop

/-! ## The law -/

/-- The braces of every text are matched in one way. The depth of a token is the number of opening
braces in front of it that are unmatched there, without the one that it closes. So the two braces
of a pair have one depth and the tokens between them larger ones, a closing brace without its
opening one has none, and what is open at the end of the text is what nothing closes. -/
theorem depths_count_unmatched_braces (text : String) :
    (∃! closes, IsMatching (ofText text) closes) ∧
    ∀ closes, IsMatching (ofText text) closes →
      (∀ n token, (ofText text)[n]? = some token →
        token.depth = {i | IsUnmatched (ofText text) closes i n ∧ ¬ closes i n}.ncard) ∧
      (∀ i j first last, closes i j → (ofText text)[i]? = some first →
        (ofText text)[j]? = some last → first.depth = last.depth ∧
          ∀ k token, i < k → k < j → (ofText text)[k]? = some token → first.depth < token.depth) ∧
      (∀ j token, (ofText text)[j]? = some token → token.kind = .closeBrace →
        (∀ i, ¬ closes i j) → token.depth = 0) ∧
      (scan text).2.depth =
        {i | kindAt (ofText text) i = some .openBrace ∧ ∀ j, ¬ closes i j}.ncard := by
  have hkind : ∀ n token, (ofText text)[n]? = some token →
      kindAt (ofText text) n = some token.kind := fun n token h => congrArg (Option.map _) h
  have hmatching := isMatching_closes (ofText text)
  refine ⟨⟨_, hmatching, fun _ h => h.unique hmatching⟩, fun closes h => ?_⟩
  obtain rfl := h.unique hmatching
  refine ⟨?_, ?_, ?_, ?_⟩
  · intro n token hn
    rw [depth_eq hn, ncard_outside (hkind n token hn)]
  · intro i j first last hcloses hi hj
    have hmem : i ∈ unmatched (ofText text) j := List.mem_of_mem_head? hcloses.2
    obtain ⟨-, hopen, hfree⟩ := mem_unmatched_iff.1 hmem
    have hfirst := depth_eq hi
    have hlast := depth_eq hj
    rw [← Option.some.inj (hopen.symm.trans (hkind i first hi))] at hfirst
    rw [← Option.some.inj (hcloses.1.symm.trans (hkind j last hj)), unmatched_of_closes hcloses]
      at hlast
    refine ⟨hfirst.trans hlast.symm, fun k token hik hkj hk => ?_⟩
    have hinside : i ∈ unmatched (ofText text) (k + 1) := mem_unmatched_iff.2
      ⟨Nat.lt_succ_of_lt hik, hopen, fun m hm => hfree m (lt_of_lt_of_le hm hkj)⟩
    rw [hfirst, depth_eq hk]
    exact length_lt_depthAt hinside hik (hkind k token hk)
  · intro j token hj hclose hfree
    have hnone : unmatched (ofText text) j = [] := by
      cases hbefore : unmatched (ofText text) j with
      | nil => rfl
      | cons i outer =>
        refine absurd ⟨?_, ?_⟩ (hfree i)
        · rw [hkind j token hj, hclose]
        · rw [hbefore]
          rfl
    rw [depth_eq hj, hnone, hclose]
    rfl
  · exact depth_scan text

example : (ofText "\x7d \x7b a \x7d \x7b \x7b").map (·.depth) = [0, 0, 1, 0, 0, 1] ∧
    (scan "\x7d \x7b a \x7d \x7b \x7b").2.depth = 2 := by
  decide +kernel

end Token

end CaplOutline
