-- What the symbol of a declaration shows of it. A variable shows its type, up to the first
-- name that is declared with it, and a function shows its signature, up to where its
-- parameters end. Both start with a word, so neither is empty.
import CaplOutline.Proofs.Outline.Detail
import CaplOutline.Proofs.Outline.Marks
import CaplOutline.Proofs.Outline.Places
import CaplOutline.Proofs.Token.Bounds

namespace CaplOutline.Outline

open Text

/-! ## Declarations in the text -/

/-- The header with one more word, or with a connector behind its words. -/
def DeclarationHeader.read (header : DeclarationHeader) (token : Token) : DeclarationHeader :=
  if token.isWord then header.addWord token else { header with last := token }

/-- The tokens `seen` end in the first words of a declaration. It was opened by the first of them,
and they are all words and connectors. -/
structure DeclarationHeader.ReadBy (source : String) (options : Options) (seen : List Token)
    (header : DeclarationHeader) : Prop where
  phase_eq : (Machine.run source options seen).phase = .inHeader (.declaration header)
  opens : header.first.kind.opensDeclaration = true
  words : ∃ before words, seen = before ++ header.first :: words ∧
    (Machine.run source options (before ++ [header.first])).phase =
      .inHeader (.declaration (.ofToken header.first)) ∧
    header = words.foldl read (.ofToken header.first) ∧
    ∀ word ∈ words, word.isWord = true ∨ isConnector word = true

/-- Behind `seen` all of these tokens are read as declarators of one declaration. -/
def ReadsDeclarators (source : String) (options : Options) (seen tokens : List Token) : Prop :=
  ∀ front, front <+: tokens → front ≠ [] →
    ∃ list, (Machine.run source options (seen ++ front)).phase = .inHeader (.declarators list)

/-- A declaration with these first words, with the tokens `rest` behind them, declares a variable
that starts here and is selected here. -/
inductive DeclarationHeader.Declares (source : String) (options : Options) (seen rest : List Token)
    (header : DeclarationHeader) (name : Token) : Position → Range → Prop
  /-- The name behind the type. -/
  | first : Declares source options seen rest header name header.first.range.start name.range
  /-- A name behind a comma. -/
  | next {between after : List Token} {token : Token} :
      rest = between ++ token :: after →
      ReadsDeclarators source options seen (between ++ [token]) →
      Declares source options seen rest header name token.range.start token.range

/-- The tokens of a parameter list in which `parens` parentheses are open: all up to the one that
closes the last of them, or up to where it is cut off. -/
def parametersOf (parens : Nat) : List Token → List Token
  | [] => []
  | token :: rest =>
    match token.kind with
    | .openParen => token :: parametersOf (parens + 1) rest
    | .closeParen => if parens ≤ 1 then [token] else token :: parametersOf (parens - 1) rest
    | .openBrace | .closeBrace | .semicolon | .keyword .on => []
    | _ => token :: parametersOf parens rest

/-- What a symbol with this mark shows of its declaration: a variable the source from the first word
of the declaration up to the first name that it declares, and a function the source from its first
word to the end of its parameters. -/
inductive Shows (source : String) (options : Options) (mark : Mark) : String → Prop
  | type {seen rest : List Token} {header : DeclarationHeader} {name : Token} :
      mark.kind = .var → Token.ofText source = seen ++ rest → header.ReadBy source options seen →
      header.hasDeclarator = true → header.name = some name →
      header.Declares source options seen rest name mark.start mark.selection →
      Shows source options mark (detailOf (slice source header.first.span.start name.span.start))
  | signature {seen rest : List Token} {header : DeclarationHeader} {name opening : Token} :
      mark.kind = .function → Token.ofText source = seen ++ opening :: rest →
      header.ReadBy source options seen → header.name = some name → opening.kind = .openParen →
      mark.start = header.first.range.start → mark.selection = name.range →
      Shows source options mark (detailOf (slice source header.first.span.start
        ((parametersOf 1 rest).getLastD opening).span.stop))

/-- The text ends in the first words of the declaration of this symbol. -/
structure IsCutOff (source : String) (options : Options) (symbol : Symbol) : Prop where
  header : ∃ (header : DeclarationHeader) (name : Token),
    header.ReadBy source options (Token.ofText source) ∧ header.name = some name ∧
    symbol.kind = (if header.isFunction then .function else .var) ∧
    symbol.range = ⟨header.first.range.start, header.last.range.stop⟩ ∧
    symbol.selection = name.range

/-! ## The first words -/

section ReadBy

variable {source : String} {options : Options} {seen : List Token} {header : DeclarationHeader}
  {token name : Token}

theorem DeclarationHeader.readBy_first
    (hphase : (Machine.run source options (seen ++ [token])).phase =
      .inHeader (.declaration (.ofToken token)))
    (hopens : token.kind.opensDeclaration = true) :
    (ofToken token).ReadBy source options (seen ++ [token]) :=
  ⟨hphase, hopens, seen, [], rfl, hphase, rfl, nofun⟩

theorem DeclarationHeader.first_read (header : DeclarationHeader) (token : Token) :
    (header.read token).first = header.first := by
  unfold read
  split <;> rfl

theorem DeclarationHeader.ReadBy.read (h : header.ReadBy source options seen)
    (hphase : (Machine.run source options (seen ++ [token])).phase =
      .inHeader (.declaration (header.read token)))
    (hword : token.isWord = true ∨ isConnector token = true) :
    (header.read token).ReadBy source options (seen ++ [token]) := by
  obtain ⟨-, hopens, before, words, rfl, hfirst, hheader, hwords⟩ := h
  refine ⟨hphase, ?_, before, words ++ [token], ?_, ?_, ?_, ?_⟩
  · rwa [first_read]
  · rw [first_read]
    simp
  · rwa [first_read]
  · rw [first_read, List.foldl_concat, ← hheader]
  · intro word hmem
    rcases List.mem_append.1 hmem with hmem | hmem
    · exact hwords word hmem
    · rw [List.mem_singleton.1 hmem]
      exact hword

/-- The name in a header is one of its words. -/
theorem DeclarationHeader.name_foldl_read (first : Token) (words : List Token) :
    (2 ≤ (words.foldl read (ofToken first)).words →
      (words.foldl read (ofToken first)).name.isSome = true) ∧
    ∀ name ∈ (words.foldl read (ofToken first)).name, name ∈ words := by
  induction words using List.reverseRecOn with
  | nil => exact ⟨fun h => absurd h (by simp [ofToken]), nofun⟩
  | append_singleton words word ih =>
    rw [List.foldl_concat]
    unfold read
    split
    · refine ⟨fun _ => rfl, ?_⟩
      intro name hname
      cases hname
      simp
    · refine ⟨ih.1, ?_⟩
      intro name hname
      exact List.mem_append_left _ (ih.2 name hname)

theorem DeclarationHeader.ReadBy.exists_name (h : header.ReadBy source options seen)
    (hwords : 2 ≤ header.words) : ∃ name, header.name = some name := by
  obtain ⟨-, -, before, words, -, -, hheader, -⟩ := h
  rw [hheader] at hwords ⊢
  exact Option.isSome_iff_exists.1 ((name_foldl_read header.first words).1 hwords)

theorem DeclarationHeader.two_le_words (h : header.hasDeclarator = true) : 2 ≤ header.words := by
  unfold hasDeclarator at h
  simpa using (Bool.and_eq_true_iff.1 h).1

end ReadBy

/-! ## Details are not empty -/

section NotEmpty

variable {source : String} {options : Options} {seen : List Token} {header : DeclarationHeader}
  {first token name : Token}

/-- A piece of source that starts with a word has a detail. -/
theorem detailOf_slice_ne_empty (hfirst : first ∈ Token.ofText source)
    (hword : first.isWord = true) {stop : Nat} (hstop : isBoundary source stop = true)
    (hlt : first.span.start < stop) : detailOf (slice source first.span.start stop) ≠ "" := by
  obtain ⟨front, back, hstands⟩ := Token.standsIn_of_mem hfirst
  obtain ⟨pre, post, hsplit, rfl⟩ := isBoundary_iff.1 hstop
  have htext := hstands.split
  rw [List.append_assoc] at htext
  rw [hstands.span_eq] at hlt ⊢
  dsimp only at hlt ⊢
  obtain ⟨c, cs, hchars⟩ := List.exists_cons_of_ne_nil hstands.ne_nil
  have hblank : isBlank c = false :=
    isBlank_of_isWordChar ((Token.spelled_of_mem hfirst hword).1 c (by simp [hchars]))
  rcases List.append_eq_append_iff.1 (htext.symm.trans hsplit) with ⟨mid, rfl, hmid⟩ | ⟨mid, rfl, -⟩
  · cases mid with
    | nil => simp at hlt
    | cons d mid =>
      rw [hchars] at hmid
      obtain ⟨rfl, -⟩ := List.cons.inj hmid
      rw [byteLength_append, slice_eq (by rw [hsplit])]
      exact detailOf_ne_empty (String.toList_ofList) hblank
  · rw [byteLength_append] at hlt
    omega

/-- The name of a declaration stands behind its first word. -/
theorem DeclarationHeader.ReadBy.precedes {rest : List Token}
    (h : header.ReadBy source options seen) (htokens : Token.ofText source = seen ++ rest) :
    header.first ∈ Token.ofText source ∧
      (∀ name ∈ header.name, name ∈ Token.ofText source ∧ header.first.Precedes name) ∧
      ∀ token ∈ rest, header.first.Precedes token := by
  obtain ⟨-, -, before, words, rfl, -, hheader, -⟩ := h
  have hpairs := Token.pairwise_precedes source
  rw [htokens, List.append_assoc, List.pairwise_append] at hpairs
  have hbehind := (List.pairwise_cons.1 hpairs.2.1).1
  refine ⟨by simp [htokens], ?_, fun token hmem => hbehind token (List.mem_append_right _ hmem)⟩
  intro name hname
  rw [hheader] at hname
  have hmem := (name_foldl_read header.first words).2 name hname
  exact ⟨by simp [htokens, hmem], hbehind name (List.mem_append_left _ hmem)⟩

theorem parametersOf_prefix (parens : Nat) (tokens : List Token) :
    parametersOf parens tokens <+: tokens := by
  induction tokens generalizing parens with
  | nil => exact List.nil_prefix
  | cons token tokens ih =>
    unfold parametersOf
    split
    · exact List.cons_prefix_cons.2 ⟨rfl, ih _⟩
    · split
      · exact List.cons_prefix_cons.2 ⟨rfl, List.nil_prefix⟩
      · exact List.cons_prefix_cons.2 ⟨rfl, ih _⟩
    iterate 4 exact List.nil_prefix
    · exact List.cons_prefix_cons.2 ⟨rfl, ih _⟩

theorem Shows.ne_empty {mark : Mark} {detail : String} (h : Shows source options mark detail) :
    detail ≠ "" := by
  cases h with
  | type hkind htokens hread hdeclares hname _ =>
    obtain ⟨hfirst, hnames, -⟩ := hread.precedes htokens
    obtain ⟨hmem, hprecedes⟩ := hnames _ hname
    have hstart := (Token.standsIn_of_mem hfirst).span_start_lt_stop
    exact detailOf_slice_ne_empty hfirst (TokenKind.isWord_of_opensDeclaration hread.opens)
      (Token.standsIn_of_mem hmem).isBoundary.1 (Nat.lt_of_lt_of_le hstart hprecedes.bytes)
  | @signature seen rest header name opening hkind htokens hread hname hopening hstart hselection =>
    obtain ⟨hfirst, -, hrest⟩ := hread.precedes htokens
    have hlast : (parametersOf 1 rest).getLastD opening ∈ opening :: rest :=
      (List.cons_prefix_cons.2 ⟨rfl, parametersOf_prefix 1 rest⟩).subset List.getLastD_mem_cons
    have hmem : (parametersOf 1 rest).getLastD opening ∈ Token.ofText source := by
      rw [htokens]
      exact List.mem_append_right _ hlast
    have hfirstWord := (Token.standsIn_of_mem hfirst).span_start_lt_stop
    have hlastWord := (Token.standsIn_of_mem hmem).span_start_lt_stop
    have hbytes := (hrest _ hlast).bytes
    exact detailOf_slice_ne_empty hfirst (TokenKind.isWord_of_opensDeclaration hread.opens)
      (Token.standsIn_of_mem hmem).isBoundary.2 (by omega)

end NotEmpty

end CaplOutline.Outline
