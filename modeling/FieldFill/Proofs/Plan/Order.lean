import FieldFill.Proofs.Layout.Extent
import FieldFill.Proofs.Outline.Disjoint
import FieldFill.Proofs.Plan.Place
import FieldFill.Proofs.Plan.Splice
import Mathlib.Data.List.Pairwise

/-!
# The order of the places

In any program, new statements go to the start of a physical line. This place is behind the parameter
list of the initializer they are for, and in front of the parameter list of every initializer that
stands further down, so the places of two initializers are different. Only what a valid program has
by its grammar is asked for: consistent indentation, and parameter lists in front of bodies.

Main definitions:

* `IsSeam` — a byte position between two lines of code.
* `ListFirst` — the parameter list of a header stands in front of its body.
* `WellFormed` — programs with consistent indentation and such headers.

Main results:

* `InFrontOf.exists_seam` — between two lines of code, a physical line begins.
* `Site.Fills.openParen_lt`, `Site.Fills.le_openParen` — a place is behind the parameter list of its
  own initializer, and in front of those of later ones.
* `Site.Fills.takesLines` — whole lines can go to the place.
* `pairwise_offset` — two classes have their statements at different places.
-/

namespace FieldFill

/-! ## Line starts -/

section

variable {source x y : Text} {place : Nat}

theorem nextLineStart_eq (h : splitAt? source place = some (x, y)) :
    nextLineStart source place = place + byteLength (breakLine y).1 := by
  rw [nextLineStart, h]

/-- Whole lines can go to the line start behind a place. -/
theorem takesLines_nextLineStart (h : splitAt? source place = some (x, y)) (hPos : 0 < place) :
    TakesLines source (nextLineStart source place) := by
  obtain ⟨rfl, rfl⟩ := eq_of_splitAt? h
  refine ⟨x ++ (breakLine y).1, (breakLine y).2, ?_, ?_, ?_⟩
  · have hSplit := splitAt?_byteLength (x ++ (breakLine y).1) (breakLine y).2
    rwa [List.append_assoc, breakLine_append, byteLength_append, ← nextLineStart_eq h] at hSplit
  · rw [nextLineStart_eq h]
    omega
  · exact (breakLine_ends y).imp (fun hEnds => endsInNewline_append hEnds x) id

/-- The line on which a place stands begins in front of what is on it. -/
theorem exists_lineStart (h : splitAt? source place = some (x, y)) :
    ∃ front, x = front ++ leadAt source place ∧ (front = [] ∨ endsInNewline front = true) ∧
      '\n' ∉ leadAt source place ∧ place - byteLength (leadAt source place) = byteLength front := by
  obtain ⟨front, hFront, hEnds, hLine⟩ := exists_lastLine x
  rw [leadAt_eq h]
  refine ⟨front, hFront, hEnds, hLine, ?_⟩
  obtain ⟨-, hPlace⟩ := eq_of_splitAt? h
  have hLength := congrArg byteLength hFront
  rw [byteLength_append] at hLength
  omega

/-- Whole lines can go to the start of the line on which a place stands. -/
theorem takesLines_lineStart (h : splitAt? source place = some (x, y))
    (hPos : 0 < place - byteLength (leadAt source place)) :
    TakesLines source (place - byteLength (leadAt source place)) := by
  obtain ⟨front, hFront, hEnds, -, hStart⟩ := exists_lineStart h
  obtain ⟨hSource, -⟩ := eq_of_splitAt? h
  refine ⟨front, leadAt source place ++ y, ?_, hPos, .inl (hEnds.resolve_left ?_)⟩
  · rw [hStart]
    have hSplit := splitAt?_byteLength front (leadAt source place ++ y)
    rwa [← List.append_assoc, ← hFront, ← hSource] at hSplit
  · rintro rfl
    rw [hStart] at hPos
    exact absurd hPos (Nat.lt_irrefl _)

end

/-! ## Between two lines -/

/-- A byte position between two lines of code, at which a physical line begins. -/
structure IsSeam (source : Text) (a b : Line) (seam : Nat) : Prop where
  start : a.start < seam
  tokens : ∀ t ∈ a.tokens, t.start < seam
  nextLine : ∀ t ∈ a.tokens, nextLineStart source t.stop ≤ seam
  lead : seam ≤ b.start - byteLength (leadAt source b.start)
  behind : ∀ t ∈ b.tokens, seam ≤ t.start

theorem InFrontOf.exists_seam {source : Text} {a b : Line} (h : InFrontOf source a b) :
    ∃ seam, IsSeam source a b seam := by
  obtain ⟨front, part, between, part', after, hSource, ha, hb, -⟩ := h
  have hSeam : byteLength (front ++ (part ++ ['\n'])) = byteLength front + byteLength part + 1 := by
    simp only [byteLength_append, Nat.add_assoc]
    rfl
  -- the seam is right behind the newline that ends the part of the first line
  refine ⟨byteLength (front ++ (part ++ ['\n'])), ?start, ?tokens, ?nextLine, ?lead, ?behind⟩
  case start =>
    obtain ⟨x, c, y, rfl, hStart, -⟩ := ha.start
    simp only [byteLength_append, byteLength] at hStart hSeam ⊢
    omega
  case tokens =>
    intro t ht
    obtain ⟨x, y, rfl, hStart⟩ := ha.tokenStart t ht
    simp only [byteLength_append] at hStart hSeam ⊢
    omega
  case nextLine =>
    intro t ht
    obtain ⟨x, y, rfl, hStop⟩ := ha.tokenStop t ht
    have hSplit : splitAt? source t.stop =
        some (front ++ x, (y ++ ['\n']) ++ (between ++ (part' ++ after))) := by
      rw [hStop, hSource]
      simpa using splitAt?_byteLength (front ++ x) ((y ++ ['\n']) ++ (between ++ (part' ++ after)))
    have hEnds : endsInNewline (y ++ ['\n']) = true := endsInNewline_iff.2 ⟨y, rfl⟩
    have hLine := congrArg byteLength (breakLine_append (y ++ ['\n']))
    rw [nextLineStart_eq hSplit, breakLine_append_of_ends hEnds]
    simp only [byteLength_append] at hStop hSeam hLine ⊢
    omega
  case lead =>
    obtain ⟨x, c, y, rfl, hStart, -⟩ := hb.start
    have hSplit : splitAt? source b.start =
        some ((front ++ (part ++ ['\n'])) ++ (between ++ x), c :: (y ++ after)) := by
      have hFront : front ++ (part ++ '\n' :: between) ++ x =
          (front ++ (part ++ ['\n'])) ++ (between ++ x) := by simp
      rw [hFront] at hStart
      rw [hStart, hSource]
      simpa using splitAt?_byteLength ((front ++ (part ++ ['\n'])) ++ (between ++ x))
        (c :: (y ++ after))
    -- what stands in front of the line on its physical line begins behind the newline
    have hLead : leadAt source b.start = lastLine (between ++ x) := by
      rw [leadAt_eq hSplit, lastLine_append (.inr ⟨front ++ part, by simp⟩)]
    obtain ⟨rest, hRest, -⟩ := exists_lastLine (between ++ x)
    have hLength := congrArg byteLength hRest
    obtain ⟨-, hPlace⟩ := eq_of_splitAt? hSplit
    rw [hLead]
    rw [byteLength_append] at hPlace
    rw [byteLength_append rest] at hLength
    omega
  case behind =>
    intro t ht
    have hle := (hb.ascending.le_start ht).1
    simp only [byteLength_append, byteLength] at hle hSeam ⊢
    omega

/-! ## Headers -/

/-- In a header, no colon stands in front of the parameter list: between the name and the list,
nothing but type parameters in brackets is allowed. -/
def ListFirst (list : List Token) : Prop :=
  ∀ t ∈ (fromDef list).takeWhile fun t => !t.isMark '(', t.isMark ':' = false

instance : DecidablePred ListFirst := fun list =>
  inferInstanceAs (Decidable (∀ t ∈ (fromDef list).takeWhile fun t => !t.isMark '(',
    t.isMark ':' = false))

theorem exists_afterColon?_of_append {lambdas : Nat} {front list rest : List Token}
    (hFront : ∀ t ∈ front, t.isMark ':' = false)
    (h : afterColon? lambdas (front ++ list) = some rest) :
    ∃ lambdas', afterColon? lambdas' list = some rest := by
  induction front generalizing lambdas with
  | nil => exact ⟨lambdas, h⟩
  | cons t front ih =>
    obtain ⟨ht, hMore⟩ := List.forall_mem_cons.1 hFront
    rw [List.cons_append] at h
    unfold afterColon? at h
    split at h
    · exact ih hMore h
    · rw [ht, if_neg Bool.false_ne_true] at h
      exact ih hMore h

theorem lexeme_of_isMark {t : Token} {c : Char} (h : t.isMark c = true) : t.lexeme = .mark c := by
  rw [Token.isMark, Bool.and_eq_true] at h
  simpa using h.2

namespace FunctionHeader

variable {list : List Token} {header : FunctionHeader}

theorem exists_paren (h : ofTokens? list = some header) :
    ∃ paren ∈ list, paren.lexeme = .mark '(' ∧ paren.start = header.openParen := by
  obtain ⟨keyword, name, signature, paren, hFrom, -, -, hParen, hOpen, -⟩ := exists_parts h
  have hMem : paren ∈ fromDef list := by
    rw [hFrom]
    exact List.mem_cons_of_mem _ (List.mem_cons_of_mem _ (List.mem_of_find?_eq_some hParen))
  exact ⟨paren, (fromDef_suffix list).subset hMem, lexeme_of_isMark (List.find?_some hParen),
    hOpen.symm⟩

/-- A header does not begin with a string. -/
theorem not_isLiteral_head (h : ofTokens? list = some header) :
    ∀ t ∈ list.head?, t.isLiteral = false := by
  obtain ⟨keyword, name, signature, paren, hFrom, hDef, -⟩ := exists_parts h
  have hWord : ∀ {t : Token} {word : String}, t.isWord word = true → t.isLiteral = false := by
    intro t word hWord
    have hLexeme : t.lexeme = .word word.toList := by simpa [Token.isWord] using hWord
    simp [Token.isLiteral, hLexeme]
  cases list with
  | nil => cases hFrom
  | cons first rest =>
    intro t ht
    obtain rfl : first = t := Option.some.inj ht
    rw [fromDef] at hFrom
    split at hFrom
    · rename_i hAsync
      exact hWord hAsync
    · obtain ⟨rfl, -⟩ := List.cons.inj hFrom
      exact hWord hDef

/-- **The body on the line of a header stands behind the parameter list.** -/
theorem openParen_lt_of_mem_rest (h : ofTokens? list = some header) (hFirst : ListFirst list)
    {offset : Nat} (hList : Ascending offset list) : ∀ t ∈ header.rest, header.openParen < t.start := by
  obtain ⟨keyword, name, signature, paren, hFrom, hDef, hName, hParen, hOpen, hRest⟩ :=
    exists_parts h
  obtain ⟨hMark, front, back, rfl, hFront⟩ := List.find?_eq_some_iff_append.1 hParen
  have hNot : ∀ t ∈ keyword :: name :: front, (!t.isMark '(') = true := by
    refine List.forall_mem_cons.2 ⟨?_, List.forall_mem_cons.2 ⟨?_, hFront⟩⟩
    · have hLexeme : keyword.lexeme = .word "def".toList := by simpa [Token.isWord] using hDef
      simp [Token.isMark, hLexeme]
    · simp [Token.isMark, hName]
  -- the colon is none of the tokens in front of the list
  have hColon : ∀ t ∈ front, t.isMark ':' = false := by
    intro t ht
    refine hFirst t ?_
    rw [hFrom, ← List.cons_append, ← List.cons_append, List.takeWhile_append_of_pos hNot]
    exact List.mem_append_left _ (by simp [ht])
  obtain ⟨lambdas, hBehind⟩ := exists_afterColon?_of_append hColon hRest
  have hParenMark := lexeme_of_isMark hMark
  unfold afterColon? at hBehind
  rw [if_neg (by simp [Token.isWord, hParenMark]),
    if_neg (by simp [Token.isMark, hParenMark])] at hBehind
  have hAscending := hList.of_suffix (fromDef_suffix list)
  rw [hFrom] at hAscending
  have hSuffix : paren :: back <:+ keyword :: name :: (front ++ paren :: back) :=
    ⟨keyword :: name :: front, by simp⟩
  have hTail : Ascending (paren.start + 1) back := (hAscending.of_suffix hSuffix).2.2
  intro t ht
  have hle := (hTail.le_start ((suffix_of_afterColon? hBehind).subset ht)).1
  omega

end FunctionHeader

/-- What every valid program has by its grammar: each line of code goes deeper than the one before, or
back to an indentation that is open, and each initializer has its parameter list in front of its
body. -/
structure WellFormed (source : Text) : Prop where
  indent : ConsistentIndent (layout source)
  listFirst : ∀ line ∈ layout source, ∀ header ∈ FunctionHeader.ofTokens? line.tokens,
    header.name = initializerName → ListFirst line.tokens

/-! ## The place of a site -/

/-- New statements go behind a string, or in front of the first statement. -/
theorem placeOf_cases (source : Text) (start : Nat) (first : List Token) :
    (∃ t ∈ first, (∀ u ∈ first.head?, u.isLiteral = true) ∧
      placeOf source start first = nextLineStart source t.stop) ∨
    placeOf source start first = start - byteLength (leadAt source start) := by
  unfold placeOf stringsEnd?
  by_cases hStrings : isStrings (first.takeWhile fun t => !t.isMark ';') = true
  · rw [if_pos hStrings]
    rw [isStrings, Bool.and_eq_true, Bool.not_eq_true', List.isEmpty_eq_false_iff] at hStrings
    obtain ⟨hne, hAll⟩ := hStrings
    rw [List.getLast?_eq_some_getLast hne]
    -- the first token is one of the strings up to the semicolon
    refine .inl ⟨_, List.takeWhile_subset _ (List.getLast_mem hne), ?_, rfl⟩
    intro u hu
    cases first with
    | nil => cases hu
    | cons v more =>
      obtain rfl : v = u := Option.some.inj hu
      rw [List.takeWhile_cons] at hne hAll
      split at hne
      · rename_i hKeep
        rw [if_pos hKeep] at hAll
        exact List.all_eq_true.1 hAll v (List.mem_cons_self ..)
      · exact absurd rfl hne
  · rw [if_neg hStrings]
    exact .inr rfl

/-- A character that is not on the last line of a text stands in front of this line. -/
theorem byteLength_lt_of_not_mem {a b front line : Text} {c : Char} (h : a ++ c :: b = front ++ line)
    (hc : c ∉ line) : byteLength a < byteLength front := by
  have hSize := Char.utf8Size_pos c
  rcases List.append_eq_append_iff.1 h with ⟨gap, rfl, hGap⟩ | ⟨gap, rfl, hGap⟩
  · cases gap with
    | nil =>
      rw [List.nil_append] at hGap
      exact absurd (hGap ▸ List.mem_cons_self ..) hc
    | cons d gap =>
      obtain ⟨rfl, -⟩ := List.cons.inj hGap
      simp only [byteLength_append, byteLength]
      omega
  · exact absurd (by simp [hGap]) hc

section

variable {source : Text} {settings : Settings} {c : ClassBlock} {site : Site}

/-- The body of an initializer begins in the line of its header, or with the line behind. -/
theorem Site.Fills.body_cases (hClass : c ∈ classesIn (layout source))
    (h : site.Fills source settings c.block) :
    (∃ t more, site.header.rest = t :: more ∧ site.start = t.start ∧ site.first = t :: more ∧
      t :: more ⊆ site.line.tokens) ∨
    ∃ home, site.start = home.start ∧ site.first = home.tokens ∧
      InFrontOf source site.line home ∧ home ∈ layout source ∧
      ∀ line ∈ layout source, InFrontOf source site.line line →
        line = home ∨ InFrontOf source home line := by
  obtain ⟨hHeader, -, front, back, hLayout⟩ := h.exists_layout hClass
  have hBody := h.body
  cases hRest : site.header.rest with
  | cons t more =>
    rw [bodyStatements, hRest] at hBody
    obtain ⟨hStart, hFirst⟩ := Prod.mk.inj (List.cons.inj hBody).1
    exact .inl ⟨t, more, rfl, hStart.symm, hFirst.symm,
      fun u hu => mem_of_mem_rest hHeader (hRest ▸ hu)⟩
  | nil =>
    cases hInner : site.inner with
    | nil =>
      rw [bodyStatements, hRest, hInner] at hBody
      cases hBody
    | cons home inner =>
      rw [hInner, bodyStatements_cons hRest] at hBody
      obtain ⟨hStart, hFirst⟩ := Prod.mk.inj (List.cons.inj hBody).1
      have hOrder := pairwise_layout source
      rw [hLayout, hInner, List.pairwise_append, List.pairwise_cons, List.cons_append,
        List.pairwise_cons] at hOrder
      obtain ⟨-, ⟨hBehind, hNext, -⟩, hAhead⟩ := hOrder
      refine .inr ⟨home, hStart.symm, hFirst.symm, hBehind home (List.mem_cons_self ..),
        by simp [hLayout, hInner], fun line hLine hFront => ?_⟩
      rw [hLayout, hInner] at hLine
      -- a later line stands neither in front of the header nor on its line
      rcases List.mem_append.1 hLine with hMem | hMem
      · have hlt := (hAhead line hMem site.line (List.mem_cons_self ..)).start_lt
        have hlt' := hFront.start_lt
        omega
      · rcases List.mem_cons.1 hMem with rfl | hMem
        · exact absurd hFront.start_lt (Nat.lt_irrefl _)
        · exact (List.mem_cons.1 hMem).imp id (hNext line)

/-- A place in the line of a header stands on a later physical line than the parameter list, if
nothing but blanks is in front of it. -/
theorem openParen_lt_lineStart {line : Line} (hLine : line ∈ layout source) {paren t : Token}
    (hParen : paren ∈ line.tokens) (hMark : paren.lexeme = .mark '(') (ht : t ∈ line.tokens)
    (hlt : paren.start < t.start) (hLead : allBlank (leadAt source t.start) = true) :
    paren.start < t.start - byteLength (leadAt source t.start) := by
  obtain ⟨front, part, after, rfl, hTakes, -⟩ := isLineOf_of_mem hLine
  obtain ⟨x, y, rfl, hStart⟩ := hTakes.tokenStart t ht
  obtain ⟨-, x', y', hPart, hOpen⟩ := hTakes.mark paren hParen '(' hMark
  -- the parenthesis is in the text in front of the place, but it is no blank
  obtain ⟨b, rfl⟩ : ∃ b, x = x' ++ '(' :: b := by
    rw [hStart, hOpen, byteLength_append, byteLength_append] at hlt
    rcases List.append_eq_append_iff.1 hPart with ⟨gap, rfl, hGap⟩ | ⟨gap, rfl, hGap⟩
    · rw [byteLength_append] at hlt
      omega
    · cases gap with
      | nil =>
        rw [List.append_nil] at hlt
        omega
      | cons d gap =>
        obtain ⟨rfl, -⟩ := List.cons.inj hGap
        exact ⟨gap, rfl⟩
  have hSplit : splitAt? (front ++ (x' ++ '(' :: b ++ y ++ after)) t.start =
      some (front ++ (x' ++ '(' :: b), y ++ after) := by
    rw [hStart]
    simpa using splitAt?_byteLength (front ++ (x' ++ '(' :: b)) (y ++ after)
  obtain ⟨before, hBefore, -, -, hPlace⟩ := exists_lineStart hSplit
  have hNot : '(' ∉ leadAt (front ++ (x' ++ '(' :: b ++ y ++ after)) t.start := fun hMem => by
    have hBlank := List.all_eq_true.1 hLead '(' hMem
    revert hBlank
    decide
  rw [hPlace, hOpen]
  exact byteLength_lt_of_not_mem (by rw [List.append_assoc]; exact hBefore) hNot

/-- The physical line behind a token starts behind the token. -/
theorem start_lt_nextLineStart {line : Line} (hLine : line ∈ layout source) {t : Token}
    (ht : t ∈ line.tokens) : t.start < nextLineStart source t.stop := by
  obtain ⟨offset, hAscending⟩ := (isLineOf_of_mem hLine).exists_ascending
  obtain ⟨-, before, after, hStop⟩ := (isLineOf_of_mem hLine).splitAt?_token ht
  have hlt := (hAscending.le_start ht).2
  rw [nextLineStart_eq hStop]
  omega

/-- **The place is behind the parameter list of its own initializer.** -/
theorem Site.Fills.openParen_lt (hSource : WellFormed source)
    (hClass : c ∈ classesIn (layout source)) (h : site.Fills source settings c.block) :
    site.header.openParen < (site.insertion source).offset := by
  obtain ⟨hHeader, hName, front, back, hLayout⟩ := h.exists_layout hClass
  have hLine : site.line ∈ layout source := by simp [hLayout]
  obtain ⟨paren, hParen, hMark, hOpen⟩ := FunctionHeader.exists_paren hHeader
  show _ < placeOf source site.start site.first
  rcases h.body_cases hClass with ⟨t, more, hRest, hStart, hFirst, hTokens⟩ |
    ⟨home, hStart, hFirst, hFront, hHome, -⟩
  · -- the body begins behind the colon, and the list is in front of it
    obtain ⟨offset, hAscending⟩ := (isLineOf_of_mem hLine).exists_ascending
    have hBehind := FunctionHeader.openParen_lt_of_mem_rest hHeader
      (hSource.listFirst _ hLine _ hHeader hName) hAscending
    rw [hRest] at hBehind
    rw [hStart, hFirst]
    rcases placeOf_cases source t.start (t :: more) with ⟨u, hu, -, hPlace⟩ | hPlace
    · have hlt := hBehind u hu
      have hlt' := start_lt_nextLineStart hLine (hTokens hu)
      omega
    · have hlt := hBehind t (List.mem_cons_self ..)
      rw [hPlace, ← hOpen]
      exact openParen_lt_lineStart hLine hParen hMark (hTokens (List.mem_cons_self ..))
        (hOpen ▸ hlt) (hStart ▸ h.lead)
  · -- the body begins behind the seam, and the list is in front of it
    obtain ⟨seam, hSeam⟩ := hFront.exists_seam
    have hlt := hSeam.tokens paren hParen
    rw [hStart, hFirst]
    rcases placeOf_cases source home.start home.tokens with ⟨u, hu, -, hPlace⟩ | hPlace
    · have hle := hSeam.behind u hu
      have hlt' := start_lt_nextLineStart hHome hu
      omega
    · have hle := hSeam.lead
      omega

/-- The place of a body that begins in a line of code is in front of the next line of code. -/
theorem IsSeam.placeOf_le {a b : Line} {seam start : Nat} {first : List Token}
    (h : IsSeam source a b seam) (hStart : start < seam) (hFirst : first ⊆ a.tokens) :
    placeOf source start first ≤ seam := by
  rcases placeOf_cases source start first with ⟨t, ht, -, hPlace⟩ | hPlace
  · rw [hPlace]
    exact h.nextLine t (hFirst ht)
  · omega

/-- **The place is in front of the parameter lists of later headers.** -/
theorem Site.Fills.le_openParen (hClass : c ∈ classesIn (layout source))
    (h : site.Fills source settings c.block) {line : Line} {header : FunctionHeader}
    (hLine : line ∈ layout source) (hHeader : FunctionHeader.ofTokens? line.tokens = some header)
    (hFront : InFrontOf source site.line line) :
    (site.insertion source).offset ≤ header.openParen := by
  obtain ⟨paren, hParen, hMark, hOpen⟩ := FunctionHeader.exists_paren hHeader
  show placeOf source site.start site.first ≤ _
  rw [← hOpen]
  rcases h.body_cases hClass with ⟨t, more, -, hStart, hFirst, hTokens⟩ |
    ⟨home, hStart, hFirst, -, hHome, hNext⟩
  · -- a body on the line of its header ends in front of the next line of code
    obtain ⟨seam, hSeam⟩ := hFront.exists_seam
    have hlt := hSeam.tokens t (hTokens (List.mem_cons_self ..))
    rw [hStart, hFirst]
    exact (hSeam.placeOf_le hlt hTokens).trans (hSeam.behind paren hParen)
  · rw [hStart, hFirst]
    rcases hNext line hLine hFront with rfl | hBehind
    · -- the body begins with the later header, which is no string, so the place is in front of it
      obtain ⟨front, part, after, -, hTakes, -⟩ := isLineOf_of_mem hHome
      have hle := (hTakes.mark paren hParen '(' hMark).1
      rcases placeOf_cases source line.start line.tokens with ⟨u, hu, hString, -⟩ | hPlace
      · obtain ⟨first, hHead⟩ : ∃ first, line.tokens.head? = some first := by
          cases hTokens : line.tokens with
          | nil => rw [hTokens] at hu; cases hu
          | cons first more => exact ⟨first, rfl⟩
        have hNot := FunctionHeader.not_isLiteral_head hHeader first hHead
        rw [hString first hHead] at hNot
        cases hNot
      · omega
    · obtain ⟨seam, hSeam⟩ := hBehind.exists_seam
      exact (hSeam.placeOf_le hSeam.start fun u hu => hu).trans (hSeam.behind paren hParen)

/-- The first statement of a body stands on a line of code, and so do its tokens. -/
theorem Site.Fills.exists_home (hClass : c ∈ classesIn (layout source))
    (h : site.Fills source settings c.block) :
    (∃ before after, splitAt? source site.start = some (before, after)) ∧
      ∃ home ∈ layout source, site.first ⊆ home.tokens := by
  obtain ⟨-, -, front, back, hLayout⟩ := h.exists_layout hClass
  have hLine : site.line ∈ layout source := by simp [hLayout]
  rcases h.body_cases hClass with ⟨t, more, -, hStart, hFirst, hTokens⟩ |
    ⟨home, hStart, hFirst, -, hHome, -⟩
  · rw [hStart, hFirst]
    exact ⟨((isLineOf_of_mem hLine).splitAt?_token (hTokens (List.mem_cons_self ..))).1,
      site.line, hLine, hTokens⟩
  · rw [hStart, hFirst]
    exact ⟨(isLineOf_of_mem hHome).splitAt?_start, home, hHome, fun u hu => hu⟩

/-- **Whole lines can go to the place.** -/
theorem Site.Fills.takesLines (hSource : WellFormed source)
    (hClass : c ∈ classesIn (layout source)) (h : site.Fills source settings c.block) :
    TakesLines source (site.insertion source).offset := by
  have hPos := h.openParen_lt hSource hClass
  obtain ⟨⟨before, after, hSplit⟩, home, hHome, hTokens⟩ := h.exists_home hClass
  show TakesLines source (placeOf source site.start site.first)
  change _ < placeOf source site.start site.first at hPos
  rcases placeOf_cases source site.start site.first with ⟨t, ht, -, hPlace⟩ | hPlace
  · obtain ⟨offset, hAscending⟩ := (isLineOf_of_mem hHome).exists_ascending
    obtain ⟨-, x, y, hStop⟩ := (isLineOf_of_mem hHome).splitAt?_token (hTokens ht)
    have hlt := (hAscending.le_start (hTokens ht)).2
    rw [hPlace]
    exact takesLines_nextLineStart hStop (by omega)
  · rw [hPlace] at hPos ⊢
    exact takesLines_lineStart hSplit (by omega)

/-- The text in front of the first statement is the indentation of the new ones. -/
theorem Site.Fills.exists_lead (hClass : c ∈ classesIn (layout source))
    (h : site.Fills source settings c.block) :
    ∃ front after, splitAt? source site.start =
        some (front ++ (site.insertion source).indent, after) ∧
      (front = [] ∨ endsInNewline front = true) ∧
      allBlank (site.insertion source).indent = true ∧ '\n' ∉ (site.insertion source).indent := by
  obtain ⟨⟨before, after, hSplit⟩, -⟩ := h.exists_home hClass
  obtain ⟨front, hFront, hEnds, hLine, -⟩ := exists_lineStart hSplit
  exact ⟨front, after, by rw [hSplit, hFront]; rfl, hEnds, h.lead, hLine⟩

end

/-! ## Different places -/

/-- Initializers on different lines have their statements at different places. -/
theorem offset_ne_of_line_ne {source : Text} {settings : Settings} {c c' : ClassBlock}
    {site site' : Site} (hSource : WellFormed source) (hClass : c ∈ classesIn (layout source))
    (hClass' : c' ∈ classesIn (layout source)) (h : site.Fills source settings c.block)
    (h' : site'.Fills source settings c'.block) (hne : site.line ≠ site'.line) :
    (site.insertion source).offset ≠ (site'.insertion source).offset := by
  obtain ⟨hHeader, -, front, back, hLayout⟩ := h.exists_layout hClass
  obtain ⟨hHeader', -, front', back', hLayout'⟩ := h'.exists_layout hClass'
  have hLine : site.line ∈ layout source := by simp [hLayout]
  have hLine' : site'.line ∈ layout source := by simp [hLayout']
  have hSymm : Std.Symm fun a b => InFrontOf source a b ∨ InFrontOf source b a :=
    ⟨fun a b hab => hab.symm⟩
  have hEither : (layout source).Pairwise fun a b => InFrontOf source a b ∨ InFrontOf source b a :=
    (pairwise_layout source).imp fun hFront => .inl hFront
  have hOpen := h.openParen_lt hSource hClass
  have hOpen' := h'.openParen_lt hSource hClass'
  -- one place is in front of the list that the other one is behind
  rcases hEither.forall hLine hLine' hne with hFront | hBehind
  · have hle := h.le_openParen hClass hLine' hHeader' hFront
    omega
  · have hle := h'.le_openParen hClass' hLine hHeader hBehind
    omega

/-- **Two classes have their statements at different places.** -/
theorem pairwise_offset {source : Text} (settings : Settings) (hSource : WellFormed source) :
    (classesIn (layout source)).Pairwise fun c c' => ∀ site site' : Site,
      site.Fills source settings c.block → site'.Fills source settings c'.block →
        (site.insertion source).offset ≠ (site'.insertion source).offset := by
  have hSorted := (pairwise_layout source).imp fun h => h.start_lt
  have hIndent : ConsistentIndent ([] ++ layout source) := hSource.indent
  refine (pairwise_classesIn hSorted hIndent).imp_of_mem fun hc hc' hApart site site' h h' => ?_
  refine offset_ne_of_line_ne hSource hc hc' h h' ?_
  have hDirect := (mem_directStatements_of_initializer (h.only ▸ List.mem_singleton_self _)).1
  have hDirect' := (mem_directStatements_of_initializer (h'.only ▸ List.mem_singleton_self _)).1
  exact hApart _ hDirect _ hDirect'

end FieldFill
