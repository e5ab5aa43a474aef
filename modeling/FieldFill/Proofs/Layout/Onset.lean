import FieldFill.Proofs.Layout.Extent

/-!
# Where the reading of a statement begins

A statement starts at a byte position where nothing is open: at the first code of a logical line, or
behind the colon of a header. Blanks, comments and line continuations may stand in front of it, and
they leave no trace. So a statement is read from its start as if a line began there.

Main definitions:

* `Scanned.Silent` — a scanned character that is no part of a token.
* `Reader.Idle` — a state in front of the first token.
* `ReadsAs` — a text, read from a byte position on, has given tokens.

Main results:

* `Reader.Idle.readLine?_cases` — the characters in front of the first token, and the reading there.
* `readsAs_of_mem` — a line of code is read from its start.
* `readsAs_rest` — so is the body that stands behind the colon of a header.
-/

namespace FieldFill

/-! ## Characters without tokens -/

/-- A scanned character that is no part of a token. -/
def Scanned.Silent (m : Scanned) : Prop :=
  m.region = .comment ∨ m.region = .code ∧ beginsCode m = false

theorem Scanned.Silent.beginsCode_eq {m : Scanned} (h : m.Silent) : beginsCode m = false := by
  rcases h with hComment | ⟨-, hCode⟩
  · simp [beginsCode, hComment]
  · exact hCode

theorem pushChar_of_silent {m : Scanned} (h : m.Silent) (following : List Token) :
    pushChar m following = following := by
  obtain ⟨offset, c, region, depth, depthAfter⟩ := m
  rcases h with hComment | ⟨hRegion, hCode⟩
  · obtain rfl : region = .comment := hComment
    rfl
  · obtain rfl : region = .code := hRegion
    have hKind : isBlank c = true ∨ c = '\\' ∨ c = '\uFEFF' := by
      by_contra hNot
      obtain ⟨hBlank, hEscape, hMark⟩ : _ ∧ _ ∧ _ := by simpa only [not_or] using hNot
      have hBegins : beginsCode ⟨offset, c, .code, depth, depthAfter⟩ = true := by
        simp [beginsCode, hBlank, hEscape, hMark]
      rw [hCode] at hBegins
      cases hBegins
    have hName : isNameChar c = false := by
      rcases hKind with hBlank | rfl | rfl
      · exact not_isNameChar_of_isBlank hBlank
      · decide
      · decide
    rcases hKind with hBlank | rfl | rfl
    · simp [pushChar, hName, hBlank]
    · rfl
    · rfl

theorem pushAll_of_silent {marks : List Scanned} (h : ∀ m ∈ marks, m.Silent)
    (following : List Token) : pushAll marks following = following := by
  induction marks with
  | nil => rfl
  | cons m marks ih =>
    obtain ⟨hm, hMore⟩ := List.forall_mem_cons.1 h
    show pushChar m (pushAll marks following) = following
    rw [ih hMore, pushChar_of_silent hm]

theorem tokens_of_silent {marks : List Scanned} (h : ∀ m ∈ marks, m.Silent) (back : List Scanned) :
    tokens (marks ++ back) = tokens back :=
  congrArg joinKinds ((pushAll_append marks back []).trans (pushAll_of_silent h _))

/-- A kind that is joined to its string gives the string its start. -/
theorem start_head_joinKinds (t : Token) (more : List Token) :
    ∃ u list, joinKinds (t :: more) = u :: list ∧ u.start = t.start := by
  generalize hList : t :: more = list
  fun_cases joinKinds list
  case case4 => cases hList
  all_goals
    obtain ⟨rfl, -⟩ := List.cons.inj hList
    exact ⟨_, _, rfl, rfl⟩

theorem start_head_pushChar {m : Scanned} (hm : beginsCode m = true) (following : List Token) :
    ∃ t more, pushChar m following = t :: more ∧ t.start = m.offset := by
  obtain ⟨offset, c, region, depth, depthAfter⟩ := m
  simp only [beginsCode, Bool.and_eq_true, decide_eq_true_eq, Bool.not_eq_true'] at hm
  obtain ⟨⟨⟨hRegion, hBlank⟩, hEscape⟩, hMark⟩ := hm
  unfold pushChar
  cases region with
  | comment => exact absurd rfl hRegion
  | literal =>
    dsimp only
    split
    · split <;> exact ⟨_, _, rfl, rfl⟩
    · exact ⟨_, _, rfl, rfl⟩
  | code =>
    by_cases hName : isNameChar c = true
    · -- a word takes the character in, or it is a word of its own
      simp only [hName, if_true]
      split
      · split <;> exact ⟨_, _, rfl, rfl⟩
      · exact ⟨_, _, rfl, rfl⟩
    · refine ⟨⟨offset, offset + c.utf8Size, depth, .mark c⟩, following, ?_, rfl⟩
      simp [hName, hBlank, hEscape, hMark]

/-- A character that begins code begins a token. -/
theorem start_head_tokens {m : Scanned} (hm : beginsCode m = true) (back : List Scanned) :
    ∃ t more, tokens (m :: back) = t :: more ∧ t.start = m.offset := by
  obtain ⟨t, more, hPush, hStart⟩ := start_head_pushChar hm (pushAll back [])
  obtain ⟨u, list, hJoin, hFirst⟩ := start_head_joinKinds t more
  have hTokens : tokens (m :: back) = joinKinds (t :: more) := congrArg joinKinds hPush
  exact ⟨u, list, hTokens.trans hJoin, hFirst.trans hStart⟩

/-! ## In front of the first token -/

namespace Reader

/-- Nothing is open and no name is begun. A comment may go on, and a backslash may stand right in
front. -/
structure Idle (r : Reader) : Prop where
  frames : r.frames = []
  skip : r.skip = 0
  word : r.word = []

theorem idle_start : start.Idle :=
  ⟨rfl, rfl, rfl⟩

/-- A blank or a byte order mark at the start of a line leaves no trace. -/
theorem stepCode_lead {c : Char} (hNewline : c ≠ '\n') (h : isBlank c = true ∨ c = '\uFEFF')
    (rest : Text) :
    start.stepCode c rest = .continues .code start ∧
      ∀ offset depth depthAfter, Scanned.Silent ⟨offset, c, .code, depth, depthAfter⟩ := by
  have hPlain : staysPlain c = true := by
    rcases h with hBlank | rfl
    · exact staysPlain_of_isBlank hBlank hNewline
    · decide
  have hName : isNameChar c = false := by
    rcases h with hBlank | rfl
    · exact not_isNameChar_of_isBlank hBlank
    · decide
  refine ⟨?_, fun _ _ _ => .inr ⟨rfl, ?_⟩⟩
  · have hStep := step_plain hPlain [] rest
    rw [hName] at hStep
    exact hStep
  · rcases h with hBlank | rfl
    · simp [beginsCode, hBlank]
    · rfl

/-- At the start of a line, a comment begins with its sign only. -/
theorem region_ne_comment_of_start {c : Char} {rest : Text} {region : Region} {next : Reader}
    (h : start.stepCode c rest = .continues region next) (hHash : c ≠ '#') : region ≠ .comment := by
  rintro rfl
  revert h
  fun_cases stepCode start c rest <;> intro h
  case case3 hComment => cases hComment
  case case5 hc => exact absurd hc hHash
  all_goals cases h

/-- **One step in front of the first token**: the line ends, or a character leaves no trace, or it is
read as at the start of a line. -/
theorem Idle.step_cases {r : Reader} (hr : r.Idle) (c : Char) (rest : Text) :
    r.step c rest = .ends ∨
    (∃ region next, r.step c rest = .continues region next ∧ next.Idle ∧
      ∀ offset depth depthAfter, Scanned.Silent ⟨offset, c, region, depth, depthAfter⟩) ∨
    (r.step c rest = start.step c rest ∧ c ≠ '\n' ∧
      ∀ region next, r.step c rest = .continues region next →
        ∀ offset depth depthAfter, beginsCode ⟨offset, c, region, depth, depthAfter⟩ = true) := by
  obtain ⟨frames, comment, escaped, skip, word⟩ := r
  obtain ⟨rfl, rfl, rfl⟩ := hr
  show stepCode _ c rest = _ ∨ (∃ region next, stepCode _ c rest = _ ∧ _) ∨
    (stepCode _ c rest = start.stepCode c rest ∧ _ ∧
      ∀ region next, stepCode _ c rest = .continues region next → _)
  by_cases hNewline : c = '\n'
  · subst hNewline
    cases escaped with
    | false => exact .inl rfl
    | true => exact .inr (.inl ⟨_, _, rfl, ⟨rfl, rfl, rfl⟩, fun _ _ _ => .inr ⟨rfl, rfl⟩⟩)
  · by_cases hReturn : comment = true ∨ c = '\r'
    · right; left
      unfold stepCode
      rw [if_neg hNewline]
      cases comment with
      | true => exact ⟨_, _, rfl, ⟨rfl, rfl, rfl⟩, fun _ _ _ => .inl rfl⟩
      | false =>
        obtain rfl := hReturn.resolve_left Bool.false_ne_true
        cases escaped with
        | true => exact ⟨_, _, rfl, ⟨rfl, rfl, rfl⟩, fun _ _ _ => .inr ⟨rfl, rfl⟩⟩
        | false => exact ⟨_, _, rfl, ⟨rfl, rfl, rfl⟩, fun _ _ _ => .inr ⟨rfl, rfl⟩⟩
    · obtain ⟨hComment, hCarriage⟩ := not_or.1 hReturn
      obtain rfl : comment = false := by simpa using hComment
      -- from here on, a backslash in front makes no difference
      have hSame : stepCode ⟨[], false, escaped, 0, []⟩ c rest = start.stepCode c rest := by
        simp only [stepCode, start, hNewline, hCarriage, if_false, decide_false, Bool.and_false,
          Bool.false_eq_true]
        rfl
      rw [hSame]
      by_cases hHash : c = '#'
      · subst hHash
        exact .inr (.inl ⟨_, _, rfl, ⟨rfl, rfl, rfl⟩, fun _ _ _ => .inl rfl⟩)
      · by_cases hEscape : c = '\\'
        · subst hEscape
          exact .inr (.inl ⟨_, _, rfl, ⟨rfl, rfl, rfl⟩, fun _ _ _ => .inr ⟨rfl, rfl⟩⟩)
        · by_cases hLead : isBlank c = true ∨ c = '\uFEFF'
          · obtain ⟨hStep, hSilent⟩ := stepCode_lead hNewline hLead rest
            exact .inr (.inl ⟨_, _, hStep, idle_start, hSilent⟩)
          · obtain ⟨hBlank, hMark⟩ := not_or.1 hLead
            refine .inr (.inr ⟨rfl, hNewline, fun region next hStep offset depth depthAfter => ?_⟩)
            have hRegion := region_ne_comment_of_start hStep hHash
            simp [beginsCode, hRegion, hBlank, hEscape, hMark]

/-- **What stands in front of the first token.** The characters of a line leave no trace, or they do
so up to one that is read as at the start of a line, and that begins code. -/
theorem Idle.readLine?_cases {r : Reader} (hr : r.Idle) {offset : Nat} {text after : Text}
    {marks : List Scanned} (h : readLine? r offset text = some (marks, after)) :
    (∀ m ∈ marks, m.Silent) ∨
    ∃ silent first back rest, marks = silent ++ first :: back ∧ (∀ m ∈ silent, m.Silent) ∧
      text = silent.map Scanned.char ++ first.char :: rest ∧ beginsCode first = true ∧
      first.offset = offset + byteLength (silent.map Scanned.char) ∧
      readLine? start first.offset (first.char :: rest) = some (first :: back, after) := by
  induction text generalizing r offset marks with
  | nil =>
    rw [readLine?] at h
    split at h
    · obtain ⟨rfl, -⟩ := Prod.mk.inj (Option.some.inj h)
      exact .inl fun m hm => absurd hm List.not_mem_nil
    · cases h
  | cons c rest ih =>
    rcases hr.step_cases c rest with hEnds | ⟨region, next, hStep, hNext, hSilent⟩ |
      ⟨hSame, hNewline, hBegins⟩
    · rw [readLine?, hEnds] at h
      obtain ⟨rfl, -⟩ := Prod.mk.inj (Option.some.inj h)
      exact .inl fun m hm => absurd hm List.not_mem_nil
    · -- the character leaves no trace, and the search goes on behind it
      rw [readLine?, hStep] at h
      obtain ⟨⟨more, after'⟩, hMore, hEq⟩ := Option.map_eq_some_iff.1 h
      obtain ⟨rfl, rfl⟩ := Prod.mk.inj hEq
      have hHere := hSilent offset (min r.depth next.depth) next.depth
      rcases ih hNext hMore with hAll | ⟨silent, first, back, rest', rfl, hLead, rfl, hCode, hPlace,
        hRead⟩
      · exact .inl (List.forall_mem_cons.2 ⟨hHere, hAll⟩)
      · refine .inr ⟨_ :: silent, first, back, rest', rfl, List.forall_mem_cons.2 ⟨hHere, hLead⟩, rfl,
          hCode, ?_, hRead⟩
        rw [hPlace, List.map_cons, byteLength, Nat.add_assoc]
    · have hDepth : r.depth = start.depth := congrArg List.length hr.frames
      have hStart : readLine? start offset (c :: rest) = some (marks, after) := by
        rw [← h, readLine?, readLine?, hSame, hDepth]
      rw [readLine?] at h
      split at h
      · rename_i region next hStep
        obtain ⟨⟨more, after'⟩, -, hEq⟩ := Option.map_eq_some_iff.1 h
        obtain ⟨rfl, rfl⟩ := Prod.mk.inj hEq
        exact .inr ⟨[], _, more, rest, rfl, fun m hm => absurd hm List.not_mem_nil, rfl,
          hBegins region next hStep _ _ _, rfl, hStart⟩
      · rename_i hStep
        exact absurd (eq_newline_of_ends hStep) hNewline
      · cases h

end Reader

/-! ## Reading on from a statement -/

/-- A text, read from a byte position on as if a line began there, has given tokens. No blank stands
at the position. -/
def ReadsAs (source : Text) (start : Nat) (list : List Token) : Prop :=
  ∃ before code marks after, splitAt? source start = some (before, code) ∧
    readLine? .start start code = some (marks, after) ∧ tokens marks = list ∧
    ∃ c rest, code = c :: rest ∧ isBlank c = false

theorem not_isBlank_of_beginsCode {m : Scanned} (h : beginsCode m = true) :
    isBlank m.char = false := by
  simp only [beginsCode, Bool.and_eq_true, Bool.not_eq_true'] at h
  exact h.1.1.2

/-- The reading of a text from a place where nothing is open is one from its first token. -/
theorem readsAs_of_readLine? {front text after : Text} {marks : List Scanned} {t : Token}
    {more : List Token} (h : readLine? .start (byteLength front) text = some (marks, after))
    (hTokens : tokens marks = t :: more) :
    ReadsAs (front ++ text) t.start (t :: more) ∧ (marks.find? beginsCode).map Scanned.offset =
      some t.start := by
  rcases Reader.idle_start.readLine?_cases h with hAll | ⟨silent, first, back, rest, rfl, hSilent, rfl,
    hCode, hPlace, hRead⟩
  · -- without a trace there are no tokens
    have hNone := tokens_of_silent hAll []
    rw [List.append_nil, hTokens] at hNone
    cases hNone
  · rw [tokens_of_silent hSilent] at hTokens
    obtain ⟨u, list, hFirst, hStart⟩ := start_head_tokens hCode back
    rw [hTokens] at hFirst
    obtain ⟨rfl, rfl⟩ := List.cons.inj hFirst
    have hSplit := splitAt?_byteLength (front ++ silent.map Scanned.char) (first.char :: rest)
    rw [List.append_assoc, byteLength_append, ← hPlace, ← hStart] at hSplit
    rw [← hStart] at hRead
    refine ⟨⟨_, _, _, after, hSplit, hRead, hTokens, _, _, rfl, not_isBlank_of_beginsCode hCode⟩, ?_⟩
    have hFind : (silent ++ first :: back).find? beginsCode = some first :=
      List.find?_eq_some_iff_append.2 ⟨hCode, silent, back, rfl, fun m hm => by
        simp [(hSilent m hm).beginsCode_eq]⟩
    rw [hFind, hStart]
    rfl

/-- A line of code with tokens was read from a place where nothing is open. -/
theorem exists_read_of_mem {front text : Text} {row : Nat} {line : Line}
    (h : line ∈ layoutFrom (byteLength front) row text) (hne : line.tokens ≠ []) :
    ∃ between text' marks after row', text = between ++ text' ∧
      readLine? .start (byteLength (front ++ between)) text' = some (marks, after) ∧
      lineOf? row' marks (tokens marks) = some line := by
  generalize hOffset : byteLength front = offset at h
  fun_induction layoutFrom offset row text generalizing front with
  | case1 => cases h
  | case2 offset row c rest marks after hRead read =>
    rename_i ih
    rcases List.mem_append.1 h with hHere | hLater
    · refine ⟨[], c :: rest, marks, after, row, rfl, ?_, Option.mem_toList.1 hHere⟩
      rw [List.append_nil, hOffset, hRead]
    · obtain ⟨-, gap, hText, rfl | ⟨-, rfl⟩⟩ := exists_of_readLine? hRead
      · -- the next line begins behind the newline
        obtain ⟨between, text', more, after', row', rfl, hMore, hLine⟩ :=
          @ih (front ++ (marks.map Scanned.char ++ ['\n'])) (by
            rw [byteLength_append, byteLength_append, hOffset, ← Nat.add_assoc]
            rfl) hLater
        refine ⟨marks.map Scanned.char ++ ['\n'] ++ between, text', more, after', row', ?_, ?_, hLine⟩
        · rw [hText]
          simp
        · rwa [← List.append_assoc]
      · -- behind the end of the text there is no line
        rw [layoutFrom] at hLater
        cases hLater
  | case3 offset row c rest hRead unreadable =>
    rename_i ih
    rcases List.mem_append.1 h with hHere | hLater
    · -- a line that cannot be read has no tokens
      obtain ⟨first, -, rfl⟩ := Option.map_eq_some_iff.1 (Option.mem_toList.1 hHere)
      exact absurd rfl hne
    · obtain ⟨between, text', more, after', row', hText, hMore, hLine⟩ :=
        @ih (front ++ (breakLine (c :: rest)).1) (by rw [byteLength_append, hOffset]) hLater
      refine ⟨(breakLine (c :: rest)).1 ++ between, text', more, after', row', ?_, ?_, hLine⟩
      · rw [List.append_assoc, ← hText, breakLine_append]
      · rwa [← List.append_assoc]

/-- **A line of code is read from its start.** -/
theorem readsAs_of_mem {source : Text} {line : Line} (h : line ∈ layout source)
    (hne : line.tokens ≠ []) : ReadsAs source line.start line.tokens := by
  have hMem : line ∈ layoutFrom (byteLength []) 1 source := h
  obtain ⟨between, text, marks, after, row, rfl, hRead, hLine⟩ := exists_read_of_mem hMem hne
  rw [List.nil_append] at hRead
  obtain ⟨first, hFirst, rfl⟩ := Option.map_eq_some_iff.1 hLine
  obtain ⟨t, more, hTokens⟩ := List.exists_cons_of_ne_nil hne
  obtain ⟨hReads, hStart⟩ := readsAs_of_readLine? hRead hTokens
  rw [hFirst] at hStart
  obtain hPlace : first.offset = t.start := Option.some.inj hStart
  show ReadsAs _ first.offset (tokens marks)
  rw [hPlace, show tokens marks = t :: more from hTokens]
  exact hReads

/-! ## Behind a colon -/

/-- A mark in front of the tokens of a text is its first character, or was there before. -/
theorem pushChar_eq_mark {m : Scanned} {following rest : List Token} {u : Token} {c : Char}
    (h : pushChar m following = u :: rest) (hMark : u.lexeme = .mark c) :
    (m.region = .code ∧ m.char = c ∧ m.depth = u.depth ∧ rest = following) ∨
      following = u :: rest := by
  obtain ⟨offset, d, region, depth, depthAfter⟩ := m
  have hNot : ∀ {t : Token} {list : List Token}, t :: list = u :: rest → t.lexeme ≠ .mark c → False :=
    fun hEq hne => hne ((List.cons.inj hEq).1 ▸ hMark)
  unfold pushChar at h
  cases region with
  | comment => exact .inr h
  | literal =>
    dsimp only at h
    split at h
    · split at h
      · -- a string that takes the character in is a string
        rename_i t more hString
        rw [Bool.and_eq_true] at hString
        have hLexeme : t.lexeme = .literal := by simpa [Token.isLiteral] using hString.1
        exact (hNot h (by simp [hLexeme])).elim
      · exact (hNot h (by simp)).elim
    · exact (hNot h (by simp)).elim
  | code =>
    by_cases hName : isNameChar d = true
    · simp only [hName, if_true] at h
      split at h
      · split at h <;> exact (hNot h (by simp)).elim
      · exact (hNot h (by simp)).elim
    · simp only [hName, Bool.false_eq_true, if_false] at h
      split at h
      · exact .inr h
      · obtain ⟨rfl, rfl⟩ := List.cons.inj h
        exact .inl ⟨rfl, Lexeme.mark.inj hMark, rfl, rfl⟩

/-- A mark among the tokens of some characters is one of them, and the tokens behind it are those of
the characters behind it. -/
theorem exists_of_pushAll_mark {marks : List Scanned} {front rest : List Token} {u : Token} {c : Char}
    (h : pushAll marks [] = front ++ u :: rest) (hMark : u.lexeme = .mark c) :
    ∃ before m behind, marks = before ++ m :: behind ∧ m.region = .code ∧ m.char = c ∧
      m.depth = u.depth ∧ rest = pushAll behind [] := by
  induction marks generalizing front with
  | nil => simp [pushAll] at h
  | cons m marks ih =>
    have hLater : (∃ front', pushAll marks [] = front' ++ u :: rest) →
        ∃ before n behind, m :: marks = before ++ n :: behind ∧ n.region = .code ∧ n.char = c ∧
          n.depth = u.depth ∧ rest = pushAll behind [] := by
      rintro ⟨front', hFront⟩
      obtain ⟨before, n, behind, rfl, hRest⟩ := ih hFront
      exact ⟨m :: before, n, behind, rfl, hRest⟩
    have hPush : pushChar m (pushAll marks []) = front ++ u :: rest := h
    cases front with
    | nil =>
      rcases pushChar_eq_mark hPush hMark with ⟨hRegion, hChar, hDepth, hRest⟩ | hSame
      · exact ⟨[], m, marks, rfl, hRegion, hChar, hDepth, hRest⟩
      · exact hLater ⟨[], hSame⟩
    | cons x front =>
      -- whatever becomes of the first token, the mark is further on
      rcases pushChar_cases m (pushAll marks []) with hSame | ⟨lexeme, hNew⟩ |
        ⟨t, more, lexeme, hOld, hJoin⟩
      · exact hLater ⟨x :: front, hSame.symm.trans hPush⟩
      · rw [hNew] at hPush
        exact hLater ⟨front, (List.cons.inj hPush).2⟩
      · rw [hJoin] at hPush
        refine hLater ⟨t :: front, ?_⟩
        rw [hOld, (List.cons.inj hPush).2]
        rfl

/-- Joining kinds to their strings leaves the parts around a mark apart. -/
theorem exists_of_joinKinds_mark {list front rest : List Token} {u : Token} {c : Char}
    (h : joinKinds list = front ++ u :: rest) (hMark : u.lexeme = .mark c) :
    ∃ front' rest', list = front' ++ u :: rest' ∧ rest = joinKinds rest' := by
  fun_induction joinKinds list generalizing front with
  | case1 start stop depth name next more hJoin ih =>
    cases front with
    | nil =>
      obtain ⟨rfl, -⟩ := List.cons.inj h
      rw [Bool.and_eq_true, Bool.and_eq_true] at hJoin
      have hString : next.lexeme = .literal := by simpa [Token.isLiteral] using hJoin.1.1
      rw [show next.lexeme = .mark c from hMark] at hString
      cases hString
    | cons x front =>
      obtain ⟨front', rest', rfl, hRest⟩ := ih (List.cons.inj h).2
      exact ⟨_ :: _ :: front', rest', rfl, hRest⟩
  | case2 start stop depth name next more hJoin ih =>
    cases front with
    | nil =>
      obtain ⟨rfl, -⟩ := List.cons.inj h
      cases hMark
    | cons x front =>
      obtain ⟨front', rest', hList, hRest⟩ := ih (List.cons.inj h).2
      exact ⟨_ :: front', rest', by rw [hList]; rfl, hRest⟩
  | case3 first more hOther ih =>
    cases front with
    | nil =>
      obtain ⟨rfl, rfl⟩ := List.cons.inj h
      exact ⟨[], more, rfl, rfl⟩
    | cons x front =>
      obtain ⟨front', rest', rfl, hRest⟩ := ih (List.cons.inj h).2
      exact ⟨_ :: front', rest', rfl, hRest⟩
  | case4 => simp at h

/-- **The tokens behind a mark** are those of the characters behind it. -/
theorem exists_of_tokens_mark {marks : List Scanned} {front rest : List Token} {u : Token} {c : Char}
    (h : tokens marks = front ++ u :: rest) (hMark : u.lexeme = .mark c) :
    ∃ before m behind, marks = before ++ m :: behind ∧ m.region = .code ∧ m.char = c ∧
      m.depth = u.depth ∧ rest = tokens behind := by
  obtain ⟨front', rest', hList, rfl⟩ := exists_of_joinKinds_mark h hMark
  obtain ⟨before, m, behind, rfl, hRegion, hChar, hDepth, rfl⟩ := exists_of_pushAll_mark hList hMark
  exact ⟨before, m, behind, rfl, hRegion, hChar, hDepth, rfl⟩

namespace Reader

theorem stepLiteral_ne_code (r : Reader) (quote : Char) (triple formatted : Bool) (c : Char)
    (rest : Text) (next : Reader) :
    r.stepLiteral quote triple formatted c rest ≠ .continues .code next := by
  fun_cases stepLiteral <;> intro h <;> cases h

theorem stepSpecification_ne_code (r : Reader) (c : Char) (next : Reader) :
    r.stepSpecification c ≠ .continues .code next := by
  fun_cases stepSpecification <;> intro h <;> cases h

/-- Behind a colon in code outside of all brackets, nothing is open. -/
theorem step_colon {r next : Reader} {rest : Text} (h : r.step ':' rest = .continues .code next)
    (hDepth : min r.depth next.depth = 0) : next = start := by
  obtain ⟨frames, comment, escaped, skip, word⟩ := r
  cases skip with
  | succ more => cases h
  | zero =>
    match frames with
    | .literal quote triple formatted :: outer =>
      exact absurd h (stepLiteral_ne_code _ quote triple formatted ':' rest next)
    | .specification :: outer => exact absurd h (stepSpecification_ne_code _ ':' next)
    | .field :: outer =>
      -- here the colon begins a format
      cases comment <;> cases escaped <;> cases h
    | .bracket closer :: outer =>
      have hFrames : next.frames = .bracket closer :: outer := by
        cases comment with
        | true => cases h
        | false =>
          let r : Reader := ⟨.bracket closer :: outer, false, false, 0, []⟩
          have hNext : Progress.continues r.region r = .continues .code next := by
            cases escaped <;> exact h
          rw [← (Progress.continues.inj hNext).2]
      simp only [depth, hFrames, List.length_cons] at hDepth
      omega
    | [] => cases comment <;> cases escaped <;> cases h <;> rfl

/-- The reading of a line from behind one of its characters on. -/
theorem exists_of_readLine?_append {r : Reader} {offset : Nat} {text after : Text}
    {before behind : List Scanned} {m : Scanned}
    (h : readLine? r offset text = some (before ++ m :: behind, after)) :
    ∃ (r' next : Reader) (rest : Text), text = before.map Scanned.char ++ m.char :: rest ∧
      m.offset = offset + byteLength (before.map Scanned.char) ∧
      r'.step m.char rest = .continues m.region next ∧ m.depth = min r'.depth next.depth ∧
      readLine? next (m.offset + m.char.utf8Size) rest = some (behind, after) := by
  induction text generalizing r offset before with
  | nil =>
    rw [readLine?] at h
    split at h
    · simp at h
    · cases h
  | cons c rest ih =>
    rw [readLine?] at h
    split at h
    · rename_i region next hStep
      obtain ⟨⟨more, after'⟩, hMore, hEq⟩ := Option.map_eq_some_iff.1 h
      obtain ⟨hMarks, rfl⟩ := Prod.mk.inj hEq
      cases before with
      | nil =>
        obtain ⟨rfl, rfl⟩ := List.cons.inj hMarks
        exact ⟨r, next, rest, rfl, rfl, hStep, rfl, hMore⟩
      | cons first before =>
        obtain ⟨rfl, rfl⟩ := List.cons.inj hMarks
        obtain ⟨r', next', rest', rfl, hPlace, hHere⟩ := ih hMore
        refine ⟨r', next', rest', rfl, ?_, hHere⟩
        rw [hPlace, List.map_cons, byteLength, Nat.add_assoc]
    · simp at h
    · cases h

end Reader

/-- **The body behind the colon of a header is read from its start.** -/
theorem readsAs_rest {source : Text} {line : Line} {header : FunctionHeader} {t : Token}
    {more : List Token} (h : line ∈ layout source)
    (hHeader : FunctionHeader.ofTokens? line.tokens = some header)
    (hRest : header.rest = t :: more) : ReadsAs source t.start (t :: more) := by
  obtain ⟨keyword, name, signature, paren, hFrom, -, -, -, -, hColon⟩ :=
    FunctionHeader.exists_parts hHeader
  obtain ⟨front, u, rfl, hMark⟩ := exists_of_afterColon? hColon
  obtain ⟨async, hAsync⟩ := fromDef_suffix line.tokens
  have hTokens : line.tokens = (async ++ keyword :: name :: front) ++ u :: header.rest := by
    rw [← hAsync, hFrom]
    simp
  have hne : line.tokens ≠ [] := by
    rw [hTokens]
    simp
  have hMem : line ∈ layoutFrom (byteLength []) 1 source := h
  obtain ⟨between, text, marks, after, row, rfl, hRead, hLine⟩ := exists_read_of_mem hMem hne
  rw [List.nil_append] at hRead
  obtain ⟨first, -, rfl⟩ := Option.map_eq_some_iff.1 hLine
  -- the colon is a character of the line, and nothing is open behind it
  obtain ⟨hDepth, hLexeme⟩ : u.depth = 0 ∧ u.lexeme = .mark ':' := by
    simpa [Token.isMark] using hMark
  obtain ⟨before, m, behind, rfl, hRegion, hChar, hDepth', hBehind⟩ :=
    exists_of_tokens_mark hTokens hLexeme
  obtain ⟨r', next, rest, rfl, hPlace, hStep, hMin, hMore⟩ := Reader.exists_of_readLine?_append hRead
  rw [hRegion, hChar] at hStep
  rw [hDepth', hDepth] at hMin
  obtain rfl := Reader.step_colon hStep hMin.symm
  have hFront : m.offset + m.char.utf8Size =
      byteLength (between ++ (before.map Scanned.char ++ [m.char])) := by
    rw [hPlace, byteLength_append, byteLength_append, Nat.add_assoc]
    rfl
  rw [hFront] at hMore
  have hReads := (readsAs_of_readLine? hMore (hBehind.symm.trans hRest)).1
  simpa using hReads

end FieldFill
