import FieldFill.Plan.Document
import FieldFill.Proofs.Layout.Physical
import FieldFill.Proofs.Lexical.Closed
import FieldFill.Proofs.Text.Slice

/-!
# The search for broken headers

What the search of a class by its physical lines goes through, and what it takes for the header of an
initializer. A physical line that looks like a header is the first one of a logical line that begins
with `def` and the name of an initializer, unless it stands in the middle of a logical line.

Main definitions:

* `LooksLikeHeader` — what the search takes for a header.
* `HeaderStart` — the text of a header in front of its parenthesis.
* `GoesOnWithoutHeader` — no physical line of a logical line but the first looks like a header.

Main results:

* `exists_of_mem_headersIn` — the lines that the search goes through up to a header.
* `exists_of_lines_intercalate` — where a physical line stands in a program.
* `exists_of_looksLikeHeader`, `HeaderStart.exists_ownLine?` — a line that looks like a header is one.
-/

namespace FieldFill

/-! ## The search -/

/-- A physical line that the search takes for the header of an initializer. -/
def LooksLikeHeader (line : Text) : Prop :=
  (initializerHead? (line.dropWhile isIndent)).isSome = true

instance : DecidablePred LooksLikeHeader := fun line =>
  inferInstanceAs (Decidable ((initializerHead? (line.dropWhile isIndent)).isSome = true))

/-- What the search does at a physical line. -/
theorem mem_headersIn_cons {classIndent offset found : Nat} {body : Option Nat} {row : Text}
    {rows : List Text} (h : found ∈ headersIn classIndent body offset (row :: rows)) :
    (holdsCode (row.dropWhile isIndent) = false ∧
      found ∈ headersIn classIndent body (offset + byteLength row) rows) ∨
    (classIndent < leadWidth row ∧ body.getD (leadWidth row) ≤ leadWidth row ∧
      (LooksLikeHeader row ∧ leadWidth row = body.getD (leadWidth row) ∨
        found ∈ headersIn classIndent (some (body.getD (leadWidth row)))
          (offset + byteLength row) rows)) := by
  unfold headersIn at h
  dsimp only at h
  split at h
  · rename_i hCode
    exact .inl ⟨by simpa using hCode, h⟩
  · right
    split at h
    · cases h
    · rename_i hIndent
      simp only [Bool.or_eq_true, decide_eq_true_eq, not_or, Nat.not_le, Nat.not_lt] at hIndent
      refine ⟨hIndent.1, hIndent.2, ?_⟩
      rcases List.mem_append.1 h with hHere | hLater
      · left
        split at hHere
        · rename_i hSame
          obtain ⟨tail, hTail, -⟩ := List.mem_map.1 hHere
          refine ⟨?_, hSame⟩
          rw [LooksLikeHeader, Option.isSome_iff_exists]
          exact ⟨tail, by simpa using hTail⟩
        · cases hHere
      · exact .inr hLater

/-- Where the search finds a header, that line looks like one, and no line of code up to it is less
indented than it, or as little as the class. -/
theorem exists_of_mem_headersIn {classIndent offset found : Nat} {body : Option Nat}
    {rows : List Text} (h : found ∈ headersIn classIndent body offset rows) :
    ∃ before line after, rows = before ++ line :: after ∧ LooksLikeHeader line ∧
      (∀ b, body = some b → leadWidth line = b) ∧
      ∀ row ∈ before ++ [line], holdsCode (row.dropWhile isIndent) = true →
        classIndent < leadWidth row ∧ leadWidth line ≤ leadWidth row := by
  induction rows generalizing body offset with
  | nil => cases h
  | cons row rows ih =>
    rcases mem_headersIn_cons h with ⟨hCode, hLater⟩ | ⟨hClass, hLeast, ⟨hLooks, hSame⟩ | hLater⟩
    · obtain ⟨before, line, after, rfl, hLooks, hBody, hRows⟩ := ih hLater
      refine ⟨row :: before, line, after, rfl, hLooks, hBody, ?_⟩
      exact List.forall_mem_cons.2 ⟨fun hHolds => by simp [hHolds] at hCode, hRows⟩
    · refine ⟨[], row, rows, rfl, hLooks, ?_, ?_⟩
      · rintro b rfl
        exact hSame
      · intro row' hRow _
        obtain rfl : row' = row := List.mem_singleton.1 hRow
        exact ⟨hClass, Nat.le_refl _⟩
    · obtain ⟨before, line, after, rfl, hLooks, hBody, hRows⟩ := ih hLater
      have hWidth := hBody _ rfl
      refine ⟨row :: before, line, after, rfl, hLooks, ?_, ?_⟩
      · rintro b rfl
        exact hWidth
      · exact List.forall_mem_cons.2 ⟨fun _ => ⟨hClass, hWidth ▸ hLeast⟩, hRows⟩

/-! ## Where the physical lines stand -/

/-- A physical line of a program is the first one of a logical line, or one that a logical line goes
on with. Then the first physical lines of the logical lines before it stand before it. -/
theorem exists_of_lines_intercalate {ls : List Text} {before after : List Text} {line : Text}
    (h : lines (List.intercalate ['\n'] ls) = before ++ line :: after) :
    ∃ done m rest tail, ls = done ++ m :: rest ∧ (tail = [] ∨ tail = ['\n']) ∧
      (∀ d ∈ done, (breakLine (d ++ ['\n'])).1 ∈ before) ∧
      (line = (breakLine (m ++ tail)).1 ∨ line ∈ (lines (m ++ tail)).tail) := by
  induction ls generalizing before with
  | nil =>
    rw [List.intercalate_nil] at h
    simp [lines] at h
  | cons l ls ih =>
    -- a line of `l` itself is its first one or another one
    have hOwn : ∀ tail : Text, (tail = [] ∨ tail = ['\n']) → line ∈ lines (l ++ tail) →
        ∃ done m rest tail, l :: ls = done ++ m :: rest ∧ (tail = [] ∨ tail = ['\n']) ∧
          (∀ d ∈ done, (breakLine (d ++ ['\n'])).1 ∈ before) ∧
          (line = (breakLine (m ++ tail)).1 ∨ line ∈ (lines (m ++ tail)).tail) := by
      intro tail hTail hMem
      refine ⟨[], l, ls, tail, rfl, hTail, by simp, ?_⟩
      have hne : l ++ tail ≠ [] := by
        rintro hNil
        rw [hNil] at hMem
        cases hMem
      rw [lines_eq_cons hne, List.mem_cons] at hMem
      rw [lines_eq_cons hne, List.tail_cons]
      exact hMem
    by_cases hNil : ls = []
    · subst hNil
      rw [List.intercalate_singleton] at h
      exact hOwn [] (.inl rfl) (by rw [List.append_nil, h]; simp)
    · rw [List.intercalate_cons_of_ne_nil hNil, List.append_assoc, List.singleton_append,
        lines_append] at h
      have hBehind : ∀ gap, before = lines (l ++ ['\n']) ++ gap →
          lines (List.intercalate ['\n'] ls) = gap ++ line :: after →
          ∃ done m rest tail, l :: ls = done ++ m :: rest ∧ (tail = [] ∨ tail = ['\n']) ∧
            (∀ d ∈ done, (breakLine (d ++ ['\n'])).1 ∈ before) ∧
            (line = (breakLine (m ++ tail)).1 ∨ line ∈ (lines (m ++ tail)).tail) := by
        intro gap hBefore hLater
        obtain ⟨done, m, rest, tail, rfl, hTail, hDone, hLine⟩ := ih hLater
        refine ⟨l :: done, m, rest, tail, rfl, hTail, ?_, hLine⟩
        rw [hBefore]
        refine List.forall_mem_cons.2 ⟨?_, fun d hd => List.mem_append_right _ (hDone d hd)⟩
        rw [lines_eq_cons (by simp)]
        simp
      rcases List.append_eq_append_iff.1 h with ⟨gap, hBefore, hLater⟩ | ⟨gap, hFirst, hGap⟩
      · exact hBehind gap hBefore hLater
      · cases gap with
        | nil =>
          rw [List.append_nil] at hFirst
          exact hBehind [] (by rw [hFirst, List.append_nil]) hGap.symm
        | cons x gap =>
          obtain ⟨rfl, -⟩ := List.cons.inj hGap
          exact hOwn ['\n'] (.inr rfl) (by rw [hFirst]; simp)

/-! ## A line that looks like a header is one -/

theorem initializerHead?_eq_some {text tail : Text} (h : initializerHead? text = some tail) :
    ∃ gap space inside, text = ['d', 'e', 'f'] ++ (gap ++ (initializerName ++ (space ++
      '(' :: inside))) ∧ Blank gap ∧ gap ≠ [] ∧ Blank space := by
  unfold initializerHead? at h
  obtain ⟨behindDef, hDef, h⟩ := Option.bind_eq_some_iff.1 h
  obtain ⟨name, hGap, h⟩ := Option.bind_eq_some_iff.1 h
  obtain ⟨behindName, hName, h⟩ := Option.bind_eq_some_iff.1 h
  obtain ⟨space, hSpace, hTrim⟩ := exists_trimStart behindName
  have hParen : ∃ inside, trimStart behindName = '(' :: inside := by
    split at h
    · rename_i inside hParen
      exact ⟨inside, hParen⟩
    · cases h
  obtain ⟨inside, hParen⟩ := hParen
  obtain ⟨gap, hBlank, hne, hBehind⟩ : ∃ gap, Blank gap ∧ gap ≠ [] ∧ behindDef = gap ++ name := by
    cases behindDef with
    | nil => cases hGap
    | cons c rest =>
      rw [afterBlanks?] at hGap
      split at hGap
      · rename_i hc
        obtain ⟨front, hFront, hRest⟩ := exists_trimStart rest
        rw [Option.some.inj hGap] at hRest
        exact ⟨c :: front, List.forall_mem_cons.2 ⟨hc, hFront⟩, by simp, by rw [hRest]; rfl⟩
      · cases hGap
  refine ⟨gap, space, inside, ?_, hBlank, hne, hSpace⟩
  rw [eq_append_of_after? hDef, hBehind, eq_append_of_after? hName, hTrim, hParen]

/-- The text in front of the parenthesis of a header. -/
structure HeaderStart where
  front : Text
  gap : Text
  space : Text
  indents : ∀ c ∈ front, isIndent c = true
  blankGap : Blank gap
  gap_ne : gap ≠ []
  gapLine : '\n' ∉ gap
  blankSpace : Blank space
  spaceLine : '\n' ∉ space

namespace HeaderStart

def text (s : HeaderStart) : Text :=
  s.front ++ (['d', 'e', 'f'] ++ (s.gap ++ (initializerName ++ s.space)))

theorem plain (s : HeaderStart) : ∀ c ∈ s.text, staysPlain c = true := by
  have hBlank : ∀ {x : Text}, Blank x → '\n' ∉ x → ∀ c ∈ x, staysPlain c = true :=
    fun hx hLine c hc => staysPlain_of_isBlank (hx c hc) fun hEq => hLine (hEq ▸ hc)
  simp only [text, List.forall_mem_append]
  exact ⟨fun c hc => staysPlain_of_isIndent (s.indents c hc), List.all_eq_true.1 rfl,
    hBlank s.blankGap s.gapLine, List.all_eq_true.1 rfl, hBlank s.blankSpace s.spaceLine⟩

/-- Each of its two words is a token, and blanks are none. -/
theorem pushAll_text (s : HeaderStart) {paren : Token} (hMark : paren.lexeme = .mark '(')
    (behind : List Token) (offset : Nat) :
    ∃ start stop start' stop', pushAll (unread offset s.text) (paren :: behind) =
      ⟨start, stop, 0, .word ['d', 'e', 'f']⟩ :: ⟨start', stop', 0, .word initializerName⟩ ::
        paren :: behind := by
  -- the second word starts behind the gap
  have hDef : ∀ offset stop rest, NoWordAt (offset + byteLength ['d', 'e', 'f'])
      (⟨offset + byteLength ['d', 'e', 'f'] + byteLength s.gap, stop, 0,
        .word initializerName⟩ :: rest) := by
    rintro offset stop rest t hHead text -
    obtain rfl := Option.some.inj hHead
    have hPos : byteLength s.gap ≠ 0 := fun hZero => s.gap_ne (byteLength_eq_zero hZero)
    dsimp only
    omega
  have hFront : Blank s.front := fun c hc => isBlank_of_isIndent (s.indents c hc)
  simp only [text, unread_append, pushAll_append]
  rw [pushAll_blank s.blankSpace, pushAll_name (List.all_eq_true.1 rfl) (by decide) _ (noWordAt_mark hMark _ _),
    pushAll_blank s.blankGap, pushAll_name (List.all_eq_true.1 rfl) (by decide) _ (hDef _ _ _),
    pushAll_blank hFront]
  exact ⟨_, _, _, _, rfl⟩

end HeaderStart

/-- The text of a logical line whose first physical line looks like a header. -/
theorem exists_of_looksLikeHeader {m tail : Text} (hTail : EndsLine tail)
    (h : LooksLikeHeader (breakLine (m ++ tail)).1) :
    ∃ (s : HeaderStart) (back : Text), m = s.text ++ '(' :: back := by
  obtain ⟨head, hHead⟩ := Option.isSome_iff_exists.1 h
  rw [dropWhile_breakLine, (takeWhile_endsLine m hTail).2] at hHead
  obtain ⟨row, rest, hRow, hNewline, hRest⟩ := exists_first_row (m.dropWhile isIndent)
  rw [hRow, List.append_assoc] at hHead
  obtain ⟨gap, space, inside, hText, hGap, hne, hSpace⟩ := initializerHead?_eq_some hHead
  -- the newline of the physical line stands behind the parenthesis
  obtain ⟨inside', hInside⟩ : ∃ inside', row = ['d', 'e', 'f'] ++ (gap ++ (initializerName ++
      (space ++ '(' :: inside'))) := by
    rcases breakLine_append_of_not_mem hNewline (hRest.append hTail) with hLine | hLine
    · exact ⟨inside, hLine.symm.trans hText⟩
    · have hEq := hLine.symm.trans hText
      rcases List.eq_nil_or_concat inside with rfl | ⟨init, c, rfl⟩
      · have hLast : row ++ ['\n'] = (['d', 'e', 'f'] ++ (gap ++ (initializerName ++ space))) ++
            ['('] := by simpa using hEq
        cases (List.append_inj' hLast rfl).2
      · refine ⟨init, ?_⟩
        have hInit : row ++ ['\n'] = (['d', 'e', 'f'] ++ (gap ++ (initializerName ++
            (space ++ '(' :: init)))) ++ [c] := by simpa using hEq
        exact (List.append_inj' hInit rfl).1
  have hGapLine : '\n' ∉ gap := fun hMem => hNewline (by simp [hInside, hMem])
  have hSpaceLine : '\n' ∉ space := fun hMem => hNewline (by simp [hInside, hMem])
  have hSplit := List.takeWhile_append_dropWhile (p := isIndent) (l := m)
  rw [hRow, hInside] at hSplit
  refine ⟨⟨m.takeWhile isIndent, gap, space, fun c hc => List.mem_takeWhile_imp hc, hGap, hne,
    hGapLine, hSpace, hSpaceLine⟩, inside' ++ rest, hSplit.symm.trans ?_⟩
  simp [HeaderStart.text]

/-- The tokens of such a logical line begin with `def` and the name of an initializer. -/
theorem HeaderStart.exists_ownLine? (s : HeaderStart) {back : Text}
    (h : IsLogicalLine (s.text ++ '(' :: back)) :
    ∃ own start stop start' stop' more, ownLine? (s.text ++ '(' :: back) = some own ∧
      own.tokens = ⟨start, stop, 0, .word ['d', 'e', 'f']⟩ ::
        ⟨start', stop', 0, .word initializerName⟩ :: more := by
  obtain ⟨word, marks, last, hMarks, hRun⟩ := h.exists_marksOf s.plain
  have hStep : (Reader.within word).step '(' (back ++ ['\n']) =
      .continues .code ⟨[.bracket ')'], false, false, 0, []⟩ := rfl
  rw [Reader.run?_cons hStep] at hRun
  obtain ⟨⟨more, last'⟩, -, hEq⟩ := Option.map_eq_some_iff.1 hRun
  obtain ⟨hParen, -⟩ := Prod.mk.inj hEq
  rw [← hParen] at hMarks
  have hMem : ⟨byteLength s.text, '(', .code, 0, 1⟩ ∈ marksOf (s.text ++ '(' :: back) := by
    rw [hMarks]
    exact List.mem_append_right _ (List.mem_cons_self ..)
  obtain ⟨own, hOwn⟩ := FieldFill.exists_ownLine? hMem rfl
  let paren : Token := ⟨byteLength s.text, byteLength s.text + 1, 0, .mark '('⟩
  have hTokens : own.tokens =
      joinKinds (pushAll (unread 0 s.text) (paren :: pushAll more [])) := by
    rw [tokens_of_ownLine? hOwn, hMarks]
    show joinKinds (pushAll _ []) = _
    rw [pushAll_append]
    rfl
  have hMark : paren.lexeme = .mark '(' := rfl
  obtain ⟨start, stop, start', stop', hPush⟩ := s.pushAll_text hMark (pushAll more []) 0
  refine ⟨own, start, stop, start', stop', joinKinds (paren :: pushAll more []), hOwn, ?_⟩
  rw [hTokens, hPush, joinKinds, joinKinds]
  simp [Token.isLiteral, paren]

/-! ## Physical lines behind the first -/

theorem initializerHead?_of_text {gap space : Text} (hGap : Blank gap) (hne : gap ≠ [])
    (hSpace : Blank space) (inside : Text) :
    initializerHead? (['d', 'e', 'f'] ++ (gap ++ (initializerName ++ (space ++ '(' :: inside)))) =
      some ('(' :: inside) := by
  obtain ⟨c, gap, rfl⟩ := List.exists_cons_of_ne_nil hne
  obtain ⟨hc, hMore⟩ := List.forall_mem_cons.1 hGap
  have hName : trimStart (gap ++ (initializerName ++ (space ++ '(' :: inside))) =
      initializerName ++ (space ++ '(' :: inside) := by
    rw [trimStart_append_of_blank hMore]
    exact trimStart_of_head rfl _
  have hParen : trimStart (space ++ '(' :: inside) = '(' :: inside := by
    rw [trimStart_append_of_blank hSpace]
    exact trimStart_of_head rfl _
  have hDef : after? ['d', 'e', 'f'] (['d', 'e', 'f'] ++
      (c :: gap ++ (initializerName ++ (space ++ '(' :: inside)))) =
        some (c :: (gap ++ (initializerName ++ (space ++ '(' :: inside)))) := rfl
  have hInit : after? initializerName (initializerName ++ (space ++ '(' :: inside)) =
      some (space ++ '(' :: inside) := rfl
  rw [initializerHead?_eq, hDef, Option.bind_some, afterBlanks?, if_pos hc, hName, Option.bind_some,
    hInit, Option.bind_some, hParen]
  rfl

theorem HeaderStart.looksLikeHeader (s : HeaderStart) (back : Text) :
    LooksLikeHeader (breakLine (s.text ++ '(' :: back)).1 := by
  have hLine : '\n' ∉ s.text := fun hMem => (staysPlain_iff.1 (s.plain _ hMem)).2.1 rfl
  have hCode : (s.text ++ '(' :: (breakLine back).1).dropWhile isIndent =
      ['d', 'e', 'f'] ++ (s.gap ++ (initializerName ++ (s.space ++ '(' :: (breakLine back).1))) := by
    rw [text, List.append_assoc, List.dropWhile_append_of_pos s.indents]
    simp [isIndent]
  rw [LooksLikeHeader, breakLine_append_left hLine, breakLine_cons (by decide), hCode,
    initializerHead?_of_text s.blankGap s.gap_ne s.blankSpace]
  rfl

/-- A logical line of which no physical line but the first looks like a header. -/
def GoesOnWithoutHeader (l : Text) : Prop :=
  ∀ row ∈ (lines l).tail, ¬ LooksLikeHeader row

instance : DecidablePred GoesOnWithoutHeader := fun l =>
  inferInstanceAs (Decidable (∀ row ∈ (lines l).tail, ¬ LooksLikeHeader row))

/-- Then none does when a newline follows, either. -/
theorem GoesOnWithoutHeader.not_looksLikeHeader {l tail row : Text} (h : GoesOnWithoutHeader l)
    (hTail : tail = [] ∨ tail = ['\n']) (hRow : row ∈ (lines (l ++ tail)).tail) :
    ¬ LooksLikeHeader row := by
  rcases hTail with rfl | rfl
  · rw [List.append_nil] at hRow
    exact h row hRow
  · intro hLooks
    obtain ⟨front, back, hText, hne, rfl⟩ := exists_of_mem_tail_lines hRow
    obtain ⟨back', c, rfl⟩ := (List.eq_nil_or_concat back).resolve_left hne
    have hSplit : l ++ ['\n'] = (front ++ '\n' :: back') ++ [c] := by simpa using hText
    obtain ⟨hLine, hc⟩ := List.append_inj' hSplit rfl
    obtain rfl : '\n' = c := by simpa using hc
    -- the header is there without the newline
    rw [List.concat_eq_append] at hLooks
    obtain ⟨s, inside, rfl⟩ := exists_of_looksLikeHeader (.inr ⟨[], rfl⟩) hLooks
    have hMem : (breakLine (s.text ++ '(' :: inside)).1 ∈ (lines l).tail := by
      rw [hLine]
      exact mem_tail_lines (by simp)
    exact h _ hMem (s.looksLikeHeader inside)

end FieldFill
