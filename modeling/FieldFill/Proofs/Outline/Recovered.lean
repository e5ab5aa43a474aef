import FieldFill.Proofs.Lexical.Closed
import FieldFill.Proofs.Outline.Classes
import FieldFill.Proofs.Outline.HeaderSearch
import FieldFill.Proofs.Plan.Splice

/-!
# Classes without an initializer

A class none of whose direct statements is the header of an initializer is searched once more, by its
physical lines. Where no logical line goes on with a physical line that looks like such a header, the
search finds nothing: a line that looks like a header is the first physical line of one, and by the
indentations of the lines up to it, it is a direct statement of the class.

Main definition:

* `Orderly` — what the logical lines of a valid program keep to.

Main results:

* `exists_of_recoveredHeaders` — the physical lines that are searched.
* `exists_of_found` — what the search finds is the header of a function.
* `lookupIn_eq_missing` — a class without an initializer has none.
* `Program.missing_of_no_initializer` — so it is reported, and nothing fails but a signature.
* `docstring_header_unparsed` — a line of a docstring may be taken for a header.
-/

namespace FieldFill

/-! ## The first colon -/

theorem firstTopFrom?_eq_some {c : Char} {s : State} {offset place : Nat} {text : Text}
    (h : firstTopFrom? c s offset text = some place) :
    ∃ front back, text = front ++ c :: back ∧ place = offset + byteLength front := by
  induction text generalizing s offset with
  | nil => cases h
  | cons d text ih =>
    rw [firstTopFrom?] at h
    dsimp only at h
    split at h
    · rename_i hTop
      obtain rfl : d = c := by
        simp only [Scanned.isTop, Bool.and_eq_true, decide_eq_true_eq] at hTop
        exact hTop.2
      exact ⟨[], text, rfl, (Option.some.inj h).symm⟩
    · obtain ⟨front, back, rfl, hPlace⟩ := ih h
      exact ⟨d :: front, back, rfl, by rw [hPlace, byteLength, Nat.add_assoc]⟩

/-- What follows a text does not matter when the character is found before. -/
theorem firstTopFrom?_append {c : Char} {s : State} (hs : s.Proper) {offset place : Nat}
    {a b : Text} (hSeam : Apart a b) (h : firstTopFrom? c s offset a = some place) :
    firstTopFrom? c s offset (a ++ b) = some place := by
  induction a generalizing s offset with
  | nil => cases h
  | cons d a ih =>
    rw [List.cons_append, firstTopFrom?, step_append hs offset hSeam]
    rw [firstTopFrom?] at h
    dsimp only at h ⊢
    split at h
    · rename_i hTop
      rw [if_pos hTop]
      exact h
    · rename_i hTop
      rw [if_neg hTop]
      exact ih ((reads_step s offset d a).proper hs) hSeam.tail h

/-! ## The lines behind a class header -/

/-- What the logical lines of a valid program keep to. -/
structure Orderly (l : Text) : Prop where
  /-- A line that starts with `def` is the header of a function. -/
  function : ∀ own ∈ ownLine? l, own.tokens.head?.any (Token.isWord "def") = true →
    (FunctionHeader.ofTokens? own.tokens).isSome = true
  /-- The header of a class starts on its first physical line. -/
  classRow : ∀ own ∈ ownLine? l, (ClassHeader.ofTokens? own.tokens).isSome = true → own.row = 0
  /-- Behind the name of a class, its colon is in sight. -/
  classColon : ∀ own ∈ ownLine? l, ∀ header ∈ ClassHeader.ofTokens? own.tokens,
    ((splitAt? l header.nameEnd).bind fun parts => firstTop? ':' parts.2).isSome = true

instance (l : Text) : Decidable (Orderly l) :=
  decidable_of_iff
    ((∀ own ∈ ownLine? l, own.tokens.head?.any (Token.isWord "def") = true →
        (FunctionHeader.ofTokens? own.tokens).isSome = true) ∧
      (∀ own ∈ ownLine? l, (ClassHeader.ofTokens? own.tokens).isSome = true → own.row = 0) ∧
      ∀ own ∈ ownLine? l, ∀ header ∈ ClassHeader.ofTokens? own.tokens,
        ((splitAt? l header.nameEnd).bind fun parts => firstTop? ':' parts.2).isSome = true)
    ⟨fun ⟨hFunction, hRow, hColon⟩ => ⟨hFunction, hRow, hColon⟩,
      fun ⟨hFunction, hRow, hColon⟩ => ⟨hFunction, hRow, hColon⟩⟩

/-- The physical lines behind the one that a part of a logical line ends on. -/
theorem exists_rows_behind (x v : Text) (more : List Text) :
    ∃ rows, lines (breakLine (v ++ behind more)).2 =
        rows ++ lines (List.intercalate ['\n'] more) ∧
      ∀ row ∈ rows, ∃ tail, (tail = [] ∨ tail = ['\n']) ∧
        row ∈ (lines ((x ++ v) ++ tail)).tail := by
  obtain ⟨first, rest, rfl, hFirst, hRest⟩ := exists_first_row v
  rcases hRest with rfl | ⟨rest, rfl⟩
  · refine ⟨[], ?_, by simp⟩
    cases more with
    | nil =>
      rw [behind, List.append_nil, List.append_nil, breakLine_of_not_mem hFirst]
      rfl
    | cons m more => rw [behind, List.append_nil, breakLine_newline hFirst, List.nil_append]
  · have hBehind : breakLine ((first ++ '\n' :: rest) ++ behind more) =
        (first ++ ['\n'], rest ++ behind more) := by
      rw [List.append_assoc, List.cons_append, breakLine_newline hFirst]
    rw [hBehind]
    have hText : ∀ tail, (x ++ (first ++ '\n' :: rest)) ++ tail =
        (x ++ first) ++ '\n' :: (rest ++ tail) := by simp
    cases more with
    | nil =>
      refine ⟨lines rest, by simp [behind, lines], fun row hRow => ⟨[], .inl rfl, ?_⟩⟩
      rw [hText, List.append_nil]
      exact mem_tail_of_mem_lines hRow
    | cons m more =>
      refine ⟨lines (rest ++ ['\n']), by rw [behind, lines_append],
        fun row hRow => ⟨['\n'], .inr rfl, ?_⟩⟩
      rw [hText]
      exact mem_tail_of_mem_lines hRow

/-- **The lines that are searched** are those the header goes on with, and those of the logical lines
behind it; and the class stands as deep as its header starts, or deeper. -/
theorem exists_of_recoveredHeaders {before : List Text} {l : Text} {more : List Text}
    (hLine : IsLogicalLine l) (hOrderly : Orderly l) (hGoesOn : GoesOnWithoutHeader l) {own : Line}
    (hOwn : ownLine? l = some own) {header : ClassHeader}
    (hHeader : ClassHeader.ofTokens? own.tokens = some header) {found : Nat}
    (h : found ∈ recoveredHeaders (ahead before ++ (l ++ behind more))
      (own.start + byteLength (ahead before)) (header.nameEnd + byteLength (ahead before))) :
    ∃ classIndent offset rows, leadWidth l ≤ classIndent ∧ (∀ row ∈ rows, ¬ LooksLikeHeader row) ∧
      found ∈ headersIn classIndent none offset (rows ++ lines (List.intercalate ['\n'] more)) := by
  obtain ⟨lead, code, hLead, hRow, hBlank⟩ := hLine.exists_lead hOwn
  have hNewline : '\n' ∉ lead := by
    rw [hOrderly.classRow own hOwn (by rw [hHeader]; rfl)] at hRow
    exact List.count_eq_zero.1 hRow.symm
  obtain ⟨colon, hColon⟩ := Option.isSome_iff_exists.1
    (hOrderly.classColon own hOwn header hHeader)
  obtain ⟨⟨x, y⟩, hName, hTop⟩ := Option.bind_eq_some_iff.1 hColon
  obtain ⟨u, v, hText, hPlace⟩ := firstTopFrom?_eq_some hTop
  dsimp only at hText hTop
  subst hText
  rw [Nat.zero_add] at hPlace
  -- the colon is found in the whole program as in the header alone
  have hSeam : Apart (u ++ ':' :: v) (behind more) := by
    rcases behind_endsLine more with hNil | ⟨rest, hRest⟩
    · rw [hNil]
      exact Apart.nil_right _
    · rw [hRest]
      exact Apart.cons_right _ _ rfl
  have hFound : firstTop? ':' ((u ++ ':' :: v) ++ behind more) = some colon :=
    firstTopFrom?_append State.proper_start hSeam hTop
  have hSplit : splitAt? ((u ++ ':' :: v) ++ behind more) colon =
      some (u, ':' :: (v ++ behind more)) := by
    rw [hPlace, List.append_assoc, splitAt?_byteLength]
    rfl
  obtain ⟨rows, hRows, hNone⟩ := exists_rows_behind (x ++ u) (':' :: v) more
  unfold recoveredHeaders at h
  rw [splitAt?_inside hLead, splitAt?_inside hName] at h
  simp only [hFound, Option.bind_some, hSplit, lastLine_append (ahead_ends before), lastLine_of_not_mem hNewline,
    ← List.cons_append, hRows] at h
  refine ⟨_, _, rows, ?_, fun row hRow => ?_, h⟩
  · obtain ⟨y, hy⟩ := hBlank _ _ (List.takeWhile_append_dropWhile (p := isIndent)).symm
      fun c hc => isBlank_of_isIndent (List.mem_takeWhile_imp hc)
    rw [hy, byteLength_append, leadWidth]
    have hle := length_le_byteLength (l.takeWhile isIndent)
    omega
  · obtain ⟨tail, hTail, hMem⟩ := hNone row hRow
    obtain ⟨hl, -⟩ := eq_of_splitAt? hName
    have hSame : x ++ u ++ ':' :: v = l := by rw [hl, List.append_assoc]
    rw [hSame] at hMem
    exact hGoesOn.not_looksLikeHeader hTail hMem

/-! ## The block of a class -/

/-- The block below a line: lines that are deeper by the count of their spaces and tabs are in it,
and the last of them is a direct statement when none has fewer spaces and tabs. -/
theorem Program.WellIndented.below {p : Program} (h : p.WellIndented) {before done rest : List Text}
    {l m : Text} (hLines : p.lines = before ++ l :: (done ++ m :: rest)) {c d : Depth}
    (hc : depth? l = some c) (hd : depth? m = some d)
    (hWidth : ∀ x ∈ done.filterMap depth? ++ [d], c.width < x.width ∧ d.width ≤ x.width) :
    (∀ x ∈ done.filterMap depth? ++ [d], c.indent < x.indent) ∧
      ∀ f, (done.filterMap depth? ++ [d]).head? = some f → d.indent = f.indent := by
  obtain ⟨last, hRun⟩ := Option.isSome_iff_exists.1 h
  have hSplit : p.lines.filterMap depth? = before.filterMap depth? ++
      c :: ((done.filterMap depth? ++ [d]) ++ rest.filterMap depth?) := by
    rw [hLines]
    simp [hc, hd]
  rw [hSplit] at hRun
  obtain ⟨outer, hOpened, hRun⟩ := exists_opened hRun
  rw [List.foldlM_append] at hRun
  obtain ⟨inside, hBlock, -⟩ := Option.bind_eq_some_iff.1 hRun
  exact below_of_run hOpened hBlock hWidth

theorem map_indent_linesOf (offset row : Nat) (ls : List Text) :
    (linesOf offset row ls).map Line.indent = (ls.filterMap depth?).map Depth.indent := by
  induction ls generalizing offset row with
  | nil => rfl
  | cons l ls ih =>
    rw [linesOf, List.map_append, ih, List.filterMap_cons, depth?]
    cases ownLine? l with
    | none => rfl
    | some own => rfl

theorem FunctionHeader.name_of_ofTokens? {t t' : Token} {name : Text} {rest : List Token}
    {header : FunctionHeader} (hDef : t.lexeme = .word ['d', 'e', 'f'])
    (hName : t'.lexeme = .word name)
    (h : FunctionHeader.ofTokens? (t :: t' :: rest) = some header) : header.name = name := by
  obtain ⟨keyword, name', signature, paren, hFrom, -, hLexeme, -⟩ := FunctionHeader.exists_parts h
  have hAsync : t.isWord "async" = false := by
    rw [Token.isWord, hDef]
    rfl
  rw [fromDef, hAsync, if_neg Bool.false_ne_true] at hFrom
  obtain ⟨rfl, hMore⟩ := List.cons.inj hFrom
  obtain ⟨rfl, -⟩ := List.cons.inj hMore
  exact Lexeme.word.inj (hLexeme.symm.trans hName)

/-- A header of an initializer beside the first line of a block is an initializer of the class. -/
theorem initializersIn_ne_nil {before after : List Line} {line first : Line}
    {header : FunctionHeader} (hHeader : FunctionHeader.ofTokens? line.tokens = some header)
    (hName : header.name = initializerName) (hFirst : (before ++ [line]).head? = some first)
    (hBeside : line.indent = first.indent) : initializersIn (before ++ line :: after) ≠ [] := by
  have hDirect : directStatements (before ++ line :: after) =
      statementsAt line.indent (before ++ line :: after) := by
    cases before with
    | nil => rfl
    | cons x before =>
      obtain rfl : x = first := Option.some.inj hFirst
      rw [hBeside]
      rfl
  have hMem := mem_statementsAt before after line
  intro hNone
  rw [initializersIn, hDirect, List.filterMap_eq_nil_iff] at hNone
  have hSome := hNone _ hMem
  simp [hHeader, hName] at hSome

/-! ## Classes without an initializer -/

section

variable {p : Program}

/-- A logical line that begins with what looks like the header of an initializer is one. -/
theorem Orderly.exists_function {m tail : Text} (h : Orderly m) (hLine : IsLogicalLine m)
    (hEnds : EndsLine tail) (hLooks : LooksLikeHeader (breakLine (m ++ tail)).1) :
    ∃ own function, ownLine? m = some own ∧ FunctionHeader.ofTokens? own.tokens = some function ∧
      function.name = initializerName := by
  obtain ⟨s, inside, hText⟩ := exists_of_looksLikeHeader hEnds hLooks
  obtain ⟨own, begins, ends, begins', ends', others, hOwn, hTokens⟩ :=
    s.exists_ownLine? (hText ▸ hLine)
  rw [← hText] at hOwn
  obtain ⟨function, hFunction⟩ := Option.isSome_iff_exists.1
    (h.function own hOwn (by rw [hTokens]; rfl))
  refine ⟨own, function, hOwn, hFunction, ?_⟩
  rw [hTokens] at hFunction
  exact FunctionHeader.name_of_ofTokens? rfl rfl hFunction

/-- A header that the search finds is the header of an initializer on a logical line of its own, and
the lines up to it are deeper than the class and not less deep than it. -/
theorem exists_of_found (hOrderly : ∀ l ∈ p.lines, Orderly l ∧ GoesOnWithoutHeader l)
    {before more : List Text} {l : Text} {own : Line} {header : ClassHeader}
    (hLines : p.lines = before ++ l :: more) (hOwn : ownLine? l = some own)
    (hHeader : ClassHeader.ofTokens? own.tokens = some header) {found : Nat}
    (hFound : found ∈ recoveredHeaders p.text (own.start + byteLength (ahead before))
      (header.nameEnd + byteLength (ahead before))) :
    ∃ done m rest ownM function, more = done ++ m :: rest ∧ ownLine? m = some ownM ∧
      FunctionHeader.ofTokens? ownM.tokens = some function ∧ function.name = initializerName ∧
      ∀ x ∈ done.filterMap depth? ++ [⟨ownM.indent, leadWidth m⟩],
        leadWidth l < x.width ∧ leadWidth m ≤ x.width := by
  have hl : l ∈ p.lines := by simp [hLines]
  rw [Program.text, hLines, intercalate_append] at hFound
  obtain ⟨classIndent, start, rows, hClass, hRows, hSearch⟩ :=
    exists_of_recoveredHeaders (p.readable l hl) (hOrderly l hl).1 (hOrderly l hl).2 hOwn hHeader
      hFound
  obtain ⟨front, line, back, hSplit, hLooks, -, hLeast⟩ := exists_of_mem_headersIn hSearch
  -- the line that looks like a header is behind the class header
  obtain ⟨gap, hFront, hGap⟩ : ∃ gap, front = rows ++ gap ∧
      lines (List.intercalate ['\n'] more) = gap ++ line :: back := by
    rcases List.append_eq_append_iff.1 hSplit with ⟨gap, hFront, hGap⟩ | ⟨gap, hGap, hBack⟩
    · exact ⟨gap, hFront, hGap⟩
    · cases gap with
      | nil => exact ⟨[], by simpa using hGap.symm, hBack.symm⟩
      | cons x gap =>
        obtain ⟨rfl, -⟩ := List.cons.inj hBack
        exact absurd hLooks (hRows line (by simp [hGap]))
  obtain ⟨done, m, rest, tail, rfl, hTail, hDone, hFirst⟩ := exists_of_lines_intercalate hGap
  have hm : m ∈ p.lines := by simp [hLines]
  have hEnds : EndsLine tail := hTail.imp id fun hEq => ⟨[], hEq⟩
  obtain rfl : line = (breakLine (m ++ tail)).1 :=
    hFirst.resolve_right fun hMem => (hOrderly m hm).2.not_looksLikeHeader hTail hMem hLooks
  -- it is the first physical line of the header of a function with the name of an initializer
  obtain ⟨ownM, function, hOwnM, hFunction, hName⟩ :=
    (hOrderly m hm).1.exists_function (p.readable m hm) hEnds hLooks
  -- the search has come past the first physical line of each line of code up to it
  have hDepths : ∀ k ∈ p.lines, ∀ x after, depth? k = some x → EndsLine after →
      (breakLine (k ++ after)).1 ∈ front ++ [(breakLine (m ++ tail)).1] →
      leadWidth l < x.width ∧ leadWidth m ≤ x.width := by
    intro k hk x after hx hAfter hMem
    obtain ⟨ownK, hOwnK, rfl⟩ := Option.map_eq_some_iff.1 hx
    have hle := hLeast _ hMem ((p.readable k hk).holdsCode hOwnK hAfter)
    rw [leadWidth_breakLine k hAfter, leadWidth_breakLine m hEnds] at hle
    exact ⟨Nat.lt_of_le_of_lt hClass hle.1, hle.2⟩
  refine ⟨done, m, rest, ownM, function, rfl, hOwnM, hFunction, hName, fun x hx => ?_⟩
  rcases List.mem_append.1 hx with hBefore | hHere
  · obtain ⟨d, hd, hDepth⟩ := List.mem_filterMap.1 hBefore
    refine hDepths d (by simp [hLines, hd]) x ['\n'] hDepth (.inr ⟨[], rfl⟩) ?_
    rw [hFront]
    exact List.mem_append_left _ (List.mem_append_right _ (hDone d hd))
  · obtain rfl := List.mem_singleton.1 hHere
    exact hDepths m hm _ tail (by rw [depth?, hOwnM]; rfl) hEnds (by simp)

/-- Such a header is one of the direct statements of the class. -/
theorem Program.WellIndented.initializersIn_ne_nil (hp : p.WellIndented)
    {before done rest : List Text} {l m : Text} {own ownM : Line} {function : FunctionHeader}
    (hLines : p.lines = before ++ l :: (done ++ m :: rest)) (hOwn : ownLine? l = some own)
    (hOwnM : ownLine? m = some ownM) (hFunction : FunctionHeader.ofTokens? ownM.tokens = some function)
    (hName : function.name = initializerName)
    (hWidth : ∀ x ∈ done.filterMap depth? ++ [⟨ownM.indent, leadWidth m⟩],
      leadWidth l < x.width ∧ leadWidth m ≤ x.width) (offset row : Nat) :
    initializersIn ((linesOf offset row (done ++ m :: rest)).takeWhile
      fun x => own.indent < x.indent) ≠ [] := by
  obtain ⟨hBelow, hBeside⟩ := hp.below hLines (c := ⟨own.indent, leadWidth l⟩)
    (by rw [depth?, hOwn]; rfl) (by rw [depth?, hOwnM]; rfl) hWidth
  obtain ⟨offset', row', hMore⟩ : ∃ offset' row', linesOf offset row (done ++ m :: rest) =
      (linesOf offset row done ++ [ownM.moved offset' row']) ++
        linesOf (offset' + byteLength m + 1) (row' + newlines m + 1) rest := by
    rw [linesOf_append, linesOf, hOwnM]
    exact ⟨_, _, (List.append_assoc ..).symm⟩
  have hIndents : (linesOf offset row done ++ [ownM.moved offset' row']).map Line.indent =
      (done.filterMap depth? ++ [(⟨ownM.indent, leadWidth m⟩ : Depth)]).map Depth.indent := by
    rw [List.map_append, List.map_append, map_indent_linesOf]
    rfl
  have hInside : ∀ x ∈ linesOf offset row done ++ [ownM.moved offset' row'],
      decide (own.indent < x.indent) = true := by
    intro x hx
    have hMem := List.mem_map_of_mem (f := Line.indent) hx
    rw [hIndents] at hMem
    obtain ⟨depth, hDepth, hEq⟩ := List.mem_map.1 hMem
    rw [decide_eq_true_iff, ← hEq]
    exact hBelow depth hDepth
  obtain ⟨first, hHead⟩ : ∃ first,
      (linesOf offset row done ++ [ownM.moved offset' row']).head? = some first := by
    cases linesOf offset row done <;> exact ⟨_, rfl⟩
  have hFirst : ownM.indent = first.indent := by
    have hMap := congrArg List.head? hIndents
    rw [List.head?_map, List.head?_map, hHead] at hMap
    obtain ⟨depth, hDepth, hEq⟩ := Option.map_eq_some_iff.1 hMap.symm
    rw [← hEq]
    exact hBeside depth hDepth
  have hMoved : FunctionHeader.ofTokens? (ownM.moved offset' row').tokens =
      some (function.shift offset') := by
    rw [Line.moved, FunctionHeader.ofTokens?_shift, hFunction]
    rfl
  rw [hMore, List.takeWhile_append_of_pos hInside, List.append_assoc, List.singleton_append]
  exact FieldFill.initializersIn_ne_nil hMoved hName hHead hFirst

/-- **A class without an initializer has none.** When no direct statement of a class is the header
of an initializer, the search of its lines finds no header, either. -/
theorem lookupIn_eq_missing (hp : p.WellIndented)
    (hOrderly : ∀ l ∈ p.lines, Orderly l ∧ GoesOnWithoutHeader l) {c : ClassBlock}
    (hClass : c ∈ classesIn (layout p.text)) (hInitializers : initializersIn c.block = []) :
    lookupIn p.text c.line.start c.header c.block = .missing := by
  obtain ⟨done, rest, hLayout, hHeader, hBlock⟩ := exists_of_mem_classesIn hClass
  rw [p.layout_text] at hLayout
  obtain ⟨before, l, more, own, hLines, hOwn, hMoved, offset, row, rfl⟩ := exists_of_linesOf hLayout
  rw [Nat.zero_add] at hMoved
  have hNone := hInitializers
  rw [hBlock, hMoved] at hNone
  rw [hMoved, Line.moved, ClassHeader.ofTokens?_shift] at hHeader
  obtain ⟨header, hHeader, hEq⟩ := Option.map_eq_some_iff.1 hHeader
  have hSearch : recoveredHeaders p.text c.line.start c.header.nameEnd = [] := by
    rw [List.eq_nil_iff_forall_not_mem]
    intro found hFound
    rw [hMoved, ← hEq] at hFound
    obtain ⟨done, m, rest, ownM, function, rfl, hOwnM, hFunction, hName, hWidth⟩ :=
      exists_of_found hOrderly hLines hOwn hHeader hFound
    exact hp.initializersIn_ne_nil hLines hOwn hOwnM hFunction hName hWidth offset row hNone
  rw [lookupIn, hInitializers, recover, hSearch]

theorem isFailed_planInitializer {source : Text} {settings : Settings} {className : Text}
    {initializer : Initializer} {made : List Assignment}
    (h : signatureFrom source initializer.openParen >>= assignments settings = .ok made) :
    (planInitializer source settings className initializer).1.isFailed = false := by
  rw [planInitializer, h]
  cases made with
  | nil => rfl
  | cons first made =>
    show (fillBody _ _ initializer.body).1.isFailed = false
    unfold fillBody
    split
    · rfl
    · split <;> rfl

/-- A class without an initializer is no failure. On a program of readable logical lines, indented
by blocks, where no logical line goes on with a physical line that looks like the header of an
initializer, every class without such a header among its direct statements is reported to have no
initializer; no class has an unparsed one, and nothing fails but a signature that cannot be cut. -/
theorem Program.missing_of_no_initializer (p : Program) (hp : p.WellIndented)
    (hOrderly : ∀ l ∈ p.lines, Orderly l ∧ GoesOnWithoutHeader l) (settings : Settings) :
    (∀ c ∈ classesIn (layout p.text), initializersIn c.block = [] →
      c.entry p.text ∈ locate p.text ∧ (c.entry p.text).lookup = .missing ∧
      planClass p.text settings (c.entry p.text) =
        (⟨c.header.name, c.line.row, .noInitializer⟩, none)) ∧
    (∀ entry ∈ locate p.text, ∀ line openParen, entry.lookup ≠ .unparsed line openParen) ∧
    ((∀ entry ∈ locate p.text, ∀ initializer, entry.lookup = .found initializer →
      ∃ made, signatureFrom p.text initializer.openParen >>= assignments settings = .ok made) →
      (planDocument p.text settings).hasFailures = false) := by
  have hMissing : ∀ c ∈ classesIn (layout p.text), initializersIn c.block = [] →
      (c.entry p.text).lookup = .missing :=
    fun c hc hNone => lookupIn_eq_missing hp hOrderly hc hNone
  have hUnparsed : ∀ entry ∈ locate p.text, ∀ line openParen,
      entry.lookup ≠ .unparsed line openParen := by
    intro entry hEntry line openParen hLookup
    rw [locate, entries_eq] at hEntry
    obtain ⟨c, hc, rfl⟩ := List.mem_map.1 hEntry
    -- a class with an initializer is not searched
    have hSome : initializersIn c.block ≠ [] := by
      intro hNone
      rw [hMissing c hc hNone] at hLookup
      cases hLookup
    unfold ClassBlock.entry lookupIn at hLookup
    dsimp only at hLookup
    split at hLookup
    · rename_i hNone
      exact hSome hNone
    · split at hLookup <;> cases hLookup
    · cases hLookup
  refine ⟨fun c hc hNone => ⟨?_, hMissing c hc hNone, ?_⟩, hUnparsed, fun hScan => ?_⟩
  · rw [locate, entries_eq]
    exact List.mem_map_of_mem hc
  · rw [planClass, hMissing c hc hNone]
    rfl
  · rw [Plan.hasFailures, List.any_eq_false]
    intro report hReport
    simp only [planDocument, planEntries, List.map_map, List.mem_map] at hReport
    obtain ⟨entry, hEntry, rfl⟩ := hReport
    have hNot : (planClass p.text settings entry).1.outcome.isFailed = false := by
      unfold planClass
      split
      · rfl
      · rfl
      · rename_i line openParen hLookup
        exact absurd hLookup (hUnparsed entry hEntry line openParen)
      · rename_i initializer hLookup
        obtain ⟨made, hMade⟩ := hScan entry hEntry initializer hLookup
        exact isFailed_planInitializer hMade
    simp [hNot]

/-- A class with a docstring over two lines and a method whose comment names an initializer. -/
theorem Program.missing_of_no_initializer_method :
    ∃ p : Program,
      p.text = "class A:\n  \"\"\"One\n  two.\"\"\"\n  def f(a): # def __init__(a)\n    b\n".toList ∧
      p.WellIndented ∧ (∀ l ∈ p.lines, Orderly l ∧ GoesOnWithoutHeader l) ∧
      (planDocument p.text .default).hasFailures = false ∧
      ∃ c ∈ classesIn (layout p.text),
        planClass p.text .default (c.entry p.text) = (⟨['A'], 1, .noInitializer⟩, none) := by
  let p : Program := ⟨["class A:".toList, "  \"\"\"One\n  two.\"\"\"".toList,
    "  def f(a): # def __init__(a)".toList, "    b".toList, []], by decide⟩
  have hp : p.WellIndented := by decide
  have hOrderly : ∀ l ∈ p.lines, Orderly l ∧ GoesOnWithoutHeader l := by decide
  obtain ⟨hMissing, -, hFailures⟩ := p.missing_of_no_initializer hp hOrderly .default
  have hText : p.text =
      "class A:\n  \"\"\"One\n  two.\"\"\"\n  def f(a): # def __init__(a)\n    b\n".toList := by
    decide +kernel
  have hLocate : locate p.text = [⟨['A'], 1, .missing⟩] := by
    rw [locate, p.layout_text]
    decide +kernel
  have hClass : ∃ c ∈ classesIn (layout p.text), initializersIn c.block = [] ∧
      c.header.name = ['A'] ∧ c.line.row = 1 := by
    rw [p.layout_text]
    decide +kernel
  obtain ⟨c, hc, hNone, hName, hRow⟩ := hClass
  obtain ⟨-, -, hReport⟩ := hMissing c hc hNone
  rw [hName, hRow] at hReport
  refine ⟨p, hText, hp, hOrderly, hFailures fun entry hEntry initializer hFound => ?_, c, hc,
    hReport⟩
  rw [hLocate, List.mem_singleton] at hEntry
  rw [hEntry] at hFound
  cases hFound

/-- A docstring with a line that looks like a header: the class has no initializer, and one is
reported that cannot be read. -/
theorem docstring_header_unparsed :
    ∃ p : Program, p.text = "class A:\n    \"\"\"\n    def __init__(self):\n    \"\"\"\n".toList ∧
      p.WellIndented ∧ (∀ l ∈ p.lines, Orderly l) ∧
      (∀ c ∈ classesIn (layout p.text), initializersIn c.block = []) ∧
      locate p.text = [⟨['A'], 1, .unparsed 3 33⟩] ∧
      (planDocument p.text .default).hasFailures = true := by
  let p : Program := ⟨["class A:".toList,
    "    \"\"\"\n    def __init__(self):\n    \"\"\"".toList, []], by decide⟩
  have hText : p.text = "class A:\n    \"\"\"\n    def __init__(self):\n    \"\"\"\n".toList := by
    decide +kernel
  have hNone : ∀ c ∈ classesIn (layout p.text), initializersIn c.block = [] := by
    rw [p.layout_text]
    decide +kernel
  have hLocate : locate p.text = [⟨['A'], 1, .unparsed 3 33⟩] := by
    rw [locate, p.layout_text]
    decide +kernel
  refine ⟨p, hText, by decide, by decide, hNone, hLocate, ?_⟩
  rw [planDocument, hLocate]
  rfl

end

end FieldFill
