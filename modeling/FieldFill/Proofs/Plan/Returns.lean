import FieldFill.Proofs.Layout.Physical
import FieldFill.Proofs.Outline.LineEnd
import FieldFill.Proofs.Parameter.Names
import FieldFill.Proofs.Parameter.Returns
import FieldFill.Proofs.Plan.Positions

/-!
# Plans for a text with Windows line endings

A plan at a line is made of what the text says, not of how its lines end. With Windows line endings the
same header is found at the same line, its list declares the same parameters, and its body begins with
the same docstring. So the same statements are reported and put in at the same place, with the line
ending that is in use there.

Main definitions:

* `PlanFault.unplaced` — a fault without the byte positions it names.

Main results:

* `docstring?_crlf` — the docstring of a body.
* `Planned.exists_crlf` — a header with its plan, in the text with Windows line endings.
* `planAtLine_crlf` — planning and applying go through the conversion.
-/

namespace FieldFill

/-! ## Lines -/

theorem crlf_flatten (list : List Text) : crlf list.flatten = (list.map crlf).flatten := by
  induction list with
  | nil => rfl
  | cons l list ih => rw [List.flatten_cons, crlf_append, ih, List.map_cons, List.flatten_cons]

/-- A text, with blanks at its end that a conversion changes. -/
def BlankEnd (l l' : Text) : Prop :=
  ∃ x w w', Blank w ∧ Blank w' ∧ '\n' ∉ x ∧ l = x ++ w ∧ l' = x ++ w'

theorem blankEnd_crlf {row : Text} (h : '\n' ∉ row) : BlankEnd (row ++ ['\n']) (crlf (row ++ ['\n'])) :=
  ⟨row, ['\n'], ['\r', '\n'], List.all_eq_true.1 rfl, List.all_eq_true.1 rfl, h, rfl, by
    rw [crlf_append, crlf_of_not_mem h]
    rfl⟩

theorem blankEnd_of_breakLine {line rest : Text} (h : breakLine (line ++ rest) = (line, rest)) :
    BlankEnd line (crlf line) := by
  obtain ⟨row, tail, hText, hRow, hTail⟩ := exists_first_row (line ++ rest)
  rw [hText] at h
  rcases hTail with rfl | ⟨tail, rfl⟩
  · rw [List.append_nil, breakLine_of_not_mem hRow] at h
    obtain rfl := (Prod.mk.inj h).1
    refine ⟨row, [], [], ?_, ?_, hRow, (List.append_nil _).symm, ?_⟩
    · exact fun c hc => absurd hc List.not_mem_nil
    · exact fun c hc => absurd hc List.not_mem_nil
    · rw [crlf_of_not_mem hRow, List.append_nil]
  · rw [breakLine_newline hRow] at h
    obtain rfl := (Prod.mk.inj h).1
    exact blankEnd_crlf hRow

theorem blankEnd_of_mem_lines {text l : Text} (h : l ∈ lines text) : BlankEnd l (crlf l) := by
  have hFirst : ∀ t : Text, BlankEnd (breakLine t).1 (crlf (breakLine t).1) := by
    intro t
    have hSplit : breakLine ((breakLine t).1 ++ (breakLine t).2) = breakLine t := by
      rw [breakLine_append]
    exact blankEnd_of_breakLine hSplit
  cases text with
  | nil => cases h
  | cons c text =>
    rw [lines_eq_cons (List.cons_ne_nil c text), List.mem_cons] at h
    rcases h with rfl | hLater
    · exact hFirst _
    · have hTail : l ∈ (lines (c :: text)).tail := by
        rwa [lines_eq_cons (List.cons_ne_nil c text)]
      obtain ⟨-, back, -, -, rfl⟩ := exists_of_mem_tail_lines hTail
      exact hFirst back

namespace BlankEnd

variable {l l' : Text} (h : BlankEnd l l')

include h

theorem header_eq : Header.ofLine? l' = Header.ofLine? l := by
  obtain ⟨x, w, w', hw, hw', -, rfl, rfl⟩ := h
  rw [Header.ofLine?_append hw, Header.ofLine?_append hw']

theorem trim_eq : trim l' = trim l := by
  obtain ⟨x, w, w', hw, hw', -, rfl, rfl⟩ := h
  have hNone : Blank [] := fun c hc => absurd hc List.not_mem_nil
  have hTrim : ∀ {v : Text}, Blank v → trim (x ++ v) = trim x := fun hv =>
    trim_append_of_blank hNone hv x
  rw [hTrim hw, hTrim hw']

/-- Whether a body follows a header does not depend on how its line ends. -/
theorem hasInlineBody_eq : hasInlineBody l' = hasInlineBody l := by
  obtain ⟨x, w, w', hw, hw', -, rfl, rfl⟩ := h
  have hCode : ∀ {v : Text}, Blank v →
      trim ((x ++ v).takeWhile (· ≠ '#')) = trim (x.takeWhile (· ≠ '#')) := by
    intro v hv
    by_cases hAll : ∀ c ∈ x, decide (c ≠ '#') = true
    · -- without a comment the line end is trimmed off
      have hBlank : ∀ c ∈ v, decide (c ≠ '#') = true := by
        intro c hc
        have hne : c ≠ '#' := by
          rintro rfl
          exact absurd (hv '#' hc) (by decide)
        simpa using hne
      have hNone : Blank [] := fun c hc => absurd hc List.not_mem_nil
      rw [List.takeWhile_append_of_pos hAll, List.takeWhile_eq_self_iff.2 hBlank,
        List.takeWhile_eq_self_iff.2 hAll]
      exact trim_append_of_blank hNone hv x
    · -- and with one it is a part of the comment
      have hShort : (x.takeWhile (· ≠ '#')).length ≠ x.length := by
        intro hLength
        have hTake := (List.takeWhile_prefix (l := x) (· ≠ '#')).eq_of_length hLength
        exact hAll (List.takeWhile_eq_self_iff.1 hTake)
      rw [List.takeWhile_append, if_neg hShort]
  unfold hasInlineBody
  rw [hCode hw, hCode hw']

/-- A header and the indentation in front of it stand before the end of the line. -/
theorem header_parts {header : Text} (hHeader : Header.ofLine? l = some (.initializer header)) :
    ∃ rest, l = header ++ rest ∧ '\n' ∉ header ∧ l'.takeWhile isIndent = l.takeWhile isIndent := by
  obtain ⟨x, w, w', hw, hw', hx, rfl, rfl⟩ := h
  rw [Header.ofLine?_append hw] at hHeader
  obtain ⟨rest, hFound⟩ := Header.ofLine?_eq_initializer hHeader
  obtain ⟨rfl, inside, rfl⟩ := exists_of_findInitializer? hFound
  have hIndent : ∀ v : Text, (header ++ '(' :: inside ++ v).takeWhile isIndent =
      (header ++ '(' :: inside).takeWhile isIndent := by
    intro v
    rw [List.takeWhile_append, if_neg]
    intro hLength
    -- the parenthesis is no indentation
    have hAll := (List.takeWhile_prefix (l := header ++ '(' :: inside) isIndent).eq_of_length hLength
    have hParen := List.takeWhile_eq_self_iff.1 hAll '(' (by simp)
    exact absurd hParen (by decide)
  refine ⟨'(' :: inside ++ w, List.append_assoc .., fun hMem => hx (List.mem_append_left _ hMem), ?_⟩
  rw [hIndent, hIndent]

end BlankEnd

/-! ## Docstrings -/

theorem crlf_dropWhile {p : Char → Bool} (hp : p '\r' = p '\n') (a : Text) :
    (crlf a).dropWhile p = crlf (a.dropWhile p) :=
  returns_true_iff.1 ((returns_crlf true a).dropWhile hp)

theorem openingString?_crlf (body : Text) :
    openingString? (crlf body) = (openingString? body).map crlf := by
  unfold openingString?
  dsimp only
  rw [crlf_dropWhile (p := isBlank) rfl]
  generalize body.dropWhile isBlank = literal
  rw [crlf_dropWhile (p := fun c => !isQuote c) rfl]
  have hKind : (crlf literal).takeWhile (fun c => !isQuote c) =
      crlf (literal.takeWhile fun c => !isQuote c) := by
    have hSplit := List.takeWhile_append_dropWhile (p := fun c => !isQuote c) (l := crlf literal)
    have hOwn := congrArg crlf
      (List.takeWhile_append_dropWhile (p := fun c => !isQuote c) (l := literal))
    rw [crlf_dropWhile (p := fun c => !isQuote c) rfl] at hSplit
    rw [crlf_append] at hOwn
    exact List.append_cancel_right (hSplit.trans hOwn.symm)
  rw [hKind]
  generalize literal.dropWhile (fun c => !isQuote c) = string
  generalize literal.takeWhile (fun c => !isQuote c) = kind
  have hEmpty : (crlf string).isEmpty = string.isEmpty := by
    rw [Bool.eq_iff_iff, List.isEmpty_iff, List.isEmpty_iff, crlf_eq_nil_iff]
  have hAll : (crlf kind).all isDocstringKind = kind.all isDocstringKind :=
    (returns_crlf true kind).all_eq (by decide)
  -- a line end is no kind of a string, and without one the kind is the same
  have hGuard : (2 < byteLength (crlf kind) || !(crlf kind).all isDocstringKind) =
      (2 < byteLength kind || !kind.all isDocstringKind) := by
    cases h : kind.all isDocstringKind with
    | false => rw [hAll, h, Bool.not_false, Bool.or_true, Bool.or_true]
    | true =>
      have hLine : '\n' ∉ kind := fun hMem =>
        absurd (List.all_eq_true.1 h '\n' hMem) (by decide)
      rw [crlf_of_not_mem hLine, h]
  rw [hEmpty, Bool.or_assoc, Bool.or_assoc, hGuard]
  split <;> rfl

theorem behindString_crlf (string : Text) :
    behindString (crlf string) = crlf (behindString string) ∧
      stringOf (crlf string) = crlf (stringOf string) := by
  have hBehind : behindString (crlf string) = crlf (behindString string) :=
    returns_true_iff.1 (scan_returned (returns_crlf true string)).dropWhile_literal.map_char
  refine ⟨hBehind, ?_⟩
  have hWhole := stringOf_append_behindString (crlf string)
  have hOwn := congrArg crlf (stringOf_append_behindString string)
  rw [hBehind] at hWhole
  rw [crlf_append] at hOwn
  exact List.append_cancel_right (hWhole.trans hOwn.symm)

theorem endsStatement_crlf (rest : Text) : endsStatement (crlf rest) = endsStatement rest := by
  have h := returns_crlf true rest
  rw [endsStatement, endsStatement, h.allBlank_eq,
    decide_eq_decide.2 (h.trim.head?_iff (by decide) (by decide))]

/-- **The docstring of a body with Windows line endings** is the docstring of the body. -/
theorem docstring?_crlf (body : Text) : docstring? (crlf body) = (docstring? body).map crlf := by
  have hOpening := openingString?_crlf body
  cases hString : openingString? body with
  | none =>
    rw [hString] at hOpening
    rw [docstring?_eq, docstring?_eq, hOpening, hString]
    rfl
  | some string =>
    obtain ⟨front, rfl, -⟩ := exists_front_of_openingString? hString
    obtain ⟨hBehind, hStringOf⟩ := behindString_crlf string
    rw [hString, Option.map_some, crlf_append] at hOpening
    have hEmpty : (crlf (behindString string)).isEmpty = (behindString string).isEmpty := by
      rw [Bool.eq_iff_iff, List.isEmpty_iff, List.isEmpty_iff, crlf_eq_nil_iff]
    rw [crlf_append, docstring?_of_opening hOpening, docstring?_of_opening hString, hBehind, hStringOf,
      breakLine_crlf, endsStatement_crlf, hEmpty]
    split
    · rfl
    · rw [Option.map_some, crlf_append, crlf_append]

/-! ## Headers -/

/-- The same line is the nearest header. -/
theorem headerAbove?_crlf {list : List Text} (h : ∀ l ∈ list, BlankEnd l (crlf l)) :
    headerAbove? (list.map crlf) = (headerAbove? list).map fun found =>
      (found.1, crlf found.2.1, found.2.2.map crlf) := by
  induction list with
  | nil => rfl
  | cons l list ih =>
    obtain ⟨hLine, hMore⟩ := List.forall_mem_cons.1 h
    rw [List.map_cons, headerAbove?, headerAbove?, hLine.header_eq, ih hMore]
    cases Header.ofLine? l <;> rfl

/-- The header that a line belongs to, in the text with Windows line endings. -/
theorem HeaderSite.At.exists_crlf {a : HeaderSite} {source : Text} {line : Nat}
    (h : a.At source line) :
    ∃ a' : HeaderSite, a'.At (crlf source) line ∧ a'.className = a.className ∧
      a'.number = a.number ∧ a'.indent = a.indent ∧
      a'.above.flatten ++ a'.header = crlf (a.above.flatten ++ a.header) ∧ a'.tail = crlf a.tail := by
  have hEnd : ∀ l ∈ a.above ++ a.row :: (a.passed ++ a.below), BlankEnd l (crlf l) :=
    fun l hl => blankEnd_of_mem_lines (h.lines_eq ▸ hl)
  have hRow := hEnd a.row (by simp)
  obtain ⟨rest, hSplit, hHeader, hIndent⟩ := hRow.header_parts a.initializer
  let a' : HeaderSite :=
    { above := a.above.map crlf
      row := crlf a.row
      passed := a.passed.map crlf
      below := a.below.map crlf
      header := a.header
      initializer := by rw [hRow.header_eq, a.initializer]
      passed_none := fun l hl => by
        obtain ⟨k, hk, rfl⟩ := List.mem_map.1 hl
        rw [(hEnd k (by simp [hk])).header_eq, a.passed_none k hk] }
  -- each line is converted on its own, and the header stands in front of the end of its line
  refine ⟨a', ⟨?_, ?_⟩, ?className, ?number, hIndent, ?header, ?tail⟩
  · rw [lines_crlf, h.lines_eq]
    simp [a']
  · simp [a', h.line_eq]
  case className =>
    show enclosingClass (a.above.map crlf).reverse a'.indent.length = _
    rw [show a'.indent = a.indent from hIndent, ← List.map_reverse]
    refine enclosingClass_append (fun l hl => ?_) _
    obtain ⟨x, w, w', hw, hw', -, hl', hCrlf⟩ := hEnd l (by simp [List.mem_reverse.1 hl])
    exact ⟨x, w, w', hw, hw', hl', hCrlf⟩
  case number => simp [a', number]
  case header => rw [crlf_append, crlf_flatten, crlf_of_not_mem hHeader]
  case tail =>
    have hDrop : (crlf a.row).drop a.header.length = crlf (a.row.drop a.header.length) := by
      rw [hSplit, crlf_append, crlf_of_not_mem hHeader, List.drop_left, List.drop_left]
    rw [tail, tail, crlf_append, crlf_flatten, List.map_append, ← hDrop]

/-- What follows the parenthesis of a header, with Windows line endings. -/
def Tail.withReturns {text : Text} (t : Tail text) : Tail (crlf text) where
  inner := crlf t.inner
  closer := t.closer
  onLine := crlf t.onLine
  body := crlf t.body
  text_eq := by
    conv_lhs => rw [t.text_eq]
    rw [crlf_cons (by decide), crlf_append, crlf_cons (ne_newline_of_isCloser t.closes), crlf_append]
  closes := t.closes
  closed := (closed_returned (returns_crlf true t.inner)).2 t.closed
  line_eq := by rw [← crlf_append, breakLine_crlf, t.line_eq]

theorem Tail.head_withReturns {text : Text} (t : Tail text) : t.withReturns.head = crlf t.head := by
  rw [Tail.head, Tail.head, crlf_cons (by decide), crlf_append,
    crlf_cons (ne_newline_of_isCloser t.closes)]
  rfl

theorem Tail.opening_withReturns {text : Text} (t : Tail text) :
    t.withReturns.opening = crlf t.opening := by
  show (docstring? (crlf t.body)).getD [] = _
  rw [docstring?_crlf, Tail.opening]
  cases docstring? t.body <;> rfl

theorem eq_of_toClosing_error {text : Text} {fault : SignatureFault}
    (h : toClosing text = .error fault) :
    fault = (fault? text).getD (.unterminatedNesting 1 0) := by
  unfold toClosing at h
  split at h
  · cases h
  · exact (Except.error.inj h).symm

/-- A list that is never closed is not closed with Windows line endings either. -/
theorem toClosing_crlf {inside : Text} {fault : SignatureFault}
    (h : toClosing ('(' :: inside) = .error fault) :
    ∃ fault', toClosing (crlf ('(' :: inside)) = .error fault' ∧ fault'.unplaced = fault.unplaced := by
  cases hClosing : toClosing (crlf ('(' :: inside)) with
  | ok parts =>
    -- a bracket that closes the converted list closes the list itself
    rw [crlf_cons (by decide)] at hClosing
    obtain ⟨inner, closer, rest, -, -, hInside, hCloser, hClosed⟩ := (toClosing_eq_ok_iff rfl).1 hClosing
    have hReturn : closer ≠ '\r' := by
      rintro rfl
      cases hCloser
    obtain ⟨x, y, rfl, rfl, -⟩ := eq_crlf_append hInside hReturn (ne_newline_of_isCloser hCloser)
    rw [toClosing_of_closed rfl hCloser ((closed_returned (returns_crlf true x)).1 hClosed)] at h
    cases h
  | error fault' =>
    have hFaults := fault?_returned (returns_crlf true ('(' :: inside))
    rw [eq_of_toClosing_error h, eq_of_toClosing_error hClosing]
    refine ⟨_, rfl, ?_⟩
    cases hLeft : fault? ('(' :: inside) with
    | none =>
      rw [hLeft, Option.map_none, Option.map_eq_none_iff] at hFaults
      rw [hFaults]
    | some own =>
      rw [hLeft, Option.map_some] at hFaults
      obtain ⟨other, hOther, hEq⟩ := Option.map_eq_some_iff.1 hFaults
      rw [hOther]
      exact hEq

/-- **A header with its plan, in the text with Windows line endings.** -/
theorem Planned.exists_crlf {settings : Settings} (a : Planned settings) {source : Text} {line : Nat}
    (h : a.site.At source line) :
    ∃ a' : Planned settings, a'.site.At (crlf source) line ∧ a'.site.className = a.site.className ∧
      a'.site.number = a.site.number ∧ a'.site.indent = a.site.indent ∧ a'.made = a.made ∧
      a'.upToPlace = crlf a.upToPlace := by
  obtain ⟨b, hb, hClass, hNumber, hIndent, hFront, hTail⟩ := h.exists_crlf
  obtain ⟨t, hMade, hInline, hHead⟩ : ∃ t : Tail b.tail, assignments settings t.inner = .ok a.made ∧
      hasInlineBody t.onLine = false ∧ t.head ++ t.opening = crlf (a.tail.head ++ a.tail.opening) := by
    rw [hTail]
    refine ⟨a.tail.withReturns, ?_, ?_, ?_⟩
    · rw [← a.made_eq]
      exact assignments_returned (returns_crlf true _) a.tail.closed.fault?_eq_none settings
    · rw [← a.inline]
      exact (blankEnd_of_breakLine a.tail.line_eq).hasInlineBody_eq
    · rw [Tail.head_withReturns, Tail.opening_withReturns, crlf_append]
  refine ⟨⟨b, t, a.made, hMade, hInline⟩, hb, hClass, hNumber, hIndent, rfl, ?_⟩
  rw [Planned.upToPlace, Planned.upToPlace, hFront, hHead, crlf_append (_ ++ _)]

/-! ## Applying -/

theorem endsInReturn_crlf {a : Text} (h : '\n' ∈ a) : EndsInReturn (crlf a) := by
  induction a with
  | nil => cases h
  | cons c a ih =>
    by_cases hMem : '\n' ∈ a
    · obtain ⟨front, back, hText, hBack⟩ := ih hMem
      exact ⟨crlf [c] ++ front, back, by
        rw [← List.singleton_append, crlf_append, hText, List.append_assoc], hBack⟩
    · -- the newline in front is the last one
      obtain rfl : '\n' = c := (List.mem_cons.1 h).resolve_right hMem
      exact ⟨[], a, by rw [crlf_newline, crlf_of_not_mem hMem]; rfl, hMem⟩

theorem lastEnding_crlf {a : Text} (h : '\n' ∈ a) : lastEnding (crlf a) = ['\r', '\n'] :=
  lastEnding_eq_iff.2 (endsInReturn_crlf h)

theorem lastEnding_of_not_mem_return {a : Text} (h : '\r' ∉ a) : lastEnding a = ['\n'] := by
  refine (lastEnding_cases a).resolve_left fun hEq => ?_
  obtain ⟨front, back, rfl, -⟩ := lastEnding_eq_iff.1 hEq
  exact h (by simp)

theorem crlf_render {i : Insertion} (hIndent : '\n' ∉ i.indent) (hLines : ∀ l ∈ i.lines, '\n' ∉ l) :
    crlf (i.render ['\n']) = i.render ['\r', '\n'] := by
  unfold Insertion.render
  generalize i.lines = list at hLines
  induction list with
  | nil => rfl
  | cons l list ih =>
    obtain ⟨hLine, hMore⟩ := List.forall_mem_cons.1 hLines
    rw [List.flatMap_cons, List.flatMap_cons, crlf_append, ih hMore, crlf_append, crlf_append,
      crlf_of_not_mem hIndent, crlf_of_not_mem hLine]
    rfl

/-- **An insertion behind a complete line, or at the end of the text, goes through the conversion.** -/
theorem insertInto?_crlf {i j : Insertion} {before after : Text} (hOffset : i.offset = byteLength before)
    (hOffset' : j.offset = byteLength (crlf before)) (hSameIndent : j.indent = i.indent)
    (hSameLines : j.lines = i.lines) (hNewline : '\n' ∈ before) (hReturn : '\r' ∉ before)
    (hIndent : '\n' ∉ i.indent) (hLines : ∀ l ∈ i.lines, '\n' ∉ l) :
    ∃ out, i.insertInto? (before ++ after) = some out ∧
      j.insertInto? (crlf before ++ crlf after) = some (crlf out) := by
  have hEnding : lineEnding before after = ['\n'] := by
    rw [lineEnding_eq (.inl hNewline), lastEnding_of_not_mem_return hReturn]
  have hEnding' : lineEnding (crlf before) (crlf after) = ['\r', '\n'] := by
    rw [lineEnding_eq (.inl (mem_crlf_of_mem hNewline)), lastEnding_crlf hNewline]
  have hNonempty : ∀ {x : Text}, '\n' ∈ x → x.isEmpty = false := fun h =>
    List.isEmpty_eq_false_iff.2 (List.ne_nil_of_mem h)
  have hRender : j.render ['\r', '\n'] = crlf (i.render ['\n']) := by
    rw [crlf_render hIndent hLines, Insertion.render, Insertion.render, hSameIndent, hSameLines]
  rw [Insertion.insertInto?, hOffset, splitAt?_byteLength, Option.map_some, Insertion.insertInto?,
    hOffset', splitAt?_byteLength, Option.map_some]
  simp only [hEnding, hEnding', hNonempty hNewline, hNonempty (mem_crlf_of_mem hNewline),
    endsInNewline_crlf, Bool.false_or, hRender]
  refine ⟨_, rfl, ?_⟩
  rw [crlf_append, crlf_append, crlf_append]
  -- the ending that completes the last line is converted with the rest
  split <;> rfl

/-! ## The whole plan -/

/-- A fault without the byte position that the parameter list gives it. -/
def PlanFault.unplaced : PlanFault → PlanFault
  | signature className fault => signature className fault.unplaced
  | fault => fault

/-- The statements of a plan are on one line each. -/
theorem Planned.newline_not_mem {settings : Settings} (a : Planned settings)
    (hReceiver : '\n' ∉ settings.defaultReceiver) (hUnit : '\n' ∉ settings.indentUnit) :
    '\n' ∉ a.insertion.indent ∧ ∀ l ∈ a.insertion.lines, '\n' ∉ l := by
  have hName : ∀ c, continuesName c = true → c ≠ '\n' := by
    rintro c hc rfl
    exact absurd hc (by decide)
  refine ⟨fun hMem => ?_, fun l hl hMem => ?_⟩
  · rcases List.mem_append.1 hMem with hIndent | hMem
    · exact ne_newline_of_isIndent (List.mem_takeWhile_imp hIndent) rfl
    · exact hUnit hMem
  · obtain ⟨made, hMade, rfl⟩ := List.mem_map.1 hl
    obtain ⟨hReceivers, hTarget, hValue⟩ := forall_mem_of_assignments (p := fun c => c ≠ '\n') hName
      (fun c hc hEq => hReceiver (hEq ▸ hc)) a.made_eq hMade
    simp only [Assignment.render, List.mem_append, List.mem_cons] at hMem
    rcases hMem with ((hMem | hMem | hMem) | hMem) | hMem
    · exact hReceivers _ hMem rfl
    · cases hMem
    · exact hTarget _ hMem rfl
    · exact absurd hMem (by decide)
    · exact hValue _ hMem rfl

/-- The plan at a header goes through the conversion, and so does the text that it makes. -/
theorem Planned.plan_crlf {settings : Settings} (a : Planned settings) {source : Text} {line : Nat}
    (h : a.site.At source line) (hNewline : '\n' ∈ source) (hReturn : '\r' ∉ source)
    (hReceiver : '\n' ∉ settings.defaultReceiver) (hUnit : '\n' ∉ settings.indentUnit) :
    ∃ plan' out, planAtLine (crlf source) line settings = .ok plan' ∧
      plan'.reports = a.plan.reports ∧ a.plan.apply source = some out ∧
      plan'.apply (crlf source) = some (crlf out) := by
  obtain ⟨a', ha', hClass, hNumber, hIndent, hMade, hPlace⟩ := a.exists_crlf h
  refine ⟨a'.plan, ?_⟩
  by_cases hNil : a.made = []
  · have hPlan := a.plan_eq_of_nil hNil
    have hPlan' := a'.plan_eq_of_nil (hMade.trans hNil)
    refine ⟨source, a'.planAtLine_eq ha', ?_, ?_, ?_⟩
    · rw [hPlan', hPlan, hClass, hNumber]
    · exact apply_of_insertions_eq_nil (by rw [hPlan]) source
    · exact apply_of_insertions_eq_nil (by rw [hPlan']) _
  · have hPlan := a.plan_eq_of_ne_nil hNil
    have hPlan' := a'.plan_eq_of_ne_nil (hMade ▸ hNil)
    obtain ⟨rest, -, hSplit, hEnds⟩ := h.exists_place a.tail
    have hText : source = a.upToPlace ++ rest := (eq_of_splitAt? hSplit).1
    -- in front of the place a line is complete, or else the text ends there
    have hMem : '\n' ∈ a.upToPlace := by
      rcases hEnds with hEnds | rfl
      · exact mem_of_endsInNewline hEnds
      · rwa [hText, List.append_nil] at hNewline
    have hFree : '\r' ∉ a.upToPlace := fun hMem => hReturn (hText ▸ List.mem_append_left _ hMem)
    obtain ⟨hRowIndent, hRows⟩ := a.newline_not_mem hReceiver hUnit
    have hOffset : a'.insertion.offset = byteLength (crlf a.upToPlace) := by
      rw [← hPlace]
      rfl
    have hSameIndent : a'.insertion.indent = a.insertion.indent := by
      rw [Planned.insertion, hIndent]
      rfl
    have hSameLines : a'.insertion.lines = a.insertion.lines := by
      rw [Planned.insertion, hMade]
      rfl
    obtain ⟨out, hOut, hOut'⟩ : ∃ out, a.insertion.insertInto? (a.upToPlace ++ rest) = some out ∧
        a'.insertion.insertInto? (crlf a.upToPlace ++ crlf rest) = some (crlf out) :=
      insertInto?_crlf rfl hOffset hSameIndent hSameLines hMem hFree hRowIndent hRows
    refine ⟨out, a'.planAtLine_eq ha', ?_, ?_, ?_⟩
    · rw [hPlan', hPlan, hClass, hNumber, hMade]
    · rw [apply_singleton (by rw [hPlan]), hText]
      exact hOut
    · rw [apply_singleton (by rw [hPlan']), hText, crlf_append]
      exact hOut'

/-- At a header, what prevents a plan is the same in the converted text. -/
theorem HeaderSite.At.fault_crlf {a : HeaderSite} {source : Text} {line : Nat}
    (h : a.At source line) {settings : Settings} {fault : PlanFault}
    (hFault : planAtLine source line settings = .error fault) :
    ∃ fault', planAtLine (crlf source) line settings = .error fault' ∧
      fault'.unplaced = fault.unplaced := by
  obtain ⟨a', ha', hClass, hNumber, -, -, hTail⟩ := h.exists_crlf
  obtain ⟨inside, hInside⟩ := a.exists_inside
  cases hClosing : toClosing a.tail with
  | error own =>
    rw [h.planAtLine_eq, planHeader_of_error hClosing] at hFault
    obtain rfl := Except.error.inj hFault
    rw [hInside] at hClosing
    obtain ⟨own', hClosing', hOwn⟩ := toClosing_crlf hClosing
    rw [← hInside, ← hTail] at hClosing'
    refine ⟨_, by rw [ha'.planAtLine_eq, planHeader_of_error hClosing'], ?_⟩
    simp only [PlanFault.unplaced, SignatureFault.unplaced_shift, hOwn, hClass]
  | ok parts =>
    -- a closed list is read, so the only fault that is left is a body on its line
    obtain ⟨t⟩ := exists_tail hInside hClosing
    obtain ⟨made, hMade⟩ := exists_assignments_of_closed t.closed settings
    rw [h.planAtLine_of_tail t hMade] at hFault
    obtain ⟨t', hMade', hInline⟩ : ∃ t' : Tail a'.tail, assignments settings t'.inner = .ok made ∧
        hasInlineBody t'.onLine = hasInlineBody t.onLine := by
      rw [hTail]
      refine ⟨t.withReturns, ?_, (blankEnd_of_breakLine t.line_eq).hasInlineBody_eq⟩
      rw [← hMade]
      exact assignments_returned (returns_crlf true _) t.closed.fault?_eq_none settings
    split at hFault
    · rename_i hBody
      obtain rfl := Except.error.inj hFault
      refine ⟨_, by rw [ha'.planAtLine_of_tail t' hMade', hInline, if_pos hBody], ?_⟩
      rw [hClass, hNumber]
    · cases hFault

/-- **Planning at a line goes through the conversion to Windows line endings.** For a text with
newlines and no carriage returns, and a receiver and an indentation without newlines: where there is a
plan, there is one for the converted text, with the same reports, and applying it gives the converted
result. Where there is none, the fault is the same, up to the byte position in a parameter list. -/
theorem planAtLine_crlf {source : Text} {settings : Settings} (hNewline : '\n' ∈ source)
    (hReturn : '\r' ∉ source) (hReceiver : '\n' ∉ settings.defaultReceiver)
    (hUnit : '\n' ∉ settings.indentUnit) (line : Nat) :
    (∀ plan, planAtLine source line settings = .ok plan →
      ∃ plan' out, planAtLine (crlf source) line settings = .ok plan' ∧
        plan'.reports = plan.reports ∧ plan.apply source = some out ∧
        plan'.apply (crlf source) = some (crlf out)) ∧
    ∀ fault, planAtLine source line settings = .error fault →
      ∃ fault', planAtLine (crlf source) line settings = .error fault' ∧
        fault'.unplaced = fault.unplaced := by
  constructor
  · intro plan hPlan
    obtain ⟨a, ha, rfl⟩ := exists_planned hPlan
    exact a.plan_crlf ha hNewline hReturn hReceiver hUnit
  · intro fault hFault
    have hLength : (lines (crlf source)).length = (lines source).length := by
      rw [lines_crlf, List.length_map]
    by_cases hRange : (line = 0 || (lines source).length < line) = true
    · have hRange' : (line = 0 || (lines (crlf source)).length < line) = true := by rwa [hLength]
      simp only [planAtLine, if_pos hRange] at hFault
      refine ⟨fault, ?_, rfl⟩
      rw [planAtLine]
      dsimp only
      rw [if_pos hRange', hLength]
      exact hFault
    · have hRange' : ¬ (line = 0 || (lines (crlf source)).length < line) = true := by rwa [hLength]
      have hEnd : ∀ l ∈ ((lines source).take line).reverse, BlankEnd l (crlf l) := fun l hl =>
        blankEnd_of_mem_lines (List.mem_of_mem_take (List.mem_reverse.1 hl))
      have hAbove := headerAbove?_crlf hEnd
      rw [List.map_reverse, List.map_take, ← lines_crlf] at hAbove
      cases hFound : headerAbove? ((lines source).take line).reverse with
      | none =>
        rw [hFound] at hAbove
        simp only [planAtLine, if_neg hRange, hFound] at hFault
        simp only [planAtLine, if_neg hRange', hAbove, Option.map_none]
        exact ⟨fault, hFault, rfl⟩
      | some found =>
        obtain ⟨header, row, above⟩ := found
        cases header with
        | other =>
          rw [hFound] at hAbove
          obtain ⟨passed, hList, -⟩ := headerAbove?_eq_some_iff.1 hFound
          -- the line that is reported is trimmed
          have hTrim := (hEnd row (by simp [hList])).trim_eq
          simp only [planAtLine, if_neg hRange, hFound] at hFault
          simp only [planAtLine, if_neg hRange', hAbove, Option.map_some, hTrim]
          exact ⟨fault, hFault, rfl⟩
        | initializer header =>
          obtain ⟨a, ha, -⟩ := exists_at_of_headerAbove? hRange hFound
          exact ha.fault_crlf hFault

/-- A header of two lines, with a comment and an escaped line end, a docstring, and no last newline. -/
theorem planAtLine_crlf_no_last_newline :
    let source := "class A:\n def __init__(self, a, # (\n   b='\\\n'):\n  \"\"\"x\n  y\"\"\" # z".toList
    let p : Plan := ⟨[⟨['A'], 2, .generated ["self.a = a".toList, "self.b = b".toList]⟩],
      [⟨65, "     ".toList, ["self.a = a".toList, "self.b = b".toList]⟩]⟩
    planAtLine source 4 .default = .ok p ∧
      ∃ p' out, planAtLine (crlf source) 4 .default = .ok p' ∧ p'.reports = p.reports ∧
        p.apply source = some out ∧ p'.apply (crlf source) = some (crlf out) := by
  intro source p
  have hPlan : planAtLine source 4 .default = .ok p := by decide +kernel
  have hConverts := @planAtLine_crlf source .default (by decide) (by decide) (by decide)
    (by decide) 4
  exact ⟨hPlan, hConverts.1 p hPlan⟩

end FieldFill
