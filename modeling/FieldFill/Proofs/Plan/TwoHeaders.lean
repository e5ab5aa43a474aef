import FieldFill.Proofs.Plan.Positions
import FieldFill.Proofs.Plan.Weave

/-!
# Plans for two headers

A plan at a line reads the text at its header and behind it, and the class lines above. Statements for
another initializer are no class lines and close no string. So a plan does not see them, neither when
they are put in further down nor when they are put in further up, where they only move the place.

Main definitions:

* `Plan.moved` — a plan for a text into which something was put further up.
* `Parts` — the text around the places behind two headers.

Main results:

* `Planned.planAtLine_below` — a plan after an insertion further down is the same plan.
* `Planned.planAtLine_above` — a plan after an insertion further up is the plan moved.
* `planAtLine_commutes` — the plans for two headers can be made and applied in any order.
-/

namespace FieldFill

/-! ## The rows that a plan puts in -/

namespace Planned

variable {settings : Settings} (a : Planned settings)

theorem isIndent_insertion (hUnit : ∀ c ∈ settings.indentUnit, isIndent c = true) :
    ∀ c ∈ a.insertion.indent, isIndent c = true :=
  List.forall_mem_append.2 ⟨fun _ hc => List.mem_takeWhile_imp hc, hUnit⟩

/-- A row of names is plain text on one line. -/
theorem staysPlain_of_mem_rows (hReceiver : ∀ c ∈ settings.defaultReceiver, continuesName c = true)
    (hUnit : ∀ c ∈ settings.indentUnit, isIndent c = true) {before row : Text}
    (hRow : row ∈ a.insertion.rows before) : ∀ c ∈ row, staysPlain c = true := by
  rw [Insertion.rows, insertion, List.map_map] at hRow
  obtain ⟨made, hMade, rfl⟩ := List.mem_map.1 hRow
  obtain ⟨hName, hTarget, hValue⟩ := forall_mem_of_assignments
    (p := fun c => staysPlain c = true) (fun c hc => staysPlain_of_continuesName hc)
    (fun c hc => staysPlain_of_continuesName (hReceiver c hc)) a.made_eq hMade
  simp only [Function.comp_apply, Assignment.render, List.forall_mem_append, List.forall_mem_cons,
    List.not_mem_nil, false_implies, implies_true, and_true]
  exact ⟨⟨List.forall_mem_append.1 fun c hc => staysPlain_of_isIndent (a.isIndent_insertion hUnit c hc),
    ⟨⟨hName, by decide, hTarget⟩, by decide⟩, hValue⟩, (blankInLine_returnOf before).staysPlain⟩

end Planned

/-- No class has a period behind its name. -/
theorem classHead?_of_period {lead name : Text} (hLead : Blank lead)
    (hName : ∀ c ∈ name, continuesName c = true) (rest : Text) :
    classHead? (lead ++ (name ++ '.' :: rest)) = none := by
  have hPeriod : isBlank '.' = false := by decide
  have hTrim : trimStart (lead ++ (name ++ '.' :: rest)) = name ++ '.' :: rest := by
    rw [trimStart_append_of_blank hLead]
    cases name with
    | nil => exact trimStart_of_head hPeriod _
    | cons c name =>
      exact trimStart_of_head (not_isBlank_of_continuesName (hName c (List.mem_cons_self ..))) _
  unfold classHead?
  rw [hTrim]
  cases hAfter : after? ['c', 'l', 'a', 's', 's'] (name ++ '.' :: rest) with
  | none => rfl
  | some tail =>
    -- the word is followed by a character of the name, or by the period
    have hTail : ∀ c back, tail = c :: back → isBlank c = false := by
      rintro c back rfl
      rcases List.append_eq_append_iff.1 (eq_append_of_after? hAfter) with
        ⟨middle, hWord, hRest⟩ | ⟨middle, hEq, hRest⟩
      · cases middle with
        | nil => rw [← (List.cons.inj hRest).1, hPeriod]
        | cons d middle =>
          have hMem : '.' ∈ ['c', 'l', 'a', 's', 's'] := by
            rw [hWord, (List.cons.inj hRest).1]
            simp
          exact absurd hMem (by decide)
      · cases middle with
        | nil => rw [(List.cons.inj hRest).1, hPeriod]
        | cons d middle =>
          rw [(List.cons.inj hRest).1]
          exact not_isBlank_of_continuesName (hName d (by simp [hEq]))
    cases tail with
    | nil => rfl
    | cons c back => simp [afterBlanks?, hTail c back rfl]

theorem Planned.classHead?_of_mem_rows {settings : Settings} (a : Planned settings)
    (hReceiver : ∀ c ∈ settings.defaultReceiver, continuesName c = true)
    (hUnit : ∀ c ∈ settings.indentUnit, isIndent c = true) {before row : Text}
    (hRow : row ∈ a.insertion.rows before) (ending : Text) : classHead? (row ++ ending) = none := by
  rw [Insertion.rows, insertion, List.map_map] at hRow
  obtain ⟨made, hMade, rfl⟩ := List.mem_map.1 hRow
  obtain ⟨hName, -⟩ := forall_mem_of_assignments (p := fun c => continuesName c = true)
    (fun c hc => hc) hReceiver a.made_eq hMade
  have hBlank : Blank a.insertion.indent := fun c hc =>
    isBlank_of_isIndent (a.isIndent_insertion hUnit c hc)
  -- a row begins with the receiver and a period
  have hRender : made.render ++ (returnOf before ++ ending) = made.receiver ++
      '.' :: (made.target ++ ([' ', '=', ' '] ++ (made.value ++ (returnOf before ++ ending)))) := by
    simp [Assignment.render]
  have hClass := classHead?_of_period hBlank hName
    (made.target ++ ([' ', '=', ' '] ++ (made.value ++ (returnOf before ++ ending))))
  rw [← hRender] at hClass
  simpa [insertion] using hClass

/-- The lines of rows are the rows, each with a newline. -/
theorem lines_ahead {rows : List Text} (h : ∀ row ∈ rows, '\n' ∉ row) :
    lines (ahead rows) = rows.map fun row => row ++ ['\n'] := by
  induction rows with
  | nil => rfl
  | cons row rows ih =>
    obtain ⟨hRow, hMore⟩ := List.forall_mem_cons.1 h
    have hSplit : ahead (row :: rows) = row ++ '\n' :: ahead rows := by
      simp [ahead]
    rw [hSplit, lines_eq_cons (by simp), breakLine_newline hRow, ih hMore]
    rfl

/-! ## Insertions further down -/

namespace HeaderSite

/-- The header with other lines below. -/
def withBelow (a : HeaderSite) (below : List Text) : HeaderSite :=
  { a with below }

/-- What a header has behind its parenthesis, in a text that is cut behind some of its lines. -/
theorem tail_withBelow (a : HeaderSite) (more : List Text) (back : Text) :
    (a.withBelow (more ++ lines back)).tail =
      a.row.drop a.header.length ++ (a.passed ++ more).flatten ++ back := by
  show a.row.drop a.header.length ++ (a.passed ++ (more ++ lines back)).flatten = _
  rw [← List.append_assoc a.passed, List.flatten_append, flatten_lines, List.append_assoc]

theorem at_withBelow {a : HeaderSite} {front : Text} (hFront : endsInNewline front = true)
    {more : List Text} (hLines : lines front = a.above ++ a.row :: (a.passed ++ more)) (back : Text) :
    (a.withBelow (more ++ lines back)).At (front ++ back) (a.above.length + 1 + a.passed.length) := by
  refine ⟨?_, rfl⟩
  rw [lines_append_of_ends (.inr hFront), hLines]
  simp [withBelow]

end HeaderSite

/-- The same header in front of another body. -/
def Tail.before {text : Text} (t : Tail text) {text' body : Text} (hText : text' = t.head ++ body)
    (hLine : breakLine (t.onLine ++ body) = (t.onLine, body)) : Tail text' where
  inner := t.inner
  closer := t.closer
  onLine := t.onLine
  body := body
  text_eq := by
    rw [hText, Tail.head]
    simp
  closes := t.closes
  closed := t.closed
  line_eq := hLine

/-- The line of a header ends in front of a body whatever the body is. -/
theorem breakLine_of_body {onLine body : Text} (h : breakLine (onLine ++ body) = (onLine, body))
    (hBody : body ≠ []) (other : Text) : breakLine (onLine ++ other) = (onLine, other) := by
  obtain ⟨row, rest, hText, hRow, hRest⟩ := exists_first_row (onLine ++ body)
  rcases hRest with rfl | ⟨rest, rfl⟩
  · rw [List.append_nil] at hText
    rw [hText, breakLine_of_not_mem hRow] at h
    exact absurd (Prod.mk.inj h).2.symm hBody
  · rw [hText, breakLine_newline hRow] at h
    obtain ⟨rfl, -⟩ := Prod.mk.inj h
    rw [List.append_assoc, List.singleton_append, breakLine_newline hRow]

/-- Plain text further down in the body changes no docstring, when a line of other text is between. -/
theorem Tail.docstring?_below {text : Text} (t : Tail text) {middle back : Text}
    (hBody : t.body = t.opening ++ middle ++ back) (hBlank : allBlank middle = false)
    (hEnds : endsInNewline middle = true) {b : Text} (hb : ∀ c ∈ b, isPlain c = true ∧ c ≠ '\\') :
    docstring? (t.opening ++ middle ++ (b ++ back)) = docstring? t.body := by
  rw [hBody]
  refine docstring?_insert ?_ (endsInNewline_append hEnds _) hb fun d hd => ?_
  · rw [allBlank, List.all_append, ← allBlank, ← allBlank, hBlank, Bool.and_false]
  · -- the docstring ends in front of the line between
    rw [← hBody] at hd
    have hOpening : t.opening = d := by
      rw [Tail.opening, hd]
      rfl
    have hne : middle ≠ [] := by
      rintro rfl
      cases hBlank
    rw [hOpening, List.length_append]
    exact Nat.lt_add_of_pos_right (List.length_pos_iff.2 hne)

/-- **A plan does not see plain text that is put in behind its place**, when a line of other text is
between. -/
theorem Planned.planAtLine_below {settings : Settings} (a : Planned settings) {front back : Text}
    {line : Nat} (h : a.site.At (front ++ back) line) {more : List Text}
    (hLines : lines front = a.site.above ++ a.site.row :: (a.site.passed ++ more)) {middle : Text}
    (hMiddle : front = a.upToPlace ++ middle) (hBlank : allBlank middle = false)
    (hEnds : endsInNewline middle = true) {b : Text} (hb : ∀ c ∈ b, isPlain c = true ∧ c ≠ '\\') :
    planAtLine (front ++ (b ++ back)) line settings = .ok a.plan := by
  obtain ⟨a, t, made, hMade, hInline⟩ := a
  dsimp only at h hLines hInline
  have hFront : endsInNewline front = true := by
    rw [hMiddle]
    exact endsInNewline_append hEnds _
  -- the header belongs to the line in the new text, with the same lines down to the seam
  have hBelow : a.below = more ++ lines back := by
    have hAll := h.lines_eq
    rw [lines_append_of_ends (.inr hFront), hLines] at hAll
    simpa using hAll.symm
  have hCut := a.tail_withBelow more back
  rw [show a.withBelow (more ++ lines back) = a from by rw [← hBelow]; rfl] at hCut
  have hNew := a.at_withBelow hFront hLines (b ++ back)
  rw [← h.line_eq] at hNew
  -- in both texts the body goes on alike down to the seam
  have hTo : t.head ++ (t.opening ++ middle) =
      a.row.drop a.header.length ++ (a.passed ++ more).flatten := by
    have hWhole : front = a.above.flatten ++
        (a.header ++ (a.row.drop a.header.length ++ (a.passed ++ more).flatten)) := by
      rw [← flatten_lines front, hLines, List.flatten_append, List.flatten_cons,
        ← List.append_assoc a.header, ← a.row_eq]
    rw [hMiddle, Planned.upToPlace] at hWhole
    simpa using hWhole
  have hBody : t.body = t.opening ++ middle ++ back := by
    rw [t.text_eq_head, ← hTo, List.append_assoc] at hCut
    exact List.append_cancel_left hCut
  have hTail : (a.withBelow (more ++ lines (b ++ back))).tail =
      t.head ++ (t.opening ++ middle ++ (b ++ back)) := by
    rw [HeaderSite.tail_withBelow, ← hTo, List.append_assoc]
  have hne : t.body ≠ [] := by
    intro hNil
    rw [hBody, List.append_eq_nil_iff, List.append_eq_nil_iff] at hNil
    rw [hNil.1.2] at hBlank
    cases hBlank
  let t' := t.before hTail (breakLine_of_body t.line_eq hne _)
  -- so the docstring is the same
  have hOpening : t'.opening = t.opening := by
    rw [Tail.opening, Tail.opening, ← t.docstring?_below hBody hBlank hEnds hb]
    rfl
  have hMade' : assignments settings t'.inner = .ok made := hMade
  have hPlan := hNew.planAtLine_of_tail t' hMade'
  rw [hPlan, if_neg (by rw [show hasInlineBody t'.onLine = false from hInline]; decide)]
  unfold Planned.plan HeaderSite.plan Tail.plan
  rw [hOpening]
  rfl

/-! ## Insertions further up -/

/-- A plan for a text into which something was put further up. -/
def Plan.moved (distance rows : Nat) (plan : Plan) : Plan :=
  ⟨plan.reports.map fun r => { r with line := r.line + rows },
    plan.insertions.map fun i => { i with offset := i.offset + distance }⟩

/-- The header with other lines above. -/
def HeaderSite.withAbove (a : HeaderSite) (above : List Text) : HeaderSite :=
  { a with above }

theorem enclosingClass_insert {front new back : List Text}
    (h : ∀ l ∈ new, classHead? l = none) (indent : Nat) :
    enclosingClass (front ++ (new ++ back)).reverse indent =
      enclosingClass (front ++ back).reverse indent := by
  have hNone : new.reverse.findSome? (fun line =>
      if blankLead line < indent then classHead? line else none) = none := by
    refine List.findSome?_eq_none_iff.2 fun l hl => ?_
    rw [h l (List.mem_reverse.1 hl), ite_self]
  unfold enclosingClass
  dsimp only
  rw [List.reverse_append, List.reverse_append, List.reverse_append, List.findSome?_append,
    List.findSome?_append, List.findSome?_append, hNone, Option.or_none]

/-- **A plan only moves when lines that are no class headers are put in further up.** -/
theorem Planned.planAtLine_above {settings : Settings} (a : Planned settings) {front back : Text}
    {line : Nat} (h : a.site.At (front ++ back) line) (hFront : endsInNewline front = true)
    {more : List Text} (hAbove : a.site.above = lines front ++ more) {b : Text}
    (hEnds : b = [] ∨ endsInNewline b = true) (hb : ∀ l ∈ lines b, classHead? l = none) :
    planAtLine (front ++ (b ++ back)) (line + (lines b).length) settings =
      .ok (a.plan.moved (byteLength b) (lines b).length) := by
  obtain ⟨a, t, made, hMade, hInline⟩ := a
  dsimp only at h hAbove hInline
  let a' := a.withAbove (lines front ++ (lines b ++ more))
  -- the header keeps its lines, with those of the new text among the lines above it
  have hBack : lines back = more ++ a.row :: (a.passed ++ a.below) := by
    have hAll := h.lines_eq
    rw [lines_append_of_ends (.inr hFront), hAbove, List.append_assoc] at hAll
    exact List.append_cancel_left hAll
  have hNew : a'.At (front ++ (b ++ back)) (line + (lines b).length) := by
    refine ⟨?_, ?_⟩
    · rw [lines_append_of_ends (.inr hFront), lines_append_of_ends hEnds, hBack]
      simp [a', HeaderSite.withAbove]
    · rw [h.line_eq, hAbove]
      simp only [a', HeaderSite.withAbove, List.length_append]
      omega
  have hClass : a'.className = a.className := by
    rw [HeaderSite.className, HeaderSite.className, hAbove]
    exact enclosingClass_insert hb _
  have hNumber : a'.number = a.number + (lines b).length := by
    simp only [HeaderSite.number, hAbove, a', HeaderSite.withAbove, List.length_append]
    omega
  have hOpen : byteLength (a'.above.flatten ++ a'.header) =
      byteLength (a.above.flatten ++ a.header) + byteLength b := by
    simp only [hAbove, a', HeaderSite.withAbove, List.flatten_append, flatten_lines,
      byteLength_append]
    omega
  have hPlan := hNew.planAtLine_of_tail (a := a') t hMade
  rw [hPlan, if_neg (by rw [hInline]; decide)]
  unfold Planned.plan HeaderSite.plan Tail.plan
  rw [hClass, hNumber, hOpen, Nat.add_right_comm]
  split <;> rfl

/-! ## The text around two headers -/

/-- The lines that belong to a header stand above every header further down. -/
theorem HeaderSite.At.above_eq {a b : HeaderSite} {source : Text} {line line' : Nat}
    (ha : a.At source line) (hb : b.At source line') (h : a.number < b.number) :
    ∃ more, b.above = a.above ++ a.row :: (a.passed ++ more) := by
  have hLines := ha.lines_eq.symm.trans hb.lines_eq
  have hLength : a.above.length < b.above.length := Nat.lt_of_succ_lt_succ h
  rcases List.append_eq_append_iff.1 hLines with ⟨middle, hAbove, hRest⟩ | ⟨middle, hAbove, -⟩
  · cases middle with
    | nil => simp [hAbove] at hLength
    | cons l middle =>
      rw [List.cons_append] at hRest
      obtain ⟨rfl, hMore⟩ := List.cons.inj hRest
      rcases List.append_eq_append_iff.1 hMore with ⟨more, hMiddle, -⟩ | ⟨more, hPassed, hLater⟩
      · exact ⟨more, by rw [hAbove, hMiddle]⟩
      · cases more with
        | nil => exact ⟨[], by rw [hAbove, hPassed, List.append_nil]; simp⟩
        | cons row more =>
          -- a header does not belong to another one
          have hNone := a.passed_none row (by simp [hPassed])
          rw [← (List.cons.inj hLater).1, b.initializer] at hNone
          cases hNone
  · rw [hAbove, List.length_append] at hLength
    omega

/-- The text around the places behind two headers: up to the first place, from there to the line of
the second header, on to the second place, and the rest. -/
structure Parts {settings : Settings} (a b : Planned settings) where
  gap : Text
  rest : Text
  /-- The lines between those that belong to the first header and the second header. -/
  more : List Text
  above_eq : b.site.above = a.site.above ++ a.site.row :: (a.site.passed ++ more)
  flatten_above : b.site.above.flatten = a.upToPlace ++ gap
  lines_above : lines (a.upToPlace ++ gap) = b.site.above
  above_ends : endsInNewline (a.upToPlace ++ gap) = true
  first_ends : endsInNewline a.upToPlace = true
  second_ends : endsInNewline b.toPlace = true

section

variable {settings : Settings} {a b : Planned settings}

/-- The whole text, with some new text at the two places. -/
def Parts.text (p : Parts a b) (new new' : Text) : Text :=
  a.upToPlace ++ (new ++ (p.gap ++ (b.toPlace ++ (new' ++ p.rest))))

theorem exists_parts {source : Text} {line line' : Nat} (ha : a.site.At source line)
    (hb : b.site.At source line') (hSource : endsInNewline source = true)
    (hHeaders : a.site.number < b.site.number)
    (hPlace : a.insertion.offset ≤ byteLength b.site.above.flatten) :
    ∃ p : Parts a b, source = p.text [] [] := by
  obtain ⟨more, hMore⟩ := ha.above_eq hb hHeaders
  obtain ⟨hLines, -, hAboveEnds⟩ := lines_eq_append hb.lines_eq
  obtain ⟨behind, -, hSplit, hEnds⟩ := ha.exists_place a.tail
  obtain ⟨rest, hBody, -, hEnds'⟩ := hb.exists_place b.tail
  have hAt : splitAt? source (byteLength b.site.above.flatten) =
      some (b.site.above.flatten, b.site.header ++ b.site.tail) :=
    splitAt?_eq_some_iff.2 ⟨hb.source_eq, rfl⟩
  rw [Planned.insertion, Planned.upToPlace, byteLength_append (_ ++ _)] at hPlace
  obtain ⟨gap, hAbove, hBehind, -⟩ := exists_between hSplit hAt hPlace
  have hTail : b.site.header ++ b.site.tail = b.toPlace ++ rest :=
    calc b.site.header ++ b.site.tail = b.site.header ++ (b.tail.head ++ b.tail.body) :=
          congrArg (b.site.header ++ ·) b.tail.text_eq_head
      _ = b.toPlace ++ rest := by
          rw [hBody, Planned.toPlace]
          simp
  rw [hTail] at hBehind
  have hText : source = a.upToPlace ++ (gap ++ (b.toPlace ++ rest)) := by
    rw [← hBehind]
    exact (eq_of_splitAt? hSplit).1
  have hne : b.toPlace ≠ [] := List.ne_nil_of_mem b.paren_mem_toPlace
  refine ⟨⟨gap, rest, more, hMore, hAbove, ?lines, ?above, ?first, ?second⟩, hText⟩
  case lines => exact hAbove ▸ hLines
  case above =>
    have hNonempty : b.site.above ≠ [] := by
      rw [hMore]
      simp
    have hLine := (hAboveEnds (by simp)).resolve_left hNonempty
    rwa [hAbove] at hLine
  case first =>
    -- the second header stands behind the first place
    refine hEnds.resolve_right fun hNil => ?_
    rw [hBehind, List.append_eq_nil_iff, List.append_eq_nil_iff] at hNil
    exact hne hNil.2.1
  case second =>
    rcases hEnds' with hLine | rfl
    · rw [List.append_assoc] at hLine
      exact endsInNewline_of_append hLine hne
    · rw [hText, List.append_nil, ← List.append_assoc] at hSource
      exact endsInNewline_of_append hSource hne

namespace Parts

variable (p : Parts a b)

/-- The rows for the first header, and those for the second one. -/
def firstRows (_ : Parts a b) : Text :=
  ahead (a.insertion.rows a.upToPlace)

def secondRows (_ : Parts a b) : Text :=
  ahead (b.insertion.rows b.toPlace)

/-- The first insertion does not depend on what is behind its place. -/
theorem insert_first (new : Text) :
    a.insertion.insertInto? (p.text [] new) = some (p.text p.firstRows new) :=
  insertInto?_of_ends p.first_ends rfl _

/-- The second insertion, with its place moved by the length of what is put in in front. -/
theorem insert_second (new : Text) :
    ({ b.insertion with offset := b.insertion.offset + byteLength new } : Insertion).insertInto?
      (p.text new []) = some (p.text new p.secondRows) := by
  have hLine : b.toPlace ≠ ['\n'] := by
    intro hEq
    have hParen := b.paren_mem_toPlace
    rw [hEq] at hParen
    exact absurd hParen (by decide)
  -- the line end in front of the place is one of the second header, whatever is above it
  have hReturn : ∀ front, returnOf (front ++ b.toPlace) = returnOf b.toPlace := by
    intro front
    rw [returnOf, lastEnding_append p.second_ends hLine, returnOf]
  have hOffset : b.insertion.offset + byteLength new =
      byteLength (a.upToPlace ++ (new ++ p.gap) ++ b.toPlace) := by
    rw [Planned.insertion, Planned.upToPlace_eq, p.flatten_above]
    simp only [byteLength_append]
    omega
  have hInsert := insertInto?_of_ends
    (i := { b.insertion with offset := b.insertion.offset + byteLength new })
    (endsInNewline_append p.second_ends _) hOffset p.rest
  rw [Insertion.rows, hReturn] at hInsert
  simpa only [text, secondRows, Insertion.rows, List.append_assoc, List.nil_append] using hInsert

end Parts

end

/-! ## Two headers -/

section

variable {settings : Settings} {a b : Planned settings} (p : Parts a b) {line : Nat}
  (hReceiver : ∀ c ∈ settings.defaultReceiver, continuesName c = true)
  (hUnit : ∀ c ∈ settings.indentUnit, isIndent c = true)

include hReceiver hUnit

/-- With the statements for the second header, the plan for the first one is as before. -/
theorem Parts.planAtLine_first (ha : a.site.At (p.text [] []) line) :
    planAtLine (p.text [] p.secondRows) line settings = .ok a.plan := by
  have hText : ∀ new, p.text [] new = a.upToPlace ++ p.gap ++ b.toPlace ++ (new ++ p.rest) := by
    intro new
    simp [Parts.text]
  have hLines : lines (a.upToPlace ++ p.gap ++ b.toPlace) =
      a.site.above ++ a.site.row :: (a.site.passed ++ (p.more ++ lines b.toPlace)) := by
    rw [lines_append_of_ends (.inr p.above_ends), p.lines_above, p.above_eq]
    simp
  -- between the places stands the second header, which is not blank
  have hMiddle : allBlank (p.gap ++ b.toPlace) = false :=
    List.all_eq_false.2 ⟨'(', List.mem_append_right _ b.paren_mem_toPlace, by decide⟩
  have hPlain : ∀ c ∈ p.secondRows, isPlain c = true ∧ c ≠ '\\' := by
    intro c hc
    obtain ⟨row, hRow, hMem⟩ := List.mem_flatMap.1 hc
    rcases List.mem_append.1 hMem with hChar | hNewline
    · obtain ⟨hPlain, -, hEscape⟩ :=
        staysPlain_iff.1 (b.staysPlain_of_mem_rows hReceiver hUnit hRow c hChar)
      exact ⟨hPlain, hEscape⟩
    · obtain rfl := List.mem_singleton.1 hNewline
      exact ⟨by decide, by decide⟩
  rw [hText, List.nil_append] at ha
  rw [hText]
  exact a.planAtLine_below ha hLines (List.append_assoc ..) hMiddle
    (endsInNewline_append p.second_ends _) hPlain

/-- With the statements for the first header, the plan for the second one is moved. -/
theorem Parts.planAtLine_second (hb : b.site.At (p.text [] []) line) :
    planAtLine (p.text p.firstRows []) (line + a.made.length) settings =
      .ok (b.plan.moved (byteLength p.firstRows) a.made.length) := by
  have hLines : lines p.firstRows = (a.insertion.rows a.upToPlace).map fun row => row ++ ['\n'] :=
    lines_ahead fun row hRow hMem =>
      (staysPlain_iff.1 (a.staysPlain_of_mem_rows hReceiver hUnit hRow _ hMem)).2.1 rfl
  have hLength : (lines p.firstRows).length = a.made.length := by
    rw [hLines, List.length_map, Insertion.rows, List.length_map, Planned.insertion,
      List.length_map]
  have hAbove : b.site.above = lines a.upToPlace ++ lines p.gap := by
    rw [← lines_append_of_ends (.inr p.first_ends), p.lines_above]
  have hClass : ∀ l ∈ lines p.firstRows, classHead? l = none := by
    intro l hl
    rw [hLines] at hl
    obtain ⟨row, hRow, rfl⟩ := List.mem_map.1 hl
    exact a.classHead?_of_mem_rows hReceiver hUnit hRow _
  rw [← hLength]
  exact b.planAtLine_above hb p.first_ends hAbove
    ((ahead_ends _).imp_right endsInNewline_iff.2) hClass

end

/-- **Plans for two headers can be made and applied in any order.** In a text that ends a line, let two
lines belong to different headers, and let the place behind the first header not be further down than
the line of the second one. When the plan for the second header is applied, the plan for the first one
stays as it is. When the plan for the first header is applied, the plan for the second one moves by the
length of the new text and by the number of its statements. Both orders lead to the same text. -/
theorem planAtLine_commutes {source : Text} {settings : Settings}
    (hSource : endsInNewline source = true)
    (hReceiver : ∀ c ∈ settings.defaultReceiver, continuesName c = true)
    (hUnit : ∀ c ∈ settings.indentUnit, isIndent c = true) {l₁ l₂ d₁ d₂ : Nat} {c₁ c₂ : Text}
    {s₁ s₂ : List Text} {i₁ i₂ : Insertion} {p₁ p₂ : Plan}
    (h₁ : planAtLine source l₁ settings = .ok p₁) (h₂ : planAtLine source l₂ settings = .ok p₂)
    (hp₁ : p₁ = ⟨[⟨c₁, d₁, .generated s₁⟩], [i₁]⟩) (hp₂ : p₂ = ⟨[⟨c₂, d₂, .generated s₂⟩], [i₂]⟩)
    (hHeaders : d₁ < d₂)
    (hPlace : i₁.offset ≤ byteLength ((lines source).take (d₂ - 1)).flatten) :
    ∃ out₁ out₂ out distance,
      p₁.apply source = some out₁ ∧ p₂.apply source = some out₂ ∧
      byteLength out₁ = byteLength source + distance ∧
      planAtLine out₂ l₁ settings = .ok p₁ ∧
      planAtLine out₁ (l₂ + s₁.length) settings = .ok (p₂.moved distance s₁.length) ∧
      p₁.apply out₂ = some out ∧ (p₂.moved distance s₁.length).apply out₁ = some out := by
  obtain ⟨a, ha, hPlan₁⟩ := exists_planned h₁
  obtain ⟨b, hb, hPlan₂⟩ := exists_planned h₂
  have hMade : ∀ {a : Planned settings} {plan : Plan} {c d s i}, plan = a.plan →
      plan = ⟨[⟨c, d, .generated s⟩], [i]⟩ →
      d = a.site.number ∧ s = a.made.map Assignment.render ∧ i = a.insertion := by
    intro a plan c d s i hPlan hEq
    by_cases hNil : a.made = []
    · rw [hPlan, a.plan_eq_of_nil hNil] at hEq
      cases hEq
    · rw [hPlan, a.plan_eq_of_ne_nil hNil] at hEq
      cases hEq
      exact ⟨rfl, rfl, rfl⟩
  obtain ⟨rfl, rfl, rfl⟩ := hMade hPlan₁ hp₁
  obtain ⟨rfl, rfl, rfl⟩ := hMade hPlan₂ hp₂
  have hTake : (lines source).take (b.site.number - 1) = b.site.above := by
    rw [hb.lines_eq]
    exact List.take_left
  rw [hTake] at hPlace
  -- from here on the text is given by its parts, and each of the four texts fills them
  obtain ⟨p, rfl⟩ := exists_parts ha hb hSource hHeaders hPlace
  refine ⟨p.text p.firstRows [], p.text [] p.secondRows, p.text p.firstRows p.secondRows,
    byteLength p.firstRows, ?first, ?second, ?length, ?planFirst, ?planSecond, ?firstLast,
    ?secondLast⟩
  case first => rw [hp₁, apply_singleton rfl, p.insert_first]
  case second =>
    rw [hp₂, apply_singleton rfl]
    exact p.insert_second []
  case length =>
    simp only [Parts.text, byteLength_append, byteLength]
    omega
  case planFirst =>
    rw [hPlan₁]
    exact p.planAtLine_first hReceiver hUnit ha
  case planSecond =>
    rw [hPlan₂, List.length_map]
    exact p.planAtLine_second hReceiver hUnit hb
  case firstLast => rw [hp₁, apply_singleton rfl, p.insert_first]
  case secondLast =>
    rw [hp₂, apply_singleton rfl]
    exact p.insert_second p.firstRows

/-- The second header stands in the first class, behind its docstring. -/
theorem planAtLine_commutes_nested :
    let source := ("class A:\n  def __init__(self, x):\n    \"\"\"One.\"\"\"\n" ++
      "  class B:\n    def __init__(self, y, z):\n      \"\n").toList
    let i : Insertion := ⟨49, "      ".toList, ["self.x = x".toList]⟩
    let j : Insertion := ⟨90, "        ".toList, ["self.y = y".toList, "self.z = z".toList]⟩
    let p : Plan := ⟨[⟨['A'], 2, .generated i.lines⟩], [i]⟩
    let q : Plan := ⟨[⟨['B'], 5, .generated j.lines⟩], [j]⟩
    planAtLine source 3 .default = .ok p ∧ planAtLine source 6 .default = .ok q ∧
    ∃ out₁ out₂ out distance, p.apply source = some out₁ ∧ q.apply source = some out₂ ∧
      byteLength out₁ = byteLength source + distance ∧ planAtLine out₂ 3 .default = .ok p ∧
      planAtLine out₁ 7 .default = .ok (q.moved distance 1) ∧
      p.apply out₂ = some out ∧ (q.moved distance 1).apply out₁ = some out := by
  intro source i j p q
  have hReceiver : ∀ c ∈ Settings.default.defaultReceiver, continuesName c = true :=
    List.all_eq_true.1 (by decide)
  have hUnit : ∀ c ∈ Settings.default.indentUnit, isIndent c = true :=
    List.all_eq_true.1 (by decide)
  have hSource : endsInNewline source = true := by decide
  have hFirst : planAtLine source 3 .default = .ok p := by decide +kernel
  have hSecond : planAtLine source 6 .default = .ok q := by decide +kernel
  have hPlace : i.offset ≤ byteLength ((lines source).take 4).flatten := by decide +kernel
  exact ⟨hFirst, hSecond,
    planAtLine_commutes hSource hReceiver hUnit hFirst hSecond rfl rfl (by decide) hPlace⟩

end FieldFill
