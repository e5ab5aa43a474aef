import FieldFill.Plan.AtLine
import FieldFill.Proofs.Outline.HeaderSearch
import FieldFill.Proofs.Parameter.Enclosed
import FieldFill.Proofs.Plan.Docstring

/-!
# The header around a line

Planning at a line looks upward for the nearest header and takes the text apart there: the lines
above, the header up to its parenthesis, and all that follows. Behind the parenthesis the text falls
into the parameter list, the bracket that closes it, the rest of that line and the body.

Main definitions:

* `HeaderSite`, `HeaderSite.At` — the initializer header that a line belongs to, as a split of lines.
* `Tail` — what follows the parenthesis of a header whose list is closed.
* `Planned` — a header at which a plan is made.

Main results:

* `headerAbove?_eq_some_iff` — what the upward search finds.
* `HeaderSite.At.planAtLine_eq`, `exists_at` — a plan at a line is one at its header.
* `Tail.planHeader_eq`, `exists_tail` — a plan at a header is read off its tail.
* `exists_of_planAtLine`, `exists_planned` — what a plan at a line is made of.
-/

namespace FieldFill

/-! ## The upward search -/

/-- The search stops at the first line that is a header. -/
theorem headerAbove?_eq_some_iff {list above : List Text} {header : Header} {line : Text} :
    headerAbove? list = some (header, line, above) ↔
      ∃ passed, list = passed ++ line :: above ∧ Header.ofLine? line = some header ∧
        ∀ l ∈ passed, Header.ofLine? l = none := by
  induction list with
  | nil => simp [headerAbove?]
  | cons l list ih =>
    rw [headerAbove?]
    cases hHeader : Header.ofLine? l with
    | some found =>
      constructor
      · intro h
        obtain ⟨rfl, hRest⟩ := Prod.mk.inj (Option.some.inj h)
        obtain ⟨rfl, rfl⟩ := Prod.mk.inj hRest
        exact ⟨[], rfl, hHeader, fun l hl => absurd hl List.not_mem_nil⟩
      · rintro ⟨passed, hList, hLine, hPassed⟩
        cases passed with
        | nil =>
          obtain ⟨rfl, rfl⟩ := List.cons.inj hList
          rw [hHeader] at hLine
          obtain rfl := Option.some.inj hLine
          rfl
        | cons p passed =>
          -- a line that was passed is no header
          obtain ⟨rfl, -⟩ := List.cons.inj hList
          rw [hPassed l (List.mem_cons_self ..)] at hHeader
          cases hHeader
    | none =>
      dsimp only
      rw [ih]
      constructor
      · rintro ⟨passed, rfl, hLine, hPassed⟩
        exact ⟨l :: passed, rfl, hLine, List.forall_mem_cons.2 ⟨hHeader, hPassed⟩⟩
      · rintro ⟨passed, hList, hLine, hPassed⟩
        cases passed with
        | nil =>
          obtain ⟨rfl, rfl⟩ := List.cons.inj hList
          rw [hHeader] at hLine
          cases hLine
        | cons p passed =>
          obtain ⟨rfl, rfl⟩ := List.cons.inj hList
          exact ⟨passed, rfl, hLine, fun l hl => hPassed l (List.mem_cons_of_mem _ hl)⟩

/-- What is found of an initializer in a line: the text up to a parenthesis, and from there on. -/
theorem exists_of_findInitializer? {line header rest : Text}
    (h : findInitializer? line = some (header, rest)) :
    line = header ++ rest ∧ ∃ inside, rest = '(' :: inside := by
  induction line generalizing header with
  | nil => cases h
  | cons c line ih =>
    rw [findInitializer?] at h
    split at h
    · rename_i found hHead
      obtain ⟨hHeader, rfl⟩ := Prod.mk.inj (Option.some.inj h)
      obtain ⟨gap, space, inside, hText, hGap, hne, hSpace⟩ := initializerHead?_eq_some hHead
      rw [hText, initializerHead?_of_text hGap hne hSpace] at hHead
      obtain rfl := Option.some.inj hHead
      -- the header is what stands in front of the parenthesis
      have hSplit : c :: line = (['d', 'e', 'f'] ++ (gap ++ (initializerName ++ space))) ++
          '(' :: inside := by
        rw [hText]
        simp
      rw [hSplit, List.length_append, Nat.add_sub_cancel, List.take_left] at hHeader
      exact ⟨by rw [hSplit, hHeader], inside, rfl⟩
    · obtain ⟨⟨before, tail⟩, hLater, hEq⟩ := Option.map_eq_some_iff.1 h
      obtain ⟨rfl, rfl⟩ := Prod.mk.inj hEq
      obtain ⟨rfl, hInside⟩ := ih hLater
      exact ⟨rfl, hInside⟩

theorem Header.ofLine?_eq_initializer {line header : Text}
    (h : Header.ofLine? line = some (.initializer header)) :
    ∃ rest, findInitializer? line = some (header, rest) := by
  unfold Header.ofLine? at h
  split at h
  · rename_i before rest hFound
    obtain rfl : before = header := by simpa using h
    exact ⟨rest, hFound⟩
  · split at h <;> cases h

/-! ## A plan at a line is one at its header -/

/-- An initializer header among lines. -/
structure HeaderSite where
  above : List Text
  row : Text
  /-- Lines behind the header that are no headers. -/
  passed : List Text
  below : List Text
  /-- The text of the header line up to the opening parenthesis. -/
  header : Text
  initializer : Header.ofLine? row = some (.initializer header)
  passed_none : ∀ l ∈ passed, Header.ofLine? l = none

namespace HeaderSite

variable (a : HeaderSite)

def indent : Text :=
  a.row.takeWhile isIndent

def className : Text :=
  enclosingClass a.above.reverse a.indent.length

/-- The number of the header line, from one. -/
def number : Nat :=
  a.above.length + 1

/-- The byte position of the opening parenthesis. -/
def openParen : Nat :=
  byteLength (a.above.flatten ++ a.header)

/-- The text from the opening parenthesis on. -/
def tail : Text :=
  a.row.drop a.header.length ++ (a.passed ++ a.below).flatten

theorem row_eq : a.row = a.header ++ a.row.drop a.header.length := by
  obtain ⟨rest, hFound⟩ := Header.ofLine?_eq_initializer a.initializer
  obtain ⟨hRow, -⟩ := exists_of_findInitializer? hFound
  rw [hRow, List.drop_left]

theorem exists_inside : ∃ inside, a.tail = '(' :: inside := by
  obtain ⟨rest, hFound⟩ := Header.ofLine?_eq_initializer a.initializer
  obtain ⟨hRow, inside, rfl⟩ := exists_of_findInitializer? hFound
  refine ⟨inside ++ (a.passed ++ a.below).flatten, ?_⟩
  rw [tail, hRow, List.drop_left]
  rfl

/-- The header is the one that a line of a text belongs to. -/
structure At (source : Text) (line : Nat) : Prop where
  lines_eq : lines source = a.above ++ a.row :: (a.passed ++ a.below)
  line_eq : line = a.above.length + 1 + a.passed.length

namespace At

variable {a} {source : Text} {line : Nat} (h : a.At source line)

include h

theorem source_eq : source = a.above.flatten ++ (a.header ++ a.tail) :=
  calc source = (lines source).flatten := (flatten_lines source).symm
    _ = a.above.flatten ++ (a.row ++ (a.passed ++ a.below).flatten) := by
      rw [h.lines_eq, List.flatten_append, List.flatten_cons]
    _ = a.above.flatten ++ (a.header ++ a.tail) := by
      rw [tail, ← List.append_assoc a.header, ← a.row_eq]

theorem take_lines : (lines source).take line = a.above ++ a.row :: a.passed := by
  have hSplit : lines source = (a.above ++ a.row :: a.passed) ++ a.below := by
    rw [h.lines_eq]
    simp
  have hLength : line = (a.above ++ a.row :: a.passed).length := by
    rw [h.line_eq, List.length_append, List.length_cons]
    omega
  rw [hSplit, hLength, List.take_left]

theorem headerAbove?_eq :
    headerAbove? ((lines source).take line).reverse =
      some (.initializer a.header, a.row, a.above.reverse) := by
  refine headerAbove?_eq_some_iff.2 ⟨a.passed.reverse, ?_, a.initializer, fun l hl => ?_⟩
  · rw [h.take_lines]
    simp
  · exact a.passed_none l (List.mem_reverse.1 hl)

theorem inRange : ¬ (line = 0 || (lines source).length < line) = true := by
  rw [h.lines_eq, h.line_eq]
  simp only [Bool.or_eq_true, decide_eq_true_eq, List.length_append, List.length_cons]
  omega

/-- **A plan at a line is the plan at its header.** -/
theorem planAtLine_eq (settings : Settings) :
    planAtLine source line settings =
      planHeader settings a.className a.number a.indent a.above.flatten a.header a.tail := by
  have hBelow : (lines source).drop (a.above.length + 1) = a.passed ++ a.below := by
    have hSplit : lines source = (a.above ++ [a.row]) ++ (a.passed ++ a.below) := by
      rw [h.lines_eq]
      simp
    have hLength : a.above.length + 1 = (a.above ++ [a.row]).length := by simp
    rw [hSplit, hLength, List.drop_left]
  unfold planAtLine
  simp only [if_neg h.inRange, h.headerAbove?_eq, List.reverse_reverse, List.length_reverse, hBelow]
  rfl

end At

end HeaderSite

/-- A line with an initializer above it belongs to the header that is found. -/
theorem exists_at_of_headerAbove? {source : Text} {line : Nat} {header row : Text}
    {above : List Text} (hRange : ¬ (line = 0 || (lines source).length < line) = true)
    (h : headerAbove? ((lines source).take line).reverse =
      some (.initializer header, row, above)) :
    ∃ a : HeaderSite, a.At source line ∧ a.header = header ∧ a.row = row ∧
      a.above = above.reverse := by
  obtain ⟨passed, hList, hLine, hPassed⟩ := headerAbove?_eq_some_iff.1 h
  have hTake : (lines source).take line = above.reverse ++ row :: passed.reverse := by
    simpa using congrArg List.reverse hList
  have hLength := congrArg List.length hTake
  simp only [Bool.or_eq_true, decide_eq_true_eq] at hRange
  simp only [List.length_take, List.length_append, List.length_cons, List.length_reverse] at hLength
  refine ⟨⟨above.reverse, row, passed.reverse, (lines source).drop line, header, hLine,
    fun l hl => hPassed l (List.mem_reverse.1 hl)⟩, ⟨?_, ?_⟩, rfl, rfl, rfl⟩
  · -- the search goes up from the line, so the lines below are those it does not see
    calc lines source = (lines source).take line ++ (lines source).drop line :=
          (List.take_append_drop line _).symm
      _ = above.reverse ++ row :: (passed.reverse ++ (lines source).drop line) := by
          rw [hTake]
          simp
  · simp only [List.length_reverse]
    omega

/-- Every plan at a line is one at a header. -/
theorem exists_at {source : Text} {line : Nat} {settings : Settings} {plan : Plan}
    (h : planAtLine source line settings = .ok plan) : ∃ a : HeaderSite, a.At source line := by
  unfold planAtLine at h
  dsimp only at h
  split at h
  · cases h
  · rename_i hRange
    split at h
    · cases h
    · cases h
    · rename_i header row above hFound
      obtain ⟨a, ha, -⟩ := exists_at_of_headerAbove? hRange hFound
      exact ⟨a, ha⟩

/-! ## What follows the parenthesis -/

/-- The text from the opening parenthesis of a header on, when the parameter list is closed. -/
structure Tail (text : Text) where
  inner : Text
  closer : Char
  /-- What follows the closing bracket on its line. -/
  onLine : Text
  body : Text
  text_eq : text = '(' :: (inner ++ closer :: (onLine ++ body))
  closes : isCloser closer = true
  closed : Closed inner
  line_eq : breakLine (onLine ++ body) = (onLine, body)

theorem ne_newline_of_isCloser {c : Char} (h : isCloser c = true) : c ≠ '\n' := by
  rintro rfl
  cases h

namespace Tail

variable {text : Text} (t : Tail text)

/-- The text in front of the body. -/
def head : Text :=
  '(' :: (t.inner ++ t.closer :: t.onLine)

theorem text_eq_head : text = t.head ++ t.body := by
  conv_lhs => rw [t.text_eq]
  simp [head]

/-- The docstring that the body begins with, to the end of its line. -/
def opening : Text :=
  (docstring? t.body).getD []

theorem toClosing_eq :
    toClosing text = .ok ('(' :: t.inner, t.closer :: (t.onLine ++ t.body)) := by
  conv_lhs => rw [t.text_eq]
  exact toClosing_of_closed rfl t.closes t.closed

theorem breakLine_eq :
    breakLine (t.closer :: (t.onLine ++ t.body)) = (t.closer :: t.onLine, t.body) := by
  rw [breakLine_cons (ne_newline_of_isCloser t.closes), t.line_eq]

/-- A text closes its list in one way only. -/
instance : Subsingleton (Tail text) := by
  refine ⟨fun t u => ?_⟩
  have hClosing := t.toClosing_eq.symm.trans u.toClosing_eq
  obtain ⟨hEnclosed, hBehind⟩ := Prod.mk.inj (Except.ok.inj hClosing)
  have hInner : t.inner = u.inner := (List.cons.inj hEnclosed).2
  obtain ⟨hCloser, hRest⟩ := List.cons.inj hBehind
  -- the line and the body are the two parts of one text
  have hLine := t.line_eq
  rw [hRest, u.line_eq] at hLine
  obtain ⟨hOnLine, hBody⟩ := Prod.mk.inj hLine
  cases t
  cases u
  dsimp only at hInner hCloser hOnLine hBody
  subst hInner hCloser hOnLine hBody
  rfl

/-- Behind a docstring begins a line, or nothing. -/
theorem exists_behind_opening :
    ∃ rest, t.body = t.opening ++ rest ∧ (endsInNewline (t.head ++ t.opening) = true ∨ rest = []) := by
  cases hOpening : docstring? t.body with
  | none =>
    have hNil : t.opening = [] := by rw [opening, hOpening]; rfl
    rw [hNil, List.append_nil]
    refine ⟨t.body, rfl, ?_⟩
    have hEnds := breakLine_ends (t.onLine ++ t.body)
    rw [t.line_eq] at hEnds
    -- the rest of the header line is the end of the text in front of the body
    have hHead : t.head = ('(' :: t.inner ++ [t.closer]) ++ t.onLine := by simp [head]
    rw [hHead]
    exact hEnds.imp (fun hLine => endsInNewline_append hLine _) id
  | some d =>
    have hSome : t.opening = d := by rw [opening, hOpening]; rfl
    obtain ⟨rest, hBody, hEnds⟩ := exists_of_docstring? hOpening
    rw [hSome]
    exact ⟨rest, hBody, hEnds.imp (fun hLine => endsInNewline_append hLine _) id⟩

/-- The plan that puts some assignments behind a header. -/
def plan (settings : Settings) (className : Text) (row : Nat) (indent before : Text)
    (made : List Assignment) : Plan :=
  if made.isEmpty then ⟨[⟨className, row, .nothingToGenerate⟩], []⟩
  else ⟨[⟨className, row, .generated (made.map Assignment.render)⟩],
    [⟨byteLength before + byteLength (t.head ++ t.opening), indent ++ settings.indentUnit,
      made.map Assignment.render⟩]⟩

/-- The plan for a header, from what is read in its tail. -/
theorem planHeader_eq {settings : Settings} {made : List Assignment}
    (hMade : assignments settings t.inner = .ok made) (className : Text) (row : Nat)
    (indent before header : Text) :
    planHeader settings className row indent before header text =
      if hasInlineBody t.onLine then .error (.inlineBody className row)
      else .ok (t.plan settings className row indent (before ++ header) made) := by
  have hPlace : byteLength before + byteLength header + byteLength ('(' :: t.inner) +
      byteLength (t.closer :: t.onLine) + ((docstring? t.body).map byteLength).getD 0 =
      byteLength (before ++ header) + byteLength (t.head ++ t.opening) := by
    have hOpening : ((docstring? t.body).map byteLength).getD 0 = byteLength t.opening := by
      unfold opening
      cases docstring? t.body <;> rfl
    rw [hOpening, head]
    simp only [byteLength, byteLength_append]
    omega
  unfold planHeader
  rw [t.toClosing_eq]
  simp only [Except.mapError, bind, Except.bind, t.breakLine_eq, List.drop_one, List.tail_cons,
    hMade, pure, Except.pure, hPlace]
  by_cases hInline : hasInlineBody t.onLine = true
  · rw [if_pos hInline, if_pos hInline]
    rfl
  · rw [if_neg hInline, if_neg hInline, plan]
    split <;> rfl

end Tail

/-- A list that is never closed is the fault of the plan. -/
theorem planHeader_of_error {text : Text} {fault : SignatureFault} (h : toClosing text = .error fault)
    (settings : Settings) (className : Text) (row : Nat) (indent before header : Text) :
    planHeader settings className row indent before header text =
      .error (.signature className (fault.shift (byteLength (before ++ header)))) := by
  rw [planHeader, h, byteLength_append]
  rfl

theorem exists_tail {text inside : Text} {parts : Text × Text} (hText : text = '(' :: inside)
    (h : toClosing text = .ok parts) : Nonempty (Tail text) := by
  subst hText
  obtain ⟨inner, closer, rest, -, -, rfl, hCloser, hClosed⟩ := (toClosing_eq_ok_iff rfl).1 h
  exact ⟨⟨inner, closer, (breakLine rest).1, (breakLine rest).2, by rw [breakLine_append], hCloser,
    hClosed, by rw [breakLine_append]⟩⟩

/-! ## Plans at a line -/

namespace HeaderSite

variable (a : HeaderSite)

/-- The plan that puts some assignments behind the header. -/
def plan (t : Tail a.tail) (settings : Settings) (made : List Assignment) : Plan :=
  t.plan settings a.className a.number a.indent (a.above.flatten ++ a.header) made

theorem At.planAtLine_of_tail {a : HeaderSite} {source : Text} {line : Nat} (h : a.At source line)
    {settings : Settings} (t : Tail a.tail) {made : List Assignment}
    (hMade : assignments settings t.inner = .ok made) :
    planAtLine source line settings =
      if hasInlineBody t.onLine then .error (.inlineBody a.className a.number)
      else .ok (a.plan t settings made) := by
  rw [h.planAtLine_eq, t.planHeader_eq hMade, plan]

end HeaderSite

/-- **A plan at a line is made at a header whose list is closed**, with a body on other lines. -/
theorem exists_of_planAtLine {source : Text} {line : Nat} {settings : Settings} {plan : Plan}
    (h : planAtLine source line settings = .ok plan) :
    ∃ (a : HeaderSite) (t : Tail a.tail) (made : List Assignment), a.At source line ∧
      assignments settings t.inner = .ok made ∧ hasInlineBody t.onLine = false ∧
      plan = a.plan t settings made := by
  obtain ⟨a, ha⟩ := exists_at h
  obtain ⟨inside, hInside⟩ := a.exists_inside
  cases hClosing : toClosing a.tail with
  | error fault =>
    rw [ha.planAtLine_eq, planHeader_of_error hClosing] at h
    cases h
  | ok parts =>
    obtain ⟨t⟩ := exists_tail hInside hClosing
    obtain ⟨made, hMade⟩ := exists_assignments_of_closed t.closed settings
    rw [ha.planAtLine_of_tail t hMade] at h
    split at h
    · cases h
    · rename_i hInline
      exact ⟨a, t, made, ha, hMade, by simpa using hInline, (Except.ok.inj h).symm⟩

/-! ## Headers with their plans -/

/-- A header at which a plan is made. -/
structure Planned (settings : Settings) where
  site : HeaderSite
  tail : Tail site.tail
  made : List Assignment
  made_eq : assignments settings tail.inner = .ok made
  inline : hasInlineBody tail.onLine = false

namespace Planned

variable {settings : Settings} (a : Planned settings)

def plan : Plan :=
  a.site.plan a.tail settings a.made

/-- The text in front of the place behind the header. -/
def upToPlace : Text :=
  a.site.above.flatten ++ a.site.header ++ (a.tail.head ++ a.tail.opening)

/-- The lines between those above the header and the place behind it. -/
def toPlace : Text :=
  a.site.header ++ (a.tail.head ++ a.tail.opening)

def insertion : Insertion :=
  ⟨byteLength a.upToPlace, a.site.indent ++ settings.indentUnit, a.made.map Assignment.render⟩

theorem upToPlace_eq : a.upToPlace = a.site.above.flatten ++ a.toPlace :=
  List.append_assoc ..

theorem paren_mem_toPlace : '(' ∈ a.toPlace := by
  rw [toPlace, Tail.head]
  simp

theorem plan_eq_of_ne_nil (h : a.made ≠ []) :
    a.plan = ⟨[⟨a.site.className, a.site.number, .generated (a.made.map Assignment.render)⟩],
      [a.insertion]⟩ := by
  rw [plan, HeaderSite.plan, Tail.plan, if_neg (by simpa using h), insertion, upToPlace,
    byteLength_append (_ ++ _)]

theorem plan_eq_of_nil (h : a.made = []) :
    a.plan = ⟨[⟨a.site.className, a.site.number, .nothingToGenerate⟩], []⟩ := by
  rw [plan, HeaderSite.plan, Tail.plan, if_pos (by simpa using h)]

end Planned

theorem Planned.planAtLine_eq {settings : Settings} (a : Planned settings) {source : Text}
    {line : Nat} (h : a.site.At source line) : planAtLine source line settings = .ok a.plan := by
  rw [h.planAtLine_of_tail a.tail a.made_eq, if_neg (ne_true_of_eq_false a.inline), plan]

/-- Every plan at a line is one at a header. -/
theorem exists_planned {source : Text} {line : Nat} {settings : Settings} {plan : Plan}
    (h : planAtLine source line settings = .ok plan) :
    ∃ a : Planned settings, a.site.At source line ∧ plan = a.plan := by
  obtain ⟨a, t, made, ha, hMade, hInline, hPlan⟩ := exists_of_planAtLine h
  exact ⟨⟨a, t, made, hMade, hInline⟩, ha, hPlan⟩

end FieldFill
