import FieldFill.Proofs.Outline.HeaderPattern
import FieldFill.Proofs.Plan.Positions

/-!
# Every line belongs to the nearest header above it

Planning at a line has five ways to fail, and looks for them in a fixed order. Which one it is, or
whether there is a plan, can be told without following the search: it is decided by the number of lines,
by the nearest header at the line or above it, by what kind of header that is, by the bracket that
closes its list, and by the rest of the line on which that stands.

Main definitions:

* `nthLine?` — a line of a text by its number.
* `IsNearest` — the nearest header at a line or above it.
* `AnsweredAt` — what is answered at the header of an initializer.

Main results:

* `exists_isNearest` — a line has a nearest header, or there is no header at all.
* `IsNearest.headerAbove?_eq` — the search finds it.
* `planAtLine_between` — lines without a header between them have the same plans.
* `planAtLine_by_nearest_header` — all answers, each with its exact condition.
-/

namespace FieldFill

/-! ## Lines by number -/

/-- A line of a text, counted from one. -/
def nthLine? (source : Text) (number : Nat) : Option Text :=
  if number = 0 then none else (lines source)[number - 1]?

/-- The nearest header at a line or above it stands on line `h` and reads `row`. -/
structure IsNearest (source : Text) (line h : Nat) (row : Text) : Prop where
  le : h ≤ line
  row_eq : nthLine? source h = some row
  header : IsHeaderLine row
  between : ∀ k r, h < k → k ≤ line → nthLine? source k = some r → ¬ IsHeaderLine r

section

variable {source : Text} {line h : Nat} {row : Text}

theorem nthLine?_succ (source : Text) (n : Nat) : nthLine? source (n + 1) = (lines source)[n]? := rfl

/-- The lines up to a line are those with a number up to it. -/
theorem mem_take_lines_iff {l : Text} :
    l ∈ (lines source).take line ↔ ∃ k, k ≤ line ∧ nthLine? source k = some l := by
  rw [List.mem_iff_getElem?]
  constructor
  · rintro ⟨i, hi⟩
    rw [List.getElem?_take] at hi
    split at hi
    · rename_i hLt
      exact ⟨i + 1, hLt, hi⟩
    · cases hi
  · rintro ⟨k, hk, hRow⟩
    cases k with
    | zero => cases hRow
    | succ i =>
      refine ⟨i, ?_⟩
      rw [List.getElem?_take, if_pos (Nat.lt_of_succ_le hk)]
      exact hRow

/-- A line stands between the lines above it and those below it. -/
theorem lines_eq_of_nthLine? (hRow : nthLine? source h = some row) :
    lines source = (lines source).take (h - 1) ++ row :: (lines source).drop h := by
  cases h with
  | zero => cases hRow
  | succ n =>
    rw [nthLine?_succ] at hRow
    obtain ⟨hLt, hGet⟩ := List.getElem?_eq_some_iff.1 hRow
    conv_lhs => rw [← List.take_append_drop n (lines source)]
    rw [Nat.add_sub_cancel, List.drop_eq_getElem_cons hLt, hGet]

theorem length_take_of_nthLine? (hRow : nthLine? source h = some row) :
    ((lines source).take (h - 1)).length + 1 = h := by
  cases h with
  | zero => cases hRow
  | succ n =>
    rw [nthLine?_succ] at hRow
    obtain ⟨hLt, -⟩ := List.getElem?_eq_some_iff.1 hRow
    rw [List.length_take]
    omega

/-! ## The nearest header -/

/-- **A line has a nearest header**, or no line up to it is one. -/
theorem exists_isNearest (source : Text) (line : Nat) :
    (∀ k r, k ≤ line → nthLine? source k = some r → ¬ IsHeaderLine r) ∨
      ∃ h row, IsNearest source line h row := by
  induction line with
  | zero =>
    left
    intro k r hk hRow
    obtain rfl := Nat.le_zero.1 hk
    cases hRow
  | succ line ih =>
    -- the line itself is the nearest header, or else the one of the line above it is
    by_cases hHere : ∃ r, nthLine? source (line + 1) = some r ∧ IsHeaderLine r
    · obtain ⟨r, hRow, hHeader⟩ := hHere
      refine .inr ⟨line + 1, r, Nat.le_refl _, hRow, hHeader, fun k _ hLt hLe => ?_⟩
      omega
    · have hNone : ∀ r, nthLine? source (line + 1) = some r → ¬ IsHeaderLine r :=
        fun r hRow hHeader => hHere ⟨r, hRow, hHeader⟩
      rcases ih with hAll | ⟨h, row, hNearest⟩
      · left
        intro k r hk hRow
        rcases Nat.le_succ_iff.1 hk with hLe | rfl
        · exact hAll k r hLe hRow
        · exact hNone r hRow
      · refine .inr ⟨h, row, Nat.le_succ_of_le hNearest.le, hNearest.row_eq, hNearest.header, ?_⟩
        intro k r hLt hk hRow
        rcases Nat.le_succ_iff.1 hk with hLe | rfl
        · exact hNearest.between k r hLt hLe hRow
        · exact hNone r hRow

theorem headerAbove?_eq_none_iff {list : List Text} :
    headerAbove? list = none ↔ ∀ l ∈ list, Header.ofLine? l = none := by
  induction list with
  | nil => simp [headerAbove?]
  | cons l list ih =>
    rw [headerAbove?, List.forall_mem_cons]
    cases Header.ofLine? l with
    | some found => simp
    | none => simp [ih]

/-- Where there is no header, none is found. -/
theorem headerAbove?_of_none
    (hNone : ∀ k r, k ≤ line → nthLine? source k = some r → ¬ IsHeaderLine r) :
    headerAbove? ((lines source).take line).reverse = none := by
  refine headerAbove?_eq_none_iff.2 fun l hl => ?_
  obtain ⟨k, hk, hRow⟩ := mem_take_lines_iff.1 (List.mem_reverse.1 hl)
  exact Header.ofLine?_none_iff.2 (hNone k l hk hRow)

/-- No line of those behind a line up to a further one is a header, if they are none by number. -/
theorem ofLine?_of_between
    (hBetween : ∀ k r, h < k → k ≤ line → nthLine? source k = some r → ¬ IsHeaderLine r) :
    ∀ l ∈ ((lines source).drop h).take (line - h), Header.ofLine? l = none := by
  intro l hl
  obtain ⟨i, hi⟩ := List.mem_iff_getElem?.1 hl
  rw [List.getElem?_take] at hi
  split at hi
  · rename_i hLt
    rw [List.getElem?_drop] at hi
    exact Header.ofLine?_none_iff.2 (hBetween (h + i + 1) l (by omega) (by omega) hi)
  · cases hi

namespace IsNearest

variable (hNearest : IsNearest source line h row)

include hNearest

/-- The lines up to a line: those above the nearest header, the header, and lines that are none. -/
theorem take_lines_eq :
    ∃ passed, (lines source).take line = (lines source).take (h - 1) ++ row :: passed ∧
      ∀ l ∈ passed, Header.ofLine? l = none := by
  have hAll := lines_eq_of_nthLine? hNearest.row_eq
  have hAbove := length_take_of_nthLine? hNearest.row_eq
  have hLe := hNearest.le
  refine ⟨((lines source).drop h).take (line - h), ?_, ofLine?_of_between hNearest.between⟩
  have hLength : line = ((lines source).take (h - 1)).length + (line - h + 1) := by omega
  conv_lhs => rw [hAll, hLength]
  rw [List.take_length_add_append, List.take_succ_cons]

/-- **The search finds the nearest header.** -/
theorem headerAbove?_eq {header : Header} (hHeader : Header.ofLine? row = some header) :
    headerAbove? ((lines source).take line).reverse =
      some (header, row, ((lines source).take (h - 1)).reverse) := by
  obtain ⟨passed, hTake, hPassed⟩ := hNearest.take_lines_eq
  refine headerAbove?_eq_some_iff.2 ⟨passed.reverse, ?_, hHeader, fun l hl => ?_⟩
  · rw [hTake]
    simp
  · exact hPassed l (List.mem_reverse.1 hl)

/-- The header of an initializer that is the nearest one is the one that the line belongs to. -/
theorem exists_at {header : Text} (hHeader : IsFirstInitializer row header)
    (hRange : line ≤ (lines source).length) :
    ∃ a : HeaderSite, a.At source line ∧ a.above = (lines source).take (h - 1) ∧ a.row = row ∧
      a.header = header ∧ a.number = h := by
  have hAbove := length_take_of_nthLine? hNearest.row_eq
  have hLe := hNearest.le
  have hInRange : ¬ (line = 0 || (lines source).length < line) = true := by
    simp only [Bool.or_eq_true, decide_eq_true_eq]
    omega
  obtain ⟨a, ha, hText, hRow, hLines⟩ := exists_at_of_headerAbove? hInRange
    (hNearest.headerAbove?_eq (Header.ofLine?_initializer_iff.2 hHeader))
  rw [List.reverse_reverse] at hLines
  refine ⟨a, ha, hLines, hRow, hText, ?_⟩
  rw [HeaderSite.number, hLines]
  exact hAbove

end IsNearest

end

/-! ## Lines with the same header -/

theorem headerAbove?_append_of_none {passed : List Text}
    (hPassed : ∀ l ∈ passed, Header.ofLine? l = none) (list : List Text) :
    headerAbove? (passed ++ list) = headerAbove? list := by
  induction passed with
  | nil => rfl
  | cons l passed ih =>
    obtain ⟨hLine, hMore⟩ := List.forall_mem_cons.1 hPassed
    rw [List.cons_append, headerAbove?, hLine]
    exact ih hMore

/-- There is a plan at a line of the text exactly when the header found for it has one. -/
theorem planAtLine_eq_ok_iff {source : Text} {line : Nat} {settings : Settings} {plan : Plan}
    (hRange : line ≤ (lines source).length) :
    planAtLine source line settings = .ok plan ↔
      ∃ header row above,
        headerAbove? ((lines source).take line).reverse = some (.initializer header, row, above) ∧
        planHeader settings (enclosingClass above (row.takeWhile isIndent).length) (above.length + 1)
          (row.takeWhile isIndent) above.reverse.flatten header
          (row.drop header.length ++ ((lines source).drop (above.length + 1)).flatten) = .ok plan := by
  unfold planAtLine
  dsimp only
  by_cases hZero : line = 0
  · subst hZero
    simp [headerAbove?]
  · rw [if_neg (by simpa using ⟨hZero, hRange⟩)]
    cases headerAbove? ((lines source).take line).reverse with
    | none => simp
    | some found =>
      obtain ⟨header, row, above⟩ := found
      cases header with
      | other => simp
      | initializer header => simp

/-- **Lines without a header between them have the same plans.** The upper line may be a header itself. -/
theorem planAtLine_between {source : Text} {upper lower : Nat} (hOrder : upper ≤ lower)
    (hRange : lower ≤ (lines source).length)
    (hBetween : ∀ k r, upper < k → k ≤ lower → nthLine? source k = some r → ¬ IsHeaderLine r)
    (settings : Settings) (plan : Plan) :
    planAtLine source upper settings = .ok plan ↔ planAtLine source lower settings = .ok plan := by
  have hTake : (lines source).take lower =
      (lines source).take upper ++ ((lines source).drop upper).take (lower - upper) := by
    conv_lhs => rw [← Nat.add_sub_cancel' hOrder]
    exact List.take_add
  have hNone : ∀ l ∈ (((lines source).drop upper).take (lower - upper)).reverse,
      Header.ofLine? l = none := fun l hl =>
    ofLine?_of_between hBetween l (List.mem_reverse.1 hl)
  -- the search from the lower line passes all lines to the upper one
  rw [planAtLine_eq_ok_iff hRange, planAtLine_eq_ok_iff (hOrder.trans hRange), hTake,
    List.reverse_append, headerAbove?_append_of_none hNone]

/-! ## All answers -/

/-- The class around the initializer whose header is line `h` and reads `row`. -/
def classNameAt (source : Text) (h : Nat) (row : Text) : Text :=
  enclosingClass ((lines source).take (h - 1)).reverse (row.takeWhile isIndent).length

/-- The byte position of the parenthesis on line `h`, when the text of the line up to it is `header`. -/
def openParenAt (source : Text) (h : Nat) (header : Text) : Nat :=
  byteLength (((lines source).take (h - 1)).flatten ++ header)

/-- What is answered where the nearest header is that of an initializer. It is line `h` and reads `row`,
and `header` is the text of this line up to the parenthesis. -/
structure AnsweredAt (source : Text) (settings : Settings) (h : Nat) (row header : Text)
    (answer : Except PlanFault Plan) : Prop where
  /-- The answer is a fault of the parameter list exactly when the search for its end has this fault. -/
  signature : ∃ closing, closingAt source (openParenAt source h header) = some closing ∧
    ∀ c fault, answer = .error (.signature c fault) ↔
      c = classNameAt source h row ∧ closing = .error fault
  /-- When the search succeeds, the list can be read, and the rest of its line decides. -/
  closed : ∀ close, closingAt source (openParenAt source h header) = some (.ok close) →
    ∃ inner made stop onLine,
      slice? source (openParenAt source h header + 1) close = some inner ∧
      assignments settings inner = .ok made ∧
      lineEnd? source close = some stop ∧ slice? source (close + 1) stop = some onLine ∧
      (∀ c n, answer = .error (.inlineBody c n) ↔
        c = classNameAt source h row ∧ n = h ∧ hasInlineBody onLine = true) ∧
      ((∃ plan outcome, answer = .ok plan ∧ plan.reports = [⟨classNameAt source h row, h, outcome⟩]) ↔
        hasInlineBody onLine = false)

namespace AnsweredAt

variable {source : Text} {settings : Settings} {h : Nat} {row header : Text}

theorem of_fault {fault : SignatureFault}
    (hClosing : closingAt source (openParenAt source h header) = some (.error fault)) :
    AnsweredAt source settings h row header
      (.error (.signature (classNameAt source h row) fault)) := by
  refine ⟨⟨_, hClosing, fun c own => ?_⟩, fun close hClose => ?_⟩
  · simp [eq_comm]
  · rw [hClosing] at hClose
    cases Option.some.inj hClose

theorem of_closed {close stop : Nat} {inner onLine : Text} {made : List Assignment} {plan : Plan}
    {outcome : Outcome}
    (hClosing : closingAt source (openParenAt source h header) = some (.ok close))
    (hInner : slice? source (openParenAt source h header + 1) close = some inner)
    (hMade : assignments settings inner = .ok made) (hStop : lineEnd? source close = some stop)
    (hLine : slice? source (close + 1) stop = some onLine)
    (hReports : plan.reports = [⟨classNameAt source h row, h, outcome⟩]) :
    AnsweredAt source settings h row header
      (if hasInlineBody onLine then .error (.inlineBody (classNameAt source h row) h)
        else .ok plan) := by
  refine ⟨⟨_, hClosing, fun c own => by split <;> simp⟩, fun other hClose => ?_⟩
  -- the list is closed at one place
  rw [hClosing] at hClose
  obtain rfl := Except.ok.inj (Option.some.inj hClose)
  refine ⟨inner, made, stop, onLine, hInner, hMade, hStop, hLine, fun c n => ?_, ?_⟩
  · cases hInline : hasInlineBody onLine with
    | true => simp [eq_comm]
    | false => simp
  · cases hInline : hasInlineBody onLine with
    | true => simp
    | false => exact iff_of_true ⟨plan, outcome, if_neg Bool.false_ne_true, hReports⟩ rfl

end AnsweredAt

theorem Tail.exists_report {text : Text} (t : Tail text) (settings : Settings) (className : Text)
    (row : Nat) (indent before : Text) (made : List Assignment) :
    ∃ outcome, (t.plan settings className row indent before made).reports =
      [⟨className, row, outcome⟩] := by
  unfold Tail.plan
  split
  · exact ⟨_, rfl⟩
  · exact ⟨_, rfl⟩

/-- **At the header of an initializer, the closing bracket and the rest of its line decide.** -/
theorem IsNearest.answeredAt {source : Text} {line h : Nat} {row header : Text}
    (hNearest : IsNearest source line h row) (hRange : line ≤ (lines source).length)
    (hHeader : IsFirstInitializer row header) (settings : Settings) :
    AnsweredAt source settings h row header (planAtLine source line settings) := by
  obtain ⟨a, ha, hAbove, hRow, hText, hNumber⟩ := hNearest.exists_at hHeader hRange
  have hClass : a.className = classNameAt source h row := by
    rw [classNameAt, ← hAbove, ← hRow]
    rfl
  have hOpen : a.openParen = openParenAt source h header := by
    rw [openParenAt, ← hAbove, ← hText]
    rfl
  obtain ⟨inside, hInside⟩ := a.exists_inside
  cases hClosing : toClosing a.tail with
  | error fault =>
    rw [ha.planAtLine_eq, planHeader_of_error hClosing, hClass]
    refine AnsweredAt.of_fault ?_
    rw [← hOpen, closingAt, ha.splitAt?_openParen, Option.map_some]
    dsimp only
    rw [hClosing]
    rfl
  | ok parts =>
    obtain ⟨t⟩ := exists_tail hInside hClosing
    obtain ⟨made, hMade⟩ := exists_assignments_of_closed t.closed settings
    have hSplit := ha.splitAt?_openParen
    have hPlace := ha.closingAt_eq t
    obtain ⟨outcome, hReport⟩ :=
      t.exists_report settings a.className a.number a.indent (a.above.flatten ++ a.header) made
    rw [hOpen] at hSplit hPlace
    have hReports : (a.plan t settings made).reports = [⟨classNameAt source h row, h, outcome⟩] := by
      rw [← hClass, ← hNumber]
      exact hReport
    rw [ha.planAtLine_of_tail t hMade, hClass, hNumber]
    exact AnsweredAt.of_closed hPlace (t.slice?_inner hSplit) hMade (t.lineEnd?_close hSplit)
      (t.slice?_onLine hSplit) hReports

/-- The answers at the header of an initializer. -/
theorem AnsweredAt.cases {source : Text} {settings : Settings} {h : Nat} {row header : Text}
    {answer : Except PlanFault Plan} (hAnswered : AnsweredAt source settings h row header answer) :
    (∃ c fault, answer = .error (.signature c fault)) ∨
      (∃ c n, answer = .error (.inlineBody c n)) ∨ ∃ plan, answer = .ok plan := by
  obtain ⟨closing, hClosing, hSignature⟩ := hAnswered.signature
  cases closing with
  | error fault => exact .inl ⟨_, fault, (hSignature _ fault).2 ⟨rfl, rfl⟩⟩
  | ok close =>
    obtain ⟨-, -, -, onLine, -, -, -, -, hInline, hPlan⟩ := hAnswered.closed close hClosing
    cases hBody : hasInlineBody onLine with
    | true => exact .inr (.inl ⟨_, h, (hInline _ h).2 ⟨rfl, rfl, hBody⟩⟩)
    | false =>
      obtain ⟨plan, -, hEq, -⟩ := hPlan.2 hBody
      exact .inr (.inr ⟨plan, hEq⟩)

theorem planAtLine_outOfRange {source : Text} {line : Nat}
    (hOut : line = 0 ∨ (lines source).length < line) (settings : Settings) :
    planAtLine source line settings = .error (.lineOutOfRange line (lines source).length) := by
  unfold planAtLine
  exact if_pos (by simpa using hOut)

section

variable {source : Text} {line : Nat} (hPos : line ≠ 0) (hRange : line ≤ (lines source).length)
  (settings : Settings)

include hPos hRange

theorem planAtLine_of_none
    (hNone : ∀ k r, k ≤ line → nthLine? source k = some r → ¬ IsHeaderLine r) :
    planAtLine source line settings = .error (.noInitializerAbove line) := by
  unfold planAtLine
  dsimp only
  rw [headerAbove?_of_none hNone]
  exact if_neg (by simpa using ⟨hPos, hRange⟩)

theorem IsNearest.planAtLine_of_other {h : Nat} {row : Text} (hNearest : IsNearest source line h row)
    (hOther : ∀ front header, ¬ HasInitializerAt row front header) :
    planAtLine source line settings = .error (.notInsideInitializer line (trim row)) := by
  unfold planAtLine
  dsimp only
  rw [hNearest.headerAbove?_eq (Header.ofLine?_other_iff.2 ⟨hNearest.header, hOther⟩)]
  exact if_neg (by simpa using ⟨hPos, hRange⟩)

/-- **What the nearest header can lead to.** -/
theorem IsNearest.planAtLine_cases {h : Nat} {row : Text} (hNearest : IsNearest source line h row) :
    ((∀ front header, ¬ HasInitializerAt row front header) ∧
      planAtLine source line settings = .error (.notInsideInitializer line (trim row))) ∨
    (∃ front header, HasInitializerAt row front header) ∧
      ((∃ c fault, planAtLine source line settings = .error (.signature c fault)) ∨
        (∃ c n, planAtLine source line settings = .error (.inlineBody c n)) ∨
        ∃ plan, planAtLine source line settings = .ok plan) := by
  rcases findInitializer?_cases row with ⟨-, hOther⟩ | ⟨header, -, -, hHeader⟩
  · exact .inl ⟨hOther, hNearest.planAtLine_of_other hPos hRange settings hOther⟩
  · obtain ⟨front, hAt, -⟩ := id hHeader
    refine .inr ⟨⟨front, header, hAt⟩, ?_⟩
    exact (hNearest.answeredAt hRange hHeader settings).cases

end

/-- **Planning at a line answers by the nearest header**, for every text, every line and all settings:
* the line is out of range exactly when there is none of this number;
* within the text, there is no initializer above exactly when no line up to this one is a header;
* otherwise the nearest header decides. It is another one exactly when it is not that of an initializer.
  At the header of an initializer, its first parenthesis counts: the parameter list is at fault exactly
  when no bracket closes it, the body is in the way exactly when it begins on the line of this bracket,
  and in all other cases there is a plan with one report, on this header.

So lines without a header between them have plans at the same time, and the same ones. -/
theorem planAtLine_by_nearest_header (source : Text) (line : Nat) (settings : Settings) :
    (∀ l n, planAtLine source line settings = .error (.lineOutOfRange l n) ↔
      l = line ∧ n = (lines source).length ∧ (line = 0 ∨ (lines source).length < line)) ∧
    (line ≠ 0 → line ≤ (lines source).length →
      (∀ l, planAtLine source line settings = .error (.noInitializerAbove l) ↔
        l = line ∧ ∀ k r, k ≤ line → nthLine? source k = some r → ¬ IsHeaderLine r) ∧
      ∀ h row, IsNearest source line h row →
        (∀ l found, planAtLine source line settings = .error (.notInsideInitializer l found) ↔
          l = line ∧ found = trim row ∧ ∀ front header, ¬ HasInitializerAt row front header) ∧
        ∀ header, IsFirstInitializer row header →
          AnsweredAt source settings h row header (planAtLine source line settings)) ∧
    ∀ lower, line ≤ lower → lower ≤ (lines source).length →
      (∀ k r, line < k → k ≤ lower → nthLine? source k = some r → ¬ IsHeaderLine r) →
      ∀ plan, planAtLine source line settings = .ok plan ↔
        planAtLine source lower settings = .ok plan := by
  refine ⟨fun l n => ?_, fun hPos hRange => ⟨fun l => ?_, fun h row hNearest =>
    ⟨fun l found => ?_, fun header hHeader => hNearest.answeredAt hRange hHeader settings⟩⟩,
    fun lower hOrder hRange hBetween plan => planAtLine_between hOrder hRange hBetween settings plan⟩
  · by_cases hOut : line = 0 ∨ (lines source).length < line
    · rw [planAtLine_outOfRange hOut]
      simp [hOut, eq_comm]
    · simp only [hOut, and_false, iff_false]
      obtain ⟨hPos, hRange⟩ : line ≠ 0 ∧ line ≤ (lines source).length := by omega
      -- none of the answers within the text says that the line is not in it
      rcases exists_isNearest source line with hNone | ⟨h, row, hNearest⟩
      · simp [planAtLine_of_none hPos hRange settings hNone]
      · rcases hNearest.planAtLine_cases hPos hRange settings with
          ⟨-, hEq⟩ | ⟨-, ⟨_, _, hEq⟩ | ⟨_, _, hEq⟩ | ⟨_, hEq⟩⟩ <;> simp [hEq]
  · rcases exists_isNearest source line with hNone | ⟨h, row, hNearest⟩
    · rw [planAtLine_of_none hPos hRange settings hNone]
      simp only [Except.error.injEq, PlanFault.noInitializerAbove.injEq]
      exact ⟨fun hEq => ⟨hEq.symm, hNone⟩, fun hEq => hEq.1.symm⟩
    · have hSome : ¬ ∀ k r, k ≤ line → nthLine? source k = some r → ¬ IsHeaderLine r :=
        fun hNone => hNone h row hNearest.le hNearest.row_eq hNearest.header
      simp only [hSome, and_false, iff_false]
      rcases hNearest.planAtLine_cases hPos hRange settings with
        ⟨-, hEq⟩ | ⟨-, ⟨_, _, hEq⟩ | ⟨_, _, hEq⟩ | ⟨_, hEq⟩⟩ <;> simp [hEq]
  · rcases hNearest.planAtLine_cases hPos hRange settings with
      ⟨hOther, hEq⟩ | ⟨⟨front, header, hAt⟩, hEq⟩
    · rw [hEq]
      simp only [Except.error.injEq, PlanFault.notInsideInitializer.injEq]
      exact ⟨fun hBoth => ⟨hBoth.1.symm, hBoth.2.symm, hOther⟩,
        fun hBoth => ⟨hBoth.1.symm, hBoth.2.1.symm⟩⟩
    · have hNot : ¬ ∀ front header, ¬ HasInitializerAt row front header :=
        fun hOther => hOther front header hAt
      simp only [hNot, and_false, iff_false]
      rcases hEq with ⟨_, _, hEq⟩ | ⟨_, _, hEq⟩ | ⟨_, hEq⟩ <;> simp [hEq]

/-- A header of two lines with a comment that looks like one: it is the nearest header of both. -/
theorem planAtLine_by_nearest_header_two_lines :
    let source := "class A:\n def __init__(self, # class B\n   a):\n  pass\n".toList
    let row := " def __init__(self, # class B\n".toList
    let p : Plan := ⟨[⟨['A'], 2, .generated ["self.a = a".toList]⟩],
      [⟨46, "     ".toList, ["self.a = a".toList]⟩]⟩
    IsNearest source 4 2 row ∧
      AnsweredAt source .default 2 row " def __init__".toList (planAtLine source 4 .default) ∧
      planAtLine source 4 .default = .ok p ∧ planAtLine source 2 .default = .ok p := by
  intro source row p
  have hNone : ∀ k r, 2 < k → k ≤ 4 → nthLine? source k = some r → ¬ IsHeaderLine r := by
    intro k r hLt hLe hRow
    obtain rfl | rfl : k = 3 ∨ k = 4 := by omega
    · obtain rfl : "   a):\n".toList = r := Option.some.inj hRow
      exact Header.ofLine?_none_iff.1 rfl
    · obtain rfl : "  pass\n".toList = r := Option.some.inj hRow
      exact Header.ofLine?_none_iff.1 rfl
  have hFirst : IsFirstInitializer row " def __init__".toList := Header.ofLine?_initializer_iff.1 rfl
  have hNearest : IsNearest source 4 2 row := by
    obtain ⟨front, hAt, -⟩ := id hFirst
    exact ⟨by decide, rfl, .inl ⟨front, _, hAt⟩, hNone⟩
  have hPlan : planAtLine source 4 .default = .ok p := by decide +kernel
  obtain ⟨-, hAnswers, -⟩ := planAtLine_by_nearest_header source 4 .default
  obtain ⟨-, -, hSame⟩ := planAtLine_by_nearest_header source 2 .default
  obtain ⟨-, hAt⟩ := hAnswers (by decide) (by decide)
  exact ⟨hNearest, (hAt 2 row hNearest).2 _ hFirst, hPlan,
    (hSame 4 (by decide) (by decide) hNone p).2 hPlan⟩

end FieldFill
