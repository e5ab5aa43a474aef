import FieldFill.Proofs.Plan.Docstring
import FieldFill.Proofs.Plan.HeaderSite
import FieldFill.Proofs.Plan.Splice
import Mathlib.Algebra.GroupWithZero.Nat

/-!
# Planning by byte positions

A plan at a line can be made with byte positions alone. The text is then cut again and again at
positions that come out of searches and sums, and a cut fails beyond the end of the text and inside a
character. Here no cut ever fails, and the plan is the one made of parts of the text.

Main definitions:

* `from?`, `firstPlace?`, `lineEnd?` — cuts and searches by position.
* `inlineBody?`, `insertionPlace?` — the body on a header line, and the place behind a docstring.
* `planByPositions` — the whole plan.

Main results:

* `inlineBody?_eq`, `insertionPlace?_eq` — what is read behind the header needs no bad cut.
* `planByPositions_eq` — neither does the plan.
* `planAtLine_adds_block` — a plan at a line adds one block of whole lines at most.
-/

namespace FieldFill

/-! ## Cuts and searches -/

/-- The text from a byte position on. -/
def from? (text : Text) (offset : Nat) : Option Text :=
  (splitAt? text offset).map Prod.snd

/-- The byte position of the first character of a kind. -/
def firstPlace? (p : Char → Bool) (text : Text) : Option Nat :=
  if text.any p then some (byteLength (text.takeWhile fun c => !p c)) else none

/-- The byte position of the last place where a character stands. -/
def lastPlace? (c : Char) : Text → Option Nat
  | [] => none
  | d :: rest =>
    match lastPlace? c rest with
    | some place => some (d.utf8Size + place)
    | none => if d = c then some 0 else none

/-- The position behind the first newline from a position on, or else the end of the text. -/
def lineEnd? (text : Text) (offset : Nat) : Option Nat :=
  (from? text offset).map fun rest =>
    match firstPlace? (fun c => c = '\n') rest with
    | some newline => offset + newline + 1
    | none => byteLength text

/-- Whether something besides an annotation and a comment follows a parameter list on its line. -/
def inlineBody? (onLine : Text) : Option Bool :=
  let code := trim (onLine.takeWhile (· ≠ '#'))
  match lastPlace? ':' code with
  | some colon => (from? code (colon + 1)).map fun rest => !allBlank rest
  | none => some false

/-- The position for statements in the body that starts at a position: behind a docstring, or else
at the start. -/
def insertionPlace? (source : Text) (bodyStart : Nat) : Option Nat := do
  let body ← from? source bodyStart
  match firstPlace? (fun c => !isBlank c) body with
  | none => return bodyStart
  | some first =>
    let literal ← from? body first
    match firstPlace? isQuote literal with
    | none => return bodyStart
    | some quote =>
      let kind ← slice? literal 0 quote
      if 2 < byteLength kind || !kind.all isDocstringKind then return bodyStart
      let stringStart := bodyStart + first + quote
      let string ← from? source stringStart
      match (scan string).find? fun m => !(m.region = .literal) with
      | none => return bodyStart
      | some mark =>
        let stop := stringStart + mark.offset
        let lineEnd ← lineEnd? source stop
        let rest ← slice? source stop lineEnd
        return if endsStatement rest then lineEnd else bodyStart

/-- The plan at a line, made by byte positions; it is `none` when a cut fails. -/
def planByPositions (source : Text) (line : Nat) (settings : Settings) :
    Option (Except PlanFault Plan) :=
  let all := lines source
  if line = 0 || all.length < line then some (.error (.lineOutOfRange line all.length))
  else
    match headerAbove? (all.take line).reverse with
    | none => some (.error (.noInitializerAbove line))
    | some (.other, found, _) => some (.error (.notInsideInitializer line (trim found)))
    | some (.initializer header, row, above) => do
      let indent := row.takeWhile isIndent
      let className := enclosingClass above indent.length
      let number := above.length + 1
      let openParen := (above.reverse.map byteLength).sum + byteLength header
      match ← closingAt source openParen with
      | .error fault => return .error (.signature className fault)
      | .ok close =>
        let headerEnd ← lineEnd? source close
        let onLine ← slice? source (close + 1) headerEnd
        if ← inlineBody? onLine then return .error (.inlineBody className number)
        let inner ← slice? source (openParen + 1) close
        match assignments settings inner with
        | .error fault => return .error (.signature className fault)
        | .ok [] => return .ok ⟨[⟨className, number, .nothingToGenerate⟩], []⟩
        | .ok made =>
          let statements := made.map Assignment.render
          let insertAt ← insertionPlace? source headerEnd
          return .ok ⟨[⟨className, number, .generated statements⟩],
            [⟨insertAt, indent ++ settings.indentUnit, statements⟩]⟩

section

variable {text before after : Text} {offset : Nat}

theorem from?_eq (h : splitAt? text offset = some (before, after)) :
    from? text offset = some after := by
  rw [from?, h]
  rfl

/-- A cut further on in the text behind a position is one in the text. -/
theorem splitAt?_add {front back : Text} {n : Nat} (h : splitAt? text offset = some (before, after))
    (hAfter : after = front ++ back) (hn : n = byteLength front) :
    splitAt? text (offset + n) = some (before ++ front, back) := by
  obtain ⟨rfl, rfl⟩ := eq_of_splitAt? h
  refine splitAt?_eq_some_iff.2 ⟨?_, ?_⟩
  · rw [hAfter, List.append_assoc]
  · rw [hn, byteLength_append]

theorem splitAt?_takeWhile (p : Char → Bool) (text : Text) :
    splitAt? text (byteLength (text.takeWhile p)) = some (text.takeWhile p, text.dropWhile p) :=
  splitAt?_eq_some_iff.2 ⟨List.takeWhile_append_dropWhile.symm, rfl⟩

theorem firstPlace?_cases (p : Char → Bool) (text : Text) :
    (firstPlace? p text = none ∧ ∀ c ∈ text, p c = false) ∨
      firstPlace? p text = some (byteLength (text.takeWhile fun c => !p c)) ∧
        text.dropWhile (fun c => !p c) ≠ [] := by
  unfold firstPlace?
  by_cases h : text.any p = true
  · right
    rw [if_pos h]
    obtain ⟨c, hc, hp⟩ := List.any_eq_true.1 h
    refine ⟨rfl, fun hNil => ?_⟩
    have hNot := List.dropWhile_eq_nil_iff.1 hNil c hc
    rw [hp] at hNot
    cases hNot
  · left
    rw [if_neg h]
    refine ⟨rfl, fun c hc => ?_⟩
    rw [Bool.eq_false_iff]
    exact fun hp => h (List.any_eq_true.2 ⟨c, hc, hp⟩)

theorem lineEnd?_eq (h : splitAt? text offset = some (before, after)) :
    lineEnd? text offset = some (offset + byteLength (breakLine after).1) := by
  obtain ⟨hText, hOffset⟩ := eq_of_splitAt? h
  rw [lineEnd?, from?_eq h, Option.map_some]
  obtain ⟨row, rest, rfl, hRow, hRest⟩ := exists_first_row after
  have hNot : ∀ c ∈ row, (!decide (c = '\n')) = true := by
    intro c hc
    have hne : c ≠ '\n' := fun hEq => hRow (hEq ▸ hc)
    simp [hne]
  rcases hRest with rfl | ⟨rest, rfl⟩
  · -- without a newline the line goes to the end
    have hNone : firstPlace? (fun c => c = '\n') (row ++ []) = none := by
      rcases firstPlace?_cases (fun c => decide (c = '\n')) (row ++ []) with hNone | ⟨-, hSome⟩
      · exact hNone.1
      · rw [List.append_nil] at hSome
        exact absurd (List.dropWhile_eq_nil_iff.2 hNot) hSome
    rw [hNone, List.append_nil, breakLine_of_not_mem hRow, hText, byteLength_append, hOffset,
      List.append_nil]
  · have hPlace : firstPlace? (fun c => c = '\n') (row ++ '\n' :: rest) =
        some (byteLength row) := by
      rw [firstPlace?, if_pos (by simp), List.takeWhile_append_of_pos hNot]
      simp
    rw [hPlace, breakLine_newline hRow, byteLength_append]
    rfl

theorem slice?_lineEnd (h : splitAt? text offset = some (before, after)) :
    slice? text offset (offset + byteLength (breakLine after).1) = some (breakLine after).1 :=
  (slice?_of_splitAt? h).2 ⟨(breakLine after).2, (breakLine_append after).symm, rfl⟩

end

/-! ## The body on a header line -/

theorem lastPlace?_cases (c : Char) (text : Text) :
    (lastPlace? c text = none ∧ c ∉ text) ∨
      ∃ front back, lastPlace? c text = some (byteLength front) ∧ text = front ++ c :: back ∧
        c ∉ back := by
  induction text with
  | nil => exact .inl ⟨rfl, List.not_mem_nil⟩
  | cons d text ih =>
    rw [lastPlace?]
    rcases ih with ⟨hNone, hNot⟩ | ⟨front, back, hSome, rfl, hNot⟩
    · rw [hNone]
      by_cases hd : d = c
      · subst hd
        exact .inr ⟨[], text, if_pos rfl, rfl, hNot⟩
      · refine .inl ⟨if_neg hd, fun hMem => ?_⟩
        exact (List.mem_cons.1 hMem).elim (fun hEq => hd hEq.symm) hNot
    · -- a place further on is later than one here
      exact .inr ⟨d :: front, back, by rw [hSome]; rfl, rfl, hNot⟩

/-- Read from its end, a text has the same part up to the last place of a character. -/
theorem takeWhile_reverse_of_last {c : Char} {front back : Text} (h : c ∉ back) :
    (front ++ c :: back).reverse.takeWhile (· ≠ c) = back.reverse := by
  have hAll : ∀ d ∈ back.reverse, decide (d ≠ c) = true := by
    intro d hd
    have hne : d ≠ c := fun hEq => h (hEq ▸ List.mem_reverse.1 hd)
    simpa using hne
  rw [List.reverse_append, List.reverse_cons, List.append_assoc, List.takeWhile_append_of_pos hAll]
  simp

/-- **The body on a header line is found without a bad cut.** -/
theorem inlineBody?_eq (onLine : Text) : inlineBody? onLine = some (hasInlineBody onLine) := by
  unfold inlineBody? hasInlineBody
  dsimp only
  rcases lastPlace?_cases ':' (trim (onLine.takeWhile (· ≠ '#'))) with
    ⟨hNone, hNot⟩ | ⟨front, back, hSome, hCode, hNot⟩
  · rw [hNone, List.contains_eq_mem, decide_eq_false hNot]
    rfl
  · have hSplit : splitAt? (front ++ ':' :: back) (byteLength front + 1) =
        some (front ++ [':'], back) :=
      splitAt?_add (splitAt?_byteLength front _) (List.singleton_append ..).symm rfl
    have hBlank : allBlank back.reverse = allBlank back := by
      rw [allBlank, allBlank, List.all_reverse]
    rw [hSome, hCode]
    dsimp only
    rw [from?_eq hSplit, Option.map_some, takeWhile_reverse_of_last hNot, hBlank, List.contains_eq_mem,
      decide_eq_true (by simp), Bool.true_and]

/-! ## The place of an insertion -/

theorem utf8Size_of_isCloser {c : Char} (h : isCloser c = true) : c.utf8Size = 1 := by
  rcases isCloser_iff.1 h with rfl | rfl | rfl <;> rfl

/-- The search for the end of a string stops where the rest of the text begins. -/
theorem find?_scan_cases (string : Text) :
    ((scan string).find? (fun m => !(m.region = .literal)) = none ∧ behindString string = []) ∨
      ∃ mark, (scan string).find? (fun m => !(m.region = .literal)) = some mark ∧
        behindString string ≠ [] ∧ mark.offset = byteLength (stringOf string) := by
  have hFind : (scan string).find? (fun m => !(m.region = .literal)) =
      ((scan string).dropWhile fun m => m.region = .literal).head? := by
    rw [List.find?_eq_head?_dropWhile_not]
    simp
  rw [hFind, behindString]
  cases hDrop : (scan string).dropWhile fun m => m.region = .literal with
  | nil => exact .inl ⟨rfl, rfl⟩
  | cons mark back =>
    refine .inr ⟨mark, rfl, by simp, ?_⟩
    have hSplit := List.takeWhile_append_dropWhile (p := fun m : Scanned => m.region = .literal)
      (l := scan string)
    rw [hDrop] at hSplit
    have hOffset := offset_of_scanFrom hSplit.symm
    rw [Nat.zero_add] at hOffset
    exact hOffset

/-- **The place of an insertion is found without a bad cut**: it is behind the docstring. -/
theorem insertionPlace?_eq {source before body : Text} {bodyStart : Nat}
    (h : splitAt? source bodyStart = some (before, body)) :
    insertionPlace? source bodyStart =
      some (bodyStart + byteLength ((docstring? body).getD [])) := by
  rw [insertionPlace?, from?_eq h, docstring?_eq]
  simp only [bind, Option.bind_some, pure]
  -- to the first text of the body
  rcases firstPlace?_cases (fun c => !isBlank c) body with ⟨hNone, hBlank⟩ | ⟨hFirst, -⟩
  · have hNil : body.dropWhile isBlank = [] := by
      refine List.dropWhile_eq_nil_iff.2 fun c hc => ?_
      simpa using hBlank c hc
    simp [hNone, openingString?, hNil, byteLength]
  simp only [Bool.not_not] at hFirst
  have hLiteral := splitAt?_takeWhile isBlank body
  simp only [hFirst, from?_eq hLiteral, Option.bind_some]
  -- to the first quote
  let literal := body.dropWhile isBlank
  show (match firstPlace? isQuote literal with
    | none => some bodyStart
    | some quote => _) = _
  rcases firstPlace?_cases isQuote literal with ⟨hNone, hPlain⟩ | ⟨hQuote, hString⟩
  · have hNil : literal.dropWhile (fun c => !isQuote c) = [] := by
      refine List.dropWhile_eq_nil_iff.2 fun c hc => ?_
      rw [hPlain c hc]
      rfl
    have hOpening : openingString? body = none := by
      rw [openingString?]
      simp [show body.dropWhile isBlank = literal from rfl, hNil]
    rw [hNone, hOpening]
    rfl
  let kind := literal.takeWhile fun c => !isQuote c
  let string := literal.dropWhile fun c => !isQuote c
  have hKind : slice? literal 0 (byteLength kind) = some kind := by
    refine (slice?_of_splitAt? (splitAt?_byteLength [] literal)).2 ⟨string, ?_, ?_⟩
    · exact List.takeWhile_append_dropWhile.symm
    · exact (Nat.zero_add _).symm
  rw [hQuote]
  show ((slice? literal 0 (byteLength kind)).bind _) = _
  rw [hKind, Option.bind_some]
  by_cases hBad : (2 < byteLength kind || !kind.all isDocstringKind) = true
  · have hOpening : openingString? body = none := by
      rw [openingString?, Bool.or_assoc]
      exact if_pos (by rw [hBad, Bool.or_true])
    rw [if_pos hBad, hOpening]
    rfl
  have hOpening : openingString? body = some string := by
    rw [openingString?, Bool.or_assoc]
    refine if_neg ?_
    rw [show (2 < byteLength kind || !kind.all isDocstringKind) = false from by simpa using hBad]
    simpa using hString
  rw [if_neg hBad, hOpening, Option.bind_some]
  -- over the string
  have hStringAt : splitAt? source (bodyStart + byteLength (body.takeWhile isBlank) +
      byteLength kind) = some (before ++ body.takeWhile isBlank ++ kind, string) :=
    splitAt?_add (splitAt?_add h List.takeWhile_append_dropWhile.symm rfl)
      List.takeWhile_append_dropWhile.symm rfl
  rw [from?_eq hStringAt, Option.bind_some]
  rcases find?_scan_cases string with ⟨hNone, hNil⟩ | ⟨mark, hMark, hBehind, hOffset⟩
  · rw [hNone, hNil]
    rfl
  -- to the end of its line
  have hStop := splitAt?_add hStringAt (stringOf_append_behindString string).symm hOffset
  rw [hMark]
  show ((lineEnd? source _).bind fun _ => (slice? source _ _).bind _) = _
  rw [lineEnd?_eq hStop, Option.bind_some, slice?_lineEnd hStop, Option.bind_some]
  by_cases hEnds : endsStatement (breakLine (behindString string)).1 = true
  · have hBody : body = (body.takeWhile isBlank ++ kind) ++ string := by
      rw [List.append_assoc, List.takeWhile_append_dropWhile, List.takeWhile_append_dropWhile]
    have hTake := take_docstring (body.takeWhile isBlank ++ kind) string
    rw [← hBody] at hTake
    have hSome : ((behindString string).isEmpty ||
        !endsStatement (breakLine (behindString string)).1) = false := by
      simp [hEnds, hBehind]
    rw [if_pos hEnds, hSome, if_neg Bool.false_ne_true, hTake, Option.getD_some, hOffset]
    simp only [byteLength_append, Nat.add_assoc]
  · rw [if_neg hEnds, if_pos (by simp [hEnds])]
    rfl

/-! ## The plan -/

theorem byteLength_flatten (list : List Text) :
    byteLength list.flatten = (list.map byteLength).sum := by
  induction list with
  | nil => rfl
  | cons l list ih => rw [List.flatten_cons, byteLength_append, ih, List.map_cons, List.sum_cons]

namespace HeaderSite.At

variable {a : HeaderSite} {source : Text} {line : Nat} (h : a.At source line)

include h

theorem splitAt?_openParen :
    splitAt? source a.openParen = some (a.above.flatten ++ a.header, a.tail) := by
  refine splitAt?_eq_some_iff.2 ⟨?_, rfl⟩
  rw [List.append_assoc]
  exact h.source_eq

end HeaderSite.At

section

variable {source before text : Text} {openParen : Nat} (t : Tail text)
  (h : splitAt? source openParen = some (before, text))

include h

/-- Where the closing bracket of a header stands, and where its body begins. -/
theorem Tail.splitAt?_close :
    splitAt? source (openParen + byteLength ('(' :: t.inner)) =
      some (before ++ '(' :: t.inner, t.closer :: (t.onLine ++ t.body)) :=
  splitAt?_add h t.text_eq rfl

theorem Tail.splitAt?_body :
    splitAt? source (openParen + byteLength t.head) = some (before ++ t.head, t.body) :=
  splitAt?_add h t.text_eq_head rfl

theorem Tail.slice?_inner :
    slice? source (openParen + 1) (openParen + byteLength ('(' :: t.inner)) = some t.inner := by
  have hInner : splitAt? source (openParen + 1) =
      some (before ++ ['('], t.inner ++ t.closer :: (t.onLine ++ t.body)) :=
    splitAt?_add h t.text_eq rfl
  refine (slice?_of_splitAt? hInner).2 ⟨_, rfl, ?_⟩
  rw [byteLength_cons, ← Nat.add_assoc]
  rfl

theorem Tail.lineEnd?_close :
    lineEnd? source (openParen + byteLength ('(' :: t.inner)) =
      some (openParen + byteLength t.head) := by
  rw [lineEnd?_eq (t.splitAt?_close h), t.breakLine_eq, Nat.add_assoc, ← byteLength_append]
  rfl

theorem Tail.slice?_onLine :
    slice? source (openParen + byteLength ('(' :: t.inner) + 1) (openParen + byteLength t.head) =
      some t.onLine := by
  have hOne := utf8Size_of_isCloser t.closes
  have hLine : splitAt? source (openParen + byteLength ('(' :: t.inner) + 1) =
      some (before ++ '(' :: t.inner ++ [t.closer], t.onLine ++ t.body) :=
    splitAt?_add (t.splitAt?_close h) rfl (by rw [byteLength_cons, hOne]; rfl)
  refine (slice?_of_splitAt? hLine).2 ⟨t.body, rfl, ?_⟩
  rw [Tail.head, byteLength_cons, byteLength_cons, byteLength_append, byteLength_cons, hOne]
  omega

end

/-- At the header of an initializer, no cut fails. -/
theorem HeaderSite.At.planByPositions_eq {a : HeaderSite} {source : Text} {line : Nat}
    (h : a.At source line) (settings : Settings) :
    planByPositions source line settings = some (planAtLine source line settings) := by
  -- the sum of the lengths is the length of the text in front of the parenthesis
  have hOpen : (a.above.reverse.reverse.map byteLength).sum + byteLength a.header = a.openParen := by
    rw [List.reverse_reverse, ← byteLength_flatten, openParen, byteLength_append]
  rw [h.planAtLine_eq, planByPositions]
  simp only [if_neg h.inRange, h.headerAbove?_eq, hOpen, closingAt, h.splitAt?_openParen,
    List.length_reverse, Option.map_some]
  obtain ⟨inside, hInside⟩ := a.exists_inside
  cases hClosing : toClosing a.tail with
  | error fault =>
    rw [planHeader_of_error hClosing]
    rfl
  | ok parts =>
    obtain ⟨t⟩ := exists_tail hInside hClosing
    obtain ⟨made, hMade⟩ := exists_assignments_of_closed t.closed settings
    -- from the parenthesis on, each cut is one of the tail
    have hSplit := h.splitAt?_openParen
    rw [t.toClosing_eq] at hClosing
    obtain rfl := Except.ok.inj hClosing
    rw [t.planHeader_eq hMade]
    simp only [bind, Option.bind_some, t.lineEnd?_close hSplit, t.slice?_onLine hSplit,
      inlineBody?_eq, t.slice?_inner hSplit, hMade, insertionPlace?_eq (t.splitAt?_body hSplit)]
    by_cases hInline : hasInlineBody t.onLine = true
    · rw [if_pos hInline, if_pos hInline]
      rfl
    · rw [if_neg hInline, if_neg hInline]
      cases made with
      | nil => rfl
      | cons first made =>
        rw [Tail.plan, byteLength_append t.head, ← Nat.add_assoc]
        rfl

/-- **A plan at a line is made without a bad cut.** -/
theorem planByPositions_eq (source : Text) (line : Nat) (settings : Settings) :
    planByPositions source line settings = some (planAtLine source line settings) := by
  by_cases hRange : (line = 0 || (lines source).length < line) = true
  · simp only [planByPositions, planAtLine, if_pos hRange]
  · cases hFound : headerAbove? ((lines source).take line).reverse with
    | none => simp only [planByPositions, planAtLine, if_neg hRange, hFound]
    | some found =>
      obtain ⟨header, row, above⟩ := found
      cases header with
      | other => simp only [planByPositions, planAtLine, if_neg hRange, hFound]
      | initializer header =>
        obtain ⟨a, ha, -⟩ := exists_at_of_headerAbove? hRange hFound
        exact ha.planByPositions_eq settings

/-! ## What a plan at a line adds -/

namespace HeaderSite.At

variable {a : HeaderSite} {source : Text} {line : Nat} (h : a.At source line) (t : Tail a.tail)

include h

theorem closingAt_eq :
    closingAt source a.openParen = some (.ok (a.openParen + byteLength ('(' :: t.inner))) := by
  rw [closingAt, h.splitAt?_openParen, Option.map_some]
  dsimp only
  rw [t.toClosing_eq]

/-- The place behind the docstring of a body, as a split of the text. -/
theorem exists_place :
    ∃ rest, t.body = t.opening ++ rest ∧
      splitAt? source (a.openParen + byteLength (t.head ++ t.opening)) =
        some (a.above.flatten ++ a.header ++ (t.head ++ t.opening), rest) ∧
      (endsInNewline (a.above.flatten ++ a.header ++ (t.head ++ t.opening)) = true ∨ rest = []) := by
  obtain ⟨rest, hBody, hEnds⟩ := t.exists_behind_opening
  refine ⟨rest, hBody, ?_, hEnds.imp (fun hLine => endsInNewline_append hLine _) id⟩
  refine splitAt?_add h.splitAt?_openParen ?_ rfl
  rw [List.append_assoc, ← hBody]
  exact t.text_eq_head

end HeaderSite.At

/-- **A plan at a line adds one block of whole lines at most.** Whatever the text is, no cut fails at
the byte positions that planning goes through. A plan reports on one initializer, that of the nearest
header. It has no insertion, or else one with the statements of the report, behind the bracket that
closes the header, where a line begins or the text ends; and the new text is the old one with a block
put in at this place. -/
theorem planAtLine_adds_block (source : Text) (line : Nat) (settings : Settings) :
    planByPositions source line settings = some (planAtLine source line settings) ∧
    ∀ plan, planAtLine source line settings = .ok plan →
      ∃ (a : HeaderSite) (close : Nat) (outcome : Outcome), a.At source line ∧
        closingAt source a.openParen = some (.ok close) ∧
        plan.reports = [⟨a.className, a.number, outcome⟩] ∧
        ((outcome = .nothingToGenerate ∧ plan.insertions = []) ∨
          ∃ i before after, plan.insertions = [i] ∧ outcome = .generated i.lines ∧
            splitAt? source i.offset = some (before, after) ∧ close < i.offset ∧
            (endsInNewline before = true ∨ after = []) ∧
            plan.apply source = some (before ++ (block source i ++ after))) := by
  refine ⟨planByPositions_eq source line settings, fun plan hPlan => ?_⟩
  obtain ⟨a, t, made, ha, -, -, rfl⟩ := exists_of_planAtLine hPlan
  cases made with
  | nil => exact ⟨a, _, .nothingToGenerate, ha, ha.closingAt_eq t, rfl, .inl ⟨rfl, rfl⟩⟩
  | cons first made =>
    obtain ⟨rest, -, hSplit, hEnds⟩ := ha.exists_place t
    let i : Insertion := ⟨a.openParen + byteLength (t.head ++ t.opening),
      a.indent ++ settings.indentUnit, (first :: made).map Assignment.render⟩
    -- the closing bracket is in the head, which ends in front of the place
    have hClose : byteLength ('(' :: t.inner) < byteLength (t.head ++ t.opening) := by
      have hHead : t.head = ('(' :: t.inner) ++ t.closer :: t.onLine := rfl
      have hOne := utf8Size_of_isCloser t.closes
      rw [hHead, byteLength_append, byteLength_append, byteLength_cons t.closer, hOne]
      omega
    have hPos : 0 < i.offset := Nat.lt_of_lt_of_le (Nat.zero_lt_of_lt hClose) (Nat.le_add_left _ _)
    refine ⟨a, _, _, ha, ha.closingAt_eq t, rfl, .inr ⟨i, _, rest, rfl, rfl, hSplit,
      Nat.add_lt_add_left hClose _, hEnds, ?_⟩⟩
    have hText := (eq_of_splitAt? hSplit).1
    have hInsert := insertInto?_eq (i := i) rest hSplit hPos hEnds id
    rw [← hText] at hInsert
    rw [apply_singleton rfl]
    exact hInsert

/-- Statements go behind a docstring of two lines, in a text with a character of two bytes. -/
theorem planAtLine_adds_block_docstring :
    let source := "class A:\n  def __init__(self, é): # (\n    \"\"\"One\n  two.\"\"\" # x\n".toList
    planByPositions source 3 .default = some (planAtLine source 3 .default) ∧
      ∃ plan i before after, planAtLine source 3 .default = .ok plan ∧ plan.insertions = [i] ∧
        splitAt? source i.offset = some (before, after) ∧ i.offset = 64 ∧
        plan.apply source = some (before ++ (block source i ++ after)) := by
  intro source
  let i : Insertion := ⟨64, "      ".toList, ["self.é = é".toList]⟩
  have hPlan : planAtLine source 3 .default = .ok ⟨[⟨['A'], 2, .generated i.lines⟩], [i]⟩ := by
    decide +kernel
  obtain ⟨hPositions, hOk⟩ := planAtLine_adds_block source 3 .default
  obtain ⟨a, close, outcome, -, -, hReports, hCases⟩ := hOk _ hPlan
  rcases hCases with ⟨-, hNone⟩ | ⟨j, before, after, hOne, -, hSplit, -, -, hApply⟩
  · cases hNone
  · obtain rfl : i = j := (List.cons.inj hOne).1
    exact ⟨hPositions, _, i, before, after, hPlan, rfl, hSplit, rfl, hApply⟩

end FieldFill
