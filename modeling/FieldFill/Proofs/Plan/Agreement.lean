import FieldFill.Proofs.Plan.Messages
import FieldFill.Proofs.Plan.OpeningString
import FieldFill.Proofs.Plan.Order
import FieldFill.Proofs.Plan.Positions

/-!
# The two ways of planning agree

A plan for a document reads the program, and a plan at a line reads the text around the line. In the
ordinary layout they come to the same: the header is the first one on its line, nothing of the body
stands behind the parameter list, and the body begins on the next line, one step deeper than the
header, with a statement that is no string or with a docstring.

Main definitions:

* `ClassEntry.BodyBeginsWith` — the first statement of the body of a class's initializer.
* `HeaderSite.Opens` — the header that stands on a line and opens its list at a byte position.
* `IsNoString`, `IsDocstring` — what the first statement is.
* `OrdinaryLayout` — a body in the ordinary layout.
* `PlansAgree` — the plan of a class in a document, and a plan at a line that agrees with it.

Main results:

* `OrdinaryLayout.placeOf_eq` — the statements go to the same place.
* `plans_agree` — both plans fail alike, or have nothing to generate, or insert the same lines.
-/

namespace FieldFill

/-! ## The ordinary layout -/

/-- The body of the only initializer of a class begins with a statement, which starts at a byte
position and has given tokens. -/
def ClassEntry.BodyBeginsWith (source : Text) (entry : ClassEntry) (start : Nat)
    (first : List Token) : Prop :=
  ∃ c ∈ classesIn (layout source), c.entry source = entry ∧
    ∃ line header inner more, initializersIn c.block = [(line, header, inner)] ∧
      bodyStatements header inner = (start, first) :: more

/-- The first header of an initializer on a line opens its list at a byte position. -/
structure HeaderSite.Opens (a : HeaderSite) (source : Text) (line openParen : Nat) : Prop where
  at_line : a.At source line
  number_eq : a.number = line
  openParen_eq : a.openParen = openParen

/-- A statement that can be read, and does not begin with strings only. -/
def IsNoString (first : List Token) : Prop :=
  first ≠ [] ∧ isStrings (first.takeWhile fun t => !t.isMark ';') = false

/-- A statement that is one string, with no kind or one that is a docstring's. On the last line of the
string nothing but a comment follows, and then a newline. -/
structure IsDocstring (source : Text) (start : Nat) (first : List Token) : Prop where
  kind : ∃ before kind string, splitAt? source start = some (before, kind ++ string) ∧
    kind.all isDocstringKind = true ∧ kind.length ≤ 2 ∧ string.head?.any isQuote = true
  alone : ∃ t before after, first = [t] ∧ splitAt? source t.stop = some (before, after) ∧
    endsStatement (breakLine after).1 = true ∧ endsInNewline (breakLine after).1 = true

/-- The ordinary layout of a body, of which the first statement is given, behind a header and its
parameter list. -/
structure OrdinaryLayout (source : Text) (settings : Settings) (a : HeaderSite) (t : Tail a.tail)
    (start : Nat) (first : List Token) : Prop where
  /-- Nothing of the body stands on the line on which the list closes. -/
  header : hasInlineBody t.onLine = false
  /-- The first statement starts on the next line. -/
  start_eq : start = a.openParen + byteLength t.head + byteLength (leadAt source start)
  indent : leadAt source start = a.indent ++ settings.indentUnit
  statement : IsNoString first ∨ IsDocstring source start first

/-! ## The place of the statements -/

section

variable {source : Text} {settings : Settings} {start : Nat} {first : List Token}

/-- The first statement of a body is read from its start, if it can be read. -/
theorem readsAs_first {c : ClassBlock} {line : Line} {header : FunctionHeader} {inner : List Line}
    {more : List (Nat × List Token)} (hClass : c ∈ classesIn (layout source))
    (hOnly : initializersIn c.block = [(line, header, inner)])
    (hBody : bodyStatements header inner = (start, first) :: more) (hne : first ≠ []) :
    ReadsAs source start first := by
  obtain ⟨hHeader, -, front, back, hLayout⟩ :=
    exists_layout_of_initializer hClass (hOnly ▸ List.mem_singleton_self _)
  cases hRest : header.rest with
  | nil =>
    cases inner with
    | nil =>
      rw [bodyStatements, hRest] at hBody
      cases hBody
    | cons x xs =>
      rw [bodyStatements_cons hRest] at hBody
      obtain ⟨rfl, rfl⟩ := Prod.mk.inj (List.cons.inj hBody).1
      exact readsAs_of_mem (by simp [hLayout]) hne
  | cons t rest =>
    -- the body begins on the logical line of the header
    rw [bodyStatements, hRest] at hBody
    obtain ⟨rfl, rfl⟩ := Prod.mk.inj (List.cons.inj hBody).1
    exact readsAs_rest (by simp [hLayout]) hHeader hRest

/-- The text from the body on, in front of the first statement and behind its start. -/
theorem exists_code {a : HeaderSite} {t : Tail a.tail} {line : Nat} (hAt : a.At source line)
    {before code : Text} (hSplit : splitAt? source start = some (before, code))
    (hStart : start = a.openParen + byteLength t.head + byteLength (leadAt source start)) :
    t.body = leadAt source start ++ code := by
  obtain ⟨front, hFront, -, -, hPlace⟩ := exists_lineStart hSplit
  obtain ⟨hSource, -⟩ := eq_of_splitAt? hSplit
  have hBody : source = (a.above.flatten ++ a.header ++ t.head) ++ t.body := by
    rw [hAt.source_eq]
    conv_lhs => rw [t.text_eq_head]
    simp
  have hUpTo : byteLength (a.above.flatten ++ a.header ++ t.head) = byteLength front := by
    rw [byteLength_append, ← hPlace]
    show a.openParen + byteLength t.head = _
    omega
  -- a text is split at a byte position in one way only
  have hHere := splitAt?_byteLength (a.above.flatten ++ a.header ++ t.head) t.body
  have hThere := splitAt?_byteLength front (leadAt source start ++ code)
  rw [← List.append_assoc, ← hFront, ← hSource] at hThere
  rw [← hBody, hUpTo, hThere] at hHere
  exact (Prod.mk.inj (Option.some.inj hHere)).2.symm

/-- A text that is read as some tokens, at the place where it is split. -/
theorem ReadsAs.exists_marks (h : ReadsAs source start first) {before code : Text}
    (hSplit : splitAt? source start = some (before, code)) :
    code.dropWhile isBlank = code ∧ ∃ marks after,
      readLine? .start start code = some (marks, after) ∧ tokens marks = first := by
  obtain ⟨before', code', marks, after, hSplit', hRead, hTokens, c, rest, hCode, hBlank⟩ := h
  rw [hSplit] at hSplit'
  obtain ⟨rfl, rfl⟩ := Prod.mk.inj (Option.some.inj hSplit')
  refine ⟨?_, marks, after, hRead, hTokens⟩
  rw [hCode, List.dropWhile_cons_of_neg (by simp [hBlank])]

theorem takeWhile_string {t : Token} (h : t.isLiteral = true) :
    ([t].takeWhile fun t => !t.isMark ';') = [t] := by
  rw [List.takeWhile_cons_of_pos (by rw [not_isMark_of_isLiteral h]; rfl), List.takeWhile_nil]

/-- The place in a body that begins with one string is behind the line on which it ends. -/
theorem placeOf_string {t : Token} (h : t.isLiteral = true) :
    placeOf source start [t] = nextLineStart source t.stop := by
  have hEnd : stringsEnd? [t] = some t.stop := by
    rw [stringsEnd?, isStrings]
    simp [h]
  rw [placeOf, takeWhile_string h, hEnd]

section

variable {before lead code : Text} (hReads : ReadsAs source start first)
  (hSplit : splitAt? source start = some (before, code)) (hLead : Blank lead)

include hReads hSplit hLead

/-- **A body that begins with no string has no docstring in its text.** -/
theorem docstring?_of_isNoString (hFirst : IsNoString first) : docstring? (lead ++ code) = none := by
  obtain ⟨hCode, marks, after, hRead, hTokens⟩ := hReads.exists_marks hSplit
  cases hOpening : openingString? (lead ++ code) with
  | none => rw [docstring?_eq, hOpening, Option.bind_none]
  | some string =>
    obtain ⟨kind, hKind, hLetters, hLength, hQuote⟩ := exists_of_openingString? hOpening
    rw [List.dropWhile_append_of_pos hLead, hCode] at hKind
    subst hKind
    -- a string there is the first token, so there is more of the statement behind it
    obtain ⟨depth, back, hString, hBehind⟩ := tokens_of_string hLetters hLength hQuote hRead
    rw [docstring?_eq, hOpening, Option.bind_some, if_pos]
    rw [Bool.or_eq_true, Bool.not_eq_true', or_iff_not_imp_right, Bool.not_eq_false]
    intro hEnds
    have hNone := tokens_of_endsStatement hBehind hEnds
    rw [hTokens, hNone] at hString
    have hNot := hFirst.2
    rw [hString, takeWhile_string rfl] at hNot
    cases hNot

/-- **A body that begins with a docstring has it in its text**, up to the same place. -/
theorem docstring?_of_isDocstring (hFirst : IsDocstring source start first) :
    ∃ d, docstring? (lead ++ code) = some (lead ++ d) ∧
      placeOf source start first = start + byteLength d := by
  obtain ⟨hCode, marks, after, hRead, hTokens⟩ := hReads.exists_marks hSplit
  obtain ⟨⟨before', kind, string, hSplit', hLetters, hLength, hQuote⟩, t, front, rest, rfl, hStop,
    hEnds, hNewline⟩ := hFirst
  rw [hSplit] at hSplit'
  obtain ⟨rfl, rfl⟩ := Prod.mk.inj (Option.some.inj hSplit')
  obtain ⟨depth, back, hString, -⟩ := tokens_of_string hLetters hLength hQuote hRead
  obtain ⟨rfl, -⟩ := List.cons.inj (hTokens.symm.trans hString)
  -- behind the token is what is behind the string
  obtain ⟨hSource, hStart⟩ := eq_of_splitAt? hSplit
  have hBehind := splitAt?_byteLength (before ++ (kind ++ stringOf string)) (behindString string)
  rw [List.append_assoc, List.append_assoc, stringOf_append_behindString, ← hSource, byteLength_append,
    ← hStart, hStop] at hBehind
  obtain ⟨rfl, rfl⟩ := Prod.mk.inj (Option.some.inj hBehind)
  refine ⟨kind ++ (stringOf string ++ (breakLine (behindString string)).1), ?_, ?_⟩
  · have hOpening := openingString?_eq_some hLead hLetters hLength hQuote
    rw [← List.append_assoc] at hOpening ⊢
    rw [docstring?_of_opening hOpening, hEnds, if_neg, List.append_assoc]
    -- a newline is left behind the string
    have hne : behindString string ≠ [] := by
      intro hNil
      rw [hNil] at hNewline
      cases hNewline
    simpa using hne
  · rw [placeOf_string rfl, nextLineStart_eq hStop]
    simp only [byteLength_append, Nat.add_assoc]

end

/-- **Both ways of planning have the same place**, in the ordinary layout. -/
theorem OrdinaryLayout.placeOf_eq {a : HeaderSite} {t : Tail a.tail} {line : Nat}
    (hAt : a.At source line) (h : OrdinaryLayout source settings a t start first)
    (hLead : allBlank (leadAt source start) = true)
    (hReads : first ≠ [] → ReadsAs source start first) :
    placeOf source start first = a.openParen + byteLength (t.head ++ t.opening) := by
  have hne : first ≠ [] := by
    rcases h.statement with hNone | ⟨-, t, -, -, rfl, -⟩
    · exact hNone.1
    · exact List.cons_ne_nil t []
  have hReads := hReads hne
  obtain ⟨before, code, -, -, hSplit, -⟩ := id hReads
  have hBody := exists_code hAt hSplit h.start_eq
  have hBlank : Blank (leadAt source start) := List.all_eq_true.1 hLead
  have hStart := h.start_eq
  rw [Tail.opening, hBody, byteLength_append]
  rcases h.statement with hNone | hDocstring
  · rw [docstring?_of_isNoString hReads hSplit hBlank hNone]
    have hNot : stringsEnd? (first.takeWhile fun t => !t.isMark ';') = none := by
      rw [stringsEnd?, if_neg (ne_true_of_eq_false hNone.2)]
    rw [placeOf, hNot]
    show start - byteLength (leadAt source start) = a.openParen + (byteLength t.head + 0)
    omega
  · obtain ⟨d, hFound, hPlace⟩ := docstring?_of_isDocstring hReads hSplit hBlank hDocstring
    rw [hFound, hPlace]
    show start + byteLength d = a.openParen + (byteLength t.head + byteLength (leadAt source start ++ d))
    rw [byteLength_append]
    omega

end

/-! ## Both plans -/

/-- The plan of a class in a document, with its insertion if there is one, and a plan at a line that
comes to the same. -/
structure PlansAgree (source className : Text) (planned : Report × Option Insertion)
    (plan : Except PlanFault Plan) : Prop where
  /-- Both fail for the same fault of the parameter list. -/
  failed : ∀ fault, planned.1.outcome = .failed (PlanFault.signature className fault).message ↔
    ∃ enclosing, plan = .error (.signature enclosing fault)
  nothing : planned.1.outcome = .nothingToGenerate ↔
    ∃ p, plan = .ok p ∧ p.reports.map Report.outcome = [.nothingToGenerate]
  /-- Otherwise both make the same insertion, so that both texts are the same. -/
  generated : (∀ fault, planned.1.outcome ≠ .failed (PlanFault.signature className fault).message) →
    planned.1.outcome ≠ .nothingToGenerate →
    ∃ i p, planned.1.outcome = .generated i.lines ∧ planned.2 = some i ∧ plan = .ok p ∧
      p.reports.map Report.outcome = [.generated i.lines] ∧ p.insertions = [i] ∧
      p.apply source = (Plan.mk [planned.1] planned.2.toList).apply source

namespace PlansAgree

variable {source className enclosing : Text} {line line' : Nat}

theorem of_failed (fault : SignatureFault) :
    PlansAgree source className
      (⟨className, line, .failed (PlanFault.signature className fault).message⟩, none)
      (.error (.signature enclosing fault)) := by
  refine ⟨fun fault' => ⟨fun h => ?_, ?_⟩, ⟨nofun, nofun⟩, fun hNot => absurd rfl (hNot fault)⟩
  · -- the message tells which fault it is
    obtain rfl := PlanFault.signature_message_injective className (Outcome.failed.inj h)
    exact ⟨enclosing, rfl⟩
  · rintro ⟨other, h⟩
    obtain ⟨-, rfl⟩ := PlanFault.signature.inj (Except.error.inj h)
    rfl

theorem of_nothing :
    PlansAgree source className (⟨className, line, .nothingToGenerate⟩, none)
      (.ok ⟨[⟨enclosing, line', .nothingToGenerate⟩], []⟩) :=
  ⟨fun _ => ⟨nofun, nofun⟩, ⟨fun _ => ⟨_, rfl, rfl⟩, fun _ => rfl⟩, fun _ hNot => absurd rfl hNot⟩

theorem of_generated (i : Insertion) :
    PlansAgree source className (⟨className, line, .generated i.lines⟩, some i)
      (.ok ⟨[⟨enclosing, line', .generated i.lines⟩], [i]⟩) := by
  refine ⟨fun _ => ⟨nofun, nofun⟩, ⟨nofun, ?_⟩, fun _ _ => ⟨i, _, rfl, rfl, rfl, rfl, rfl, rfl⟩⟩
  rintro ⟨p, h, hOutcome⟩
  obtain rfl := Except.ok.inj h
  cases hOutcome

end PlansAgree

section

variable {source : Text} {settings : Settings} {entry : ClassEntry} {line openParen start : Nat}
  {first : List Token}

/-- What a class entry says of a body, by the first statement of the body. -/
theorem ClassEntry.BodyBeginsWith.body_eq {insertAt : Nat} {indent : Text} {shape : Shape}
    (h : entry.BodyBeginsWith source start first)
    (hFound : entry.lookup = .found ⟨line, openParen, .block insertAt indent shape⟩) :
    allBlank (leadAt source start) = true ∧ insertAt = placeOf source start first ∧
      indent = leadAt source start ∧ (first ≠ [] → ReadsAs source start first) := by
  obtain ⟨c, hClass, rfl, row, header, inner, more, hOnly, hBody⟩ := h
  have hLookup : (c.entry source).lookup = .found ⟨row.row, header.openParen,
      if allBlank (leadAt source start) then
        .block (placeOf source start first) (leadAt source start)
          (if ((start, first) :: more).all fun s => isPlaceholder s.2 then .trivial else .nonTrivial)
      else .inline⟩ := by
    unfold ClassBlock.entry lookupIn
    simp only [hOnly, initializerOf?_eq, hBody, bodyOf_cons, Option.map_some]
  have hBodies := (Initializer.mk.inj (Lookup.found.inj (hLookup.symm.trans hFound))).2.2
  by_cases hLead : allBlank (leadAt source start) = true
  · rw [if_pos hLead] at hBodies
    obtain ⟨rfl, rfl, -⟩ := Body.block.inj hBodies
    exact ⟨hLead, rfl, rfl, readsAs_first hClass hOnly hBody⟩
  · -- a body on the line of the header is no block
    rw [if_neg hLead] at hBodies
    cases hBodies

/-- A body on lines of its own is filled when the settings allow it. -/
theorem fillBody_of_allowed {shape : Shape}
    (hAllowed : shape = .trivial ∨ settings.bodyPolicy = .always) (statements : List Text)
    (insertAt : Nat) (indent : Text) :
    fillBody settings statements (.block insertAt indent shape) =
      (.generated statements, some ⟨insertAt, indent, statements⟩) := by
  have hNot : ¬ (shape = .nonTrivial && settings.bodyPolicy = .trivialOnly : Bool) = true := by
    rcases hAllowed with rfl | hAlways
    · simp
    · simp [hAlways]
  rw [fillBody, if_neg hNot]

/-- **Both ways of planning agree in the ordinary layout.** Take a class of a document with an
initializer that has its body on lines of its own and may be filled. Let the header be the first one
on its line, and let the body stand in the ordinary layout behind the parameter list, if the list is
closed. Then the plan of the class fails for a fault of the list exactly when the plan at the line
does, and for the same fault; so it is with a list that has nothing to assign. Otherwise both plans
have the same statements, which go to the same place with the same indentation. -/
theorem plans_agree {insertAt : Nat} {indent : Text} {shape : Shape} {a : HeaderSite}
    (hFound : entry.lookup = .found ⟨line, openParen, .block insertAt indent shape⟩)
    (hAllowed : shape = .trivial ∨ settings.bodyPolicy = .always)
    (hBegins : entry.BodyBeginsWith source start first) (hOpens : a.Opens source line openParen)
    (hLayout : ∀ t : Tail a.tail, OrdinaryLayout source settings a t start first) :
    PlansAgree source entry.name (planClass source settings entry)
      (planAtLine source line settings) := by
  obtain ⟨hLead, rfl, rfl, hReads⟩ := hBegins.body_eq hFound
  obtain ⟨hAt, -, rfl⟩ := hOpens
  obtain ⟨inside, hInside⟩ := a.exists_inside
  unfold planClass planInitializer
  simp only [hFound, signatureFrom, hAt.splitAt?_openParen]
  cases hClosing : toClosing a.tail with
  | error fault =>
    rw [hAt.planAtLine_eq, planHeader_of_error hClosing]
    exact .of_failed _
  | ok parts =>
    obtain ⟨t⟩ := exists_tail hInside hClosing
    obtain ⟨made, hMade⟩ := exists_assignments_of_closed t.closed settings
    have hHere := hLayout t
    rw [t.toClosing_eq] at hClosing
    obtain rfl := Except.ok.inj hClosing
    rw [hAt.planAtLine_of_tail t hMade, if_neg (ne_true_of_eq_false hHere.header)]
    have hSignature : ((.ok (('(' :: t.inner).drop 1) : Except SignatureFault Text) >>=
        assignments settings) = .ok made := hMade
    simp only [hSignature]
    cases made with
    | nil => exact .of_nothing
    | cons one made =>
      have hPlan : a.plan t settings (one :: made) =
          ⟨[⟨a.className, a.number, .generated ((one :: made).map Assignment.render)⟩],
            [⟨placeOf source start first, leadAt source start,
              (one :: made).map Assignment.render⟩]⟩ := by
        rw [hHere.placeOf_eq hAt hLead hReads, hHere.indent]
        rfl
      simp only [fillBody_of_allowed hAllowed, hPlan]
      exact .of_generated ⟨_, _, _⟩

/-- A parameter list over two lines, and a raw docstring with an escaped quote, quotes in it and a
comment behind it. -/
theorem plans_agree_docstring :
    ∃ (source : Text) (entry : ClassEntry),
      source = ("class A:\n def __init__(\n  self, é):\n     r\"\"\"\\\"\"\"\n '''\"\"\" # x\n" ++
        "     pass").toList ∧
      entry ∈ locate source ∧
      PlansAgree source entry.name (planClass source .default entry) (planAtLine source 2 .default) ∧
      (planClass source .default entry).2 = some ⟨63, "     ".toList, ["self.é = é".toList]⟩ := by
  let p : Program := ⟨["class A:".toList, " def __init__(\n  self, é):".toList,
    "     r\"\"\"\\\"\"\"\n '''\"\"\" # x".toList, "     pass".toList], by decide +kernel⟩
  let source : Text := p.text
  let entry : ClassEntry := ⟨['A'], 1, .found ⟨2, 22, .block 63 "     ".toList .trivial⟩⟩
  let t : Token := ⟨42, 58, 0, .literal⟩
  have hLines : layout source = linesOf 0 1 p.lines := p.layout_text
  have hBegins : entry.BodyBeginsWith source 42 [t] := by
    have hClass : ∃ c ∈ classesIn (linesOf 0 1 p.lines), c.entry source = entry ∧
        (initializersIn c.block).map (fun i => bodyStatements i.2.1 i.2.2) =
          [[(42, [t]), (68, [⟨68, 72, 0, .word "pass".toList⟩])]] := by
      decide +kernel
    obtain ⟨c, hMem, hEntry, hInside⟩ := hClass
    obtain ⟨⟨line, header, inner⟩, hOnly, hBody⟩ := List.map_eq_singleton_iff.1 hInside
    exact ⟨c, hLines ▸ hMem, hEntry, line, header, inner, _, hOnly, hBody⟩
  let a : HeaderSite := ⟨["class A:\n".toList], " def __init__(\n".toList, [], (lines source).drop 2,
    " def __init__".toList, rfl, by simp⟩
  have hOpens : a.Opens source 2 22 := ⟨⟨by decide +kernel, rfl⟩, rfl, by decide +kernel⟩
  let tail : Tail a.tail := ⟨"\n  self, é".toList, ')', ":\n".toList, source.drop 36,
    by decide +kernel, rfl, by decide, by decide +kernel⟩
  have hLayout : ∀ other : Tail a.tail, OrdinaryLayout source .default a other 42 [t] := by
    intro other
    obtain rfl : tail = other := Subsingleton.elim tail other
    have hKind : splitAt? source 42 = some (source.take 41, ['r'] ++ source.drop 42) ∧
        (source.drop 42).head?.any isQuote = true := by
      decide +kernel
    have hEnd : splitAt? source 58 = some (source.take 57, source.drop 57) ∧
        endsStatement (breakLine (source.drop 57)).1 = true ∧
        endsInNewline (breakLine (source.drop 57)).1 = true := by
      decide +kernel
    refine ⟨by decide, by decide +kernel, by decide +kernel, .inr ⟨?_, t, _, _, rfl, hEnd⟩⟩
    exact ⟨_, ['r'], _, hKind.1, by decide, by decide, hKind.2⟩
  have hEntry : locate source = [entry] ∧ (planClass source .default entry).2 =
      some ⟨63, "     ".toList, ["self.é = é".toList]⟩ := by
    rw [locate, hLines]
    decide +kernel
  refine ⟨source, entry, by decide +kernel, hEntry.1 ▸ List.mem_singleton_self _, ?_, hEntry.2⟩
  exact plans_agree rfl (.inl rfl) hBegins hOpens hLayout

end

end FieldFill
