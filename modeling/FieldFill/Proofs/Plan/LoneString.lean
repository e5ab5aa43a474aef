import FieldFill.Proofs.Lexical.ByStretch
import FieldFill.Proofs.Plan.HeaderSite
import FieldFill.Proofs.Plan.OpeningString

/-!
# Statements and the string that a body opens with

The first text of a body is often a string that stands alone: a docstring. Statements for the initializer
then go behind it, so that it stays the first statement. Planning at a line knows such a string by its
text, and it does not know all of them. A comment above the string hides it, and so does the end of the
text right behind its last quote. Then the statements are put in front of it. This is where they go, for
every body that opens with a string.

Main definitions:

* `LoneString` — a body that opens with a string, with nothing but comments around it.

Main results:

* `behindString_of_whole` — the scan ends the string where its delimiter closes it.
* `LoneString.docstring?_eq_some`, `LoneString.docstring?_eq_none` — which strings are known.
* `planAtLine_around_string` — where the statements go.
-/

namespace FieldFill

/-! ## A string alone -/

/-- A body whose first text is a string that is closed, on lines of its own. Above it stand lines with
nothing but a comment, or blank ones; behind it, to the end of its line, stands nothing but a comment. -/
structure LoneString (body : Text) where
  above : List Text
  indent : Text
  /-- The letters that tell what kind of string it is. -/
  kind : Text
  delimiter : Text
  inside : Text
  rest : Text
  body_eq : body = above.flatten ++ (indent ++ (kind ++ (delimiter ++ (inside ++ delimiter) ++ rest)))
  above_line : ∀ l ∈ above, endsInNewline l = true ∧ breakLine l = (l, []) ∧ endsStatement l = true
  indent_blank : Blank indent
  kind_letters : kind.all isDocstringKind = true
  whole : (Stretch.literal delimiter inside).Whole rest
  alone : endsStatement (breakLine rest).1 = true

namespace LoneString

variable {body : Text} (s : LoneString body)

/-- The characters of the string. -/
def string : Text :=
  s.delimiter ++ (s.inside ++ s.delimiter)

/-- The text of the body up to the end of the string. -/
def upToEnd : Text :=
  s.above.flatten ++ s.indent ++ (s.kind ++ s.string)

/-- The string can be known as a docstring: no comment is above it, no more letters tell its kind than
there are for strings, and the text goes on behind it. -/
def Known : Prop :=
  Blank s.above.flatten ∧ s.kind.length ≤ 2 ∧ s.rest ≠ []

end LoneString

/-! ## The end of the string -/

theorem head?_of_endsStatement {rest : Text} (h : endsStatement (breakLine rest).1 = true) {c : Char}
    (hc : rest.head? = some c) : isQuote c = false := by
  cases rest with
  | nil => cases hc
  | cons d rest =>
    obtain rfl : d = c := Option.some.inj hc
    refine Bool.eq_false_iff.2 fun hQuote => ?_
    -- a quote is neither a blank nor the start of a comment
    rw [breakLine_cons (ne_newline_of_isQuote hQuote)] at h
    have hBlank : isBlank d = false := by
      rcases isQuote_iff.1 hQuote with rfl | rfl <;> decide
    exact ne_hash_of_isQuote hQuote (eq_hash_of_endsStatement hBlank h)

/-- **The scan ends a string where its delimiter closes it**, unless another one begins there. -/
theorem behindString_of_whole {delimiter inside rest : Text}
    (h : (Stretch.literal delimiter inside).Whole rest)
    (hRest : ∀ c, rest.head? = some c → isQuote c = false) :
    behindString (delimiter ++ (inside ++ delimiter) ++ rest) = rest ∧
      stringOf (delimiter ++ (inside ++ delimiter) ++ rest) = delimiter ++ (inside ++ delimiter) := by
  have hBehind : behindString (delimiter ++ (inside ++ delimiter) ++ rest) = rest := by
    have hWalks : Walks .literal rest .start 0 (delimiter ++ (inside ++ delimiter)) .start :=
      walks_literal h
    have hScan : scan (delimiter ++ (inside ++ delimiter) ++ rest) = _ := hWalks.scanFrom_eq
    have hAll : ∀ m ∈ evenMarks .literal State.start.depth State.start.depth 0
        (delimiter ++ (inside ++ delimiter)), decide (m.region = .literal) = true :=
      fun m hm => decide_eq_true (region_of_mem_evenMarks hm)
    rw [behindString, hScan, List.dropWhile_append_of_pos hAll]
    cases rest with
    | nil => rfl
    | cons c rest =>
      have hRegion : (State.start.step (0 + byteLength (delimiter ++ (inside ++ delimiter))) c rest).1 ≠
          .literal := by
        intro hLiteral
        have hQuote := State.stepCode_literal hLiteral
        rw [hRest c rfl] at hQuote
        cases hQuote
      have hDrop : ∀ place, (State.start.step place c rest).1 ≠ .literal →
          (scanFrom .start place (c :: rest)).dropWhile (fun m => m.region = .literal) =
            scanFrom .start place (c :: rest) := by
        intro place hRegion
        rw [scanFrom, List.dropWhile_cons_of_neg (by simpa using hRegion)]
      rw [hDrop _ hRegion, map_char_scanFrom]
  refine ⟨hBehind, ?_⟩
  have hWhole := stringOf_append_behindString (delimiter ++ (inside ++ delimiter) ++ rest)
  rw [hBehind] at hWhole
  exact List.append_cancel_right hWhole

/-! ## What is above the string -/

/-- A line without a statement is blank, or its first text is a comment. -/
theorem blank_or_hash_of_endsStatement {l : Text} (h : endsStatement l = true) :
    Blank l ∨ ∃ remark, ∀ x, (l ++ x).dropWhile isBlank = '#' :: (remark ++ x) := by
  induction l with
  | nil => exact .inl fun c hc => absurd hc List.not_mem_nil
  | cons c l ih =>
    by_cases hc : isBlank c = true
    · rw [endsStatement_of_blank hc] at h
      rcases ih h with hBlank | ⟨remark, hRemark⟩
      · exact .inl (List.forall_mem_cons.2 ⟨hc, hBlank⟩)
      · refine .inr ⟨remark, fun x => ?_⟩
        rw [List.cons_append, List.dropWhile_cons_of_pos hc, hRemark]
    · obtain rfl := eq_hash_of_endsStatement (Bool.eq_false_iff.2 hc) h
      exact .inr ⟨l, fun x => List.dropWhile_cons_of_neg hc⟩

theorem blank_or_hash_of_lines {above : List Text} (h : ∀ l ∈ above, endsStatement l = true) :
    Blank above.flatten ∨
      ∃ remark, ∀ x, (above.flatten ++ x).dropWhile isBlank = '#' :: (remark ++ x) := by
  induction above with
  | nil => exact .inl fun c hc => absurd hc List.not_mem_nil
  | cons l above ih =>
    obtain ⟨hLine, hMore⟩ := List.forall_mem_cons.1 h
    rw [List.flatten_cons]
    rcases blank_or_hash_of_endsStatement hLine with hBlank | ⟨remark, hRemark⟩
    · rcases ih hMore with hAll | ⟨remark, hRemark⟩
      · exact .inl fun c hc => (List.mem_append.1 hc).elim (hBlank c) (hAll c)
      · refine .inr ⟨remark, fun x => ?_⟩
        rw [List.append_assoc, List.dropWhile_append_of_pos hBlank, hRemark]
    · refine .inr ⟨remark ++ above.flatten, fun x => ?_⟩
      rw [List.append_assoc, hRemark, List.append_assoc]

/-- A body whose first text is a comment opens with no string. -/
theorem openingString?_of_hash {body more : Text} (h : body.dropWhile isBlank = '#' :: more) :
    openingString? body = none := by
  refine Option.eq_none_iff_forall_ne_some.2 fun string hString => ?_
  obtain ⟨kind, hBody, hKind, -, hQuote⟩ := exists_of_openingString? hString
  rw [h] at hBody
  cases kind with
  | nil =>
    rw [List.nil_append] at hBody
    rw [← hBody] at hQuote
    cases hQuote
  | cons c kind =>
    obtain rfl : '#' = c := (List.cons.inj hBody).1
    cases hKind

/-! ## Which strings are known -/

namespace LoneString

variable {body : Text} (s : LoneString body)

theorem head?_string : (s.string ++ s.rest).head?.any isQuote = true := by
  obtain ⟨-, quote, hQuote, hOpens⟩ := s.whole
  rcases hOpens with hDelimiter | ⟨hDelimiter, -⟩
  · rw [string, hDelimiter]
    exact hQuote
  · rw [string, hDelimiter]
    exact hQuote

/-- **A known string is a docstring**, up to the end of its line. -/
theorem docstring?_eq_some (h : s.Known) :
    docstring? body = some (s.upToEnd ++ (breakLine s.rest).1) := by
  obtain ⟨hAbove, hLength, hRest⟩ := h
  have hFront : Blank (s.above.flatten ++ s.indent) := fun c hc =>
    (List.mem_append.1 hc).elim (hAbove c) (s.indent_blank c)
  have hOpening := openingString?_eq_some hFront s.kind_letters hLength s.head?_string
  have hBody : body = (s.above.flatten ++ s.indent ++ s.kind) ++ (s.string ++ s.rest) := by
    conv_lhs => rw [s.body_eq]
    simp [string]
  rw [← List.append_assoc] at hOpening
  obtain ⟨hBehind, hString⟩ := behindString_of_whole s.whole fun c => head?_of_endsStatement s.alone
  have hDocstring := docstring?_of_opening hOpening
  rw [← hBody, string, hBehind, hString, s.alone, List.isEmpty_eq_false_iff.2 hRest] at hDocstring
  rw [hDocstring, upToEnd, string]
  simp

/-- **No other string is one.** -/
theorem docstring?_eq_none (h : ¬ s.Known) : docstring? body = none := by
  rcases blank_or_hash_of_lines fun l hl => (s.above_line l hl).2.2 with hAbove | ⟨remark, hRemark⟩
  · have hFront : Blank (s.above.flatten ++ s.indent) := fun c hc =>
      (List.mem_append.1 hc).elim (hAbove c) (s.indent_blank c)
    have hOpening := openingString?_kind hFront s.kind_letters s.head?_string
    have hBody : body = (s.above.flatten ++ s.indent) ++ (s.kind ++ (s.string ++ s.rest)) := by
      conv_lhs => rw [s.body_eq]
      simp [string]
    rw [← hBody] at hOpening
    rw [docstring?_eq, hOpening]
    by_cases hLength : s.kind.length ≤ 2
    · -- the text ends with the string, so that the scan finds nothing behind it
      have hEnd : s.rest = [] := Classical.not_not.1 fun hRest => h ⟨hAbove, hLength, hRest⟩
      have hBehind := (behindString_of_whole s.whole fun c => head?_of_endsStatement s.alone).1
      rw [if_pos hLength, Option.bind_some, string, hBehind, hEnd]
      rfl
    · rw [if_neg hLength]
      rfl
  · have hHash := hRemark (s.indent ++ (s.kind ++ (s.delimiter ++ (s.inside ++ s.delimiter) ++ s.rest)))
    rw [← s.body_eq] at hHash
    rw [docstring?_eq, openingString?_of_hash hHash]
    rfl

theorem string_ne_nil : s.string ≠ [] := by
  obtain ⟨-, quote, -, hOpens⟩ := s.whole
  exact List.append_ne_nil_of_left_ne_nil hOpens.ne_nil _

end LoneString

/-! ## Where the statements go -/

/-- The statements of a plan stand behind the docstring of the body, or where the body begins. -/
theorem HeaderSite.At.offset_eq {a : HeaderSite} {source : Text} {line : Nat} {settings : Settings}
    {plan : Plan} (ha : a.At source line) (t : Tail a.tail)
    (h : planAtLine source line settings = .ok plan) {i : Insertion} (hi : i ∈ plan.insertions) :
    i.offset = a.openParen + byteLength t.head + byteLength ((docstring? t.body).getD []) := by
  obtain ⟨made, hMade⟩ := exists_assignments_of_closed t.closed settings
  rw [ha.planAtLine_of_tail t hMade] at h
  split at h
  · cases h
  · obtain rfl := Except.ok.inj h
    rw [HeaderSite.plan, Tail.plan] at hi
    split at hi
    · cases hi
    · obtain rfl := List.mem_singleton.1 hi
      show byteLength (a.above.flatten ++ a.header) + byteLength (t.head ++ t.opening) = _
      rw [byteLength_append t.head, ← Nat.add_assoc]
      rfl

/-- **Where the statements go, for a body that opens with a string alone.** Where there is a plan, its
header is closed and has a body. When this opens with a string, the statements do not stand in front of
the end of the string exactly when no comment is above it, its kind has two letters at most and the text
goes on behind it. Then they stand behind the line on which the string ends, and otherwise in front of
everything else in the body. -/
theorem planAtLine_around_string {source : Text} {line : Nat} {settings : Settings} {plan : Plan}
    (h : planAtLine source line settings = .ok plan) :
    (∃ a : HeaderSite, a.At source line ∧ Nonempty (Tail a.tail)) ∧
    ∀ (a : HeaderSite) (t : Tail a.tail), a.At source line →
      ∀ (s : LoneString t.body), ∀ i ∈ plan.insertions,
        (a.openParen + byteLength t.head + byteLength s.upToEnd ≤ i.offset ↔ s.Known) ∧
        (s.Known → i.offset =
          a.openParen + byteLength t.head + byteLength (s.upToEnd ++ (breakLine s.rest).1)) ∧
        (¬ s.Known → i.offset = a.openParen + byteLength t.head) := by
  constructor
  · obtain ⟨a, t, -, ha, -⟩ := exists_of_planAtLine h
    exact ⟨a, ha, ⟨t⟩⟩
  · intro a t ha s i hi
    have hOffset := ha.offset_eq t h hi
    by_cases hKnown : s.Known
    · rw [s.docstring?_eq_some hKnown, Option.getD_some, byteLength_append] at hOffset
      rw [byteLength_append]
      exact ⟨iff_of_true (by omega) hKnown, fun _ => hOffset, fun hNot => absurd hKnown hNot⟩
    · rw [s.docstring?_eq_none hKnown, Option.getD_none, byteLength] at hOffset
      -- the string has characters, so that its end is behind the start of the body
      have hPos : 0 < byteLength s.upToEnd := by
        refine Nat.pos_of_ne_zero fun hZero => s.string_ne_nil ?_
        have hNil := byteLength_eq_zero hZero
        exact (List.append_eq_nil_iff.1 (List.append_eq_nil_iff.1 hNil).2).2
      exact ⟨iff_of_false (by omega) hKnown, fun hNot => absurd hNot hKnown, fun _ => by omega⟩

/-- A string of two lines with a kind, a blank line above it and a comment behind it. -/
theorem planAtLine_around_string_two_lines :
    let source := "class A:\n def __init__(self, a):\n\n  r\"\"\"One\n  two.\"\"\" # x\n  pass\n".toList
    ∃ (a : HeaderSite) (t : Tail a.tail) (s : LoneString t.body) (plan : Plan) (i : Insertion),
      a.At source 3 ∧ planAtLine source 3 .default = .ok plan ∧ i ∈ plan.insertions ∧ s.Known ∧
        i.offset = a.openParen + byteLength t.head + byteLength (s.upToEnd ++ " # x\n".toList) := by
  intro source
  let a : HeaderSite := ⟨["class A:\n".toList], " def __init__(self, a):\n".toList, [['\n']],
    ["  r\"\"\"One\n".toList, "  two.\"\"\" # x\n".toList, "  pass\n".toList], " def __init__".toList,
    rfl, List.forall_mem_singleton.2 rfl⟩
  have ha : a.At source 3 := ⟨by decide +kernel, rfl⟩
  let t : Tail a.tail := ⟨"self, a".toList, ')', ":\n".toList,
    "\n  r\"\"\"One\n  two.\"\"\" # x\n  pass\n".toList, by decide +kernel, rfl, rfl,
    by decide +kernel⟩
  let s : LoneString t.body := ⟨[['\n']], "  ".toList, ['r'], "\"\"\"".toList, "One\n  two.".toList,
    " # x\n  pass\n".toList, by decide +kernel, List.forall_mem_singleton.2 ⟨rfl, rfl, rfl⟩,
    by decide +kernel, rfl, ⟨⟨rfl, by decide⟩, '\"', rfl, .inl rfl⟩, rfl⟩
  have hKnown : s.Known := ⟨List.forall_mem_singleton.2 rfl, by decide, List.cons_ne_nil _ _⟩
  let i : Insertion := ⟨58, "     ".toList, ["self.a = a".toList]⟩
  have hPlan : planAtLine source 3 .default = .ok ⟨[⟨['A'], 2, .generated i.lines⟩], [i]⟩ := by
    decide +kernel
  have hi : i ∈ [i] := List.mem_singleton_self i
  exact ⟨a, t, s, _, i, ha, hPlan, hi, hKnown,
    ((planAtLine_around_string hPlan).2 a t ha s i hi).2.1 hKnown⟩

/-- A string at the end of the text, and one below a comment: both are left behind the statements. -/
theorem string_left_behind :
    (∃ (a : HeaderSite) (t : Tail a.tail) (s : LoneString t.body) (plan : Plan) (i : Insertion),
      let source := "class A:\n    def __init__(self, a):\n        \"\"\"doc\"\"\"".toList
      a.At source 2 ∧ planAtLine source 2 .default = .ok plan ∧ i ∈ plan.insertions ∧
        i.offset < a.openParen + byteLength t.head + byteLength s.upToEnd) ∧
    ∃ (a : HeaderSite) (t : Tail a.tail) (s : LoneString t.body) (plan : Plan) (i : Insertion),
      let source :=
        "class A:\n    def __init__(self, a):\n        # note\n        \"\"\"doc\"\"\"\n        pass\n".toList
      a.At source 2 ∧ planAtLine source 2 .default = .ok plan ∧ i ∈ plan.insertions ∧
        i.offset < a.openParen + byteLength t.head + byteLength s.upToEnd := by
  let i : Insertion := ⟨36, "        ".toList, ["self.a = a".toList]⟩
  let plan : Plan := ⟨[⟨['A'], 2, .generated i.lines⟩], [i]⟩
  constructor
  · let a : HeaderSite := ⟨["class A:\n".toList], "    def __init__(self, a):\n".toList, [],
      ["        \"\"\"doc\"\"\"".toList], "    def __init__".toList, rfl,
      fun l hl => absurd hl List.not_mem_nil⟩
    let t : Tail a.tail := ⟨"self, a".toList, ')', ":\n".toList, "        \"\"\"doc\"\"\"".toList,
      by decide +kernel, rfl, rfl, by decide +kernel⟩
    let s : LoneString t.body := ⟨[], "        ".toList, [], "\"\"\"".toList, "doc".toList, [],
      by decide +kernel, fun l hl => absurd hl List.not_mem_nil, by decide +kernel, rfl,
      ⟨⟨rfl, by decide⟩, '\"', rfl, .inl rfl⟩, rfl⟩
    exact ⟨a, t, s, plan, i, ⟨by decide +kernel, rfl⟩, by decide +kernel, List.mem_singleton_self i,
      by decide⟩
  · let a : HeaderSite := ⟨["class A:\n".toList], "    def __init__(self, a):\n".toList, [],
      ["        # note\n".toList, "        \"\"\"doc\"\"\"\n".toList, "        pass\n".toList],
      "    def __init__".toList, rfl, fun l hl => absurd hl List.not_mem_nil⟩
    let t : Tail a.tail := ⟨"self, a".toList, ')', ":\n".toList,
      "        # note\n        \"\"\"doc\"\"\"\n        pass\n".toList, by decide +kernel, rfl, rfl,
      by decide +kernel⟩
    let s : LoneString t.body := ⟨["        # note\n".toList], "        ".toList, [], "\"\"\"".toList,
      "doc".toList, "\n        pass\n".toList, by decide +kernel,
      List.forall_mem_singleton.2 ⟨rfl, rfl, rfl⟩, by decide +kernel, rfl,
      ⟨⟨rfl, by decide⟩, '\"', rfl, .inl rfl⟩, rfl⟩
    exact ⟨a, t, s, plan, i, ⟨by decide +kernel, rfl⟩, by decide +kernel, List.mem_singleton_self i,
      by decide⟩

end FieldFill
