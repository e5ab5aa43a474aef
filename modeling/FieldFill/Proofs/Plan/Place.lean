import FieldFill.Proofs.Layout.Statement
import FieldFill.Proofs.Plan.Surroundings
import Mathlib.Data.List.Basic

/-!
# Where statements go

In a program whose lines are settled, statements go between two logical lines: in front of the first
statement of a body, or behind it when it is a string. The line in front of the first statement is the
header of the initializer.

Main definitions:

* `Settled` — nothing in a logical line depends on where its physical lines end.
* `Spot` — a line of code of a program, with the logical lines around it.
* `Fits` — an insertion goes beside a spot, the first statement of the body it is for.

Main results:

* `exists_spot` — every line of code has its spot.
* `Site.Fills.exists_fits` — every insertion of a plan goes beside a spot.
-/

namespace FieldFill

/-! ## Settled lines -/

/-- Nothing that is read of a logical line depends on where its physical lines end. -/
structure Settled (l : Text) : Prop where
  /-- A placeholder starts on the first physical line. -/
  row : ∀ own ∈ ownLine? l, isPlaceholder own.tokens = true → own.row = 0
  /-- A line of strings ends on the physical line on which the last quote stands. -/
  trail : ∀ own ∈ ownLine? l, isStrings own.tokens = true → ∀ t ∈ own.tokens.getLast?,
    ∀ parts ∈ splitAt? l t.stop, parts.1.getLast?.any isQuote = true ∧ '\n' ∉ parts.2
  /-- Of a body that starts on the logical line of its header, the first statement does not stand
  alone on a physical line. -/
  body : ∀ own ∈ ownLine? l, ∀ header ∈ FunctionHeader.ofTokens? own.tokens,
    header.name = initializerName → ∀ t ∈ header.rest.head?, allBlank (leadAt l t.start) = false
  /-- The parameter list of an initializer closes on its logical line. -/
  signature : ∀ own ∈ ownLine? l, ∀ header ∈ FunctionHeader.ofTokens? own.tokens,
    header.name = initializerName → (signatureFrom l header.openParen).isOk = true

instance (l : Text) : Decidable (Settled l) :=
  decidable_of_iff
    (∀ own ∈ ownLine? l, (isPlaceholder own.tokens = true → own.row = 0) ∧
      (isStrings own.tokens = true → ∀ t ∈ own.tokens.getLast?, ∀ parts ∈ splitAt? l t.stop,
        parts.1.getLast?.any isQuote = true ∧ '\n' ∉ parts.2) ∧
      ∀ header ∈ FunctionHeader.ofTokens? own.tokens, header.name = initializerName →
        (∀ t ∈ header.rest.head?, allBlank (leadAt l t.start) = false) ∧
          (signatureFrom l header.openParen).isOk = true)
    ⟨fun h => ⟨fun own hOwn => (h own hOwn).1, fun own hOwn => (h own hOwn).2.1,
        fun own hOwn header hHeader hName => ((h own hOwn).2.2 header hHeader hName).1,
        fun own hOwn header hHeader hName => ((h own hOwn).2.2 header hHeader hName).2⟩,
      fun h own hOwn => ⟨h.row own hOwn, h.trail own hOwn, fun header hHeader hName =>
        ⟨h.body own hOwn header hHeader hName, h.signature own hOwn header hHeader hName⟩⟩⟩

/-! ## Spots -/

/-- A line of code of a program, with the logical lines around it. -/
structure Spot (p : Program) where
  before : List Text
  text : Text
  more : List Text
  own : Line
  split : p.lines = before ++ text :: more
  code : ownLine? text = some own

namespace Spot

variable {p : Program}

/-- Where the logical line starts. -/
def offset (s : Spot p) : Nat :=
  byteLength (ahead s.before)

def line (s : Spot p) : Line :=
  s.own.moved s.offset (1 + newlines (ahead s.before))

theorem mem_lines (s : Spot p) : s.text ∈ p.lines := by
  simp [s.split]

theorem isLogicalLine (s : Spot p) : IsLogicalLine s.text :=
  p.readable s.text s.mem_lines

theorem text_eq (s : Spot p) : p.text = ahead s.before ++ (s.text ++ behind s.more) := by
  rw [Program.text, s.split, intercalate_append]

/-- The logical line at a spot is given by the lines in front of it. -/
theorem eq_of_before (s : Spot p) {before more : List Text} {l : Text} (hBefore : s.before = before)
    (hSplit : p.lines = before ++ l :: more) : s.text = l ∧ s.more = more := by
  have hEq := s.split.symm.trans hSplit
  rw [hBefore, List.append_cancel_left_eq] at hEq
  exact List.cons.inj hEq

/-- What stands in front of a place in a logical line is read in this line. -/
theorem leadAt_eq (s : Spot p) {place : Nat} {x y : Text}
    (hSplit : splitAt? s.text place = some (x, y)) :
    leadAt p.text (place + s.offset) = leadAt s.text place := by
  rw [s.text_eq]
  exact leadAt_inside hSplit s.before (behind s.more)

/-- The lines of code in front of a spot and behind it. -/
theorem layout_eq (s : Spot p) :
    layout p.text = linesOf 0 1 s.before ++ s.line ::
      linesOf (s.offset + byteLength s.text + 1)
        (1 + newlines (ahead s.before) + newlines s.text + 1) s.more := by
  rw [p.layout_text, s.split, linesOf_append, linesOf, s.code, Nat.zero_add]
  rfl

end Spot

/-- Every line of code of a program has its spot. -/
theorem exists_spot {p : Program} {line : Line} (h : line ∈ layout p.text) :
    ∃ s : Spot p, s.line = line := by
  obtain ⟨done, rest, hLayout⟩ := List.append_of_mem h
  rw [p.layout_text] at hLayout
  obtain ⟨before, l, more, own, hLines, hOwn, hLine, -⟩ := exists_of_linesOf hLayout
  refine ⟨⟨before, l, more, own, hLines, hOwn⟩, ?_⟩
  rw [hLine, Spot.line, Spot.offset, Nat.zero_add]

/-! ## The order of the lines -/

theorem le_start_linesOf {ls : List Text} {offset row : Nat} {line : Line}
    (h : line ∈ linesOf offset row ls) : offset ≤ line.start := by
  obtain ⟨done, rest, hLines⟩ := List.append_of_mem h
  obtain ⟨before, l, more, own, -, -, rfl, -⟩ := exists_of_linesOf hLines
  show offset ≤ own.start + (offset + byteLength (ahead before))
  omega

theorem pairwise_start_linesOf {ls : List Text} (hLines : ∀ l ∈ ls, IsLogicalLine l)
    (offset row : Nat) : (linesOf offset row ls).Pairwise fun a b => a.start < b.start := by
  induction ls generalizing offset row with
  | nil => exact .nil
  | cons l ls ih =>
    obtain ⟨hLine, hMore⟩ := List.forall_mem_cons.1 hLines
    have hRest := ih hMore (offset + byteLength l + 1) (row + newlines l + 1)
    rw [linesOf]
    cases hOwn : ownLine? l with
    | none => exact hRest
    | some own =>
      refine List.pairwise_cons.2 ⟨fun b hb => ?_, hRest⟩
      obtain ⟨lead, code, hLead, -⟩ := hLine.exists_lead hOwn
      obtain ⟨rfl, hStart⟩ := eq_of_splitAt? hLead
      have hle := le_start_linesOf hb
      rw [byteLength_append] at hle
      show own.start + offset < b.start
      omega

/-- A line of code stands in one place only. -/
theorem append_inj_of_layout {p : Program} {a b a' b' : List Line} {line : Line}
    (h : layout p.text = a ++ line :: b) (h' : layout p.text = a' ++ line :: b') :
    a = a' ∧ b = b' := by
  have hSorted := pairwise_start_linesOf p.readable 0 1
  rw [← p.layout_text] at hSorted
  rw [h, List.pairwise_append, List.pairwise_cons] at hSorted
  obtain ⟨-, ⟨hBehind, -⟩, hFront⟩ := hSorted
  have hNotFront : line ∉ a := fun hMem =>
    absurd (hFront line hMem line (List.mem_cons_self ..)) (Nat.lt_irrefl _)
  have hNotBehind : line ∉ b := fun hMem => absurd (hBehind line hMem) (Nat.lt_irrefl _)
  obtain ⟨hFront, -, hBehind⟩ :=
    (List.append_cons_inj_of_notMem hNotFront hNotBehind).1 (h.symm.trans h')
  exact ⟨hFront, hBehind⟩

/-! ## Statements and their places -/

theorem suffix_of_afterColon? {lambdas : Nat} {list rest : List Token}
    (h : afterColon? lambdas list = some rest) : rest <:+ list := by
  obtain ⟨front, colon, rfl, -⟩ := exists_of_afterColon? h
  exact ⟨front ++ [colon], by simp⟩

/-- The body on the line of a header is made of its tokens. -/
theorem mem_of_mem_rest {list : List Token} {header : FunctionHeader} {t : Token}
    (h : FunctionHeader.ofTokens? list = some header) (ht : t ∈ header.rest) : t ∈ list := by
  obtain ⟨keyword, name, signature, paren, hFrom, -, -, -, -, hRest⟩ :=
    FunctionHeader.exists_parts h
  have hMem : t ∈ fromDef list := by
    rw [hFrom]
    exact List.mem_cons_of_mem _ (List.mem_cons_of_mem _ ((suffix_of_afterColon? hRest).subset ht))
  exact (fromDef_suffix list).subset hMem

theorem not_isMark_of_isLiteral {t : Token} (h : t.isLiteral = true) (c : Char) :
    t.isMark c = false := by
  have hLexeme : t.lexeme = .literal := by simpa [Token.isLiteral] using h
  simp [Token.isMark, hLexeme]

theorem not_isMark_of_isMark {t : Token} {c d : Char} (h : t.isMark c = true) (hne : c ≠ d) :
    t.isMark d = false := by
  simp only [Token.isMark, Bool.and_eq_true, decide_eq_true_eq] at h
  simp [Token.isMark, h.2, hne]

theorem not_isMark_of_isStrings {list : List Token} (h : isStrings list = true) (c : Char) :
    ∀ t ∈ list, t.isMark c = false := by
  rw [isStrings, Bool.and_eq_true] at h
  exact fun t ht => not_isMark_of_isLiteral (List.all_eq_true.1 h.2 t ht) c

/-- No placeholder has another mark than periods. -/
theorem not_isMark_of_isPlaceholder {list : List Token} (h : isPlaceholder list = true) {c : Char}
    (hc : '.' ≠ c) : ∀ t ∈ list, t.isMark c = false := by
  unfold isPlaceholder at h
  split at h
  · rename_i t
    rw [Bool.or_eq_true] at h
    rcases h with hPass | hString
    · have hLexeme : t.lexeme = .word "pass".toList := by simpa [Token.isWord] using hPass
      simp [Token.isMark, hLexeme]
    · simpa using not_isMark_of_isLiteral hString c
  · simp only [Bool.or_eq_true, Bool.and_eq_true] at h
    rcases h with ⟨⟨hFirst, hSecond⟩, hThird⟩ | hStrings
    · simp [not_isMark_of_isMark hFirst hc, not_isMark_of_isMark hSecond hc,
        not_isMark_of_isMark hThird hc]
    · exact not_isMark_of_isStrings hStrings c
  · exact not_isMark_of_isStrings h c

/-- The strings that a placeholder begins with are all of it, or there are none. -/
theorem stringsEnd?_of_isPlaceholder {list : List Token} (h : isPlaceholder list = true) :
    stringsEnd? (list.takeWhile fun t => !t.isMark ';') =
      if isStrings list then list.getLast?.map Token.stop else none := by
  have hNone := not_isMark_of_isPlaceholder h (c := ';') (by decide)
  have hKeeps : (list.takeWhile fun t => !t.isMark ';') = list :=
    List.takeWhile_eq_self_iff.2 fun t ht => by rw [hNone t ht]; rfl
  rw [hKeeps, stringsEnd?]

/-! ## Insertions beside a spot -/

/-- The place of new statements beside a spot: behind strings, or else in front. -/
def Spot.place {p : Program} (s : Spot p) : Nat :=
  if isStrings s.own.tokens then
    if s.more = [] then s.offset + byteLength s.text else byteLength (ahead (s.before ++ [s.text]))
  else s.offset

/-- An insertion goes beside a spot, which is the first statement of a body of placeholders. -/
structure Fits {p : Program} (s : Spot p) (i : Insertion) : Prop where
  /-- It is indented like the spot. -/
  lead : ∃ code, splitAt? s.text s.own.start = some (i.indent, code)
  blank : BlankInLine i.indent
  rows : ∃ made : List Assignment, made ≠ [] ∧ (∀ a ∈ made, a.Named) ∧
    i.lines = made.map Assignment.render
  placeholder : isPlaceholder s.own.tokens = true
  /-- The line in front of the spot is the header of the initializer. -/
  header : ∃ front head back, layout p.text = front ++ head :: s.line :: back ∧
    (FunctionHeader.ofTokens? head.tokens).isSome = true
  place : i.offset = s.place

section

variable {p : Program} (hSettled : ∀ l ∈ p.lines, Settled l)

include hSettled

/-- The text in front of a placeholder at a spot, on its physical line. -/
theorem Spot.leadAt_start (s : Spot p) (hPlaceholder : isPlaceholder s.own.tokens = true) :
    ∃ code, splitAt? s.text s.own.start = some (leadAt p.text s.line.start, code) ∧
      '\n' ∉ leadAt p.text s.line.start := by
  obtain ⟨lead, code, hLead, hRow, -⟩ := s.isLogicalLine.exists_lead s.code
  rw [(hSettled s.text s.mem_lines).row s.own s.code hPlaceholder] at hRow
  have hLine : '\n' ∉ lead := List.count_eq_zero.1 hRow.symm
  have hEq : leadAt p.text s.line.start = lead := by
    have hInside := s.leadAt_eq hLead
    rw [FieldFill.leadAt_eq hLead, lastLine_of_not_mem hLine] at hInside
    exact hInside
  rw [hEq]
  exact ⟨code, hLead, hLine⟩

/-- The end of a line of strings: behind the last quote, no further physical line begins. -/
theorem Spot.exists_trail (s : Spot p) (hStrings : isStrings s.own.tokens = true) :
    ∃ last x y, s.own.tokens.getLast? = some last ∧ splitAt? s.text last.stop = some (x, y) ∧
      x.getLast?.any isQuote = true ∧ '\n' ∉ y := by
  obtain ⟨last, hLast⟩ : ∃ last, s.own.tokens.getLast? = some last := by
    rw [isStrings, Bool.and_eq_true, Bool.not_eq_true', List.isEmpty_eq_false_iff] at hStrings
    exact ⟨_, List.getLast?_eq_some_getLast hStrings.1⟩
  have hMem : last ∈ s.own.tokens := List.mem_of_getLast? hLast
  obtain ⟨-, x, y, hStop⟩ := s.isLogicalLine.splitAt?_of_mem_tokens s.code hMem
  have hTrail := (hSettled s.text s.mem_lines).trail s.own s.code hStrings last hLast (x, y) hStop
  exact ⟨last, x, y, hLast, hStop, hTrail⟩

/-- A placeholder at a spot has its statements put at the place of the spot. -/
theorem Spot.placeOf_eq (s : Spot p) (hPlaceholder : isPlaceholder s.own.tokens = true) :
    placeOf p.text s.line.start s.line.tokens = s.place := by
  have hMoved : isPlaceholder s.line.tokens = true := by
    rw [Spot.line, Line.moved, isPlaceholder_shift]
    exact hPlaceholder
  have hStrings : isStrings s.line.tokens = isStrings s.own.tokens := isStrings_shift _ _
  unfold placeOf
  rw [stringsEnd?_of_isPlaceholder hMoved, hStrings, Spot.place]
  by_cases hString : isStrings s.own.tokens = true
  · rw [if_pos hString, if_pos hString]
    obtain ⟨last, x, y, hLast, hStop, -, hLine⟩ := s.exists_trail hSettled hString
    have hEnd : s.line.tokens.getLast?.map Token.stop = some (last.stop + s.offset) := by
      rw [Spot.line, Line.moved, List.getLast?_map, hLast]
      rfl
    rw [hEnd]
    dsimp only
    rw [s.text_eq, Spot.offset, nextLineStart_inside hStop hLine]
  · rw [if_neg hString, if_neg hString]
    obtain ⟨code, hLead, -⟩ := s.leadAt_start hSettled hPlaceholder
    obtain ⟨-, hStart⟩ := eq_of_splitAt? hLead
    show s.own.start + s.offset - byteLength (leadAt p.text s.line.start) = s.offset
    omega

/-- An initializer with a body on lines of its own has nothing of it on the line of its header. -/
theorem rest_eq_nil {line : Line} {header : FunctionHeader} (hMem : line ∈ layout p.text)
    (hHeader : FunctionHeader.ofTokens? line.tokens = some header)
    (hName : header.name = initializerName)
    (hLead : ∀ t ∈ header.rest.head?, allBlank (leadAt p.text t.start) = true) :
    header.rest = [] := by
  obtain ⟨s, rfl⟩ := exists_spot hMem
  rw [Spot.line, Line.moved, FunctionHeader.ofTokens?_shift] at hHeader
  obtain ⟨own, hOwn, rfl⟩ := Option.map_eq_some_iff.1 hHeader
  cases hRest : own.rest with
  | nil => simp [FunctionHeader.shift, hRest]
  | cons t rest =>
    have hNot := (hSettled s.text s.mem_lines).body s.own s.code own hOwn hName t (by simp [hRest])
    have ht : t ∈ s.own.tokens := mem_of_mem_rest hOwn (by simp [hRest])
    obtain ⟨⟨x, y, hStart⟩, -⟩ := s.isLogicalLine.splitAt?_of_mem_tokens s.code ht
    have hBlank := hLead (t.shift s.offset) (by simp [FunctionHeader.shift, hRest])
    rw [Token.start_shift, s.leadAt_eq hStart, hNot] at hBlank
    cases hBlank

end

/-! ## Insertions of a plan -/

section

variable {p : Program} {settings : Settings} {c : ClassBlock} {site : Site}

/-- Where an initializer that is filled stands in the program. -/
theorem Site.Fills.exists_layout {source : Text} (hClass : c ∈ classesIn (layout source))
    (h : site.Fills source settings c.block) :
    FunctionHeader.ofTokens? site.line.tokens = some site.header ∧
      site.header.name = initializerName ∧
      ∃ front back, layout source = front ++ site.line :: (site.inner ++ back) :=
  exists_layout_of_initializer hClass (h.only ▸ List.mem_singleton_self _)

variable (hSettled : ∀ l ∈ p.lines, Settled l)

include hSettled

theorem Site.Fills.rest_eq_nil (hClass : c ∈ classesIn (layout p.text))
    (h : site.Fills p.text settings c.block) : site.header.rest = [] := by
  obtain ⟨hHeader, hName, front, back, hLayout⟩ := h.exists_layout hClass
  have hMem : site.line ∈ layout p.text := by simp [hLayout]
  refine FieldFill.rest_eq_nil hSettled hMem hHeader hName fun t ht => ?_
  have hBody := h.body
  unfold bodyStatements at hBody
  cases hTokens : site.header.rest with
  | nil => simp [hTokens] at ht
  | cons first more =>
    rw [hTokens] at hBody ht
    obtain rfl := Option.some.inj ht
    have hStart : first.start = site.start := (Prod.mk.inj (List.cons.inj hBody).1).1
    rw [hStart]
    exact h.lead

/-- The body of an initializer that is filled begins with the line behind the header. -/
theorem Site.Fills.exists_first (hClass : c ∈ classesIn (layout p.text))
    (h : site.Fills p.text settings c.block) :
    ∃ (s : Spot p) (more : List Line), site.inner = s.line :: more ∧
      s.line.start = site.start ∧ s.line.tokens = site.first := by
  obtain ⟨-, -, front, back, hLayout⟩ := h.exists_layout hClass
  have hRest := h.rest_eq_nil hSettled hClass
  have hBody := h.body
  cases hInner : site.inner with
  | nil =>
    rw [bodyStatements, hRest, hInner] at hBody
    cases hBody
  | cons x more =>
    rw [hInner, bodyStatements_cons hRest] at hBody
    obtain ⟨hStart, hFirst⟩ := Prod.mk.inj (List.cons.inj hBody).1
    obtain ⟨s, rfl⟩ := exists_spot (show x ∈ layout p.text by simp [hLayout, hInner])
    exact ⟨s, more, rfl, hStart, hFirst⟩

/-- **Every insertion of a plan goes beside a spot.** -/
theorem Site.Fills.exists_fits (hPolicy : settings.bodyPolicy = .trivialOnly)
    (hDefault : IsName settings.defaultReceiver) (hClass : c ∈ classesIn (layout p.text))
    (h : site.Fills p.text settings c.block) :
    ∃ (s : Spot p) (more : List Line), site.inner = s.line :: more ∧
      s.line.start = site.start ∧ Fits s (site.insertion p.text) := by
  obtain ⟨hHeader, -, front, back, hLayout⟩ := h.exists_layout hClass
  obtain ⟨s, more, hInner, hStart, hFirst⟩ := h.exists_first hSettled hClass
  have hPlaceholder : isPlaceholder s.own.tokens = true := by
    have hHolds := h.placeholders hPolicy _ (List.mem_cons_self ..)
    dsimp only at hHolds
    rwa [← hFirst, Spot.line, Line.moved, isPlaceholder_shift] at hHolds
  obtain ⟨code, hLead, hLine⟩ := s.leadAt_start hSettled hPlaceholder
  have hIndent : (site.insertion p.text).indent = leadAt p.text s.line.start := by
    rw [Site.insertion, hStart]
  have hBlank : allBlank (leadAt p.text s.line.start) = true := hStart ▸ h.lead
  refine ⟨s, more, hInner, hStart, ⟨code, ?lead⟩, ⟨?blank, ?line⟩, ?rows, hPlaceholder, ?header,
    ?place⟩
  case lead => rw [hIndent, hLead]
  case blank =>
    rw [hIndent]
    exact List.all_eq_true.1 hBlank
  case line =>
    rw [hIndent]
    exact hLine
  case rows =>
    refine ⟨site.made, h.made_ne, ?_, rfl⟩
    have hMade := h.signature
    cases hText : signatureFrom p.text site.header.openParen with
    | error fault => rw [hText] at hMade; cases hMade
    | ok text =>
      rw [hText] at hMade
      exact named_of_assignments hDefault hMade
  case header =>
    rw [hInner] at hLayout
    exact ⟨front, site.line, more ++ back, hLayout, by rw [hHeader]; rfl⟩
  case place =>
    rw [Site.insertion, ← hStart, ← hFirst]
    exact s.placeOf_eq hSettled hPlaceholder

end

end FieldFill
