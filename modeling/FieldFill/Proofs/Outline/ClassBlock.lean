import FieldFill.Proofs.Outline.HeaderPattern
import FieldFill.Proofs.Outline.Recovered
import FieldFill.Proofs.Text.SourceLines
import Mathlib.Data.List.Basic

/-!
# The block that is searched

The search for broken headers goes through the lines of a class with a running position, and stops at
the first line that is not of the block. Here the same is said of all lines of the text at once: which
of them are the block, which of the block are headers, and what their number comes to.

Main definitions:

* `blockOf` — the lines of a block, from lines that begin with it.
* `headersOf` — the headers among them, with their lines and parentheses.
* `headersBehind` — the headers of the class with a name at a place.
* `InBlock` — what makes a header one of the class.

Main results:

* `headersIn_eq` — the search with its running position finds the headers of the block.
* `inBlock_of_mem` — no header is found behind a dedent or in a nested block.
* `recover_searches_block` — what is recovered of a class.
-/

namespace FieldFill

/-! ## The lines of a block -/

/-- A text up to a parenthesis is the beginning of an initializer header. -/
instance (text header : Text) : Decidable (HasInitializerAt text [] header) :=
  decidable_of_iff (∃ rest ∈ initializerHead? text, text = header ++ rest) <| by
    constructor
    · rintro ⟨rest, hRest, hText⟩
      obtain ⟨found, hFound, hSplit⟩ := initializerHead?_eq_some_iff.1 hRest
      rw [List.append_cancel_right (hText.symm.trans hSplit)]
      exact hFound
    · intro hHeader
      obtain ⟨-, -, inside, -, -, -, hText⟩ := id hHeader
      exact ⟨'(' :: inside, initializerHead?_eq_some_iff.2 ⟨header, hHeader, hText⟩, hText⟩

namespace SourceLine

def indent (l : SourceLine) : Nat :=
  leadWidth l.text

def code (l : SourceLine) : Text :=
  l.text.dropWhile isIndent

/-- Whether a line is neither blank nor a comment. -/
def holds (l : SourceLine) : Bool :=
  holdsCode l.code

/-- The place of the parenthesis, when a line is the header of an initializer. -/
def paren? (l : SourceLine) : Option Nat :=
  let header := l.code.takeWhile (· ≠ '(')
  if HasInitializerAt l.code [] header then some (l.start + l.indent + byteLength header) else none

end SourceLine

/-- The block that begins with the first one of these lines: the lines that are deeper than `column`
and at least as deep as the first one, up to one that is not. -/
def blockOf (column : Nat) : List SourceLine → List SourceLine
  | [] => []
  | first :: more =>
    (first :: more).takeWhile fun l => decide (column < l.indent) && decide (first.indent ≤ l.indent)

/-- The headers of initializers that are as deep as the first line of a block, each by its line and the
place of its parenthesis. -/
def headersOf : List SourceLine → List (Nat × Nat)
  | [] => []
  | first :: more =>
    ((first :: more).filter fun l => l.indent = first.indent).filterMap fun l =>
      l.paren?.map fun place => (l.row, place)

/-- The lines with code below the one that a place is on. -/
def codeBelow (source : Text) (place : Nat) : List SourceLine :=
  (sourceLines source).filter fun l => decide (lineAt source place < l.row) && l.holds

/-- The place of the colon that ends the header of a class, given by what is in front of its name, the
name, and what follows. -/
def colonBehind? (before name after : Text) : Option Nat :=
  ((scan after).find? (Scanned.isTop ':')).map fun m => byteLength (before ++ name) + m.offset

/-- The headers of initializers in the block of a class. Its keyword stands behind `before`. -/
def headersBehind (before name after : Text) : List (Nat × Nat) :=
  match colonBehind? before name after with
  | none => []
  | some colon =>
    headersOf (blockOf (byteLength (lastLine before))
      (codeBelow (before ++ (name ++ after)) colon))

/-- What is said of a class by the headers in its block. -/
def lookupOf : List (Nat × Nat) → Lookup
  | [] => .missing
  | [(row, place)] => .unparsed row place
  | several => .multiple several.length

/-- A header, by its line and the place of its parenthesis, is one of the class: from the colon of the
class to it, every line of code is deeper than the class and at least as deep as the header. -/
structure InBlock (before name after : Text) (row place : Nat) : Prop where
  /-- A parenthesis stands at the place, and on the line. -/
  paren : charAt? (before ++ (name ++ after)) place = some '('
  row_eq : lineAt (before ++ (name ++ after)) place = row
  /-- The line is a header up to the parenthesis, and below the colon of the class. -/
  line : ∃ colon ∈ colonBehind? before name after, ∃ l ∈ codeBelow (before ++ (name ++ after)) colon,
    l.row = row ∧ l.paren? = some place ∧
      ∀ k ∈ codeBelow (before ++ (name ++ after)) colon, k.row ≤ row →
        byteLength (lastLine before) < k.indent ∧ l.indent ≤ k.indent

/-! ## One line -/

section

variable {l : SourceLine} {place : Nat}

theorem byteLength_takeWhile_isIndent (text : Text) :
    byteLength (text.takeWhile isIndent) = leadWidth text := by
  rw [leadWidth]
  induction text with
  | nil => rfl
  | cons c rest ih =>
    by_cases hc : isIndent c = true
    · have hSize : c.utf8Size = 1 := by
        simp only [isIndent, Bool.or_eq_true, decide_eq_true_eq] at hc
        rcases hc with rfl | rfl <;> rfl
      rw [List.takeWhile_cons_of_pos hc, byteLength, List.length_cons, ih, hSize, Nat.add_comm]
    · rw [List.takeWhile_cons_of_neg hc]
      rfl

theorem not_mem_header {text header : Text} (h : HasInitializerAt text [] header) : '(' ∉ header := by
  obtain ⟨gap, space, -, ⟨hGap, -⟩, hSpace, rfl, -⟩ := h
  have hBlank : ∀ {x : Text}, Blank x → '(' ∉ x := by
    intro x hx hMem
    exact absurd (hx _ hMem) (by decide)
  simp only [List.nil_append, List.mem_append, not_or]
  exact ⟨by decide, hBlank hGap, by decide, hBlank hSpace⟩

/-- The beginning of a header is what stands in front of the first parenthesis. -/
theorem HasInitializerAt.eq_takeWhile {text header : Text} (h : HasInitializerAt text [] header) :
    text.takeWhile (· ≠ '(') = header := by
  have hNone := not_mem_header h
  obtain ⟨-, -, inside, -, -, -, rfl⟩ := h
  have hAll : ∀ c ∈ header, decide (c ≠ '(') = true := by
    intro c hc
    simpa using fun hEq : c = '(' => hNone (hEq ▸ hc)
  rw [List.takeWhile_append_of_pos hAll, List.takeWhile_cons_of_neg (by simp), List.append_nil]

theorem SourceLine.paren?_eq_some_iff :
    l.paren? = some place ↔
      ∃ header, HasInitializerAt l.code [] header ∧ place = l.start + l.indent + byteLength header := by
  rw [paren?]
  constructor
  · intro h
    split at h
    · rename_i hHeader
      exact ⟨_, hHeader, (Option.some.inj h).symm⟩
    · cases h
  · rintro ⟨header, hHeader, rfl⟩
    rw [hHeader.eq_takeWhile, if_pos hHeader]

/-- The place of the parenthesis, counted back from the next line. -/
theorem SourceLine.paren?_eq (l : SourceLine) :
    l.paren? = (initializerHead? l.code).map fun tail =>
      l.start + byteLength l.text - byteLength tail := by
  have hText : byteLength l.text = l.indent + byteLength l.code := by
    rw [indent, ← byteLength_takeWhile_isIndent, code, ← byteLength_append,
      List.takeWhile_append_dropWhile]
  cases hHead : initializerHead? l.code with
  | none =>
    rw [Option.map_none, Option.eq_none_iff_forall_ne_some]
    intro place hPlace
    obtain ⟨header, hHeader, -⟩ := paren?_eq_some_iff.1 hPlace
    obtain ⟨-, -, inside, -, -, -, hSplit⟩ := id hHeader
    rw [initializerHead?_eq_some_iff.2 ⟨header, hHeader, hSplit⟩] at hHead
    cases hHead
  | some tail =>
    obtain ⟨header, hHeader, hSplit⟩ := initializerHead?_eq_some_iff.1 hHead
    rw [Option.map_some, paren?_eq_some_iff]
    refine ⟨header, hHeader, ?_⟩
    rw [hText, hSplit, byteLength_append]
    omega

/-- **At the place of a header stands its parenthesis**, on the line of the header. -/
theorem charAt?_paren {source : Text} (hl : l ∈ sourceLines source) (h : l.paren? = some place) :
    charAt? source place = some '(' ∧ lineAt source place = l.row := by
  obtain ⟨header, hHeader, rfl⟩ := SourceLine.paren?_eq_some_iff.1 h
  obtain ⟨front, back, hSource, hStart, hRow⟩ := exists_of_mem_sourceLines hl
  obtain ⟨-, -, inside, -, -, -, hCode⟩ := id hHeader
  have hText : l.text = (l.text.takeWhile isIndent ++ header) ++ '(' :: inside := by
    have hSplit := List.takeWhile_append_dropWhile (p := isIndent) (l := l.text)
    rw [← SourceLine.code, hCode, ← List.append_assoc] at hSplit
    exact hSplit.symm
  -- a line has no newline in front of its last character
  have hLine : '\n' ∉ l.text.takeWhile isIndent ++ header := by
    obtain ⟨line, hLine, hEnd⟩ := exists_of_mem_lines (text_mem_lines hl)
    intro hMem
    rcases hEnd with hEq | hEq
    · exact hLine (hEq ▸ hText ▸ List.mem_append_left _ hMem)
    · rcases List.eq_nil_or_concat inside with rfl | ⟨most, last, rfl⟩
      · have hSame := hText.symm.trans hEq
        rw [(List.append_inj' hSame rfl).1] at hMem
        exact hLine hMem
      · have hSame := hText.symm.trans hEq
        rw [List.concat_eq_append, ← List.cons_append, ← List.append_assoc] at hSame
        rw [← (List.append_inj' hSame rfl).1] at hLine
        exact hLine (List.mem_append_left _ hMem)
  have hFront : source = (front ++ (l.text.takeWhile isIndent ++ header)) ++
      '(' :: (inside ++ back) := by
    calc source = front ++ (l.text ++ back) := hSource
      _ = front ++ (((l.text.takeWhile isIndent ++ header) ++ '(' :: inside) ++ back) := by
        rw [← hText]
      _ = _ := by simp
  have hPlace : l.start + l.indent + byteLength header =
      byteLength (front ++ (l.text.takeWhile isIndent ++ header)) := by
    rw [byteLength_append, byteLength_append, byteLength_takeWhile_isIndent, hStart, Nat.add_assoc]
    rfl
  rw [hPlace, hFront]
  refine ⟨charAt?_append _ _, ?_⟩
  rw [lineAt, splitAt?_byteLength, hRow]
  dsimp only
  rw [newlines, List.count_append, List.count_eq_zero.2 hLine]
  rfl

end

/-! ## The search is about the block -/

section

variable {column body row offset : Nat} {line : Text} {ls more : List Text}

/-- The headers as deep as a block that is known, in a row of lines. -/
theorem headersIn_some :
    headersIn column (some body) offset ls =
      ((((numbered row offset ls).filter SourceLine.holds).takeWhile fun l =>
        decide (column < l.indent) && decide (body ≤ l.indent)).filter fun l =>
          l.indent = body).filterMap SourceLine.paren? := by
  induction ls generalizing row offset with
  | nil => rfl
  | cons line more ih =>
    let l : SourceLine := ⟨row, offset, line⟩
    have hHead : headersIn column (some body) offset (line :: more) =
        if l.holds = false then headersIn column (some body) (offset + byteLength line) more
        else if l.indent ≤ column ∨ l.indent < body then []
        else (if l.indent = body then l.paren?.toList else []) ++
          headersIn column (some body) (offset + byteLength line) more := by
      rw [headersIn, l.paren?_eq, Option.toList_map]
      simp only [Bool.not_eq_true', Bool.or_eq_true, decide_eq_true_eq]
      rfl
    rw [hHead, numbered]
    cases hHolds : l.holds with
    | false => rw [if_pos rfl, List.filter_cons_of_neg (by simp [l, hHolds]), ih]
    | true =>
      rw [if_neg (by simp), List.filter_cons_of_pos hHolds]
      by_cases hIn : column < l.indent ∧ body ≤ l.indent
      · rw [if_neg (by omega), List.takeWhile_cons_of_pos (by simpa using hIn), ih]
        -- a line that is as deep as the block counts if it is a header
        by_cases hSame : l.indent = body
        · rw [if_pos hSame, List.filter_cons_of_pos (by simpa using hSame), List.filterMap_cons]
          cases l.paren? <;> rfl
        · rw [if_neg hSame, List.filter_cons_of_neg (by simpa using hSame), List.nil_append]
      · rw [if_pos (by omega), List.takeWhile_cons_of_neg (by simpa using hIn)]
        rfl

/-- The first line of code tells how deep the block is. -/
theorem headersIn_first (h : holdsCode (line.dropWhile isIndent) = true) :
    headersIn column none offset (line :: more) =
      headersIn column (some (leadWidth line)) offset (line :: more) := by
  rw [headersIn, headersIn, h]
  rfl

theorem map_snd_headersOf (first : SourceLine) (rest : List SourceLine) :
    (headersOf (first :: rest)).map Prod.snd =
      ((first :: rest).filter fun l => l.indent = first.indent).filterMap SourceLine.paren? := by
  rw [headersOf, List.map_filterMap]
  refine List.filterMap_congr fun l _ => ?_
  rw [Option.map_map]
  exact Option.map_id'

/-- When the first line is not of the block, no line is. -/
theorem map_snd_headersOf_blockOf (first : SourceLine) (rest : List SourceLine) :
    (headersOf (blockOf column (first :: rest))).map Prod.snd =
      (((first :: rest).takeWhile fun l =>
        decide (column < l.indent) && decide (first.indent ≤ l.indent)).filter fun l =>
          l.indent = first.indent).filterMap SourceLine.paren? := by
  rw [blockOf]
  by_cases hDeeper : column < first.indent
  · rw [List.takeWhile_cons_of_pos (by simpa using hDeeper), map_snd_headersOf]
  · rw [List.takeWhile_cons_of_neg (by simp [hDeeper])]
    rfl

/-- **The search with its running position finds the headers of the block.** -/
theorem headersIn_eq :
    headersIn column none offset ls =
      (headersOf (blockOf column ((numbered row offset ls).filter SourceLine.holds))).map Prod.snd := by
  induction ls generalizing row offset with
  | nil => rfl
  | cons line more ih =>
    let l : SourceLine := ⟨row, offset, line⟩
    cases hHolds : l.holds with
    | false =>
      have hSkip : headersIn column none offset (line :: more) =
          headersIn column none (offset + byteLength line) more := by
        rw [headersIn]
        exact if_pos (Bool.not_eq_true' _ ▸ hHolds)
      rw [hSkip, numbered, List.filter_cons_of_neg (by simp [l, hHolds]), ih]
    | true =>
      rw [headersIn_first hHolds, @headersIn_some _ _ row, numbered, List.filter_cons_of_pos hHolds,
        map_snd_headersOf_blockOf]
      rfl

end

section

variable {before name after : Text} {row place : Nat}

theorem lineAt_append (front back : Text) :
    lineAt (front ++ back) (byteLength front) = newlines front + 1 := by
  rw [lineAt, splitAt?_byteLength]

/-- The colon of a class stands in the text behind its name. -/
theorem exists_of_colonBehind? {colon : Nat} (h : colonBehind? before name after = some colon) :
    ∃ header rest, after = header ++ ':' :: rest ∧ firstTop? ':' after = some (byteLength header) ∧
      colon = byteLength (before ++ name) + byteLength header := by
  obtain ⟨m, hm, rfl⟩ := Option.map_eq_some_iff.1 h
  have hFirst : firstTop? ':' after = some m.offset := by
    rw [firstTop?, firstTopFrom?_eq_find?, ← scan, hm]
    rfl
  obtain ⟨header, rest, hAfter, hPlace⟩ := firstTopFrom?_eq_some hFirst
  rw [Nat.zero_add] at hPlace
  exact ⟨header, rest, hAfter, hPlace ▸ hFirst, by rw [hPlace]⟩

/-- **The headers that the search finds are those of the block.** -/
theorem recoveredHeaders_eq (before name after : Text) :
    recoveredHeaders (before ++ (name ++ after)) (byteLength before) (byteLength (before ++ name)) =
      (headersBehind before name after).map Prod.snd := by
  have hName : splitAt? (before ++ (name ++ after)) (byteLength (before ++ name)) =
      some (before ++ name, after) := by
    rw [← List.append_assoc, splitAt?_byteLength]
  unfold recoveredHeaders headersBehind
  rw [splitAt?_byteLength, hName]
  dsimp only
  cases hColon : colonBehind? before name after with
  | none =>
    have hNone : firstTop? ':' after = none := by
      rw [firstTop?, firstTopFrom?_eq_find?]
      rw [colonBehind?, Option.map_eq_none_iff] at hColon
      exact congrArg (Option.map Scanned.offset) hColon
    rw [hNone]
    rfl
  | some colon =>
    obtain ⟨header, rest, rfl, hFirst, rfl⟩ := exists_of_colonBehind? hColon
    -- the line of the colon ends the header of the class
    have hSource : before ++ (name ++ (header ++ ':' :: rest)) =
        (before ++ name ++ header) ++ ':' :: rest := by simp
    have hPlace : byteLength (before ++ name) + byteLength header =
        byteLength (before ++ name ++ header) := (byteLength_append ..).symm
    have hBelow : codeBelow (before ++ (name ++ (header ++ ':' :: rest)))
          (byteLength (before ++ name) + byteLength header) =
        (numbered (newlines (before ++ name ++ header) + 2)
          (byteLength (before ++ name ++ header) + byteLength (breakLine (':' :: rest)).1)
          (lines (breakLine (':' :: rest)).2)).filter SourceLine.holds := by
      rw [codeBelow, hSource, hPlace, lineAt_append, ← filter_sourceLines, List.filter_filter]
      simp only [Bool.and_comm]
    rw [hFirst, Option.bind_some, splitAt?_byteLength]
    dsimp only
    rw [hBelow, hPlace]
    exact headersIn_eq

theorem lookupOf_eq (source : Text) (start nameEnd : Nat) {found : List (Nat × Nat)}
    (hFound : recoveredHeaders source start nameEnd = found.map Prod.snd)
    (hRows : ∀ p ∈ found, lineAt source p.2 = p.1) :
    recover source start nameEnd = lookupOf found := by
  rw [recover, hFound]
  rcases found with _ | ⟨⟨row, place⟩, _ | ⟨second, more⟩⟩
  · rfl
  · have hRow : lineAt source place = row := hRows (row, place) (List.mem_singleton_self _)
    rw [lookupOf, ← hRow]
    rfl
  · simp [lookupOf]

/-! ## Headers of the class -/

theorem mem_sourceLines_of_codeBelow {source : Text} {l : SourceLine} {colon : Nat}
    (h : l ∈ codeBelow source colon) : l ∈ sourceLines source :=
  (List.mem_filter.1 h).1

/-- What stands in a block up to one of its lines is deeper than the class and not less deep than the
first line. -/
theorem exists_of_mem_headersOf {column : Nat} {ls : List SourceLine}
    (hOrder : ls.Pairwise fun l m => l.row < m.row)
    (h : (row, place) ∈ headersOf (blockOf column ls)) :
    ∃ l ∈ ls, l.row = row ∧ l.paren? = some place ∧
      ∀ k ∈ ls, k.row ≤ row → column < k.indent ∧ l.indent ≤ k.indent := by
  cases ls with
  | nil => cases h
  | cons first rest =>
    let p : SourceLine → Bool := fun l =>
      decide (column < l.indent) && decide (first.indent ≤ l.indent)
    have hBlock : blockOf column (first :: rest) = (first :: rest).takeWhile p := rfl
    rw [hBlock] at h
    cases hTaken : (first :: rest).takeWhile p with
    | nil =>
      rw [hTaken] at h
      cases h
    | cons head taken =>
      obtain rfl : head = first := by
        rw [List.takeWhile_cons] at hTaken
        split at hTaken
        · exact (List.cons.inj hTaken).1.symm
        · cases hTaken
      rw [hTaken, headersOf, ← hTaken] at h
      obtain ⟨l, hl, hParen⟩ := List.mem_filterMap.1 h
      obtain ⟨hIn, hSame⟩ := List.mem_filter.1 hl
      obtain ⟨found, hFound, hEq⟩ := Option.map_eq_some_iff.1 hParen
      obtain ⟨rfl, rfl⟩ := Prod.mk.inj hEq
      rw [decide_eq_true_eq] at hSame
      refine ⟨l, (List.takeWhile_prefix p).mem hIn, rfl, hFound, fun k hk hRow => ?_⟩
      -- the lines behind the block are further down
      rw [← List.takeWhile_append_dropWhile (p := p) (l := head :: rest)] at hOrder hk
      have hTake : k ∈ (head :: rest).takeWhile p := by
        refine (List.mem_append.1 hk).resolve_right fun hDrop => ?_
        have hLt := (List.pairwise_append.1 hOrder).2.2 l hIn k hDrop
        omega
      have hp : p k = true := List.mem_takeWhile_imp hTake
      simp only [p, Bool.and_eq_true, decide_eq_true_eq] at hp
      omega

/-- **A header that counts for a class is one of the class.** -/
theorem inBlock_of_mem (h : (row, place) ∈ headersBehind before name after) :
    InBlock before name after row place := by
  unfold headersBehind at h
  cases hColon : colonBehind? before name after with
  | none =>
    rw [hColon] at h
    cases h
  | some colon =>
    rw [hColon] at h
    have hOrder := (pairwise_row_numbered 1 0 (lines (before ++ (name ++ after)))).filter
      fun l => decide (lineAt (before ++ (name ++ after)) colon < l.row) && l.holds
    obtain ⟨l, hl, rfl, hParen, hBlock⟩ := exists_of_mem_headersOf hOrder h
    obtain ⟨hChar, hRow⟩ := charAt?_paren (mem_sourceLines_of_codeBelow hl) hParen
    exact ⟨hChar, hRow, colon, hColon, l, hl, rfl, hParen, hBlock⟩

end

/-- **The search for broken headers never leaves the block of the class.** For every text and every class
position in it, given by what is in front of the class, its keyword with its name, and what follows:
* what is recovered is what the headers of the block say: of the lines of code below the colon of the
  class, the longest beginning that is deeper than the class and at least as deep as the first of them;
  of these, the ones as deep as the first that are headers of initializers;
* every header that counts is one of the class: no line of code from the colon to it is less deep than
  it, or as little as the class, so that it stands behind no dedent and in no nested block;
* where one header is recovered, its place is that of a parenthesis. -/
theorem recover_searches_block (before name after : Text) :
    recover (before ++ (name ++ after)) (byteLength before) (byteLength (before ++ name)) =
        lookupOf (headersBehind before name after) ∧
      (∀ row place, (row, place) ∈ headersBehind before name after →
        InBlock before name after row place) ∧
      ∀ row place,
        recover (before ++ (name ++ after)) (byteLength before) (byteLength (before ++ name)) =
            .unparsed row place →
          charAt? (before ++ (name ++ after)) place = some '(' := by
  have hRecover := lookupOf_eq (before ++ (name ++ after)) _ _
    (recoveredHeaders_eq before name after) fun p hp => (inBlock_of_mem hp).row_eq
  refine ⟨hRecover, fun row place => inBlock_of_mem, fun row place h => ?_⟩
  rw [hRecover] at h
  -- only a single header is reported with its place
  have hOne : headersBehind before name after = [(row, place)] := by
    unfold lookupOf at h
    split at h
    · cases h
    · rename_i hFound
      obtain ⟨rfl, rfl⟩ := Lookup.unparsed.inj h
      exact hFound
    · cases h
  exact (inBlock_of_mem (hOne ▸ List.mem_singleton_self _)).paren

/-- A comment in front of the block, a header in a nested class, the broken header of the class, and a
header of the next class. -/
theorem recover_searches_block_between_classes :
    let after := (":\n# (\n\n  x = 1\n  class C:\n    def __init__(self): pass\n" ++
      "  def  __init__ (self, a=(1:\nclass B:\n  def __init__(self): pass\n").toList
    recover ("class A".toList ++ after) 0 7 = .unparsed 7 78 ∧
      InBlock [] "class A".toList after 7 78 ∧
      charAt? ("class A".toList ++ after) 78 = some '(' := by
  intro after
  obtain ⟨hRecover, hBlock, hParen⟩ := recover_searches_block [] "class A".toList after
  have hFound : headersBehind [] "class A".toList after = [(7, 78)] := by decide +kernel
  have hOne : recover ("class A".toList ++ after) 0 7 = .unparsed 7 78 := by
    rw [hFound] at hRecover
    exact hRecover
  exact ⟨hOne, hBlock 7 78 (hFound ▸ List.mem_singleton_self _), hParen 7 78 hOne⟩

end FieldFill
