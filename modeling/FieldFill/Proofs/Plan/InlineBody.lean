import FieldFill.Proofs.Lexical.ByStretch
import FieldFill.Proofs.Lexical.Flat
import FieldFill.Proofs.Plan.Positions

/-!
# A body on the header line

A header has its body on its own line when something besides a comment stands behind the first colon in
code outside of all brackets. Planning at a line does not look for this colon. It cuts the line at the
first hash and looks behind the last colon that is left. The two agree on most lines, and here is where
they do not. A hash in front of the colon is in a string of the return annotation, and nothing behind it
is looked at. Without such a hash there are two ways to go wrong: the body itself ends in a colon, or the
header has its colon on a later line and one in brackets or in a string is taken for it.

Main definitions:

* `HasColon`, `toColon`, `behindColon` — the colon of a header, and what stands around it.
* `HoldsBody` — whether a body stands behind it.
* `EndsInColon` — the last character of a text besides blanks is a colon.

Main results:

* `HasColon.exists_parts` — the colon divides the line, with nothing open behind it.
* `HasColon.holdsBody_iff` — a body begins in front of the first hash behind the colon.
* `hasInlineBody_iff`, `HasColon.hasInlineBody_iff` — what planning at a line looks for.
* `inlineBody_by_colon` — where both agree, and what this means for a plan.
-/

namespace FieldFill

/-! ## The two rules -/

/-- A header has its colon on the line: one in code outside of all brackets. -/
def HasColon (tail : Text) : Prop :=
  ∃ m ∈ scan tail, m.isTop ':' = true

/-- The text in front of the first such colon, which is where a return annotation stands. -/
def toColon (tail : Text) : Text :=
  ((scan tail).takeWhile fun m => !m.isTop ':').map Scanned.char

/-- The marks behind it. -/
def behindColon (tail : Text) : List Scanned :=
  ((scan tail).dropWhile fun m => !m.isTop ':').drop 1

/-- Something besides a comment stands behind the colon of the header. -/
def HoldsBody (tail : Text) : Prop :=
  ∃ m ∈ behindColon tail, m.region ≠ .comment ∧ isBlank m.char = false

instance (tail : Text) : Decidable (HasColon tail) :=
  inferInstanceAs (Decidable (∃ m ∈ scan tail, _))

instance (tail : Text) : Decidable (HoldsBody tail) :=
  inferInstanceAs (Decidable (∃ m ∈ behindColon tail, _))

/-- The characters of some marks without comments. -/
def codeText (marks : List Scanned) : Text :=
  (withoutComments marks).map Scanned.char

/-- The last character besides blanks is a colon. -/
def EndsInColon (text : Text) : Prop :=
  (trimEnd text).getLast? = some ':'

instance (text : Text) : Decidable (EndsInColon text) :=
  inferInstanceAs (Decidable (_ = _))

/-! ## Ending in a colon -/

theorem not_blank_of_mem_colon {text : Text} (h : ':' ∈ text) : ¬ Blank text := fun hBlank =>
  absurd (hBlank ':' h) (by decide)

theorem endsInColon_append_cons {front back : Text} :
    EndsInColon (front ++ ':' :: back) ↔ Blank back ∨ EndsInColon back := by
  have hColon : isBlank ':' = false := by decide
  unfold EndsInColon
  rw [trimEnd_append hColon, List.getLast?_append, ← trimEnd_eq_nil_iff]
  cases trimEnd back with
  | nil => simp
  | cons c rest => simp [List.getLast?_cons_cons]

theorem mem_of_endsInColon {text : Text} (h : EndsInColon text) : ':' ∈ text := by
  obtain ⟨back, -, hText⟩ := exists_trimEnd text
  rw [hText]
  exact List.mem_append_left _ (List.mem_of_getLast? h)

/-! ## Behind the colon -/

theorem codeText_append (front back : List Scanned) :
    codeText (front ++ back) = codeText front ++ codeText back := by
  rw [codeText, withoutComments, List.filter_append, List.map_append]
  rfl

theorem codeText_cons {m : Scanned} (h : m.region ≠ .comment) (marks : List Scanned) :
    codeText (m :: marks) = m.char :: codeText marks := by
  rw [codeText, withoutComments, List.filter_cons_of_pos (by simpa using h)]
  rfl

theorem codeText_comment (depth depthAfter offset : Nat) (text : Text) :
    codeText (evenMarks .comment depth depthAfter offset text) = [] := by
  induction text generalizing offset with
  | nil => rfl
  | cons c rest ih => exact ih _

/-- A body is text other than blanks behind the colon, once the comment is deleted. -/
theorem holdsBody_iff {tail : Text} : HoldsBody tail ↔ ¬ Blank (codeText (behindColon tail)) := by
  simp [HoldsBody, Blank, codeText, withoutComments]

/-- Outside of a comment, a character other than a hash neither is in one nor begins one. -/
theorem Reads.not_comment {offset : Nat} {c : Char} {rest : Text} {s next : State} {region : Region}
    (h : Reads offset c rest s region next) (hs : s.mode ≠ .comment) (hc : c ≠ '#') :
    region ≠ .comment ∧ next.mode ≠ .comment := by
  cases h <;> simp_all

/-- What stands in front of the first hash is in no comment. -/
theorem exists_codeText {s : State} (hs : s.mode ≠ .comment) (offset : Nat) (text : Text) :
    ∃ more, codeText (scanFrom s offset text) = text.takeWhile (· ≠ '#') ++ more := by
  induction text generalizing s offset with
  | nil => exact ⟨[], rfl⟩
  | cons c rest ih =>
    by_cases hc : c = '#'
    · subst hc
      exact ⟨_, rfl⟩
    · obtain ⟨region, next, hRead⟩ := exists_reads s offset c rest
      obtain ⟨hRegion, hNext⟩ := hRead.not_comment hs hc
      obtain ⟨more, hMore⟩ := ih hNext (offset + c.utf8Size)
      refine ⟨more, ?_⟩
      rw [hRead.scanFrom_cons, codeText_cons hRegion, List.takeWhile_cons_of_pos (by simpa using hc),
        hMore]
      rfl

/-- Behind blanks in code, a hash begins a comment, which goes on to the end of the line. -/
theorem blank_codeText {openers : List Nat} {unbalanced : Option (Char × Nat)} {offset : Nat}
    {text : Text} (hLine : (breakLine text).2 = []) (hBlank : Blank (text.takeWhile (· ≠ '#'))) :
    Blank (codeText (scanFrom ⟨.code, 0, openers, unbalanced⟩ offset text)) := by
  induction text generalizing offset with
  | nil => exact hBlank
  | cons c rest ih =>
    by_cases hc : c = '#'
    · subst hc
      obtain ⟨row, after, rfl, hRow, hAfter⟩ := exists_first_row rest
      have hWalk : Walks .comment after ⟨.code, 0, openers, unbalanced⟩ offset ('#' :: row)
          ⟨.comment, 0, openers, unbalanced⟩ := walks_comment hRow
      rw [← List.cons_append, hWalk.scanFrom_eq, codeText_append, codeText_comment]
      rcases hAfter with rfl | ⟨more, rfl⟩
      · exact fun c hc => absurd hc List.not_mem_nil
      · -- only the newline is left
        obtain rfl : more = [] := by
          rwa [breakLine_cons (by decide), breakLine_newline hRow] at hLine
        exact List.forall_mem_singleton.2 rfl
    · rw [List.takeWhile_cons_of_pos (by simpa using hc)] at hBlank
      obtain ⟨hHere, hMore⟩ := List.forall_mem_cons.1 hBlank
      have hRead : Reads offset c rest ⟨.code, 0, openers, unbalanced⟩ .code
          ⟨.code, 0, openers, unbalanced⟩ := .plain (isPlain_of_isBlank hHere)
      rw [hRead.scanFrom_cons, codeText_cons (by simp)]
      exact List.forall_mem_cons.2 ⟨hHere, ih (oneLine_of_append (a := [c]) hLine) hMore⟩

/-- **The colon of a header divides its line.** Behind it, nothing is open. -/
theorem HasColon.exists_parts {tail : Text} (h : HasColon tail) :
    ∃ after unbalanced offset, tail = toColon tail ++ ':' :: after ∧
      behindColon tail = scanFrom ⟨.code, 0, [], unbalanced⟩ offset after := by
  have hColon : isPlain ':' = true := rfl
  have hMarks := List.takeWhile_append_dropWhile (p := fun m : Scanned => !m.isTop ':') (l := scan tail)
  cases hDrop : (scan tail).dropWhile fun m => !m.isTop ':' with
  | nil =>
    obtain ⟨m, hm, hTop⟩ := h
    have hNot := List.dropWhile_eq_nil_iff.1 hDrop m hm
    simp [hTop] at hNot
  | cons colon back =>
    have hTop : colon.isTop ':' = true := by
      have hHead := List.head?_dropWhile_not (fun m : Scanned => !m.isTop ':') (scan tail)
      rw [hDrop] at hHead
      simpa using hHead
    obtain ⟨hRegion, hDepth, hChar⟩ := Scanned.isTop_iff.1 hTop
    rw [hDrop] at hMarks
    obtain ⟨before, after, next, hTail, hBefore, hRead, hMin⟩ :=
      exists_of_scan_eq hMarks.symm (by rw [hChar]; rfl)
    rw [hRegion, hChar] at hRead
    rw [hChar] at hTail
    -- the colon is read with nothing open, and changes nothing
    have hState := hRead.state_of_top hColon (by decide) (hMin ▸ hDepth)
    have hPlain : Reads (byteLength before) ':' after (endState before) .code (endState before) := by
      rw [hState]
      exact .plain hColon
    have hScan := scan_append (Apart.cons_right before after (d := ':') rfl)
    rw [← hTail, ← hMarks, hBefore, List.append_cancel_left_eq, hPlain.scanFrom_cons] at hScan
    refine ⟨after, (endState before).unbalanced, byteLength before + ':'.utf8Size, ?_, ?_⟩
    · rw [toColon, ← hBefore, scan, map_char_scanFrom]
      exact hTail
    · rw [behindColon, hDrop, ← hState]
      exact (List.cons.inj hScan).2

/-- Whether there is a body is decided in front of the first hash behind the colon. -/
theorem HasColon.holdsBody_iff {tail : Text} (h : HasColon tail) (hLine : (breakLine tail).2 = []) :
    HoldsBody tail ↔ ¬ Blank (((behindColon tail).map Scanned.char).takeWhile (· ≠ '#')) := by
  obtain ⟨after, unbalanced, offset, hTail, hBehind⟩ := h.exists_parts
  rw [FieldFill.holdsBody_iff, hBehind, map_char_scanFrom]
  rw [hTail, List.append_cons] at hLine
  constructor
  · exact fun hBody hBlank => hBody (blank_codeText (oneLine_of_append hLine) hBlank)
  · intro hText hBlank
    obtain ⟨more, hMore⟩ := exists_codeText (s := ⟨.code, 0, [], unbalanced⟩) (by simp) offset after
    rw [hMore] at hBlank
    exact hText fun c hc => hBlank c (List.mem_append_left _ hc)

/-! ## What planning at a line looks for -/

/-- **Planning at a line looks for a colon with text behind the last one**, in what the hash leaves. -/
theorem hasInlineBody_iff (tail : Text) :
    hasInlineBody tail = true ↔
      ':' ∈ tail.takeWhile (· ≠ '#') ∧ ¬ EndsInColon (tail.takeWhile (· ≠ '#')) := by
  unfold hasInlineBody
  dsimp only
  generalize tail.takeWhile (· ≠ '#') = code
  obtain ⟨lead, trail, hLead, hTrail, hCode⟩ := exists_trim code
  rw [Bool.and_eq_true, List.contains_iff_mem, Bool.not_eq_true']
  rcases lastPlace?_cases ':' (trim code) with ⟨-, hNot⟩ | ⟨front, back, -, hLast, hNot⟩
  · have hNone : ':' ∉ code := by
      rw [hCode, List.mem_append, List.mem_append]
      rintro (hMem | hMem | hMem)
      · exact not_blank_of_mem_colon hMem hLead
      · exact hNot hMem
      · exact not_blank_of_mem_colon hMem hTrail
    simp [hNot, hNone]
  · -- what is trimmed off behind the last colon is blank
    have hSplit : code = (lead ++ front) ++ ':' :: (back ++ trail) := by
      rw [hCode, hLast]
      simp
    have hNoColon : ':' ∉ back ++ trail := fun hMem =>
      (List.mem_append.1 hMem).elim hNot fun hMem => not_blank_of_mem_colon hMem hTrail
    have hEnds : EndsInColon code ↔ Blank back := by
      rw [hSplit, endsInColon_append_cons, or_iff_left fun h => hNoColon (mem_of_endsInColon h)]
      exact ⟨fun h c hc => h c (List.mem_append_left _ hc),
        fun h c hc => (List.mem_append.1 hc).elim (h c) (hTrail c)⟩
    have hMem : ':' ∈ code := by
      rw [hSplit]
      simp
    rw [hEnds, hLast, takeWhile_reverse_of_last hNot, allBlank, List.all_reverse,
      Bool.eq_false_iff, ne_eq, List.all_eq_true]
    simp [hMem, Blank]

/-! ## Where the rules differ -/

theorem not_holdsBody_of_none {tail : Text} (h : ¬ HasColon tail) : ¬ HoldsBody tail := by
  have hNil : ((scan tail).dropWhile fun m => !m.isTop ':') = [] := by
    refine List.dropWhile_eq_nil_iff.2 fun m hm => ?_
    have hNot : m.isTop ':' ≠ true := fun hTop => h ⟨m, hm, hTop⟩
    simpa using hNot
  rintro ⟨m, hm, -⟩
  rw [behindColon, hNil] at hm
  cases hm

/-- Without a hash in front of its colon, a body is missed exactly when it ends in a colon itself. -/
theorem HasColon.hasInlineBody_iff {tail : Text} (h : HasColon tail) (hLine : (breakLine tail).2 = [])
    (hHash : '#' ∉ toColon tail) :
    hasInlineBody tail = true ↔ HoldsBody tail ∧
      ¬ EndsInColon (((behindColon tail).map Scanned.char).takeWhile (· ≠ '#')) := by
  rw [h.holdsBody_iff hLine, FieldFill.hasInlineBody_iff]
  obtain ⟨after, unbalanced, offset, hTail, hBehind⟩ := h.exists_parts
  rw [hBehind, map_char_scanFrom]
  have hAll : ∀ c ∈ toColon tail, decide (c ≠ '#') = true := by
    intro c hc
    have hne : c ≠ '#' := fun hEq => hHash (hEq ▸ hc)
    simpa using hne
  have hCode : tail.takeWhile (· ≠ '#') = toColon tail ++ ':' :: after.takeWhile (· ≠ '#') := by
    conv_lhs => rw [hTail]
    rw [List.takeWhile_append_of_pos hAll, List.takeWhile_cons_of_pos (by decide)]
  rw [hCode, endsInColon_append_cons, not_or]
  exact and_iff_right (by simp)

/-- A body that ends in a colon is a body. -/
theorem not_blank_of_endsInColon {text : Text} (h : EndsInColon text) : ¬ Blank text :=
  not_blank_of_mem_colon (mem_of_endsInColon h)

/-- **When planning at a line knows a body on the header line**, and what it makes of it. For the text
behind the bracket that closes a header, to the end of its line:

* With the colon of the header in it, and no hash in front of this colon, planning at a line agrees with
  the lexical rule unless the text from the colon to the first hash ends in a colon again.
* Without such a colon it agrees unless the text up to the first hash has a colon and does not end in one.
* So, with the colon of the header, no hash in front of it and no further colon at the end of what
  follows, there is a plan exactly when nothing but a comment stands behind the colon, and otherwise the
  fault says that the body is there. -/
theorem inlineBody_by_colon (tail : Text) :
    ((breakLine tail).2 = [] → HasColon tail → '#' ∉ toColon tail →
      ((hasInlineBody tail = true ↔ HoldsBody tail) ↔
        ¬ EndsInColon (((behindColon tail).map Scanned.char).takeWhile (· ≠ '#')))) ∧
    (¬ HasColon tail →
      ((hasInlineBody tail = true ↔ HoldsBody tail) ↔
        (':' ∈ tail.takeWhile (· ≠ '#') → EndsInColon (tail.takeWhile (· ≠ '#'))))) ∧
    ∀ (source : Text) (line : Nat) (settings : Settings) (a : HeaderSite) (t : Tail a.tail),
      a.At source line → t.onLine = tail → HasColon tail → '#' ∉ toColon tail →
      ¬ EndsInColon (((behindColon tail).map Scanned.char).takeWhile (· ≠ '#')) →
      (planAtLine source line settings = .error (.inlineBody a.className a.number) ↔ HoldsBody tail) ∧
      ((∃ plan, planAtLine source line settings = .ok plan) ↔ ¬ HoldsBody tail) := by
  have hExact : (breakLine tail).2 = [] → HasColon tail → '#' ∉ toColon tail →
      ((hasInlineBody tail = true ↔ HoldsBody tail) ↔
        ¬ EndsInColon (((behindColon tail).map Scanned.char).takeWhile (· ≠ '#'))) := by
    intro hLine hColon hHash
    rw [hColon.hasInlineBody_iff hLine hHash, hColon.holdsBody_iff hLine]
    constructor
    · exact fun hSame hEnds => (hSame.2 (not_blank_of_endsInColon hEnds)).2 hEnds
    · exact fun hEnds => and_iff_left hEnds
  refine ⟨hExact, fun hNone => ?_, fun source line settings a t ha hTail hColon hHash hEnds => ?_⟩
  · rw [hasInlineBody_iff, iff_false_right (not_holdsBody_of_none hNone), not_and, not_not]
  · subst hTail
    have hLine : (breakLine t.onLine).2 = [] := by
      have hFirst : (breakLine (t.onLine ++ t.body)).1 = t.onLine := congrArg Prod.fst t.line_eq
      rw [← hFirst, breakLine_breakLine]
    have hBody := (hExact hLine hColon hHash).2 hEnds
    obtain ⟨made, hMade⟩ := exists_assignments_of_closed t.closed settings
    rw [ha.planAtLine_of_tail t hMade, ← hBody]
    split
    · rename_i hInline
      simp [hInline]
    · rename_i hInline
      simp [hInline]

/-- A header whose annotation is a string with a colon, with a body and a comment that ends in one. -/
theorem inlineBody_by_colon_annotated :
    let source := "class A:\n def __init__(self, a) -> \"x:y\": pass # z:\n".toList
    let onLine := " -> \"x:y\": pass # z:\n".toList
    HasColon onLine ∧ '#' ∉ toColon onLine ∧ HoldsBody onLine ∧ hasInlineBody onLine = true ∧
      ¬ HasColon " -> T[1:\n".toList ∧ hasInlineBody " -> T[1:\n".toList = false ∧
      planAtLine source 2 .default = .error (.inlineBody ['A'] 2) := by
  intro source onLine
  let a : HeaderSite := ⟨["class A:\n".toList],
    " def __init__(self, a) -> \"x:y\": pass # z:\n".toList, [], [], " def __init__".toList, rfl,
    fun l hl => absurd hl List.not_mem_nil⟩
  have ha : a.At source 2 := ⟨rfl, rfl⟩
  let t : Tail a.tail := ⟨"self, a".toList, ')', onLine, [], rfl, rfl, rfl, rfl⟩
  have hColon : HasColon onLine := by decide +kernel
  have hHash : '#' ∉ toColon onLine := by decide +kernel
  have hBody : HoldsBody onLine := by decide +kernel
  have hEnds : ¬ EndsInColon (((behindColon onLine).map Scanned.char).takeWhile (· ≠ '#')) := by
    decide +kernel
  have hOther : ¬ HasColon " -> T[1:\n".toList := by decide +kernel
  obtain ⟨hExact, -, hPlan⟩ := inlineBody_by_colon onLine
  obtain ⟨-, hNone, -⟩ := inlineBody_by_colon " -> T[1:\n".toList
  have hSame := (hNone hOther).2 fun _ => by decide +kernel
  refine ⟨hColon, hHash, hBody, ((hExact rfl hColon hHash).2 hEnds).2 hBody, hOther, ?_,
    (hPlan source 2 .default a t ha rfl hColon hHash hEnds).1.2 hBody⟩
  exact Bool.eq_false_iff.2 fun hInline => not_holdsBody_of_none hOther (hSame.1 hInline)

/-- A hash in the annotation hides the body, and makes a colon in front of it the last one. So statements
are put in below a header that has its body on the line, and a header without a body is refused. -/
theorem hash_in_annotation :
    HoldsBody " -> \"a#b\": pass\n".toList ∧ hasInlineBody " -> \"a#b\": pass\n".toList = false ∧
      planAtLine "class A:\n    def __init__(self, a) -> \"a#b\": pass\n".toList 2 .default =
        .ok ⟨[⟨['A'], 2, .generated ["self.a = a".toList]⟩],
          [⟨50, "        ".toList, ["self.a = a".toList]⟩]⟩ ∧
      ¬ HoldsBody " -> \"a:b#c\":\n".toList ∧ hasInlineBody " -> \"a:b#c\":\n".toList = true ∧
      planAtLine "class A:\n    def __init__(self, a) -> \"a:b#c\":\n        pass\n".toList 2 .default =
        .error (.inlineBody ['A'] 2) := by
  decide +kernel

end FieldFill
