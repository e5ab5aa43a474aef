import FieldFill.Proofs.Layout.Tokens
import FieldFill.Proofs.Text.Trim

/-!
# Programs as lists of logical lines

A program that can be read is a list of logical lines with newlines between them. Its layout is that
of each logical line on its own, moved to its place.

Main definitions:

* `ownLine?` — the line of code in a logical line that stands alone.
* `linesOf` — the lines of code of some logical lines.
* `Program` — a program all of whose logical lines can be read.

Main results:

* `Program.layout_text` — the layout of a program.
* `exists_of_linesOf` — a line of code, its logical line, and the lines behind it.
-/

namespace FieldFill

/-! ## The line of code in a logical line -/

/-- The line of code in a logical line that stands alone, with places and rows from zero. -/
def ownLine? (l : Text) : Option Line :=
  lineOf? 0 (marksOf l) (tokens (marksOf l))

theorem tokens_of_ownLine? {l : Text} {own : Line} (h : ownLine? l = some own) :
    own.tokens = tokens (marksOf l) := by
  obtain ⟨first, -, rfl⟩ := Option.map_eq_some_iff.1 h
  rfl

theorem exists_ownLine? {l : Text} {m : Scanned} (hMem : m ∈ marksOf l)
    (hCode : beginsCode m = true) : ∃ own, ownLine? l = some own := by
  obtain ⟨first, hFirst⟩ := Option.isSome_iff_exists.1 (List.find?_isSome.2 ⟨m, hMem, hCode⟩)
  exact ⟨_, by rw [ownLine?, lineOf?, hFirst]; rfl⟩

/-- The blanks in front of the code decide the indentation. -/
theorem indentation_lead {front front' back back' : List Scanned} {m m' : Scanned}
    (hFront : front.map Scanned.char = front'.map Scanned.char) (hm : beginsCode m = true)
    (hm' : beginsCode m' = true) (width : Nat) :
    indentation width (front ++ m :: back) = indentation width (front' ++ m' :: back') := by
  induction front generalizing front' width with
  | nil =>
    obtain rfl : front' = [] := by simpa using hFront.symm
    -- code ends the indentation
    have hEnds : ∀ {n : Scanned} {more : List Scanned}, beginsCode n = true →
        indentation width (n :: more) = width := by
      intro n more hn
      simp only [beginsCode, Bool.and_eq_true, Bool.not_eq_true', decide_eq_true_eq] at hn
      obtain ⟨⟨⟨-, hBlank⟩, hEscape⟩, hMark⟩ := hn
      have hne : ∀ c, isBlank c = true → n.char ≠ c := by
        rintro c hc rfl
        rw [hc] at hBlank
        cases hBlank
      simp [indentation, hne ' ' rfl, hne '\t' rfl, hne '\r' rfl, hne '\x0c' rfl, hne '\n' rfl,
        hEscape, hMark]
    rw [List.nil_append, List.nil_append, hEnds hm, hEnds hm']
  | cons s front ih =>
    cases front' with
    | nil => simp at hFront
    | cons s' front' =>
      obtain ⟨hChar, hMore⟩ := List.cons.inj hFront
      simp only [List.cons_append, indentation, hChar, ih hMore]

/-- The line of code in a logical line whose code begins at a given character. -/
theorem ownLine?_eq_some {l : Text} {front back : List Scanned} {first : Scanned}
    (hMarks : marksOf l = front ++ first :: back) (hFront : ∀ m ∈ front, beginsCode m = false)
    (hCode : beginsCode first = true) :
    ownLine? l = some ⟨first.offset, newlines (front.map Scanned.char),
      indentation 0 (marksOf l), tokens (marksOf l)⟩ := by
  have hNot : ∀ m ∈ front, (!beginsCode m) = true := fun m hm => by simp [hFront m hm]
  have hFind : (marksOf l).find? beginsCode = some first := by
    rw [hMarks, List.find?_append, List.find?_eq_none.2 fun m hm => by simp [hFront m hm],
      List.find?_cons, hCode]
    rfl
  have hLead : (marksOf l).takeWhile (fun s => !beginsCode s) = front := by
    rw [hMarks, List.takeWhile_append_of_pos hNot, List.takeWhile_cons]
    simp [hCode]
  have hRow : newlines (front.map Scanned.char) = 0 + front.countP (·.char = '\n') := by
    rw [Nat.zero_add, newlines, List.count_eq_countP, List.countP_map]
    rfl
  rw [ownLine?, lineOf?, hFind, Option.map_some, hLead, hRow]

/-- Where the code of a logical line begins. -/
theorem exists_of_ownLine? {l : Text} {own : Line} (h : ownLine? l = some own) :
    ∃ front first back, marksOf l = front ++ first :: back ∧
      (∀ m ∈ front, beginsCode m = false) ∧ beginsCode first = true ∧ own.start = first.offset ∧
      own.row = newlines (front.map Scanned.char) ∧ own.indent = indentation 0 (marksOf l) := by
  obtain ⟨first, hFirst, -⟩ := Option.map_eq_some_iff.1 h
  obtain ⟨hCode, front, back, hMarks, hFront⟩ := List.find?_eq_some_iff_append.1 hFirst
  have hNot : ∀ m ∈ front, beginsCode m = false := fun m hm => by simpa using hFront m hm
  rw [ownLine?_eq_some hMarks hNot hCode] at h
  obtain rfl := Option.some.inj h
  exact ⟨front, first, back, hMarks, hNot, hCode, rfl, rfl, rfl⟩

namespace IsLogicalLine

variable {l : Text} {own : Line}

/-- The text in front of the code of a logical line. -/
theorem exists_lead (h : IsLogicalLine l) (hOwn : ownLine? l = some own) :
    ∃ lead code, splitAt? l own.start = some (lead, code) ∧ own.row = newlines lead ∧
      ∀ x rest, l = x ++ rest → Blank x → ∃ y, lead = x ++ y := by
  obtain ⟨front, first, back, hMarks, hFront, hCode, hStart, hRow, -⟩ := exists_of_ownLine? hOwn
  have hText := h.map_char_marksOf
  rw [hMarks, List.map_append, List.map_cons] at hText
  refine ⟨front.map Scanned.char, first.char :: back.map Scanned.char, ?_, hRow, ?_⟩
  · rw [hStart, h.offset_of_marksOf hMarks, ← hText, splitAt?_byteLength]
  · -- blanks begin no code
    intro x rest hx hBlank
    rcases List.append_eq_append_iff.1 (hText.trans hx) with ⟨gap, hGap, hRest⟩ | ⟨y, hLead, -⟩
    · cases gap with
      | nil => exact ⟨[], by simp [hGap]⟩
      | cons c gap =>
        obtain ⟨rfl, -⟩ := List.cons.inj hRest
        have hc : isBlank first.char = true := hBlank _ (by simp [hGap])
        simp [beginsCode, hc] at hCode
    · exact ⟨y, hLead⟩

/-- A token starts and stops at places in the line. -/
theorem splitAt?_of_mem_tokens (h : IsLogicalLine l) (hOwn : ownLine? l = some own) {t : Token}
    (ht : t ∈ own.tokens) :
    (∃ x y, splitAt? l t.start = some (x, y)) ∧ ∃ x y, splitAt? l t.stop = some (x, y) := by
  rw [tokens_of_ownLine? hOwn] at ht
  obtain ⟨⟨m, hm, hStart⟩, ⟨n, hn, hStop⟩⟩ := place_of_mem_tokens ht
  rw [hStart, hStop]
  exact ⟨(h.splitAt?_of_mem_marksOf hm).1, (h.splitAt?_of_mem_marksOf hn).2⟩

end IsLogicalLine

/-- The lines of code of some logical lines that start at a byte position, on the physical line
`row`. -/
def linesOf (offset row : Nat) : List Text → List Line
  | [] => []
  | l :: more =>
    ((ownLine? l).map (Line.moved offset row)).toList ++
      linesOf (offset + byteLength l + 1) (row + newlines l + 1) more

/-! ## Programs -/

/-- A program all of whose logical lines can be read. -/
structure Program where
  lines : List Text
  readable : ∀ l ∈ lines, IsLogicalLine l

def Program.text (p : Program) : Text :=
  List.intercalate ['\n'] p.lines

theorem layoutFrom_of_readLine? {offset row : Nat} {text after : Text} {marks : List Scanned}
    (h : readLine? .start offset text = some (marks, after)) (hText : text ≠ []) :
    layoutFrom offset row text =
      (lineOf? row marks (tokens marks)).toList ++
        layoutFrom (offset + byteLength (marks.map Scanned.char) + 1)
          (row + newlines (marks.map Scanned.char) + 1) after := by
  cases text with
  | nil => exact absurd rfl hText
  | cons c rest =>
    rw [layoutFrom]
    split
    · rename_i marks' after' hRead
      rw [h] at hRead
      obtain ⟨rfl, rfl⟩ := Prod.mk.inj (Option.some.inj hRead)
      rfl
    · rename_i hRead
      rw [h] at hRead
      cases hRead

/-- One logical line of a program, and the layout of what follows it. -/
theorem IsLogicalLine.layoutFrom_eq {l text after : Text} (h : IsLogicalLine l) {offset row : Nat}
    (hText : text ≠ [])
    (hRead : readLine? .start offset text = some ((marksOf l).map (Scanned.shift offset), after)) :
    layoutFrom offset row text =
      ((ownLine? l).map (Line.moved offset row)).toList ++
        layoutFrom (offset + byteLength l + 1) (row + newlines l + 1) after := by
  rw [layoutFrom_of_readLine? hRead hText, map_char_shift, h.map_char_marksOf, tokens_shift,
    lineOf?_shift]
  rfl

theorem layoutFrom_intercalate {ls : List Text} (h : ∀ l ∈ ls, IsLogicalLine l)
    (offset row : Nat) :
    layoutFrom offset row (List.intercalate ['\n'] ls) = linesOf offset row ls := by
  induction ls generalizing offset row with
  | nil => rw [List.intercalate_nil, layoutFrom, linesOf]
  | cons l more ih =>
    obtain ⟨hLine, hMore⟩ := List.forall_mem_cons.1 h
    by_cases hNil : more = []
    · subst hNil
      rw [List.intercalate_singleton, linesOf, linesOf]
      by_cases hEmpty : l = []
      · subst hEmpty
        rw [layoutFrom]
        rfl
      · rw [hLine.layoutFrom_eq hEmpty (hLine.readLine?_end offset), layoutFrom]
    · have hRest := ih hMore (offset + byteLength l + 1) (row + newlines l + 1)
      rw [List.intercalate_cons_of_ne_nil hNil, List.append_assoc, List.singleton_append, linesOf,
        hLine.layoutFrom_eq (by simp) (hLine.readLine?_newline offset _), hRest]

/-- **The layout of a program**: each logical line gives its own line of code, at its place. -/
theorem Program.layout_text (p : Program) : layout p.text = linesOf 0 1 p.lines :=
  layoutFrom_intercalate p.readable 0 1

/-! ## A line and its surroundings -/

/-- The text of some logical lines in front of another one. -/
def ahead (ls : List Text) : Text :=
  ls.flatMap fun l => l ++ ['\n']

theorem ahead_append (a b : List Text) : ahead (a ++ b) = ahead a ++ ahead b :=
  List.flatMap_append

theorem ahead_singleton (l : Text) : ahead [l] = l ++ ['\n'] :=
  List.flatMap_singleton ..

/-- The text behind a logical line, from its newline on. -/
def behind : List Text → Text
  | [] => []
  | l :: more => '\n' :: List.intercalate ['\n'] (l :: more)

theorem intercalate_cons (l : Text) (more : List Text) :
    List.intercalate ['\n'] (l :: more) = l ++ behind more := by
  cases more with
  | nil => rw [List.intercalate_singleton, behind, List.append_nil]
  | cons m more =>
    rw [List.intercalate_cons_of_ne_nil (by simp), List.append_assoc, behind]
    rfl

theorem intercalate_append (before : List Text) (l : Text) (more : List Text) :
    List.intercalate ['\n'] (before ++ l :: more) = ahead before ++ (l ++ behind more) := by
  induction before with
  | nil => exact intercalate_cons l more
  | cons b before ih =>
    rw [List.cons_append, List.intercalate_cons_of_ne_nil (by simp), ih, ahead, ahead,
      List.flatMap_cons]
    simp [List.append_assoc]

theorem ahead_ends (ls : List Text) : ahead ls = [] ∨ ∃ x, ahead ls = x ++ ['\n'] := by
  rcases List.eq_nil_or_concat ls with rfl | ⟨init, l, rfl⟩
  · exact .inl rfl
  · right
    refine ⟨ahead init ++ l, ?_⟩
    simp [ahead]

theorem splitAt?_inside {a l x y b : Text} {place : Nat} (h : splitAt? l place = some (x, y)) :
    splitAt? (a ++ (l ++ b)) (place + byteLength a) = some (a ++ x, y ++ b) := by
  obtain ⟨rfl, rfl⟩ := eq_of_splitAt? h
  rw [Nat.add_comm, ← byteLength_append]
  have hSplit := splitAt?_byteLength (a ++ x) (y ++ b)
  simpa [List.append_assoc] using hSplit

theorem byteLength_ahead (offset : Nat) (l : Text) (ls : List Text) :
    offset + byteLength (ahead (l :: ls)) = offset + byteLength l + 1 + byteLength (ahead ls) := by
  rw [ahead, List.flatMap_cons, byteLength_append, byteLength_append, ← ahead]
  show offset + (byteLength l + 1 + byteLength (ahead ls)) = _
  omega

theorem newlines_ahead (row : Nat) (l : Text) (ls : List Text) :
    row + newlines (ahead (l :: ls)) = row + newlines l + 1 + newlines (ahead ls) := by
  rw [ahead, List.flatMap_cons, newlines, List.count_append, List.count_append, ← ahead]
  show row + (newlines l + 1 + newlines (ahead ls)) = _
  omega

theorem linesOf_append (offset row : Nat) (a b : List Text) :
    linesOf offset row (a ++ b) =
      linesOf offset row a ++
        linesOf (offset + byteLength (ahead a)) (row + newlines (ahead a)) b := by
  induction a generalizing offset row with
  | nil => rfl
  | cons l a ih =>
    rw [List.cons_append, linesOf, linesOf, ih, byteLength_ahead, newlines_ahead, List.append_assoc]

/-- A line of code stands in a logical line, and the lines behind it in the logical lines behind. -/
theorem exists_of_linesOf {ls : List Text} {offset row : Nat} {done rest : List Line} {line : Line}
    (h : linesOf offset row ls = done ++ line :: rest) :
    ∃ before l more own, ls = before ++ l :: more ∧ ownLine? l = some own ∧
      line = own.moved (offset + byteLength (ahead before)) (row + newlines (ahead before)) ∧
      ∃ offset' row', rest = linesOf offset' row' more := by
  induction ls generalizing offset row done with
  | nil => simp [linesOf] at h
  | cons l ls ih =>
    have hLater : ∀ done', linesOf (offset + byteLength l + 1) (row + newlines l + 1) ls =
        done' ++ line :: rest →
        ∃ before l' more own, l :: ls = before ++ l' :: more ∧ ownLine? l' = some own ∧
          line = own.moved (offset + byteLength (ahead before)) (row + newlines (ahead before)) ∧
          ∃ offset' row', rest = linesOf offset' row' more := by
      intro done' hRest
      obtain ⟨before, l', more, own, rfl, hOwn, hLine, hMore⟩ := ih hRest
      exact ⟨l :: before, l', more, own, rfl, hOwn,
        by rw [byteLength_ahead, newlines_ahead, hLine], hMore⟩
    rw [linesOf] at h
    cases hOwn : ownLine? l with
    | none =>
      rw [hOwn] at h
      exact hLater done h
    | some own =>
      rw [hOwn] at h
      cases done with
      | nil =>
        obtain ⟨hLine, hRest⟩ := List.cons.inj h
        exact ⟨[], l, ls, own, rfl, hOwn, hLine.symm, _, _, hRest.symm⟩
      | cons first done => exact hLater done (List.cons.inj h).2

end FieldFill
