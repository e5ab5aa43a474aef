import FieldFill.Proofs.Plan.Place
import FieldFill.Proofs.Plan.Weave
import Mathlib.Data.List.Infix

/-!
# New lines beside the lines of a program

Between two logical lines, all new lines belong to the one in front or all to the one behind: where
strings stand in front, they are the placeholder that is filled, since the line in front of a first
statement is the header. So the lines that are put into a program can be told apart by the line they
stand beside.

Main definitions:

* `Spot.gap` — the logical lines in front of the place beside a spot.
* `IsRow`, `IsNew` — the lines put in beside a line of code.
* `Beside` — a logical line with the new lines in front of it and behind it.
* `attached` — logical lines, each with the new lines beside it.

Main results:

* `attached_eq` — new lines between logical lines are new lines beside them.
* `beside_rows` — the new lines beside a logical line.
* `beside_closing` — the new lines beside the last one.
-/

namespace FieldFill

/-! ## Places -/

/-- Of the beginnings of a list of lines, no two are equally long. -/
theorem eq_of_byteLength_ahead {a b ls : List Text} (ha : a <+: ls) (hb : b <+: ls)
    (h : byteLength (ahead a) = byteLength (ahead b)) : a = b := by
  have hGrows : ∀ {d c : List Text}, byteLength (ahead d) = byteLength (ahead (d ++ c)) →
      d = d ++ c := by
    intro d c hEq
    cases c with
    | nil => exact (List.append_nil d).symm
    | cons l c =>
      have hlt := byteLength_ahead_lt d l
      have hle := byteLength_ahead_le (d ++ [l]) c
      rw [List.append_assoc, List.singleton_append] at hle
      omega
  rcases List.prefix_or_prefix_of_prefix ha hb with ⟨c, rfl⟩ | ⟨c, rfl⟩
  · exact hGrows h
  · exact (hGrows h.symm).symm

namespace Spot

variable {p : Program}

/-- The logical lines in front of the place beside a spot. -/
def gap (s : Spot p) : List Text :=
  if isStrings s.own.tokens then s.before ++ [s.text] else s.before

theorem gap_prefix (s : Spot p) : s.gap <+: p.lines := by
  rw [gap, s.split]
  split
  · exact ⟨s.more, by simp⟩
  · exact ⟨s.text :: s.more, rfl⟩

theorem place_eq (s : Spot p) (h : isStrings s.own.tokens = false ∨ s.more ≠ []) :
    s.place = byteLength (ahead s.gap) := by
  unfold place gap
  by_cases hStrings : isStrings s.own.tokens = true
  · rw [if_pos hStrings, if_pos hStrings, if_neg]
    exact h.resolve_left (by simp [hStrings])
  · rw [if_neg hStrings, if_neg hStrings, offset]

/-- A place that is not at the end of the program is in front of a logical line. -/
theorem exists_behind_gap (s : Spot p) (h : isStrings s.own.tokens = false ∨ s.more ≠ []) :
    ∃ rest, p.lines = s.gap ++ rest ∧ rest ≠ [] := by
  rw [gap, s.split]
  by_cases hStrings : isStrings s.own.tokens = true
  · rw [if_pos hStrings]
    exact ⟨s.more, by simp, h.resolve_left (by simp [hStrings])⟩
  · rw [if_neg hStrings]
    exact ⟨s.text :: s.more, rfl, by simp⟩

theorem start_lt (s : Spot p) : s.line.start < byteLength (ahead (s.before ++ [s.text])) := by
  obtain ⟨lead, code, hLead, -⟩ := s.isLogicalLine.exists_lead s.code
  obtain ⟨hText, hStart⟩ := eq_of_splitAt? hLead
  have hNewline : byteLength ['\n'] = 1 := rfl
  have hLength := congrArg byteLength hText
  rw [byteLength_append] at hLength
  rw [ahead_append, ahead_singleton, byteLength_append, byteLength_append, hNewline]
  show s.own.start + s.offset < _
  rw [offset]
  omega

/-- A line of code stands at one spot only. -/
theorem eq_of_line_eq {s t : Spot p} (h : s.line = t.line) : s = t := by
  have hStart : ∀ {s t : Spot p}, s.line = t.line → ∀ {c : List Text}, t.before = s.before ++ c →
      c = [] := by
    intro s t h c hBefore
    cases c with
    | nil => rfl
    | cons l c =>
      have hSplit : p.lines = s.before ++ l :: (c ++ t.text :: t.more) := by
        rw [t.split, hBefore, List.append_assoc, List.cons_append]
      obtain ⟨rfl, -⟩ := s.eq_of_before rfl hSplit
      have hBehind := s.start_lt
      have hLe := byteLength_ahead_le (s.before ++ [s.text]) c
      rw [List.append_assoc, List.singleton_append, ← hBefore] at hLe
      have hOffset : t.offset ≤ t.line.start := Nat.le_add_left t.offset t.own.start
      rw [offset] at hOffset
      rw [← h] at hOffset
      omega
  have hBefore : s.before = t.before := by
    have hs : s.before <+: p.lines := ⟨_, s.split.symm⟩
    have ht : t.before <+: p.lines := ⟨_, t.split.symm⟩
    rcases List.prefix_or_prefix_of_prefix hs ht with ⟨c, hc⟩ | ⟨c, hc⟩
    · rw [← hc, hStart h hc.symm, List.append_nil]
    · rw [← hc, hStart h.symm hc.symm, List.append_nil]
  obtain ⟨hText, hMore⟩ := s.eq_of_before hBefore t.split
  have hOwn : s.own = t.own := by
    have hCode := s.code
    rw [hText, t.code] at hCode
    exact (Option.some.inj hCode).symm
  obtain ⟨before, text, more, own, split, code⟩ := s
  obtain ⟨before', text', more', own', split', code'⟩ := t
  dsimp only at hBefore hText hMore hOwn
  subst hBefore hText hMore hOwn
  rfl

end Spot

/-! ## The rows of an insertion -/

/-- An assignment on a line as deep as a line of code. -/
structure IsRow (l : Text) (own : Line) (r : Text) : Prop where
  exists_row : ∃ a lead code tail, Assignment.Named a ∧ BlankInLine lead ∧ BlankInLine tail ∧
    splitAt? l own.start = some (lead, code) ∧ r = a.row lead tail

/-- A new line beside a line of code: an assignment, or nothing but blanks. -/
def IsNew (l : Text) (own : Line) (r : Text) : Prop :=
  IsRow l own r ∨ BlankInLine r

namespace Fits

variable {p : Program} {s : Spot p} {i : Insertion}

theorem isRow (h : Fits s i) {before r : Text} (hr : r ∈ i.rows before) :
    IsRow s.text s.own r := by
  obtain ⟨made, -, hNamed, hLines⟩ := h.rows
  obtain ⟨code, hLead⟩ := h.lead
  rw [Insertion.rows, hLines, List.map_map] at hr
  obtain ⟨a, ha, rfl⟩ := List.mem_map.1 hr
  refine ⟨a, i.indent, code, returnOf before, hNamed a ha, h.blank, blankInLine_returnOf before,
    hLead, ?_⟩
  rw [Assignment.row_eq]
  rfl

theorem exists_mem_rows (h : Fits s i) (before : Text) : ∃ r, r ∈ i.rows before := by
  obtain ⟨made, hne, -, hLines⟩ := h.rows
  obtain ⟨a, more, rfl⟩ := List.exists_cons_of_ne_nil hne
  rw [Insertion.rows, hLines]
  exact ⟨_, List.mem_cons_self ..⟩

end Fits

/-! ## To which line new lines belong -/

/-- The last of some logical lines is a line of strings. -/
def endsInStrings (ls : List Text) : Bool :=
  (ls.getLast?.bind ownLine?).any fun own => isStrings own.tokens

theorem endsInStrings_concat {l : Text} {own : Line} (h : ownLine? l = some own)
    (before : List Text) : endsInStrings (before ++ [l]) = isStrings own.tokens := by
  simp [endsInStrings, h]

theorem isPlaceholder_of_isStrings {list : List Token} (h : isStrings list = true) :
    isPlaceholder list = true := by
  unfold isPlaceholder
  split
  · have hLiteral : ∀ t : Token, isStrings [t] = t.isLiteral := fun t => by simp [isStrings]
    rw [← hLiteral, h, Bool.or_true]
  · rw [h, Bool.or_true]
  · exact h

/-- No line of strings stands in front of a first statement. -/
theorem Fits.endsInStrings_before {p : Program} {s : Spot p} {i : Insertion} (h : Fits s i) :
    endsInStrings s.before = false := by
  obtain ⟨front, head, back, hLayout, hHead⟩ := h.header
  rcases List.eq_nil_or_concat s.before with hNil | ⟨before, l, hBefore⟩
  · rw [hNil]
    rfl
  rw [List.concat_eq_append] at hBefore
  cases hOwn : ownLine? l with
  | none => simp [endsInStrings, hBefore, hOwn]
  | some own =>
    rw [hBefore, endsInStrings_concat hOwn, Bool.eq_false_iff]
    intro hStrings
    -- the line of strings would be the header
    have hSplit : layout p.text = (front ++ [head]) ++ s.line :: back := by simp [hLayout]
    have hEq := (append_inj_of_layout s.layout_eq hSplit).1
    rw [hBefore, linesOf_append, linesOf, linesOf, hOwn] at hEq
    obtain rfl : _ = head := List.cons.inj (List.append_inj_right' hEq rfl) |>.1
    have hNone := functionHeader_of_isPlaceholder (isPlaceholder_of_isStrings hStrings)
    rw [Line.moved, FunctionHeader.ofTokens?_shift, hNone] at hHead
    cases hHead

/-- The new lines in front of the next line that belong to it. -/
def frontRows (list : List Insertion) (before : List Text) : List Text :=
  if endsInStrings before then [] else newRows list before

/-- The new lines behind a line that belong to it. -/
def backRows (list : List Insertion) (before : List Text) : List Text :=
  if endsInStrings before then newRows list before else []

theorem backRows_append_frontRows (list : List Insertion) (before : List Text) :
    backRows list before ++ frontRows list before = newRows list before := by
  rw [backRows, frontRows]
  split
  · exact List.append_nil _
  · exact List.nil_append _

/-- Logical lines behind `before`, each with the new lines beside it. -/
def attached (list : List Insertion) (before : List Text) : List Text → List Text
  | [] => []
  | l :: more =>
    frontRows list before ++ l :: backRows list (before ++ [l]) ++
      attached list (before ++ [l]) more

theorem backRows_append_attached (list : List Insertion) (before a : List Text) :
    backRows list before ++ attached list before a =
      weave list before a ++ backRows list (before ++ a) := by
  induction a generalizing before with
  | nil => rw [attached, weave, List.append_nil, List.append_nil, List.nil_append]
  | cons l a ih =>
    have hRest := ih (before ++ [l])
    rw [List.append_assoc, List.singleton_append] at hRest
    rw [attached, weave, ← backRows_append_frontRows list before]
    simp only [List.append_assoc, List.cons_append, hRest]

/-- **New lines between logical lines are new lines beside them.** -/
theorem attached_eq (list : List Insertion) (a : List Text) :
    attached list [] a ++ frontRows list a = weave list [] a ++ newRows list a := by
  have hBoth := backRows_append_attached list [] a
  have hNone : backRows list [] = [] := rfl
  rw [hNone, List.nil_append, List.nil_append] at hBoth
  rw [hBoth, List.append_assoc, backRows_append_frontRows]

/-! ## One logical line and the new lines beside it -/

/-- A logical line `l` of a program behind `before`, which may be ended otherwise, with new lines in
front of it and behind it. -/
structure Beside (p : Program) (list : List Insertion) (before : List Text) (l : Text)
    (front : List Text) (l' : Text) (back : List Text) : Prop where
  same : l' = l ∨ l' = l ++ ['\r']
  /-- New lines stand beside placeholders. -/
  new : ∀ r ∈ front ++ back, ∃ t : Spot p, t.before = before ∧ t.text = l ∧
    isPlaceholder t.own.tokens = true ∧ IsNew l t.own r
  /-- Where an insertion goes, there is an assignment. -/
  filled : ∀ t : Spot p, t.before = before → ∀ i ∈ list, Fits t i →
    ∃ r ∈ front ++ back, IsRow t.text t.own r

section

variable {p : Program} {list : List Insertion} {before more : List Text} {l r : Text}

/-- All new lines at one place belong to a spot beside it. -/
theorem exists_of_mem_newRows
    (hList : ∀ i ∈ list, ∃ s : Spot p, Fits s i ∧ i.offset = byteLength (ahead s.gap))
    (hBefore : before <+: p.lines) (hr : r ∈ newRows list before) :
    ∃ s : Spot p, ∃ i, Fits s i ∧ s.gap = before ∧ IsRow s.text s.own r := by
  obtain ⟨i, hi, hRow⟩ := List.mem_flatMap.1 hr
  obtain ⟨hMem, hOffset⟩ := List.mem_filter.1 hi
  obtain ⟨s, hFits, hPlace⟩ := hList i hMem
  refine ⟨s, i, hFits, eq_of_byteLength_ahead s.gap_prefix hBefore ?_, hFits.isRow hRow⟩
  rw [← hPlace]
  exact of_decide_eq_true hOffset

theorem exists_of_mem_frontRows
    (hList : ∀ i ∈ list, ∃ s : Spot p, Fits s i ∧ i.offset = byteLength (ahead s.gap))
    (hSplit : p.lines = before ++ l :: more) (hr : r ∈ frontRows list before) :
    ∃ t : Spot p, t.before = before ∧ t.text = l ∧ isPlaceholder t.own.tokens = true ∧
      IsNew l t.own r := by
  unfold frontRows at hr
  split at hr
  · cases hr
  rename_i hEnds
  obtain ⟨s, i, hFits, hGap, hRow⟩ := exists_of_mem_newRows hList ⟨_, hSplit.symm⟩ hr
  have hStrings : ¬ isStrings s.own.tokens = true := by
    intro hStrings
    rw [Spot.gap, if_pos hStrings] at hGap
    rw [← hGap, endsInStrings_concat s.code] at hEnds
    exact hEnds hStrings
  rw [Spot.gap, if_neg hStrings] at hGap
  obtain ⟨rfl, -⟩ := s.eq_of_before hGap hSplit
  exact ⟨s, hGap, rfl, hFits.placeholder, .inl hRow⟩

theorem exists_of_mem_backRows
    (hList : ∀ i ∈ list, ∃ s : Spot p, Fits s i ∧ i.offset = byteLength (ahead s.gap))
    (hSplit : p.lines = before ++ l :: more) (hr : r ∈ backRows list (before ++ [l])) :
    ∃ t : Spot p, t.before = before ∧ t.text = l ∧ isPlaceholder t.own.tokens = true ∧
      IsNew l t.own r := by
  unfold backRows at hr
  split at hr
  · rename_i hEnds
    have hPrefix : before ++ [l] <+: p.lines := ⟨more, by simp [hSplit]⟩
    obtain ⟨s, i, hFits, hGap, hRow⟩ := exists_of_mem_newRows hList hPrefix hr
    have hStrings : isStrings s.own.tokens = true := by
      by_contra hStrings
      rw [Spot.gap, if_neg hStrings] at hGap
      rw [← hGap, hFits.endsInStrings_before] at hEnds
      cases hEnds
    rw [Spot.gap, if_pos hStrings] at hGap
    obtain ⟨hBefore, hText⟩ := List.append_inj' hGap rfl
    obtain rfl : s.text = l := List.singleton_inj.1 hText
    exact ⟨s, hBefore, rfl, hFits.placeholder, .inl hRow⟩
  · cases hr

/-- The lines of an insertion are among the new lines at its place. -/
theorem mem_newRows {i : Insertion} (hMem : i ∈ list)
    (hOffset : i.offset = byteLength (ahead before)) (hr : r ∈ i.rows (ahead before)) :
    r ∈ newRows list before :=
  List.mem_flatMap.2 ⟨i, List.mem_filter.2 ⟨hMem, decide_eq_true hOffset⟩, hr⟩

theorem Fits.exists_frontRow {s : Spot p} {i : Insertion} (h : Fits s i) (hMem : i ∈ list)
    (hStrings : isStrings s.own.tokens = false) :
    ∃ r ∈ frontRows list s.before, IsRow s.text s.own r := by
  obtain ⟨r, hr⟩ := h.exists_mem_rows (ahead s.before)
  refine ⟨r, ?_, h.isRow hr⟩
  have hOffset := h.place.trans (s.place_eq (.inl hStrings))
  rw [Spot.gap, hStrings, if_neg Bool.false_ne_true] at hOffset
  rw [frontRows, h.endsInStrings_before, if_neg Bool.false_ne_true]
  exact mem_newRows hMem hOffset hr

theorem Fits.exists_backRow {s : Spot p} {i : Insertion} (h : Fits s i) (hMem : i ∈ list)
    (hStrings : isStrings s.own.tokens = true) (hMore : s.more ≠ []) :
    ∃ r ∈ backRows list (s.before ++ [s.text]), IsRow s.text s.own r := by
  obtain ⟨r, hr⟩ := h.exists_mem_rows (ahead (s.before ++ [s.text]))
  refine ⟨r, ?_, h.isRow hr⟩
  have hOffset := h.place.trans (s.place_eq (.inr hMore))
  rw [Spot.gap, if_pos hStrings] at hOffset
  rw [backRows, endsInStrings_concat s.code, if_pos hStrings]
  exact mem_newRows hMem hOffset hr

/-- **The new lines beside a logical line** with others behind it. -/
theorem beside_rows {all : List Insertion}
    (hList : ∀ i ∈ list, ∃ s : Spot p, Fits s i ∧ i.offset = byteLength (ahead s.gap))
    (hAll : ∀ i ∈ all, ∀ s : Spot p, Fits s i → s.before = before → i ∈ list)
    (hSplit : p.lines = before ++ l :: more) (hMore : more ≠ []) :
    Beside p all before l (frontRows list before) l (backRows list (before ++ [l])) where
  same := .inl rfl
  new := fun r hr => (List.mem_append.1 hr).elim (exists_of_mem_frontRows hList hSplit)
    (exists_of_mem_backRows hList hSplit)
  filled := by
    intro t hBefore i hi hFits
    have hMem := hAll i hi t hFits hBefore
    obtain ⟨hText, hRest⟩ := t.eq_of_before hBefore hSplit
    cases hStrings : isStrings t.own.tokens with
    | false =>
      obtain ⟨r, hr, hRow⟩ := hFits.exists_frontRow hMem hStrings
      exact ⟨r, List.mem_append_left _ (hBefore ▸ hr), hRow⟩
    | true =>
      obtain ⟨r, hr, hRow⟩ := hFits.exists_backRow hMem hStrings (hRest ▸ hMore)
      exact ⟨r, List.mem_append_right _ (hBefore ▸ hText ▸ hr), hRow⟩

/-! ## The last logical line -/

theorem exists_closing (text l : Text) (list : List Insertion) :
    ∃ l' back, closing text l list = l' :: back ∧ (l' = l ∨ l' = l ++ ['\r']) ∧
      (∀ r ∈ back, ∃ i ∈ list, r ∈ i.rows text ∨ BlankInLine r) ∧
      ∀ i ∈ list, ∀ r ∈ i.rows text, r ∈ back := by
  cases list with
  | nil =>
    exact ⟨l, [], rfl, .inl rfl, fun r hr => absurd hr List.not_mem_nil,
      fun i hi => absurd hi List.not_mem_nil⟩
  | cons i more =>
    refine ⟨_, _, rfl, ?_, ?_, ?_⟩
    · rcases returnOf_cases text with h | h
      · exact .inl (by rw [h, List.append_nil])
      · exact .inr (by rw [h])
    · have hEmpty : BlankInLine [] := ⟨fun c hc => absurd hc List.not_mem_nil, List.not_mem_nil⟩
      intro r hr
      simp only [List.mem_append, List.mem_flatMap, List.mem_cons, List.not_mem_nil, or_false] at hr
      rcases hr with (hr | ⟨j, hj, rfl | hr⟩) | rfl
      · exact ⟨i, List.mem_cons_self .., .inl hr⟩
      · exact ⟨j, List.mem_cons_of_mem _ hj, .inr (blankInLine_returnOf text)⟩
      · exact ⟨j, List.mem_cons_of_mem _ hj, .inl hr⟩
      · exact ⟨i, List.mem_cons_self .., .inr hEmpty⟩
    · intro j hj r hr
      simp only [List.mem_append, List.mem_flatMap, List.mem_cons]
      rcases List.mem_cons.1 hj with rfl | hMem
      · exact .inl (.inl hr)
      · exact .inl (.inr ⟨j, hMem, .inr hr⟩)

/-- **The new lines beside the last logical line**, those at the end of the program among them. -/
theorem beside_closing {all ends : List Insertion} (text : Text)
    (hList : ∀ i ∈ list, ∃ s : Spot p, Fits s i ∧ i.offset = byteLength (ahead s.gap))
    (hEnds : ∀ i ∈ ends, ∃ s : Spot p, Fits s i ∧ s.before = before)
    (hAll : ∀ i ∈ all, ∀ s : Spot p, Fits s i → s.before = before →
      if isStrings s.own.tokens then i ∈ ends else i ∈ list)
    (hSplit : p.lines = before ++ [l]) :
    ∃ l' back, closing text l ends = l' :: back ∧
      Beside p all before l (frontRows list before) l' back := by
  have hText : ∀ {s : Spot p}, s.before = before → s.text = l :=
    fun {s} hBefore => (s.eq_of_before hBefore hSplit).1
  obtain ⟨l', back, hClosing, hSame, hNew, hRows⟩ := exists_closing text l ends
  refine ⟨l', back, hClosing, hSame, ?_, ?_⟩
  · intro r hr
    rcases List.mem_append.1 hr with hFront | hBack
    · exact exists_of_mem_frontRows hList hSplit hFront
    · obtain ⟨i, hi, hEither⟩ := hNew r hBack
      obtain ⟨s, hFits, hBefore⟩ := hEnds i hi
      refine ⟨s, hBefore, hText hBefore, hFits.placeholder, ?_⟩
      rcases hEither with hRow | hBlank
      · exact .inl (hText hBefore ▸ hFits.isRow hRow)
      · exact .inr hBlank
  · intro t hBefore i hi hFits
    have hKind := hAll i hi t hFits hBefore
    cases hStrings : isStrings t.own.tokens with
    | false =>
      rw [hStrings, if_neg Bool.false_ne_true] at hKind
      obtain ⟨r, hr, hRow⟩ := hFits.exists_frontRow hKind hStrings
      exact ⟨r, List.mem_append_left _ (hBefore ▸ hr), hRow⟩
    | true =>
      rw [if_pos hStrings] at hKind
      obtain ⟨r, hr⟩ := hFits.exists_mem_rows text
      exact ⟨r, List.mem_append_right _ (hRows i hKind r hr), hFits.isRow hr⟩

end

end FieldFill
