import FieldFill.Proofs.Plan.Beside

/-!
# Filled programs

A program to which a plan was applied is a program again, and its lines are those it had, grown: each
with the new lines beside it.

Main definitions:

* `Growing`, `Growth` — a line of a program and what it is in the filled program.

Main results:

* `expands_beside` — one logical line and the new lines beside it, as lines of code.
* `exists_filled` — applying the insertions of a plan gives a program whose lines have grown.
-/

namespace FieldFill

/-! ## New lines -/

section

variable {q : Program} {l r : Text} {own : Line}

theorem IsRow.isLogicalLine (h : IsRow l own r) : IsLogicalLine r := by
  obtain ⟨a, lead, code, tail, hNamed, hLead, hTail, -, rfl⟩ := h.exists_row
  exact (hNamed.exists_ownLine? hLead hTail).1

theorem IsRow.exists_own (h : IsRow l own r) : ∃ own', ownLine? r = some own' := by
  obtain ⟨a, lead, code, tail, hNamed, hLead, hTail, -, rfl⟩ := h.exists_row
  obtain ⟨-, own', -, hOwn, -⟩ := hNamed.exists_ownLine? hLead hTail
  exact ⟨own', hOwn⟩

theorem IsNew.isLogicalLine (h : IsNew l own r) : IsLogicalLine r := by
  rcases h with hRow | hBlank
  · exact hRow.isLogicalLine
  · exact (isLogicalLine_plain hBlank.staysPlain).1

theorem IsStatement.moved {y : Line} (h : IsStatement y) (offset row : Nat) :
    IsStatement (y.moved offset row) where
  noClass := by rw [Line.moved, ClassHeader.ofTokens?_shift, h.noClass, Option.map_none]
  noFunction := by rw [Line.moved, FunctionHeader.ofTokens?_shift, h.noFunction, Option.map_none]
  noPlaceholder := by rw [Line.moved, isPlaceholder_shift, h.noPlaceholder]

/-- A new line with code is a statement as deep as the line it stands beside. -/
theorem IsNew.isStatement (hLine : IsLogicalLine l) (hOwn : ownLine? l = some own) {t : Spot q}
    (h : IsNew l own t.text) : IsStatement t.line ∧ t.line.indent = own.indent ∧
      allBlank (leadAt q.text t.line.start) = true := by
  rcases h with hRow | hBlank
  · obtain ⟨a, lead, code, tail, hNamed, hLead, hTail, hSplit, hText⟩ := hRow.exists_row
    obtain ⟨-, own', code', hOwn', hSplit', -, hTokens⟩ := hNamed.exists_ownLine? hLead hTail
    rw [← hText] at hOwn' hSplit'
    obtain rfl : own' = t.own := Option.some.inj (hOwn'.symm.trans t.code)
    have hInside := t.leadAt_eq hSplit'
    rw [leadAt_eq hSplit', lastLine_of_not_mem hLead.line] at hInside
    refine ⟨hTokens.isStatement.moved _ _, ?_, ?_⟩
    · exact (indent_eq_of_lead hLine t.isLogicalLine hOwn t.code hSplit hSplit').symm
    · exact (congrArg allBlank hInside).trans (List.all_eq_true.2 hLead.blank)
  · have hNone := IsLogicalLine.ownLine?_blank hBlank.blank hBlank.line
    rw [t.code] at hNone
    cases hNone

end

/-! ## Lines at their places -/

/-- The lines of code of some logical lines behind `before`. -/
def linesAt (before ls : List Text) : List Line :=
  linesOf (byteLength (ahead before)) (1 + newlines (ahead before)) ls

theorem linesAt_append (before a b : List Text) :
    linesAt before (a ++ b) = linesAt before a ++ linesAt (before ++ a) b := by
  unfold linesAt
  rw [linesOf_append, ahead_append, byteLength_append, newlines, newlines, newlines,
    List.count_append, Nat.add_assoc]

theorem Program.layout_eq (p : Program) : layout p.text = linesAt [] p.lines :=
  p.layout_text

theorem linesAt_singleton (before : List Text) (l : Text) :
    linesAt before [l] = ((ownLine? l).map
      (Line.moved (byteLength (ahead before)) (1 + newlines (ahead before)))).toList :=
  List.append_nil _

theorem Spot.linesAt_eq {p : Program} (s : Spot p) : linesAt s.before [s.text] = [s.line] := by
  rw [linesAt_singleton, s.code]
  rfl

/-- A line of code among some logical lines of a program has a spot there. -/
theorem exists_spot_of_mem_linesAt {q : Program} {before ls rest : List Text} {z : Line}
    (hLines : q.lines = before ++ ls ++ rest) (hz : z ∈ linesAt before ls) :
    ∃ t : Spot q, t.line = z ∧ t.text ∈ ls := by
  obtain ⟨done, later, hSplit⟩ := List.append_of_mem hz
  obtain ⟨a, l, b, own, rfl, hOwn, hLine, -⟩ := exists_of_linesOf hSplit
  refine ⟨⟨before ++ a, l, b ++ rest, own, by simp [hLines], hOwn⟩, ?_, by simp⟩
  rw [hLine, Spot.line, Spot.offset]
  simp only [ahead_append, byteLength_append, newlines, List.count_append, Nat.add_assoc]

theorem linesAt_ne_nil {before ls : List Text} {r : Text} {own : Line} (hr : r ∈ ls)
    (hOwn : ownLine? r = some own) : linesAt before ls ≠ [] := by
  obtain ⟨a, b, rfl⟩ := List.append_of_mem hr
  rw [← List.singleton_append, linesAt_append, linesAt_append, linesAt_singleton, hOwn]
  simp

/-! ## Lines that have grown -/

/-- A line of a program at a spot of another one, with new lines in front of it and behind it. -/
structure Growing {p q : Program} (list : List Insertion) (s : Spot p) (t : Spot q)
    (front back : List Line) : Prop where
  own : t.own = s.own
  text : t.text = s.text ∨ t.text = s.text ++ ['\r']
  placeholder : front ++ back ≠ [] → isPlaceholder s.own.tokens = true
  new : ∀ z ∈ front ++ back, IsStatement z ∧ z.indent = s.own.indent ∧
    allBlank (leadAt q.text z.start) = true
  filled : ∀ i ∈ list, Fits s i → front ++ back ≠ []

/-- What a line of a program is in a filled program. -/
def Growth (p q : Program) (list : List Insertion) (x : Line) (ys : List Line) : Prop :=
  ∃ (s : Spot p) (t : Spot q) (front back : List Line), x = s.line ∧
    ys = front ++ t.line :: back ∧ Growing list s t front back

theorem Growth.grows {p q : Program} {list : List Insertion} {x : Line} {ys : List Line}
    (h : Growth p q list x ys) : Grows x ys := by
  obtain ⟨s, t, front, back, rfl, rfl, hGrowing⟩ := h
  refine ⟨front, t.line, back, rfl, ?_, ?_, ?_⟩
  · refine ⟨s.own, s.offset, 1 + newlines (ahead s.before), t.offset,
      1 + newlines (ahead t.before), rfl, ?_⟩
    rw [Spot.line, hGrowing.own]
  · intro z hz
    obtain ⟨hStatement, hIndent, -⟩ := hGrowing.new z hz
    exact ⟨hStatement, hIndent⟩
  · intro hne
    rw [Spot.line, Line.moved, isPlaceholder_shift]
    exact hGrowing.placeholder hne

theorem Expands.append {E : Line → List Line → Prop} {M M' N N' : List Line}
    (h : Expands E M N) (h' : Expands E M' N') : Expands E (M ++ M') (N ++ N') := by
  induction h with
  | nil => exact h'
  | cons hx _ ih =>
    rw [List.cons_append, List.append_assoc]
    exact .cons hx ih

section

variable {p q : Program} {list : List Insertion} {before before' more more' : List Text} {l : Text}

namespace Beside

variable {front back : List Text} {l' : Text}

theorem isLogicalLine (h : Beside p list before l front l' back) (hLine : IsLogicalLine l) :
    ∀ w ∈ front ++ l' :: back, IsLogicalLine w := by
  intro w hw
  rcases List.mem_cons.1 (List.perm_middle.mem_iff.1 hw) with rfl | hNew
  · rcases h.same with hSame | hSame
    · rw [hSame]
      exact hLine
    · rw [hSame]
      exact hLine.exists_return.1
  · obtain ⟨t, -, -, -, hNew⟩ := h.new w hNew
    exact hNew.isLogicalLine

theorem ownLine?_eq (h : Beside p list before l front l' back) (hLine : IsLogicalLine l) :
    ownLine? l' = ownLine? l := by
  rcases h.same with hSame | hSame
  · rw [hSame]
  · rw [hSame]
    exact hLine.ownLine?_return

/-- Nothing stands beside a line without code. -/
theorem eq_nil_of_own (h : Beside p list before l front l' back) (hOwn : ownLine? l = none) :
    front = [] ∧ back = [] := by
  refine List.append_eq_nil_iff.1 (List.eq_nil_iff_forall_not_mem.2 fun r hr => ?_)
  obtain ⟨t, -, rfl, -⟩ := h.new r hr
  rw [t.code] at hOwn
  cases hOwn

/-- What the lines of code among the new lines beside a line of code are. -/
theorem growing {s : Spot p} {t : Spot q}
    (h : Beside p list s.before s.text front t.text back) (hOwn : t.own = s.own)
    (hBefore : t.before = before' ++ front) (hMore : t.more = back ++ more') :
    Growing list s t (linesAt before' front) (linesAt (before' ++ front ++ [t.text]) back) := by
  have hSame : ∀ {u : Spot p}, u.before = s.before → u = s := by
    intro u hu
    obtain ⟨hText, -⟩ := u.eq_of_before hu s.split
    have hCode := u.code
    rw [hText, s.code] at hCode
    refine Spot.eq_of_line_eq ?_
    rw [Spot.line, Spot.line, Spot.offset, Spot.offset, hu, Option.some.inj hCode]
  have hNew : ∀ r ∈ front ++ back, isPlaceholder s.own.tokens = true ∧ IsNew s.text s.own r := by
    intro r hr
    obtain ⟨u, hu, -, hPlaceholder, hNew⟩ := h.new r hr
    rw [hSame hu] at hPlaceholder hNew
    exact ⟨hPlaceholder, hNew⟩
  -- every line of code beside the line is that of a new line
  have hSpot : ∀ z ∈ linesAt before' front ++ linesAt (before' ++ front ++ [t.text]) back,
      ∃ u : Spot q, u.line = z ∧ u.text ∈ front ++ back := by
    intro z hz
    rcases List.mem_append.1 hz with hFront | hBack
    · have hRest : q.lines = before' ++ front ++ (t.text :: t.more) := by rw [t.split, hBefore]
      obtain ⟨u, hu, hMem⟩ := exists_spot_of_mem_linesAt hRest hFront
      exact ⟨u, hu, List.mem_append_left _ hMem⟩
    · have hRest : q.lines = before' ++ front ++ [t.text] ++ back ++ more' := by
        rw [t.split, hBefore, hMore]
        simp
      obtain ⟨u, hu, hMem⟩ := exists_spot_of_mem_linesAt hRest hBack
      exact ⟨u, hu, List.mem_append_right _ hMem⟩
  refine ⟨hOwn, h.same, fun hne => ?_, fun z hz => ?_, fun i hi hFits => ?_⟩
  · obtain ⟨z, hz⟩ := List.exists_mem_of_ne_nil _ hne
    obtain ⟨u, -, hMem⟩ := hSpot z hz
    exact (hNew u.text hMem).1
  · obtain ⟨u, rfl, hMem⟩ := hSpot z hz
    exact (hNew u.text hMem).2.isStatement s.isLogicalLine s.code
  · obtain ⟨r, hr, hRow⟩ := h.filled s rfl i hi hFits
    obtain ⟨own', hOwn'⟩ := hRow.exists_own
    rcases List.mem_append.1 hr with hFront | hBack
    · exact List.append_ne_nil_of_left_ne_nil (linesAt_ne_nil hFront hOwn') _
    · exact List.append_ne_nil_of_right_ne_nil _ (linesAt_ne_nil hBack hOwn')

end Beside

/-- **A logical line grows to itself and the new lines beside it.** -/
theorem expands_beside {front back : List Text} {l' : Text} (hSplit : p.lines = before ++ l :: more)
    (hLines : q.lines = before' ++ (front ++ l' :: back) ++ more')
    (h : Beside p list before l front l' back) :
    Expands (Growth p q list) (linesAt before [l]) (linesAt before' (front ++ l' :: back)) := by
  have hLine : IsLogicalLine l := p.readable l (by simp [hSplit])
  have hAll : linesAt before' (front ++ l' :: back) = linesAt before' front ++
      (linesAt (before' ++ front) [l'] ++ linesAt (before' ++ front ++ [l']) back) := by
    rw [linesAt_append, ← List.singleton_append, linesAt_append]
  cases hOwn : ownLine? l with
  | none =>
    obtain ⟨rfl, rfl⟩ := h.eq_nil_of_own hOwn
    rw [List.nil_append, linesAt_singleton, linesAt_singleton, h.ownLine?_eq hLine, hOwn]
    exact .nil
  | some own =>
    let s : Spot p := ⟨before, l, more, own, hSplit, hOwn⟩
    let t : Spot q := ⟨before' ++ front, l', back ++ more', own, by simp [hLines],
      (h.ownLine?_eq hLine).trans hOwn⟩
    have hGrowing : Growing list s t (linesAt before' front)
        (linesAt (before' ++ front ++ [l']) back) :=
      Beside.growing (s := s) (t := t) h rfl rfl rfl
    have hFirst : linesAt before [l] = [s.line] := s.linesAt_eq
    have hMiddle : linesAt (before' ++ front) [l'] = [t.line] := t.linesAt_eq
    have hOne := Expands.cons (E := Growth p q list) ⟨s, t, _, _, rfl, rfl, hGrowing⟩ .nil
    rw [List.append_nil] at hOne
    rw [hAll, hFirst, hMiddle]
    exact hOne

/-- Logical lines with others behind them grow to themselves and the new lines beside them. -/
theorem expands_attached {rows : List Insertion} {a rest : List Text}
    (hBeside : ∀ before l more, p.lines = before ++ l :: more → more ≠ [] →
      Beside p list before l (frontRows rows before) l (backRows rows (before ++ [l])))
    (hSplit : p.lines = before ++ a ++ rest) (hRest : rest ≠ [])
    (hLines : q.lines = before' ++ attached rows before a ++ more') :
    Expands (Growth p q list) (linesAt before a) (linesAt before' (attached rows before a)) := by
  induction a generalizing before before' with
  | nil => exact .nil
  | cons l a ih =>
    have hLine : p.lines = before ++ l :: (a ++ rest) := by simp [hSplit]
    have hFirst := hBeside before l (a ++ rest) hLine (List.append_ne_nil_of_right_ne_nil a hRest)
    rw [attached] at hLines ⊢
    let piece := frontRows rows before ++ l :: backRows rows (before ++ [l])
    have hPiece : q.lines = before' ++ piece ++ (attached rows (before ++ [l]) a ++ more') := by
      simp [hLines, piece]
    have hOthers : q.lines = (before' ++ piece) ++ attached rows (before ++ [l]) a ++ more' := by
      simp [hLines, piece]
    have hSplit' : p.lines = (before ++ [l]) ++ a ++ rest := by simp [hSplit]
    have hGrown := expands_beside hLine hPiece hFirst
    have hMore := ih hSplit' hOthers
    rw [← List.singleton_append, linesAt_append, linesAt_append]
    exact hGrown.append hMore

theorem isLogicalLine_attached {rows : List Insertion} {a rest : List Text}
    (hBeside : ∀ before l more, p.lines = before ++ l :: more → more ≠ [] →
      Beside p list before l (frontRows rows before) l (backRows rows (before ++ [l])))
    (hSplit : p.lines = before ++ a ++ rest) (hRest : rest ≠ []) :
    ∀ w ∈ attached rows before a, IsLogicalLine w := by
  induction a generalizing before with
  | nil => exact fun w hw => absurd hw List.not_mem_nil
  | cons l a ih =>
    have hLine : p.lines = before ++ l :: (a ++ rest) := by simp [hSplit]
    have hFirst := hBeside before l (a ++ rest) hLine (List.append_ne_nil_of_right_ne_nil a hRest)
    rw [attached, List.forall_mem_append]
    have hSplit' : p.lines = (before ++ [l]) ++ a ++ rest := by simp [hSplit]
    exact ⟨hFirst.isLogicalLine (p.readable l (by simp [hLine])), ih hSplit'⟩

end

/-! ## Applying insertions -/

theorem exists_split {list : List Insertion} (h : list.Pairwise fun i j => i.offset ≤ j.offset)
    (n : Nat) : ∃ a b, list = a ++ b ∧ (∀ i ∈ a, i.offset ≤ n) ∧ ∀ i ∈ b, n < i.offset := by
  induction list with
  | nil =>
    exact ⟨[], [], rfl, fun i hi => absurd hi List.not_mem_nil,
      fun i hi => absurd hi List.not_mem_nil⟩
  | cons i list ih =>
    obtain ⟨hBehind, hMore⟩ := List.pairwise_cons.1 h
    by_cases hi : i.offset ≤ n
    · obtain ⟨a, b, rfl, ha, hb⟩ := ih hMore
      exact ⟨i :: a, b, rfl, List.forall_mem_cons.2 ⟨hi, ha⟩, hb⟩
    · refine ⟨[], i :: list, rfl, fun j hj => absurd hj List.not_mem_nil, ?_⟩
      refine List.forall_mem_cons.2 ⟨Nat.lt_of_not_le hi, fun j hj => ?_⟩
      have hle := hBehind j hj
      omega

namespace Spot

variable {p : Program} {init : List Text} {l : Text}

/-- A place in front of the last logical line, or behind all of them. -/
theorem place_cases (s : Spot p) (hLines : p.lines = init ++ [l]) :
    (s.place = byteLength (ahead s.gap) ∧ s.gap <+: init) ∨
      (isStrings s.own.tokens = true ∧ s.before = init ∧ s.text = l ∧
        s.place = byteLength p.text) := by
  by_cases hKind : isStrings s.own.tokens = false ∨ s.more ≠ []
  · obtain ⟨rest, hGap, hRest⟩ := s.exists_behind_gap hKind
    refine .inl ⟨s.place_eq hKind, ?_⟩
    obtain ⟨rest', x, rfl⟩ := List.eq_nil_or_concat rest |>.resolve_left hRest
    rw [List.concat_eq_append, ← List.append_assoc, hLines] at hGap
    exact ⟨rest', (List.append_inj_left' hGap rfl).symm⟩
  · obtain ⟨hStrings, hMore⟩ := not_or.1 hKind
    have hStrings' : isStrings s.own.tokens = true := by simpa using hStrings
    have hNil : s.more = [] := not_not.1 hMore
    have hSplit := s.split
    rw [hLines, hNil] at hSplit
    obtain ⟨hBefore, hText⟩ := List.append_inj' hSplit rfl
    refine .inr ⟨hStrings', hBefore.symm, (List.singleton_inj.1 hText).symm, ?_⟩
    rw [place, if_pos hStrings', if_pos hNil, s.text_eq, hNil, behind, List.append_nil, offset,
      byteLength_append]

/-- A line of strings ends in a quote or in something behind it on the same line. -/
theorem ends (s : Spot p) (hSettled : ∀ l ∈ p.lines, Settled l)
    (hStrings : isStrings s.own.tokens = true) :
    s.text ≠ [] ∧ endsInNewline s.text = false := by
  obtain ⟨last, x, y, -, hStop, hQuote, hLine⟩ := s.exists_trail hSettled hStrings
  obtain ⟨hText, -⟩ := eq_of_splitAt? hStop
  obtain ⟨c, hc, hIsQuote⟩ : ∃ c, x.getLast? = some c ∧ isQuote c = true := by
    cases hx : x.getLast? with
    | none => rw [hx] at hQuote; cases hQuote
    | some c => exact ⟨c, rfl, by rw [hx] at hQuote; exact hQuote⟩
  refine ⟨fun hNil => ?_, ?_⟩
  · rw [hNil] at hText
    obtain ⟨rfl, -⟩ := List.append_eq_nil_iff.1 hText.symm
    cases hc
  · rw [endsInNewline, hText, List.getLast?_append, hc]
    cases hy : y.getLast? with
    | none =>
      have hne : c ≠ '\n' := by
        rintro rfl
        cases hIsQuote
      simpa using hne
    | some d =>
      have hne : d ≠ '\n' := fun hEq => hLine (hEq ▸ List.mem_of_getLast? hy)
      simpa using hne

end Spot

theorem Fits.before_ne_nil {p : Program} {s : Spot p} {i : Insertion} (h : Fits s i) :
    s.before ≠ [] := by
  obtain ⟨front, head, back, hLayout, -⟩ := h.header
  have hSplit : layout p.text = (front ++ [head]) ++ s.line :: back := by simp [hLayout]
  have hFront := (append_inj_of_layout s.layout_eq hSplit).1
  intro hNil
  rw [hNil, linesOf] at hFront
  simp at hFront

/-- Insertions beside the lines of a program, those at its end apart from the others. -/
structure Sides (p : Program) (init : List Text) (l : Text) (rows ends : List Insertion) :
    Prop where
  lines : p.lines = init ++ [l]
  inFront : ∀ i ∈ rows, ∃ s : Spot p, Fits s i ∧ i.offset = byteLength (ahead s.gap) ∧
    s.gap <+: init
  atEnd : ∀ i ∈ ends, ∃ s : Spot p, Fits s i ∧ isStrings s.own.tokens = true ∧ s.before = init ∧
    s.text = l ∧ i.offset = byteLength p.text
  kind : ∀ i ∈ rows ++ ends, ∀ s : Spot p, Fits s i → (s.gap <+: init ∧ i ∈ rows) ∨
    (isStrings s.own.tokens = true ∧ s.before = init ∧ i ∈ ends)

theorem exists_sides {p : Program} {init : List Text} {l : Text} {list : List Insertion}
    (hSettled : ∀ l ∈ p.lines, Settled l) (hLines : p.lines = init ++ [l])
    (hSorted : list.Pairwise fun i j => i.offset ≤ j.offset)
    (hFits : ∀ i ∈ list, ∃ s : Spot p, Fits s i) :
    ∃ rows ends, list = rows ++ ends ∧ Sides p init l rows ends := by
  obtain ⟨rows, ends, rfl, hRows, hEnds⟩ := exists_split hSorted (byteLength (ahead init))
  -- a place at the end of the program is behind all others
  have hPlace : ∀ {i : Insertion} {s : Spot p}, Fits s i →
      (i.offset = byteLength (ahead s.gap) ∧ s.gap <+: init ∧
        i.offset ≤ byteLength (ahead init)) ∨
      (isStrings s.own.tokens = true ∧ s.before = init ∧ s.text = l ∧
        i.offset = byteLength p.text ∧ byteLength (ahead init) < i.offset) := by
    intro i s h
    rw [h.place]
    rcases s.place_cases hLines with ⟨hOffset, rest, hGap⟩ | ⟨hStrings, hBefore, hText, hOffset⟩
    · refine .inl ⟨hOffset, ⟨rest, hGap⟩, ?_⟩
      rw [hOffset, ← hGap]
      exact byteLength_ahead_le s.gap rest
    · refine .inr ⟨hStrings, hBefore, hText, hOffset, ?_⟩
      obtain ⟨c, text, hl⟩ := List.exists_cons_of_ne_nil
        (s.ends hSettled hStrings).1
      have hPos := Char.utf8Size_pos c
      rw [hOffset, Program.text, hLines, intercalate_ahead init (by simp),
        List.intercalate_singleton, byteLength_append, ← hText, hl, byteLength]
      omega
  have hKind : ∀ i ∈ rows ++ ends, ∀ s : Spot p, Fits s i → (s.gap <+: init ∧ i ∈ rows) ∨
      (isStrings s.own.tokens = true ∧ s.before = init ∧ i ∈ ends) := by
    intro i hi s h
    rcases hPlace h with ⟨-, hGap, hle⟩ | ⟨hStrings, hBefore, -, -, hlt⟩
    · refine .inl ⟨hGap, (List.mem_append.1 hi).resolve_right fun hEnd => ?_⟩
      have hBehind := hEnds i hEnd
      omega
    · refine .inr ⟨hStrings, hBefore, (List.mem_append.1 hi).resolve_left fun hRow => ?_⟩
      have hFront := hRows i hRow
      omega
  refine ⟨rows, ends, rfl, hLines, fun i hi => ?_, fun i hi => ?_, hKind⟩
  · obtain ⟨s, h⟩ := hFits i (List.mem_append_left _ hi)
    rcases hPlace h with ⟨hOffset, hGap, -⟩ | ⟨-, -, -, -, hlt⟩
    · exact ⟨s, h, hOffset, hGap⟩
    · have hFront := hRows i hi
      omega
  · obtain ⟨s, h⟩ := hFits i (List.mem_append_right _ hi)
    rcases hPlace h with ⟨-, -, hle⟩ | ⟨hStrings, hBefore, hText, hOffset, -⟩
    · have hBehind := hEnds i hi
      omega
    · exact ⟨s, h, hStrings, hBefore, hText, hOffset⟩

namespace Sides

variable {p q : Program} {init tail : List Text} {l x : Text} {rows ends : List Insertion}

/-- Insertions at the end of a program whose last line is a line of strings. -/
theorem foldrM_ends (h : Sides p init l rows ends) (hSettled : ∀ l ∈ p.lines, Settled l) :
    ends.foldrM (fun i current => i.insertInto? current) p.text =
      some (List.intercalate ['\n'] (init ++ closing p.text l ends)) := by
  have hText : p.text = List.intercalate ['\n'] (init ++ [l]) := by rw [Program.text, h.lines]
  cases hEmpty : ends with
  | nil => rw [closing, ← hText]; rfl
  | cons i more =>
    obtain ⟨s, hFits, hStrings, hBefore, hLast, -⟩ := h.atEnd i (by simp [hEmpty])
    have hInit : init ≠ [] := hBefore ▸ hFits.before_ne_nil
    obtain ⟨hne, hEnd⟩ := s.ends hSettled hStrings
    have hOpen : endsInNewline (List.intercalate ['\n'] (init ++ [l])) = false := by
      rw [intercalate_ahead init (by simp), List.intercalate_singleton, ← hLast, endsInNewline,
        List.getLast?_append_of_ne_nil _ hne]
      exact hEnd
    have hPlaces : ∀ j ∈ i :: more,
        j.offset = byteLength (List.intercalate ['\n'] (init ++ [l])) := by
      intro j hj
      obtain ⟨_, -, -, -, -, hOffset⟩ := h.atEnd j (hEmpty ▸ hj)
      rw [hOffset, hText]
    rw [hText]
    exact foldrM_end hInit hOpen hPlaces

/-- Insertions in front of the last line, whatever became of the last line before. -/
theorem foldrM_rows (h : Sides p init l rows ends)
    (hSorted : rows.Pairwise fun i j => i.offset ≤ j.offset) :
    rows.foldrM (fun i current => i.insertInto? current)
        (List.intercalate ['\n'] (init ++ x :: tail)) =
      some (List.intercalate ['\n']
        (attached rows [] init ++ (frontRows rows init ++ x :: tail))) := by
  have hPlaces : ∀ i ∈ rows, ∃ a b, init ++ x :: tail = a ++ b ∧ a ≠ [] ∧ b ≠ [] ∧
      i.offset = byteLength (ahead a) := by
    intro i hi
    obtain ⟨s, hFits, hOffset, rest, hRest⟩ := h.inFront i hi
    refine ⟨s.gap, rest ++ x :: tail, by rw [← hRest, List.append_assoc], ?_, by simp, hOffset⟩
    rw [Spot.gap]
    split
    · simp
    · exact hFits.before_ne_nil
  have hBehind : ∀ i ∈ rows, i.offset < byteLength (ahead (init ++ [x])) := by
    intro i hi
    obtain ⟨s, -, hOffset, rest, hRest⟩ := h.inFront i hi
    have hle := byteLength_ahead_le s.gap rest
    have hlt := byteLength_ahead_lt init x
    rw [hRest] at hle
    omega
  rw [foldrM_weave hSorted hPlaces, weave_append, List.nil_append, weave, weave_behind_all hBehind,
    ← List.append_assoc, ← attached_eq, List.append_assoc]

theorem rows_gap (h : Sides p init l rows ends) :
    ∀ i ∈ rows, ∃ s : Spot p, Fits s i ∧ i.offset = byteLength (ahead s.gap) := by
  intro i hi
  obtain ⟨s, hFits, hOffset, -⟩ := h.inFront i hi
  exact ⟨s, hFits, hOffset⟩

theorem beside_row (h : Sides p init l rows ends) {before more : List Text} {k : Text}
    (hSplit : p.lines = before ++ k :: more) (hMore : more ≠ []) :
    Beside p (rows ++ ends) before k (frontRows rows before) k
      (backRows rows (before ++ [k])) := by
  refine beside_rows h.rows_gap (fun i hi s hFits hBefore => ?_) hSplit hMore
  rcases h.kind i hi s hFits with ⟨-, hMem⟩ | ⟨-, hInit, -⟩
  · exact hMem
  · -- behind the last line there is no other
    rw [h.lines, ← hBefore, hInit, List.append_cancel_left_eq] at hSplit
    exact absurd (List.cons.inj hSplit).2.symm hMore

theorem exists_beside_last (h : Sides p init l rows ends) :
    ∃ l' back, closing p.text l ends = l' :: back ∧
      Beside p (rows ++ ends) init l (frontRows rows init) l' back := by
  refine beside_closing p.text h.rows_gap (fun i hi => ?_) (fun i hi s hFits hBefore => ?_) h.lines
  · obtain ⟨s, hFits, -, hBefore, -⟩ := h.atEnd i hi
    exact ⟨s, hFits, hBefore⟩
  · rcases h.kind i hi s hFits with ⟨hGap, hMem⟩ | ⟨hStrings, -, hMem⟩
    · split
      · rename_i hStrings
        rw [Spot.gap, if_pos hStrings, hBefore] at hGap
        have hLength := hGap.length_le
        rw [List.length_append, List.length_singleton] at hLength
        omega
      · exact hMem
    · rw [if_pos hStrings]
      exact hMem

end Sides

/-- **Insertions beside the lines of a program make a program whose lines have grown.** -/
theorem exists_filled {p : Program} (hSettled : ∀ l ∈ p.lines, Settled l) {list : List Insertion}
    (hSorted : list.Pairwise fun i j => i.offset ≤ j.offset)
    (hFits : ∀ i ∈ list, ∃ s : Spot p, Fits s i) :
    ∃ q : Program, list.foldrM (fun i current => i.insertInto? current) p.text = some q.text ∧
      Expands (Growth p q list) (layout p.text) (layout q.text) := by
  rcases List.eq_nil_or_concat p.lines with hNil | ⟨init, l, hLines⟩
  · -- without lines there is nothing to put in
    have hNone : list = [] := by
      refine List.eq_nil_iff_forall_not_mem.2 fun i hi => ?_
      obtain ⟨s, -⟩ := hFits i hi
      have hSplit := s.split
      rw [hNil] at hSplit
      simp at hSplit
    rw [hNone]
    refine ⟨p, rfl, ?_⟩
    rw [p.layout_eq, hNil]
    exact .nil
  rw [List.concat_eq_append] at hLines
  obtain ⟨rows, ends, rfl, h⟩ := exists_sides hSettled hLines hSorted hFits
  obtain ⟨l', back, hClosing, hLast⟩ := h.exists_beside_last
  have hInit : p.lines = [] ++ init ++ [l] := hLines
  have hReadable : ∀ w ∈ attached rows [] init ++ (frontRows rows init ++ l' :: back),
      IsLogicalLine w :=
    List.forall_mem_append.2
      ⟨isLogicalLine_attached (fun _ _ _ => h.beside_row) hInit (List.cons_ne_nil l []),
        hLast.isLogicalLine (p.readable l (by simp [hLines]))⟩
  let q : Program := ⟨_, hReadable⟩
  have hLines' : q.lines = [] ++ attached rows [] init ++ (frontRows rows init ++ l' :: back) := rfl
  have hLines'' : q.lines =
      attached rows [] init ++ (frontRows rows init ++ l' :: back) ++ [] :=
    (List.append_nil _).symm
  refine ⟨q, ?_, ?_⟩
  · rw [List.foldrM_append, h.foldrM_ends hSettled, hClosing]
    exact h.foldrM_rows (List.pairwise_append.1 hSorted).1
  · rw [p.layout_eq, q.layout_eq, hLines, linesAt_append, hLines', List.nil_append, linesAt_append]
    exact (expands_attached (fun _ _ _ => h.beside_row) hInit (List.cons_ne_nil l []) hLines').append
      (expands_beside hLines hLines'' hLast)

end FieldFill
