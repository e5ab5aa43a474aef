import FieldFill.Outline.Recovery
import FieldFill.Proofs.Layout.Indentation
import FieldFill.Proofs.Layout.Words
import FieldFill.Proofs.Text.Lines

/-!
# Physical lines

A logical line takes up one physical line or more. The indentation of the first one is that of the
logical line, and it holds code whenever the logical line does.

Main results:

* `takeWhile_breakLine`, `dropWhile_breakLine` — the indentation is cut off the first line.
* `leadWidth_breakLine` — the spaces and tabs in front of the first line are those of the whole.
* `IsLogicalLine.holdsCode` — the first physical line of a line of code holds code.
-/

namespace FieldFill

/-! ## Indentation -/

theorem takeWhile_breakLine (text : Text) :
    (breakLine text).1.takeWhile isIndent = text.takeWhile isIndent := by
  induction text with
  | nil => rfl
  | cons c rest ih =>
    by_cases hc : c = '\n'
    · subst hc
      rfl
    · rw [breakLine_cons hc, List.takeWhile_cons, List.takeWhile_cons, ih]

theorem dropWhile_breakLine (text : Text) :
    (breakLine text).1.dropWhile isIndent = (breakLine (text.dropWhile isIndent)).1 := by
  induction text with
  | nil => rfl
  | cons c rest ih =>
    by_cases hc : c = '\n'
    · subst hc
      rfl
    · rw [breakLine_cons hc, List.dropWhile_cons, List.dropWhile_cons, ih]
      split
      · rfl
      · rw [breakLine_cons hc]

theorem takeWhile_endsLine (l : Text) {after : Text} (h : EndsLine after) :
    (l ++ after).takeWhile isIndent = l.takeWhile isIndent ∧
      (l ++ after).dropWhile isIndent = l.dropWhile isIndent ++ after := by
  induction l with
  | nil =>
    rcases h with rfl | ⟨rest, rfl⟩
    · exact ⟨rfl, rfl⟩
    · exact ⟨rfl, rfl⟩
  | cons c l ih =>
    by_cases hc : isIndent c = true
    · simp [hc, ih]
    · simp [hc]

/-- The indentation of a physical line by its spaces and tabs is that of its logical line. -/
theorem leadWidth_breakLine (l : Text) {after : Text} (h : EndsLine after) :
    leadWidth (breakLine (l ++ after)).1 = leadWidth l := by
  rw [leadWidth, leadWidth, takeWhile_breakLine, (takeWhile_endsLine l h).1]

theorem behind_endsLine (ls : List Text) : EndsLine (behind ls) := by
  cases ls with
  | nil => exact .inl rfl
  | cons l ls => exact .inr ⟨_, rfl⟩

/-! ## Lines without code -/

namespace Reader

/-- A newline ends the logical line when nothing is open. -/
theorem AtRest.run?_newline {r : Reader} (hr : r.AtRest) (after rest : Text) (offset : Nat) :
    run? after r offset ('\n' :: rest) = none := by
  obtain ⟨frames, comment, escaped, skip, word⟩ := r
  obtain ⟨rfl, rfl, rfl⟩ := hr
  rfl

/-- The reader in a comment outside of brackets. -/
def inRemark : Reader :=
  ⟨[], true, false, 0, []⟩

theorem step_inRemark {c : Char} (hc : c ≠ '\n') (rest : Text) :
    inRemark.step c rest = .continues .comment inRemark := by
  show inRemark.stepCode c rest = _
  unfold stepCode
  rw [if_neg hc]
  rfl

/-- A comment goes on to the end of the logical line. -/
theorem region_of_run?_inRemark {after a : Text} {offset : Nat} {marks : List Scanned}
    {last : Reader} (h : run? after inRemark offset a = some (marks, last)) :
    ∀ m ∈ marks, m.region = .comment := by
  induction a generalizing offset marks with
  | nil =>
    obtain ⟨rfl, rfl⟩ := Prod.mk.inj (Option.some.inj h)
    intro m hm
    cases hm
  | cons c a ih =>
    have hc : c ≠ '\n' := by
      rintro rfl
      cases h
    rw [run?_cons (step_inRemark hc (a ++ after))] at h
    obtain ⟨⟨more, last'⟩, hMore, hEq⟩ := Option.map_eq_some_iff.1 h
    obtain ⟨rfl, rfl⟩ := Prod.mk.inj hEq
    exact List.forall_mem_cons.2 ⟨rfl, ih hMore⟩

end Reader

theorem isBlank_of_isIndent {c : Char} (h : isIndent c = true) : isBlank c = true := by
  simp only [isIndent, Bool.or_eq_true, decide_eq_true_eq] at h
  rcases h with rfl | rfl <;> rfl

theorem ne_newline_of_isIndent {c : Char} (h : isIndent c = true) : c ≠ '\n' := by
  rintro rfl
  cases h

theorem staysPlain_of_isIndent {c : Char} (h : isIndent c = true) : staysPlain c = true :=
  staysPlain_of_isBlank (isBlank_of_isIndent h) (ne_newline_of_isIndent h)

theorem not_beginsCode_unread {a : Text} (ha : Blank a) (offset : Nat) :
    ∀ m ∈ unread offset a, beginsCode m = false := by
  induction a generalizing offset with
  | nil => intro m hm; cases hm
  | cons c a ih =>
    obtain ⟨hc, hMore⟩ := List.forall_mem_cons.1 ha
    refine List.forall_mem_cons.2 ⟨?_, ih hMore _⟩
    simp [beginsCode, hc]

theorem ownLine?_eq_none {l : Text} (h : ∀ m ∈ marksOf l, beginsCode m = false) :
    ownLine? l = none := by
  have hNone : (marksOf l).find? beginsCode = none :=
    List.find?_eq_none.2 fun m hm => by simp [h m hm]
  rw [ownLine?, lineOf?, hNone]
  rfl

namespace IsLogicalLine

variable {l : Text}

/-- A logical line of blanks only has no code. -/
theorem ownLine?_blank (ha : Blank l) (hNewline : '\n' ∉ l) : ownLine? l = none := by
  have hPlain : ∀ c ∈ l, staysPlain c = true := fun c hc =>
    staysPlain_of_isBlank (ha c hc) fun hEq => hNewline (hEq ▸ hc)
  refine ownLine?_eq_none ?_
  rw [(isLogicalLine_plain hPlain).2]
  exact not_beginsCode_unread ha 0

/-- A logical line that begins with plain text ends at the newline behind it. -/
theorem newline_not_mem {a rest : Text} (h : IsLogicalLine (a ++ '\n' :: rest))
    (ha : ∀ c ∈ a, staysPlain c = true) : False := by
  obtain ⟨word, marks, last, -, hRun⟩ := h.exists_marksOf ha
  rw [(Reader.atRest_within word).run?_newline] at hRun
  cases hRun

/-- A logical line with nothing but a comment has no code. -/
theorem ownLine?_remark {a rest : Text} (h : IsLogicalLine (a ++ '#' :: rest)) (ha : Blank a)
    (hNewline : '\n' ∉ a) : ownLine? (a ++ '#' :: rest) = none := by
  have hPlain : ∀ c ∈ a, staysPlain c = true := fun c hc =>
    staysPlain_of_isBlank (ha c hc) fun hEq => hNewline (hEq ▸ hc)
  obtain ⟨word, marks, last, hMarks, hRun⟩ := h.exists_marksOf hPlain
  have hStep : (Reader.within word).step '#' (rest ++ ['\n']) =
      .continues .comment Reader.inRemark := rfl
  rw [Reader.run?_cons hStep] at hRun
  obtain ⟨⟨more, last'⟩, hMore, hEq⟩ := Option.map_eq_some_iff.1 hRun
  obtain ⟨rfl, -⟩ := Prod.mk.inj hEq
  refine ownLine?_eq_none ?_
  rw [hMarks]
  intro m hm
  rcases List.mem_append.1 hm with hFront | hBack
  · exact not_beginsCode_unread ha 0 m hFront
  · have hRegion : m.region = .comment := by
      rcases List.mem_cons.1 hBack with rfl | hMem
      · rfl
      · exact Reader.region_of_run?_inRemark hMore m hMem
    simp [beginsCode, hRegion]

/-- A physical line that holds no code is blank or a comment. -/
theorem blank_or_remark {line row : Text} (hLine : line = row ∨ line = row ++ ['\n'])
    (h : ¬ FieldFill.holdsCode line = true) : Blank row ∨ ∃ words, row = '#' :: words := by
  have hCause : allBlank line = true ∨ line.head? = some '#' := by
    by_contra hNot
    obtain ⟨hBlank, hHash⟩ := not_or.1 hNot
    exact h (by simp [FieldFill.holdsCode, hBlank, hHash])
  rcases hCause with hBlank | hHash
  · refine .inl fun c hc => List.all_eq_true.1 hBlank c ?_
    rcases hLine with rfl | rfl
    · exact hc
    · exact List.mem_append_left _ hc
  · right
    rcases hLine with rfl | rfl
    · cases line with
      | nil => cases hHash
      | cons c words =>
        obtain rfl : c = '#' := by simpa using hHash
        exact ⟨words, rfl⟩
    · cases row with
      | nil => cases hHash
      | cons c words =>
        obtain rfl : c = '#' := by simpa using hHash
        exact ⟨words, rfl⟩

/-- **The first physical line of a line of code holds code.** -/
theorem holdsCode (h : IsLogicalLine l) {own : Line} (hOwn : ownLine? l = some own) {after : Text}
    (hAfter : EndsLine after) :
    FieldFill.holdsCode ((breakLine (l ++ after)).1.dropWhile isIndent) = true := by
  rw [dropWhile_breakLine, (takeWhile_endsLine l hAfter).2]
  have hSplit := List.takeWhile_append_dropWhile (p := isIndent) (l := l)
  have hFront : ∀ c ∈ l.takeWhile isIndent, isIndent c = true :=
    fun c hc => List.mem_takeWhile_imp hc
  generalize l.takeWhile isIndent = front at hSplit hFront
  generalize l.dropWhile isIndent = code at hSplit
  obtain ⟨row, rest, rfl, hRow, hRest⟩ := exists_first_row code
  have hBlank : Blank front := fun c hc => isBlank_of_isIndent (hFront c hc)
  have hNewline : '\n' ∉ front := fun hMem => ne_newline_of_isIndent (hFront _ hMem) rfl
  have hLine : (breakLine (row ++ rest ++ after)).1 = row ∨
      (breakLine (row ++ rest ++ after)).1 = row ++ ['\n'] := by
    rw [List.append_assoc]
    exact breakLine_append_of_not_mem hRow (hRest.append hAfter)
  by_contra hNot
  rcases blank_or_remark hLine hNot with hRowBlank | ⟨words, rfl⟩
  · have hAll : Blank (front ++ row) := fun c hc =>
      (List.mem_append.1 hc).elim (hBlank c) (hRowBlank c)
    have hNone : '\n' ∉ front ++ row := fun hMem =>
      (List.mem_append.1 hMem).elim hNewline hRow
    rcases hRest with rfl | ⟨rest, rfl⟩
    · rw [List.append_nil] at hSplit
      rw [← hSplit, ownLine?_blank hAll hNone] at hOwn
      cases hOwn
    · have hPlain : ∀ c ∈ front ++ row, staysPlain c = true := fun c hc =>
        staysPlain_of_isBlank (hAll c hc) fun hEq => hNone (hEq ▸ hc)
      rw [← hSplit, ← List.append_assoc] at h
      exact h.newline_not_mem hPlain
  · rw [← hSplit] at h hOwn
    rw [List.cons_append] at h hOwn
    rw [h.ownLine?_remark hBlank hNewline] at hOwn
    cases hOwn

end IsLogicalLine

/-! ## A carriage return at the end -/

namespace Reader

/-- Where nothing is open, a carriage return is a blank or a part of a comment. -/
theorem AtRest.step_return {r : Reader} (hr : r.AtRest) (rest : Text) :
    ∃ region next, r.step '\r' rest = .continues region next ∧ next.AtRest ∧
      (region = .code ∨ region = .comment) := by
  obtain ⟨frames, comment, escaped, skip, word⟩ := r
  obtain ⟨rfl, rfl, rfl⟩ := hr
  cases comment with
  | true => exact ⟨_, _, rfl, ⟨rfl, rfl, rfl⟩, .inr rfl⟩
  | false => exact ⟨_, _, rfl, ⟨rfl, rfl, rfl⟩, .inl rfl⟩

end Reader

/-- A carriage return at the end of a logical line adds a character without code. -/
theorem IsLogicalLine.exists_return {l : Text} (h : IsLogicalLine l) :
    IsLogicalLine (l ++ ['\r']) ∧ ∃ m, marksOf (l ++ ['\r']) = marksOf l ++ [m] ∧
      m.char = '\r' ∧ pushChar m [] = [] := by
  obtain ⟨last, hRun, hLast⟩ := h.run?_eq
  have hFront := Reader.run?_closes Reader.sound_start (Reader.closes_newline [])
    (Reader.closes_return ['\n']) hRun hLast
  obtain ⟨region, next, hStep, hNext, hRegion⟩ := hLast.step_return ['\n']
  have hReturn : Reader.run? ['\n'] last (0 + byteLength l) ['\r'] =
      some ([⟨0 + byteLength l, '\r', region, min last.depth next.depth, next.depth⟩], next) := by
    rw [Reader.run?_cons hStep]
    rfl
  have hAll : Reader.run? ['\n'] .start 0 (l ++ ['\r']) = some (marksOf l ++
      [⟨0 + byteLength l, '\r', region, min last.depth next.depth, next.depth⟩], next) := by
    rw [Reader.run?_append, List.singleton_append, hFront, Option.bind_some]
    dsimp only
    rw [hReturn]
    rfl
  have hMarks : marksOf (l ++ ['\r']) = marksOf l ++
      [⟨0 + byteLength l, '\r', region, min last.depth next.depth, next.depth⟩] := by
    rw [marksOf, hAll]
    rfl
  refine ⟨⟨_, _, hAll, hNext⟩, _, hMarks, rfl, ?_⟩
  rcases hRegion with rfl | rfl
  · rfl
  · rfl

/-- So it makes no difference to the line of code. -/
theorem IsLogicalLine.ownLine?_return {l : Text} (h : IsLogicalLine l) :
    ownLine? (l ++ ['\r']) = ownLine? l := by
  obtain ⟨-, m, hMarks, hChar, hPush⟩ := h.exists_return
  have hBlank : beginsCode m = false := by
    have hReturn : isBlank '\r' = true := rfl
    simp [beginsCode, hChar, hReturn]
  have hTokens : tokens (marksOf l ++ [m]) = tokens (marksOf l) := by
    rw [tokens, tokens, List.foldr_append, List.foldr_cons, List.foldr_nil, hPush]
  cases hOwn : ownLine? l with
  | none =>
    refine ownLine?_eq_none ?_
    have hNone := List.find?_eq_none.1 (Option.map_eq_none_iff.1 hOwn)
    rw [hMarks, List.forall_mem_append]
    exact ⟨fun n hn => by simpa using hNone n hn, List.forall_mem_singleton.2 hBlank⟩
  | some own =>
    obtain ⟨front, first, back, hSplit, hFront, hCode, -⟩ := exists_of_ownLine? hOwn
    have hSplit' : marksOf (l ++ ['\r']) = front ++ first :: (back ++ [m]) := by
      rw [hMarks, hSplit, List.append_assoc, List.cons_append]
    rw [← hOwn, ownLine?_eq_some hSplit hFront hCode, ownLine?_eq_some hSplit' hFront hCode, hMarks,
      hTokens, ← hMarks, hSplit', hSplit, indentation_lead rfl hCode hCode 0]

end FieldFill
