import FieldFill.Proofs.Layout.Program
import FieldFill.Proofs.Layout.Words
import FieldFill.Proofs.Text.Lines

/-!
# The part of a text that a line of code takes up

In any text, also one that cannot be read to its end, the layout cuts whole physical lines off the
front. A line of code stands in such a part with all of its tokens, and the parts of two lines do not
overlap, so that all that is read of a line stands in front of the next one.

Main definitions:

* `Consecutive` — scanned characters that stand one behind the other.
* `Ascending` — tokens in order, each of them longer than nothing.
* `Line.TakesUp` — a line of code and the part of the text that it takes up.
* `InFrontOf` — two lines of code of a text, the first in front of the second.

Main results:

* `ascending_tokens` — the tokens of a line stand in order.
* `isLineOf_of_mem`, `pairwise_layout` — every line takes up a part, and the parts stand in order.
* `InFrontOf.start_lt`, `InFrontOf.row_lt` — lines in order start in order, on different rows.
-/

namespace FieldFill

/-! ## Characters -/

/-- Scanned characters that stand one behind the other from a byte position on. -/
def Consecutive (offset : Nat) : List Scanned → Prop
  | [] => True
  | m :: more => m.offset = offset ∧ Consecutive (offset + m.char.utf8Size) more

namespace Consecutive

variable {offset : Nat} {front back marks : List Scanned} {m n : Scanned}

theorem of_append (h : Consecutive offset (front ++ back)) :
    Consecutive (offset + byteLength (front.map Scanned.char)) back := by
  induction front generalizing offset with
  | nil => exact h
  | cons first front ih =>
    have hMore := ih h.2
    rwa [Nat.add_assoc] at hMore

theorem left_of_append (h : Consecutive offset (front ++ back)) : Consecutive offset front := by
  induction front generalizing offset with
  | nil => exact trivial
  | cons first front ih => exact ⟨h.1, ih h.2⟩

theorem offset_eq (h : Consecutive offset (front ++ m :: back)) :
    m.offset = offset + byteLength (front.map Scanned.char) :=
  h.of_append.1

theorem le_offset (h : Consecutive offset marks) (hm : m ∈ marks) : offset ≤ m.offset := by
  obtain ⟨front, back, rfl⟩ := List.append_of_mem hm
  rw [h.offset_eq]
  exact Nat.le_add_right _ _

end Consecutive

theorem consecutive_unread (offset : Nat) (text : Text) : Consecutive offset (unread offset text) := by
  induction text generalizing offset with
  | nil => exact trivial
  | cons c rest ih => exact ⟨rfl, ih _⟩

namespace Reader

theorem stepLiteral_ne_ends (r : Reader) (quote : Char) (triple formatted : Bool) (c : Char)
    (rest : Text) : r.stepLiteral quote triple formatted c rest ≠ .ends := by
  fun_cases stepLiteral <;> nofun

theorem stepSpecification_ne_ends (r : Reader) (c : Char) : r.stepSpecification c ≠ .ends := by
  fun_cases stepSpecification <;> nofun

theorem stepCloser_ne_ends (r : Reader) (c : Char) : r.stepCloser c ≠ .ends := by
  fun_cases stepCloser <;> nofun

/-- Only a newline ends a logical line. -/
theorem eq_newline_of_ends {r : Reader} {c : Char} {rest : Text} (h : r.step c rest = .ends) :
    c = '\n' := by
  unfold step at h
  split at h
  · cases h
  · split at h
    · exact absurd h (stepLiteral_ne_ends r _ _ _ c rest)
    · exact absurd h (stepSpecification_ne_ends r c)
    · revert h
      fun_cases stepCode r c rest <;> intro h
      case case1 hc _ => exact hc
      case case9 => exact absurd h (stepCloser_ne_ends _ c)
      all_goals cases h

end Reader

/-- **What the reader reads** are the characters of the text up to a newline or the end. -/
theorem exists_of_readLine? {r : Reader} {offset : Nat} {text after : Text} {marks : List Scanned}
    (h : readLine? r offset text = some (marks, after)) :
    Consecutive offset marks ∧ ∃ gap, text = marks.map Scanned.char ++ (gap ++ after) ∧
      (gap = ['\n'] ∨ gap = [] ∧ after = []) := by
  induction text generalizing r offset marks with
  | nil =>
    rw [readLine?] at h
    split at h
    · obtain ⟨rfl, rfl⟩ := Prod.mk.inj (Option.some.inj h)
      exact ⟨trivial, [], rfl, .inr ⟨rfl, rfl⟩⟩
    · cases h
  | cons c rest ih =>
    rw [readLine?] at h
    split at h
    · obtain ⟨⟨more, after'⟩, hMore, hEq⟩ := Option.map_eq_some_iff.1 h
      obtain ⟨rfl, rfl⟩ := Prod.mk.inj hEq
      obtain ⟨hMarks, gap, rfl, hGap⟩ := ih hMore
      exact ⟨⟨rfl, hMarks⟩, gap, rfl, hGap⟩
    · rename_i hEnds
      -- what is read stops in front of the newline, which is cut off with it
      obtain ⟨rfl, rfl⟩ := Prod.mk.inj (Option.some.inj h)
      obtain rfl := Reader.eq_newline_of_ends hEnds
      exact ⟨trivial, ['\n'], rfl, .inl rfl⟩
    · cases h

/-! ## Tokens in order -/

/-- Tokens that start in order from a byte position on, and each stop behind their start. -/
def Ascending (offset : Nat) : List Token → Prop
  | [] => True
  | t :: more => offset ≤ t.start ∧ t.start < t.stop ∧ Ascending (t.start + 1) more

namespace Ascending

variable {offset : Nat} {list : List Token} {t u : Token}

theorem mono (h : Ascending offset list) {start : Nat} (hle : start ≤ offset) :
    Ascending start list := by
  cases list with
  | nil => exact trivial
  | cons t more => exact ⟨Nat.le_trans hle h.1, h.2⟩

theorem le_start (h : Ascending offset list) (ht : t ∈ list) :
    offset ≤ t.start ∧ t.start < t.stop := by
  induction list generalizing offset with
  | nil => cases ht
  | cons first more ih =>
    obtain ⟨hFirst, hStop, hMore⟩ := h
    rcases List.mem_cons.1 ht with rfl | hMem
    · exact ⟨hFirst, hStop⟩
    · obtain ⟨hStart, hStop'⟩ := ih hMore hMem
      exact ⟨by omega, hStop'⟩

theorem of_suffix (h : Ascending offset list) {rest : List Token} (hRest : rest <:+ list) :
    Ascending offset rest := by
  obtain ⟨front, rfl⟩ := hRest
  induction front generalizing offset with
  | nil => exact h
  | cons first front ih => exact (ih h.2.2).mono (by have hStart := h.1; omega)

theorem pushChar (s : Scanned) (h : Ascending (s.offset + s.char.utf8Size) list) :
    Ascending s.offset (pushChar s list) := by
  have hSize := Char.utf8Size_pos s.char
  rcases pushChar_cases s list with hEq | ⟨lexeme, hEq⟩ | ⟨t, more, lexeme, rfl, hEq⟩
  · rw [hEq]
    exact h.mono (by omega)
  · rw [hEq]
    exact ⟨Nat.le_refl _, by dsimp only; omega, h.mono (by dsimp only; omega)⟩
  · obtain ⟨hStart, hStop, hMore⟩ := h
    rw [hEq]
    exact ⟨Nat.le_refl _, by dsimp only; omega, hMore.mono (by dsimp only; omega)⟩

theorem joinKinds (h : Ascending offset list) : Ascending offset (joinKinds list) := by
  fun_induction FieldFill.joinKinds list generalizing offset with
  | case1 start stop depth name next more hJoin ih =>
    obtain ⟨hStart, -, hNext, hStop, hMore⟩ := h
    dsimp only at hStart hNext
    exact ⟨hStart, by dsimp only; omega, ih (hMore.mono (by dsimp only; omega))⟩
  | case2 start stop depth name next more hJoin ih => exact ⟨h.1, h.2.1, ih h.2.2⟩
  | case3 first more hOther ih => exact ⟨h.1, h.2.1, ih h.2.2⟩
  | case4 => exact trivial

end Ascending

theorem ascending_pushAll {offset : Nat} {marks : List Scanned} (h : Consecutive offset marks) :
    Ascending offset (pushAll marks []) := by
  induction marks generalizing offset with
  | nil => exact trivial
  | cons m marks ih =>
    obtain ⟨rfl, hMore⟩ := h
    exact (ih hMore).pushChar m

theorem ascending_tokens {offset : Nat} {marks : List Scanned} (h : Consecutive offset marks) :
    Ascending offset (tokens marks) :=
  (ascending_pushAll h).joinKinds

theorem mem_pushChar_mark {s : Scanned} {following : List Token} {t : Token} {c : Char}
    (ht : t ∈ pushChar s following) (hc : t.lexeme = .mark c) :
    t ∈ following ∨ (s.char = c ∧ s.offset = t.start ∧ beginsCode s = true) := by
  obtain ⟨offset, d, region, depth, depthAfter⟩ := s
  cases region with
  | comment => exact .inl ht
  | literal =>
    cases following with
    | nil =>
      obtain rfl := List.mem_singleton.1 ht
      cases hc
    | cons u more =>
      simp only [pushChar] at ht
      split at ht
      · rename_i hJoin
        rw [Bool.and_eq_true] at hJoin
        have hString : u.lexeme = .literal := by simpa [Token.isLiteral] using hJoin.1
        rcases List.mem_cons.1 ht with rfl | hMem
        · rw [show u.lexeme = .mark c from hc] at hString
          cases hString
        · exact .inl (List.mem_cons_of_mem _ hMem)
      · rcases List.mem_cons.1 ht with rfl | hMem
        · cases hc
        · exact .inl hMem
  | code =>
    by_cases hName : isNameChar d = true
    · -- a name has no marks
      simp only [pushChar, hName, if_true] at ht
      split at ht
      · split at ht <;> rcases List.mem_cons.1 ht with rfl | hMem
        · cases hc
        · exact .inl (List.mem_cons_of_mem _ hMem)
        · cases hc
        · exact .inl hMem
      · rcases List.mem_cons.1 ht with rfl | hMem
        · cases hc
        · exact .inl hMem
    · simp only [pushChar, hName, Bool.false_eq_true, if_false] at ht
      split at ht
      · exact .inl ht
      · rename_i hBegins
        rcases List.mem_cons.1 ht with rfl | hMem
        · simp only [Bool.or_eq_true, decide_eq_true_eq, not_or, Bool.not_eq_true] at hBegins
          obtain ⟨⟨hBlank, hEscape⟩, hMark⟩ := hBegins
          exact .inr ⟨Lexeme.mark.inj hc, rfl, by simp [beginsCode, hBlank, hEscape, hMark]⟩
        · exact .inl hMem

/-- A kind joined to a string is a part of the string, so marks stay as they are. -/
theorem mem_of_mem_joinKinds {list : List Token} {t : Token} {c : Char} (ht : t ∈ joinKinds list)
    (hc : t.lexeme = .mark c) : t ∈ list := by
  fun_induction joinKinds list with
  | case1 start stop depth name next more hJoin ih =>
    rcases List.mem_cons.1 ht with rfl | hMore
    · -- the joined token is a string, and no mark
      rw [Bool.and_eq_true, Bool.and_eq_true] at hJoin
      have hString : next.lexeme = .literal := by simpa [Token.isLiteral] using hJoin.1.1
      rw [show next.lexeme = .mark c from hc] at hString
      cases hString
    · exact List.mem_cons_of_mem _ (List.mem_cons_of_mem _ (ih hMore))
  | case2 start stop depth name next more hJoin ih =>
    rcases List.mem_cons.1 ht with rfl | hMore
    · cases hc
    · exact List.mem_cons_of_mem _ (ih hMore)
  | case3 first more hOther ih =>
    rcases List.mem_cons.1 ht with rfl | hMore
    · exact List.mem_cons_self ..
    · exact List.mem_cons_of_mem _ (ih hMore)
  | case4 => cases ht

/-- A mark is a character of code. -/
theorem exists_of_mark_mem {marks : List Scanned} {t : Token} {c : Char} (ht : t ∈ tokens marks)
    (hc : t.lexeme = .mark c) :
    ∃ m ∈ marks, m.char = c ∧ m.offset = t.start ∧ beginsCode m = true := by
  have hPushed := mem_of_mem_joinKinds ht hc
  clear ht
  induction marks with
  | nil => cases hPushed
  | cons m marks ih =>
    rcases mem_pushChar_mark hPushed hc with hMem | hMark
    · obtain ⟨n, hn, hMark⟩ := ih hMem
      exact ⟨n, List.mem_cons_of_mem _ hn, hMark⟩
    · exact ⟨m, List.mem_cons_self .., hMark⟩

/-! ## The part of a line -/

/-- A line of code takes up a part of a text, with `front` in front of it. The newline that ends the
part is none of it. -/
structure Line.TakesUp (line : Line) (front part : Text) : Prop where
  /-- It starts at a character of the part, on the physical line of this character. -/
  start : ∃ x c y, part = x ++ c :: y ∧ line.start = byteLength (front ++ x) ∧
    line.row = 1 + newlines (front ++ x)
  ascending : Ascending (byteLength front) line.tokens
  tokenStart : ∀ t ∈ line.tokens, ∃ x y, part = x ++ y ∧ t.start = byteLength (front ++ x)
  tokenStop : ∀ t ∈ line.tokens, ∃ x y, part = x ++ y ∧ t.stop = byteLength (front ++ x)
  /-- A mark stands where the line starts, or behind. -/
  mark : ∀ t ∈ line.tokens, ∀ c, t.lexeme = .mark c → line.start ≤ t.start ∧
    ∃ x y, part = x ++ c :: y ∧ t.start = byteLength (front ++ x)

section

variable {front part : Text} {marks : List Scanned} {line : Line}

/-- A scanned character stands in the text that is scanned. -/
theorem Consecutive.exists_place (hMarks : Consecutive (byteLength front) marks) {m : Scanned}
    (hm : m ∈ marks) :
    ∃ x y, marks.map Scanned.char = x ++ m.char :: y ∧ m.offset = byteLength (front ++ x) := by
  obtain ⟨a, b, rfl⟩ := List.append_of_mem hm
  exact ⟨a.map Scanned.char, b.map Scanned.char, by simp,
    by rw [hMarks.offset_eq, byteLength_append]⟩

/-- Where the code of some scanned characters begins. -/
theorem exists_start_of_lineOf? (hMarks : Consecutive (byteLength front) marks)
    {list : List Token} (h : lineOf? (1 + newlines front) marks list = some line) :
    line.tokens = list ∧ ∃ x c y, marks.map Scanned.char = x ++ c :: y ∧ isBlank c = false ∧
      line.start = byteLength (front ++ x) ∧ line.row = 1 + newlines (front ++ x) ∧
      ∀ m ∈ marks, beginsCode m = true → line.start ≤ m.offset := by
  obtain ⟨first, hFirst, rfl⟩ := Option.map_eq_some_iff.1 h
  obtain ⟨hCode, a, b, rfl, hLead⟩ := List.find?_eq_some_iff_append.1 hFirst
  have hNot : ∀ m ∈ a, beginsCode m = false := fun m hm => by simpa using hLead m hm
  have hTake : (a ++ first :: b).takeWhile (fun s => !beginsCode s) = a := by
    rw [List.takeWhile_append_of_pos fun m hm => by simp [hNot m hm], List.takeWhile_cons]
    simp [hCode]
  have hBlank : isBlank first.char = false := by
    simp only [beginsCode, Bool.and_eq_true, Bool.not_eq_true'] at hCode
    exact hCode.1.1.2
  refine ⟨rfl, a.map Scanned.char, first.char, b.map Scanned.char, by simp, hBlank, ?start, ?row,
    fun m hm hm' => ?_⟩
  case start => rw [hMarks.offset_eq, byteLength_append]
  case row =>
    dsimp only
    rw [hTake, newlines, newlines, List.count_append, List.count_eq_countP (l := a.map _),
      List.countP_map, Nat.add_assoc]
    rfl
  · -- what begins code stands nowhere in front of the first character that does
    have hMem : m ∈ first :: b := (List.mem_append.1 hm).resolve_left fun hFront => by
      rw [hNot m hFront] at hm'
      cases hm'
    have hOffset := hMarks.of_append.le_offset hMem
    dsimp only
    rw [hMarks.offset_eq]
    exact hOffset

/-- The line of code in a logical line that is read. -/
theorem takesUp_of_read (hMarks : Consecutive (byteLength front) marks)
    (hPart : marks.map Scanned.char = part)
    (h : lineOf? (1 + newlines front) marks (tokens marks) = some line) :
    line.TakesUp front part := by
  obtain ⟨hTokens, x, c, y, hStart, -, hOffset, hRow, hFirst⟩ := exists_start_of_lineOf? hMarks h
  subst hPart
  refine ⟨⟨x, c, y, hStart, hOffset, hRow⟩, ?ascending, ?tokenStart, ?tokenStop, ?mark⟩
  case ascending =>
    rw [hTokens]
    exact ascending_tokens hMarks
  case tokenStart =>
    intro t ht
    rw [hTokens] at ht
    obtain ⟨⟨m, hm, hEq⟩, -⟩ := place_of_mem_tokens ht
    obtain ⟨u, v, hSplit, hPlace⟩ := hMarks.exists_place hm
    exact ⟨u, m.char :: v, hSplit, hEq.trans hPlace⟩
  case tokenStop =>
    intro t ht
    rw [hTokens] at ht
    obtain ⟨-, m, hm, hEq⟩ := place_of_mem_tokens ht
    obtain ⟨u, v, hSplit, hPlace⟩ := hMarks.exists_place hm
    refine ⟨u ++ [m.char], v, by rw [hSplit, List.append_assoc]; rfl, ?_⟩
    rw [hEq, hPlace, ← List.append_assoc, byteLength_append _ [m.char]]
    rfl
  case mark =>
    intro t ht d hd
    rw [hTokens] at ht
    obtain ⟨m, hm, rfl, hEq, hCode⟩ := exists_of_mark_mem ht hd
    rw [← hEq]
    exact ⟨hFirst m hm hCode, hMarks.exists_place hm⟩

/-- The line of code on a physical line that is not read. -/
theorem takesUp_of_unread {gap : Text} (hGap : gap = [] ∨ gap = ['\n'])
    (h : lineOf? (1 + newlines front) (unread (byteLength front) (part ++ gap)) [] = some line) :
    line.TakesUp front part := by
  obtain ⟨hTokens, x, c, y, hStart, hBlank, hOffset, hRow, -⟩ :=
    exists_start_of_lineOf? (consecutive_unread _ _) h
  rw [map_char_unread] at hStart
  -- the newline at the end is no code
  have hPart : ∃ y', part = x ++ c :: y' := by
    rcases hGap with rfl | rfl
    · exact ⟨y, by rw [← hStart, List.append_nil]⟩
    · rcases List.eq_nil_or_concat y with rfl | ⟨y', d, rfl⟩
      · obtain ⟨-, hNewline⟩ := List.append_inj' hStart rfl
        obtain rfl : '\n' = c := by simpa using hNewline
        cases hBlank
      · have hSame : part ++ ['\n'] = (x ++ c :: y') ++ [d] := by simpa using hStart
        exact ⟨y', (List.append_inj' hSame rfl).1⟩
  obtain ⟨y', hPart⟩ := hPart
  have hNone : ∀ t ∈ line.tokens, False := fun t ht => by
    rw [hTokens] at ht
    cases ht
  refine ⟨⟨x, c, y', hPart, hOffset, hRow⟩, ?_, fun t ht => (hNone t ht).elim,
    fun t ht => (hNone t ht).elim, fun t ht => (hNone t ht).elim⟩
  rw [hTokens]
  exact trivial

end

/-! ## The lines of a text -/

/-- A line of code of a text stands in front of another one: so do the parts they take up. -/
def InFrontOf (source : Text) (a b : Line) : Prop :=
  ∃ front part between part' after,
    source = front ++ (part ++ '\n' :: (between ++ (part' ++ after))) ∧
    a.TakesUp front part ∧ b.TakesUp (front ++ (part ++ '\n' :: between)) part' ∧ EndsLine after

/-- A line of code of a text, and the part that it takes up. -/
def IsLineOf (source : Text) (line : Line) : Prop :=
  ∃ front part after, source = front ++ (part ++ after) ∧ line.TakesUp front part ∧ EndsLine after

/-- A text that cannot be read as code is laid out by its first physical line. -/
theorem layoutFrom_of_unread {offset row : Nat} {text : Text}
    (h : readLine? .start offset text = none) :
    layoutFrom offset row text =
      (lineOf? row (unread offset (breakLine text).1) []).toList ++
        layoutFrom (offset + byteLength (breakLine text).1) (row + newlines (breakLine text).1)
          (breakLine text).2 := by
  cases text with
  | nil => cases h
  | cons c rest =>
    rw [layoutFrom]
    split
    · rename_i hRead
      rw [h] at hRead
      cases hRead
    · rfl

theorem length_lt_of_gap {text part gap after : Text} (hne : text ≠ [])
    (h : text = part ++ (gap ++ after)) (hGap : gap = ['\n'] ∨ gap = [] ∧ after = []) :
    after.length < text.length := by
  rcases hGap with rfl | ⟨-, rfl⟩
  · subst h
    simp only [List.length_append, List.length_cons, List.length_nil]
    omega
  · exact List.length_pos_iff.2 hne

/-- **One step of the layout**: it cuts a part off the front, which one line of code takes up at
most. -/
theorem exists_step (front : Text) {text : Text} (hne : text ≠ []) :
    ∃ part gap after, ∃ own : Option Line, text = part ++ (gap ++ after) ∧
      (gap = ['\n'] ∨ gap = [] ∧ after = []) ∧ (∀ line ∈ own, line.TakesUp front part) ∧
      layoutFrom (byteLength front) (1 + newlines front) text = own.toList ++
        layoutFrom (byteLength (front ++ (part ++ gap))) (1 + newlines (front ++ (part ++ gap)))
          after := by
  have hOffset : ∀ a b : Text, byteLength (front ++ (a ++ b)) =
      byteLength front + byteLength a + byteLength b := fun a b => by
    rw [byteLength_append, byteLength_append, Nat.add_assoc]
  have hRow : ∀ a b : Text, 1 + newlines (front ++ (a ++ b)) =
      1 + newlines front + newlines a + newlines b := fun a b => by
    simp only [newlines, List.count_append, Nat.add_assoc]
  cases hRead : readLine? .start (byteLength front) text with
  | some read =>
    obtain ⟨marks, after⟩ := read
    obtain ⟨hMarks, gap, hText, hGap⟩ := exists_of_readLine? hRead
    refine ⟨marks.map Scanned.char, gap, after, lineOf? (1 + newlines front) marks (tokens marks),
      hText, hGap, fun line hLine => takesUp_of_read hMarks rfl hLine, ?_⟩
    rw [layoutFrom_of_readLine? hRead hne, hOffset, hRow]
    rcases hGap with rfl | ⟨rfl, rfl⟩
    · rfl
    · rw [layoutFrom, layoutFrom]
  | none =>
    -- what cannot be read is passed over up to the end of its physical line
    obtain ⟨row, rest, rfl, hLine, hRest⟩ := exists_first_row text
    obtain ⟨gap, after, rfl, hGap, hBreak⟩ : ∃ gap after, rest = gap ++ after ∧
        (gap = ['\n'] ∨ gap = [] ∧ after = []) ∧
        breakLine (row ++ rest) = (row ++ gap, after) := by
      rcases hRest with rfl | ⟨rest, rfl⟩
      · exact ⟨[], [], rfl, .inr ⟨rfl, rfl⟩, by rw [List.append_nil, breakLine_of_not_mem hLine]⟩
      · exact ⟨['\n'], rest, rfl, .inl rfl, breakLine_newline hLine rest⟩
    refine ⟨row, gap, after, lineOf? (1 + newlines front) (unread (byteLength front) (row ++ gap)) [],
      rfl, hGap, fun line hLine => takesUp_of_unread (hGap.symm.imp And.left id) hLine, ?_⟩
    rw [layoutFrom_of_unread hRead, hBreak]
    dsimp only
    have hCount : newlines (front ++ (row ++ gap)) = newlines front + newlines (row ++ gap) :=
      List.count_append
    rw [byteLength_append front, hCount, Nat.add_assoc]

/-- **The lines of a text** each take up a part of it, and these parts stand in order. -/
theorem lines_layoutFrom (front text : Text) :
    (∀ line ∈ layoutFrom (byteLength front) (1 + newlines front) text, ∃ between part after,
      text = between ++ (part ++ after) ∧ line.TakesUp (front ++ between) part ∧ EndsLine after) ∧
    (layoutFrom (byteLength front) (1 + newlines front) text).Pairwise
      (InFrontOf (front ++ text)) := by
  -- each step of the layout leaves a shorter text, and moves what it cuts off to the front
  induction hLength : text.length using Nat.strongRecOn generalizing front text with
  | _ n ih =>
    by_cases hne : text = []
    · subst hne
      rw [layoutFrom]
      exact ⟨fun line hLine => absurd hLine List.not_mem_nil, .nil⟩
    · obtain ⟨part, gap, after, own, hText, hGap, hOwn, hLayout⟩ := exists_step front hne
      have hShorter := length_lt_of_gap hne hText hGap
      obtain ⟨hLines, hOrder⟩ := ih _ (hLength ▸ hShorter) (front ++ (part ++ gap)) after rfl
      subst hText
      rw [hLayout]
      constructor
      · intro line hLine
        rcases List.mem_append.1 hLine with hFirst | hMore
        · refine ⟨[], part, gap ++ after, rfl, ?_, ?_⟩
          · rw [List.append_nil]
            exact hOwn line (Option.mem_toList.1 hFirst)
          · rcases hGap with rfl | ⟨rfl, rfl⟩
            · exact .inr ⟨after, rfl⟩
            · exact .inl rfl
        · obtain ⟨between, part', after', rfl, hTakes, hEnds⟩ := hLines line hMore
          refine ⟨part ++ (gap ++ between), part', after', by simp, ?_, hEnds⟩
          simpa using hTakes
      · refine List.pairwise_append.2 ⟨?_, ?_, fun a ha b hb => ?_⟩
        · cases own with
          | none => exact .nil
          | some line => exact List.pairwise_singleton _ _
        · simpa using hOrder
        · obtain ⟨between, part', after', rfl, hTakes, hEnds⟩ := hLines b hb
          rcases hGap with rfl | ⟨rfl, hNil⟩
          · refine ⟨front, part, between, part', after', by simp,
              hOwn a (Option.mem_toList.1 ha), ?_, hEnds⟩
            simpa using hTakes
          · -- behind the end of the text there is no line
            rw [hNil, layoutFrom] at hb
            cases hb

theorem isLineOf_of_mem {source : Text} {line : Line} (h : line ∈ layout source) :
    IsLineOf source line := by
  obtain ⟨front, part, after, hSource, hTakes, hEnds⟩ := (lines_layoutFrom [] source).1 line h
  exact ⟨front, part, after, hSource, hTakes, hEnds⟩

namespace IsLineOf

variable {source : Text} {line : Line}

theorem splitAt?_start (h : IsLineOf source line) :
    ∃ before after, splitAt? source line.start = some (before, after) := by
  obtain ⟨front, part, after, rfl, hTakes, -⟩ := h
  obtain ⟨x, c, y, rfl, hStart, -⟩ := hTakes.start
  have hSplit := splitAt?_byteLength (front ++ x) (c :: y ++ after)
  refine ⟨front ++ x, c :: y ++ after, ?_⟩
  rw [hStart]
  simpa using hSplit

theorem splitAt?_token (h : IsLineOf source line) {t : Token} (ht : t ∈ line.tokens) :
    (∃ before after, splitAt? source t.start = some (before, after)) ∧
      ∃ before after, splitAt? source t.stop = some (before, after) := by
  obtain ⟨front, part, rest, rfl, hTakes, -⟩ := h
  have hInside : ∀ {place : Nat} {x y : Text}, part = x ++ y → place = byteLength (front ++ x) →
      ∃ before after, splitAt? (front ++ (part ++ rest)) place = some (before, after) := by
    rintro place x y rfl rfl
    exact ⟨front ++ x, y ++ rest, by simpa using splitAt?_byteLength (front ++ x) (y ++ rest)⟩
  obtain ⟨x, y, hPart, hStart⟩ := hTakes.tokenStart t ht
  obtain ⟨u, v, hPart', hStop⟩ := hTakes.tokenStop t ht
  exact ⟨hInside hPart hStart, hInside hPart' hStop⟩

theorem exists_ascending (h : IsLineOf source line) : ∃ offset, Ascending offset line.tokens := by
  obtain ⟨front, part, rest, -, hTakes, -⟩ := h
  exact ⟨byteLength front, hTakes.ascending⟩

end IsLineOf

theorem pairwise_layout (source : Text) : (layout source).Pairwise (InFrontOf source) :=
  (lines_layoutFrom [] source).2

namespace InFrontOf

variable {source : Text} {a b : Line}

theorem start_lt (h : InFrontOf source a b) : a.start < b.start := by
  obtain ⟨front, part, between, part', after, -, hTakes, hTakes', -⟩ := h
  obtain ⟨x, c, y, rfl, hStart, -⟩ := hTakes.start
  obtain ⟨x', c', y', rfl, hStart', -⟩ := hTakes'.start
  have hc := Char.utf8Size_pos c
  simp only [byteLength_append, byteLength] at hStart hStart'
  omega

theorem row_lt (h : InFrontOf source a b) : a.row < b.row := by
  obtain ⟨front, part, between, part', after, -, hTakes, hTakes', -⟩ := h
  obtain ⟨x, c, y, rfl, -, hRow⟩ := hTakes.start
  obtain ⟨x', c', y', rfl, -, hRow'⟩ := hTakes'.start
  -- the newline between the two parts makes the difference
  simp only [newlines, List.count_append, List.count_cons_self] at hRow hRow'
  omega

end InFrontOf

end FieldFill
