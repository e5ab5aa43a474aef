import FieldFill.Layout.Line
import FieldFill.Proofs.Lexical.Reads
import Mathlib.Tactic.SplitIfs

/-!
# One logical line

A logical line is read from a fixed state and ends in a state where nothing is open. Where it stands
in a program and what follows its newline make no difference to it, so every fact about a logical
line is a fact about its own text.

Main definitions:

* `Reader.run?` — the reader over a text with given text behind it.
* `IsLogicalLine` — a text that is one logical line, without the newline that ends it.
* `marksOf` — its scanned characters.

Main results:

* `Reader.run?_closes` — what follows the newline, and whether there is one, does not matter.
* `IsLogicalLine.readLine?_newline`, `IsLogicalLine.readLine?_end` — how a logical line is read in a
  program.
-/

namespace FieldFill

namespace Reader

/-! ## Running over a text -/

/-- The reader over the characters of a text with `after` behind it: the scanned characters and the
state at the end. It is `none` when a logical line ends or breaks on the way. -/
def run? (after : Text) (r : Reader) (offset : Nat) : Text → Option (List Scanned × Reader)
  | [] => some ([], r)
  | c :: rest =>
    match r.step c (rest ++ after) with
    | .continues region next =>
      (run? after next (offset + c.utf8Size) rest).map fun (marks, last) =>
        (⟨offset, c, region, min r.depth next.depth, next.depth⟩ :: marks, last)
    | .ends => none
    | .breaks => none

theorem run?_cons {after rest : Text} {r next : Reader} {offset : Nat} {c : Char} {region : Region}
    (h : r.step c (rest ++ after) = .continues region next) :
    run? after r offset (c :: rest) =
      (run? after next (offset + c.utf8Size) rest).map fun (marks, last) =>
        (⟨offset, c, region, min r.depth next.depth, next.depth⟩ :: marks, last) := by
  rw [run?, h]

/-- A run over a nonempty text is one step and a run over the rest. -/
theorem exists_step {after rest : Text} {r last : Reader} {offset : Nat} {c : Char}
    {marks : List Scanned} (h : run? after r offset (c :: rest) = some (marks, last)) :
    ∃ region next more, r.step c (rest ++ after) = .continues region next ∧
      run? after next (offset + c.utf8Size) rest = some (more, last) ∧
      marks = ⟨offset, c, region, min r.depth next.depth, next.depth⟩ :: more := by
  rw [run?] at h
  split at h
  · rename_i region next hStep
    obtain ⟨⟨more, last'⟩, hMore, hEq⟩ := Option.map_eq_some_iff.1 h
    obtain ⟨rfl, rfl⟩ := Prod.mk.inj hEq
    exact ⟨region, next, more, hStep, hMore, rfl⟩
  · cases h
  · cases h

theorem run?_append {after a b : Text} {r : Reader} {offset : Nat} :
    run? after r offset (a ++ b) =
      (run? (b ++ after) r offset a).bind fun (marks, middle) =>
        (run? after middle (offset + byteLength a) b).map fun (more, last) =>
          (marks ++ more, last) := by
  induction a generalizing r offset with
  | nil =>
    rw [List.nil_append, run?, Option.bind_some]
    simp [byteLength]
  | cons c a ih =>
    rw [List.cons_append, run?, run?, List.append_assoc]
    cases r.step c (a ++ (b ++ after)) with
    | ends => rfl
    | breaks => rfl
    | continues region next =>
      simp only [ih]
      cases run? (b ++ after) next (offset + c.utf8Size) a with
      | none => rfl
      | some part =>
        simp only [Option.bind_some, Option.map_some, byteLength, Nat.add_assoc]
        cases run? after part.2 (offset + (c.utf8Size + byteLength a)) b <;> rfl

/-- The line reader goes over a text as a run does, and then on with what follows. -/
theorem readLine?_append {after a : Text} {r last : Reader} {offset : Nat} {marks : List Scanned}
    (h : run? after r offset a = some (marks, last)) :
    readLine? r offset (a ++ after) =
      (readLine? last (offset + byteLength a) after).map fun (more, rest) =>
        (marks ++ more, rest) := by
  induction a generalizing r offset marks with
  | nil =>
    obtain ⟨rfl, rfl⟩ := Prod.mk.inj (Option.some.inj h)
    cases hRead : readLine? r offset after <;> simp [byteLength, hRead]
  | cons c a ih =>
    obtain ⟨region, next, more, hStep, hMore, rfl⟩ := exists_step h
    rw [List.cons_append, readLine?, hStep]
    simp only [ih hMore]
    rw [byteLength, ← Nat.add_assoc, Option.map_map]
    rfl

theorem map_char_of_run? {after a : Text} {r last : Reader} {offset : Nat} {marks : List Scanned}
    (h : run? after r offset a = some (marks, last)) : marks.map Scanned.char = a := by
  induction a generalizing r offset marks with
  | nil =>
    obtain ⟨rfl, rfl⟩ := Prod.mk.inj (Option.some.inj h)
    rfl
  | cons c a ih =>
    obtain ⟨region, next, more, -, hMore, rfl⟩ := exists_step h
    rw [List.map_cons, ih hMore]

/-- A scanned character stands behind the characters scanned before it. -/
theorem offset_of_run? {after a : Text} {r last : Reader} {offset : Nat}
    {front back : List Scanned} {m : Scanned}
    (h : run? after r offset a = some (front ++ m :: back, last)) :
    m.offset = offset + byteLength (front.map Scanned.char) := by
  induction a generalizing r offset front with
  | nil =>
    obtain ⟨hNil, -⟩ := Prod.mk.inj (Option.some.inj h)
    simp at hNil
  | cons c a ih =>
    obtain ⟨region, next, more, -, hMore, hMarks⟩ := exists_step h
    cases front with
    | nil =>
      obtain ⟨rfl, -⟩ := List.cons.inj hMarks
      rfl
    | cons first front =>
      obtain ⟨rfl, rfl⟩ := List.cons.inj hMarks
      rw [ih hMore, List.map_cons, byteLength, Nat.add_assoc]

/-- Where a text starts makes no difference but for the places. -/
theorem run?_shift (after a : Text) (r : Reader) (offset distance : Nat) :
    run? after r (offset + distance) a =
      (run? after r offset a).map fun (marks, last) =>
        (marks.map (Scanned.shift distance), last) := by
  induction a generalizing r offset with
  | nil => rfl
  | cons c a ih =>
    rw [run?, run?]
    cases r.step c (a ++ after) with
    | ends => rfl
    | breaks => rfl
    | continues region next =>
      have hPlace : offset + distance + c.utf8Size = offset + c.utf8Size + distance := by omega
      simp only [hPlace, ih, Option.map_map]
      rfl

/-! ## What stands behind a line -/

/-- Only a quote opens a string. -/
def Sound (r : Reader) : Prop :=
  ∀ quote triple formatted, .literal quote triple formatted ∈ r.frames → isQuote quote = true

theorem sound_start : start.Sound := by
  intro quote triple formatted h
  cases h

theorem Sound.frames {r next : Reader} (hr : r.Sound) (h : ∀ f ∈ next.frames, f ∈ r.frames) :
    next.Sound :=
  fun quote triple formatted hMem => hr quote triple formatted (h _ hMem)

theorem Sound.cons {r next : Reader} (hr : r.Sound) {frame : Frame}
    (hFrame : ∀ quote triple formatted, frame = .literal quote triple formatted →
      isQuote quote = true)
    (h : next.frames = frame :: r.frames) : next.Sound := by
  intro quote triple formatted hMem
  rw [h, List.mem_cons] at hMem
  rcases hMem with hEq | hOld
  · exact hFrame quote triple formatted hEq.symm
  · exact hr quote triple formatted hOld

theorem Sound.stepLiteral {r next : Reader} (hr : r.Sound) {quote c : Char}
    {triple formatted : Bool} {rest : Text} {region : Region}
    (h : r.stepLiteral quote triple formatted c rest = .continues region next) : next.Sound := by
  unfold Reader.stepLiteral at h
  split at h
  · cases h
    exact hr
  split at h
  · cases h
    exact hr
  split at h
  · -- the string ends
    cases h
    exact hr.frames fun f hf => List.mem_of_mem_tail hf
  split at h
  · cases h
  split at h
  · split at h
    · cases h
      exact hr
    · cases h
      exact hr.cons (fun _ _ _ => Frame.noConfusion) rfl
  · cases h
    exact hr

theorem Sound.stepSpecification {r next : Reader} (hr : r.Sound) {c : Char} {region : Region}
    (h : r.stepSpecification c = .continues region next) : next.Sound := by
  unfold Reader.stepSpecification at h
  split_ifs at h <;> cases h
  · exact hr.cons (fun _ _ _ => Frame.noConfusion) rfl
  · exact hr.frames fun f hf => List.mem_of_mem_drop hf
  · exact hr

theorem Sound.stepCloser {r next : Reader} (hr : r.Sound) {c : Char} {region : Region}
    (h : r.stepCloser c = .continues region next) : next.Sound := by
  unfold Reader.stepCloser at h
  split at h
  · rename_i closer outer hFrames
    split_ifs at h
    cases h
    exact hr.frames fun f hf => hFrames ▸ List.mem_cons_of_mem _ hf
  · rename_i outer hFrames
    split_ifs at h
    cases h
    exact hr.frames fun f hf => hFrames ▸ List.mem_cons_of_mem _ hf
  · cases h
    exact hr

theorem Sound.stepCode {r next : Reader} (hr : r.Sound) {c : Char} {rest : Text}
    {region : Region} (h : r.stepCode c rest = .continues region next) : next.Sound := by
  have hPlain : Sound { r with escaped := false, word := [] } := hr
  revert h
  fun_cases Reader.stepCode r c rest <;> intro h
  case case1 => cases h
  case case7 hQuote triple =>
    -- a string begins
    cases h
    refine hr.cons (fun _ _ _ hEq => ?_) rfl
    exact (Frame.literal.inj hEq).1 ▸ hQuote
  case case8 =>
    -- a bracket is opened
    cases h
    exact hr.cons (fun _ _ _ => Frame.noConfusion) rfl
  case case9 => exact hPlain.stepCloser h
  case case10 =>
    -- the format of a field begins
    cases h
    exact hr.cons (fun _ _ _ => Frame.noConfusion) rfl
  all_goals
    obtain ⟨-, rfl⟩ := Progress.continues.inj h
    exact hr

theorem Sound.next {r next : Reader} (hr : r.Sound) {c : Char} {rest : Text} {region : Region}
    (h : r.step c rest = .continues region next) : next.Sound := by
  unfold step at h
  split at h
  · cases h
    exact hr
  · split at h
    · exact hr.stepLiteral h
    · exact hr.stepSpecification h
    · exact hr.stepCode h

theorem stepCode_congr (r : Reader) (c : Char) {x y : Text}
    (hTwo : ∀ quote, isQuote quote = true → twoMore quote x = twoMore quote y) :
    r.stepCode c x = r.stepCode c y := by
  unfold stepCode
  by_cases hQuote : isQuote c = true
  · rw [hTwo c hQuote]
  · simp only [hQuote, Bool.false_eq_true, if_false]

/-- What a step looks at behind its character: two more quotes, and the next character when it is in
a string. -/
theorem step_congr {r : Reader} {c : Char} {x y : Text}
    (hTwo : ∀ quote, isQuote quote = true → twoMore quote x = twoMore quote y)
    (hString : ∀ quote triple formatted outer, r.frames = .literal quote triple formatted :: outer →
      r.skip = 0 →
      r.stepLiteral quote triple formatted c x = r.stepLiteral quote triple formatted c y) :
    r.step c x = r.step c y := by
  have hCode := stepCode_congr r c hTwo
  unfold step
  cases hSkip : r.skip with
  | succ more => rfl
  | zero =>
    match hFrames : r.frames with
    | .literal quote triple formatted :: outer =>
      exact hString quote triple formatted outer hFrames hSkip
    | .specification :: outer => rfl
    | [] => exact hCode
    | .bracket closer :: outer => exact hCode
    | .field :: outer => exact hCode

theorem stepLiteral_congr (r : Reader) {quote c : Char} (triple formatted : Bool) {x y : Text}
    (hTwo : twoMore quote x = twoMore quote y) (hHead : x.head? = y.head?) :
    r.stepLiteral quote triple formatted c x = r.stepLiteral quote triple formatted c y := by
  unfold stepLiteral
  rw [hTwo, hHead]

/-- What can stand behind a logical line without a difference to it: nothing, or a character that is
no quote and no brace. -/
def Closes (after : Text) : Prop :=
  ∀ c, after.head? = some c → isQuote c = false ∧ c ≠ '\x7b'

theorem closes_nil : Closes [] := by
  intro c hc
  cases hc

theorem closes_newline (rest : Text) : Closes ('\n' :: rest) := by
  intro c hc
  obtain rfl : '\n' = c := Option.some.inj hc
  exact ⟨rfl, by decide⟩

theorem closes_return (rest : Text) : Closes ('\r' :: rest) := by
  intro c hc
  obtain rfl : '\r' = c := Option.some.inj hc
  exact ⟨rfl, by decide⟩

theorem Closes.twoMore_append {after : Text} (h : Closes after) {quote : Char}
    (hQuote : isQuote quote = true) (a : Text) : twoMore quote (a ++ after) = twoMore quote a := by
  cases after with
  | nil => rw [List.append_nil]
  | cons d after =>
    have hne : d ≠ quote := by
      rintro rfl
      rw [(h d rfl).1] at hQuote
      cases hQuote
    match a with
    | [] => cases after <;> simp [twoMore, hne]
    | [x] => simp [twoMore, hne]
    | _ :: _ :: _ => rfl

/-- Nothing is open: a newline ends the logical line. -/
structure AtRest (r : Reader) : Prop where
  frames : r.frames = []
  escaped : r.escaped = false
  skip : r.skip = 0

/-- The last character of a logical line does the same whatever stands behind it. -/
theorem step_last {r next : Reader} (hr : r.Sound) {c : Char} {region : Region} {x y : Text}
    (hx : Closes x) (hy : Closes y) (h : r.step c x = .continues region next)
    (hNext : next.AtRest) : r.step c y = .continues region next := by
  rw [← h]
  have hTwo : ∀ quote, isQuote quote = true → twoMore quote y = twoMore quote x := by
    intro quote hQuote
    rw [← List.nil_append y, ← List.nil_append x, hy.twoMore_append hQuote,
      hx.twoMore_append hQuote]
  refine step_congr hTwo fun quote triple formatted outer hFrames hSkip => ?_
  have hQuote : isQuote quote = true := hr quote triple formatted (by simp [hFrames])
  have hBrace : ∀ {z : Text}, Closes z → z.head? ≠ some '\x7b' :=
    fun hz hHead => (hz _ hHead).2 rfl
  unfold stepLiteral
  rw [hTwo quote hQuote]
  by_cases hEscaped : r.escaped = true
  · -- then the string is still open
    unfold step at h
    rw [hSkip, hFrames] at h
    simp only [stepLiteral, hEscaped, if_true] at h
    cases h
    exact absurd hNext.frames (by simp [hFrames])
  · simp [hEscaped, hBrace hx, hBrace hy]

/-- **What stands behind a logical line does not matter to it.** -/
theorem run?_closes {r last : Reader} (hr : r.Sound) {x y : Text} (hx : Closes x) (hy : Closes y)
    {offset : Nat} {a : Text} {marks : List Scanned} (h : run? x r offset a = some (marks, last))
    (hLast : last.AtRest) : run? y r offset a = some (marks, last) := by
  induction a generalizing r offset marks with
  | nil => exact h
  | cons c a ih =>
    obtain ⟨region, next, more, hStep, hMore, rfl⟩ := exists_step h
    have hSame : r.step c (a ++ y) = .continues region next := by
      cases a with
      | nil =>
        obtain ⟨-, rfl⟩ := Prod.mk.inj (Option.some.inj hMore)
        exact step_last hr hx hy hStep hLast
      | cons d a =>
        rw [← hStep]
        have hTwo : ∀ quote, isQuote quote = true →
            twoMore quote (d :: a ++ y) = twoMore quote (d :: a ++ x) := by
          intro quote hQuote
          rw [hy.twoMore_append hQuote, hx.twoMore_append hQuote]
        refine step_congr hTwo fun quote triple formatted outer hFrames _ => ?_
        exact stepLiteral_congr r triple formatted
          (hTwo quote (hr quote triple formatted (by simp [hFrames]))) rfl
    rw [run?_cons hSame, ih (hr.next hStep) hMore]
    rfl

theorem AtRest.readLine?_newline {r : Reader} (hr : r.AtRest) (offset : Nat) (rest : Text) :
    readLine? r offset ('\n' :: rest) = some ([], rest) := by
  obtain ⟨frames, comment, escaped, skip, word⟩ := r
  obtain ⟨rfl, rfl, rfl⟩ := hr
  rfl

theorem AtRest.readLine?_nil {r : Reader} (hr : r.AtRest) (offset : Nat) :
    readLine? r offset [] = some ([], []) := by
  rw [readLine?, hr.frames]
  rfl

end Reader

/-! ## Logical lines -/

/-- A text that is read as one logical line: at the newline behind it, nothing is open. -/
def IsLogicalLine (l : Text) : Prop :=
  ∃ marks last, Reader.run? ['\n'] .start 0 l = some (marks, last) ∧ last.AtRest

instance : DecidablePred IsLogicalLine := fun l =>
  decidable_of_iff
    (∃ part ∈ Reader.run? ['\n'] .start 0 l,
      part.2.frames = [] ∧ part.2.escaped = false ∧ part.2.skip = 0)
    ⟨fun ⟨(marks, last), hRun, hFrames, hEscaped, hSkip⟩ =>
        ⟨marks, last, hRun, hFrames, hEscaped, hSkip⟩,
      fun ⟨marks, last, hRun, hFrames, hEscaped, hSkip⟩ =>
        ⟨(marks, last), hRun, hFrames, hEscaped, hSkip⟩⟩

/-- The scanned characters of a logical line, read on its own. -/
def marksOf (l : Text) : List Scanned :=
  ((Reader.run? ['\n'] .start 0 l).map Prod.fst).getD []

namespace IsLogicalLine

variable {l : Text}

theorem run?_eq (h : IsLogicalLine l) :
    ∃ last, Reader.run? ['\n'] .start 0 l = some (marksOf l, last) ∧ last.AtRest := by
  obtain ⟨marks, last, hRun, hLast⟩ := h
  refine ⟨last, ?_, hLast⟩
  rw [marksOf, hRun]
  rfl

theorem map_char_marksOf (h : IsLogicalLine l) : (marksOf l).map Scanned.char = l := by
  obtain ⟨last, hRun, -⟩ := h.run?_eq
  exact Reader.map_char_of_run? hRun

theorem offset_of_marksOf (h : IsLogicalLine l) {front back : List Scanned} {m : Scanned}
    (hMarks : marksOf l = front ++ m :: back) : m.offset = byteLength (front.map Scanned.char) := by
  obtain ⟨last, hRun, -⟩ := h.run?_eq
  rw [hMarks] at hRun
  rw [Reader.offset_of_run? hRun, Nat.zero_add]

/-- Both ends of a scanned character are places in the line. -/
theorem splitAt?_of_mem_marksOf (h : IsLogicalLine l) {m : Scanned} (hm : m ∈ marksOf l) :
    (∃ x y, splitAt? l m.offset = some (x, y)) ∧
      ∃ x y, splitAt? l (m.offset + m.char.utf8Size) = some (x, y) := by
  obtain ⟨front, back, hMarks⟩ := List.append_of_mem hm
  have hText := h.map_char_marksOf
  rw [hMarks, List.map_append, List.map_cons] at hText
  have hPlace := h.offset_of_marksOf hMarks
  constructor
  · refine ⟨front.map Scanned.char, m.char :: back.map Scanned.char, ?_⟩
    rw [← hText, hPlace, splitAt?_byteLength]
  · refine ⟨front.map Scanned.char ++ [m.char], back.map Scanned.char, ?_⟩
    have hSplit := splitAt?_byteLength (front.map Scanned.char ++ [m.char])
      (back.map Scanned.char)
    rw [byteLength_append, List.append_assoc, ← hPlace] at hSplit
    rwa [← hText]

theorem run?_at (h : IsLogicalLine l) (offset : Nat) :
    ∃ last, Reader.run? ['\n'] .start offset l =
      some ((marksOf l).map (Scanned.shift offset), last) ∧ last.AtRest := by
  obtain ⟨last, hRun, hLast⟩ := h.run?_eq
  refine ⟨last, ?_, hLast⟩
  have hShift := Reader.run?_shift ['\n'] l .start 0 offset
  rwa [Nat.zero_add, hRun] at hShift

/-- A logical line in front of a newline is read as on its own, but for its place. -/
theorem readLine?_newline (h : IsLogicalLine l) (offset : Nat) (rest : Text) :
    readLine? .start offset (l ++ '\n' :: rest) =
      some ((marksOf l).map (Scanned.shift offset), rest) := by
  obtain ⟨last, hRun, hLast⟩ := h.run?_at offset
  have hRest := Reader.run?_closes Reader.sound_start (Reader.closes_newline [])
    (Reader.closes_newline rest) hRun hLast
  rw [Reader.readLine?_append hRest, hLast.readLine?_newline, Option.map_some]
  simp only [List.append_nil]

/-- So is the last logical line of a program, which may have no newline. -/
theorem readLine?_end (h : IsLogicalLine l) (offset : Nat) :
    readLine? .start offset l = some ((marksOf l).map (Scanned.shift offset), []) := by
  obtain ⟨last, hRun, hLast⟩ := h.run?_at offset
  have hRead := Reader.readLine?_append (Reader.run?_closes Reader.sound_start
    (Reader.closes_newline []) Reader.closes_nil hRun hLast)
  rw [List.append_nil, hLast.readLine?_nil, Option.map_some] at hRead
  simpa only [List.append_nil] using hRead

end IsLogicalLine

end FieldFill
