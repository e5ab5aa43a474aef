import FieldFill.Lexical.Closing
import FieldFill.Proofs.Lexical.Anywhere
import FieldFill.Proofs.Lexical.Closed
import FieldFill.Proofs.Text.Returns

/-!
# Scanning a text with Windows line endings

A carriage return in front of a newline is read in the state in which the newline would be read, and it
leaves the scan where the newline is read with the same effect: in code it is a plain character, in a
comment it is one more character of it, and behind a backslash in a string it takes the escape, so that
the newline is a character of the string like others. So the scan of the longer text keeps up with that
of the shorter one, up to positions.

Main definitions:

* `State.Passes` — what is still to be passed of a delimiter is there.
* `ReturnedMarks` — the marks of a text, and those of the text with carriage returns.

Main results:

* `Reads.put_return` — the step: a carriage return and a newline have the effect of the newline.
* `scanFrom_returned`, `endFrom_returned` — the run.
* `closed_crlf`, `fault?_crlf` — a text with Windows line endings is closed alike, with the same faults.
-/

namespace FieldFill

/-! ## Delimiters -/

/-- The characters of a delimiter that are still to be passed are quotes, all there. -/
def State.Passes (s : State) (text : Text) : Prop :=
  ∀ c ∈ text.take s.skip, isQuote c = true

theorem State.passes_start (text : Text) : State.start.Passes text := by
  intro c hc
  cases hc

theorem isQuote_of_twoMore {q : Char} (hq : isQuote q = true) {text : Text}
    (h : twoMore q text = true) : ∀ c ∈ text.take 2, isQuote c = true := by
  match text with
  | [] | [_] => simp [twoMore] at h
  | a :: b :: text =>
    obtain ⟨rfl, rfl⟩ : a = q ∧ b = q := by simpa [twoMore] using h
    intro c hc
    have hEq : c = b := by simpa using hc
    exact hEq ▸ hq

theorem Reads.passes {offset : Nat} {c : Char} {rest : Text} {s next : State} {region : Region}
    (h : Reads offset c rest s region next) (hs : s.Proper) (hPasses : s.Passes (c :: rest)) :
    next.Passes rest := by
  have hNone : ∀ {mode openers unbalanced}, State.Passes ⟨mode, 0, openers, unbalanced⟩ rest := by
    intro mode openers unbalanced d hd
    cases hd
  cases h with
  | delimiter more => exact fun d hd => hPasses d (List.mem_cons_of_mem _ hd)
  | endQuote quote hc hChar hTriple =>
    cases hT : quote.triple with
    | true => exact isQuote_of_twoMore (hs quote _ rfl) (hTriple hT)
    | false => exact hNone
  | quote hc =>
    cases hT : twoMore c rest with
    | true => exact isQuote_of_twoMore hc hT
    | false => exact hNone
  | newline | remark | escaped | escape | inside | hash | opener | closer | stray | plain =>
    exact hNone

/-! ## One line end -/

/-- Marks that differ in positions only. -/
theorem Scanned.eq_of_unplaced {m m' : Scanned} (h : m'.unplaced = m.unplaced) :
    m'.char = m.char ∧ m'.region = m.region ∧ m'.depth = m.depth := by
  simp only [Scanned.unplaced, Scanned.mk.injEq] at h
  exact ⟨h.2.1, h.2.2.1, h.2.2.2.1⟩

/-- A carriage return is a part of a string where the newline behind it is one, and else it is code or
a part of the comment in front of the newline. -/
structure BreakMarks (m ret newline : Scanned) : Prop where
  char : m.char = '\n'
  region : m.region ≠ .comment
  return_char : ret.char = '\r'
  literal : ret.region = .literal ↔ m.region = .literal
  unplaced : newline.unplaced = m.unplaced

/-- A carriage return and a newline have the effect of the newline. -/
theorem Reads.put_return {offset : Nat} {rest : Text} {s next : State} {region : Region}
    (h : Reads offset '\n' rest s region next) (hs : s.Proper) (hSkip : s.skip = 0)
    (offset' offset'' : Nat) (rest' : Text) :
    ∃ region' middle, Reads offset' '\r' ('\n' :: rest') s region' middle ∧
      Reads offset'' '\n' rest' middle region next ∧ middle.depth = s.depth ∧
      region ≠ .comment ∧ (region' = .literal ↔ region = .literal) := by
  -- a quote is no line end
  have hEnd : ∀ {c : Char}, isQuote c = true → c ≠ '\r' ∧ c ≠ '\n' := by
    intro c hc
    constructor
    · rintro rfl
      cases hc
    · rintro rfl
      cases hc
  cases h with
  | delimiter more => cases hSkip
  | newline hc => exact ⟨_, _, .remark (by decide), .newline rfl, rfl, by simp, by simp⟩
  | remark hc => exact absurd rfl hc
  | escaped quote =>
    -- the carriage return is what the backslash takes
    have hQuote := hEnd (hs quote _ rfl)
    refine ⟨_, _, .escaped quote, .inside quote (by decide) fun hEq => ?_, rfl, by simp, Iff.rfl⟩
    exact absurd hEq.symm hQuote.2
  | escape quote hc => cases hc
  | endQuote quote hc hChar => exact absurd hChar.symm (hEnd (hs quote _ rfl)).2
  | inside quote hc hChar =>
    have hQuote := hEnd (hs quote _ rfl)
    refine ⟨_, _, .inside quote (by decide) fun hEq => ?_, .inside quote hc fun hEq => ?_, rfl,
      by simp, Iff.rfl⟩
    · exact absurd hEq.symm hQuote.1
    · exact absurd hEq.symm hQuote.2
  | hash hc => cases hc
  | quote hc => cases hc
  | opener hc => cases hc
  | closer inner outer hc => cases hc
  | stray hc => cases hc
  | plain hc => exact ⟨_, _, .plain (by decide), .plain hc, rfl, by simp, Iff.rfl⟩

/-! ## The whole scan -/

/-- The marks of a text, and those of the text with carriage returns in front of all or some of its
newlines. -/
inductive ReturnedMarks (all : Bool) : List Scanned → List Scanned → Prop where
  | nil : ReturnedMarks all [] []
  | keep {m m' : Scanned} {marks marks' : List Scanned} (hMark : m'.unplaced = m.unplaced)
      (hc : all = true → m.char ≠ '\n') (h : ReturnedMarks all marks marks') :
      ReturnedMarks all (m :: marks) (m' :: marks')
  | put {m ret newline : Scanned} {marks marks' : List Scanned} (hBreak : BreakMarks m ret newline)
      (h : ReturnedMarks all marks marks') :
      ReturnedMarks all (m :: marks) (ret :: newline :: marks')

section

variable {all : Bool} {a b : Text} {s s' : State}

/-- Whether the marks of two characters differ in positions only. -/
theorem unplaced_mark {next next' : State} (hs : s'.unplaced = s.unplaced)
    (hNext : next'.unplaced = next.unplaced) (offset offset' : Nat) (c : Char) (region : Region) :
    Scanned.unplaced ⟨offset', c, region, min s'.depth next'.depth, next'.depth⟩ =
      Scanned.unplaced ⟨offset, c, region, min s.depth next.depth, next.depth⟩ := by
  have hDepth : ∀ {s s' : State}, s'.unplaced = s.unplaced → s'.depth = s.depth := by
    intro s s' h
    rw [← State.depth_unplaced s', h, State.depth_unplaced]
  rw [Scanned.unplaced, Scanned.unplaced, hDepth hs, hDepth hNext]

theorem State.proper_of_unplaced (hs : s.Proper) (h : s'.unplaced = s.unplaced) : s'.Proper := by
  intro quote escaped hMode
  have hModes : s'.mode.unplaced = s.mode.unplaced := congrArg State.mode h
  rw [hMode] at hModes
  cases hOwn : s.mode with
  | code | comment =>
    rw [hOwn] at hModes
    cases hModes
  | literal quote' escaped' =>
    rw [hOwn] at hModes
    have hQuote := hs quote' escaped' hOwn
    simp only [Mode.unplaced, Mode.literal.injEq, Quote.mk.injEq] at hModes
    rw [hModes.1.1]
    exact hQuote

/-- **The scan of a text with carriage returns keeps up with that of the text.** -/
theorem scanFrom_returned (h : Returns all a b) (hs : s.Proper) (hPasses : s.Passes a)
    (hAlike : s'.unplaced = s.unplaced) (offset offset' : Nat) :
    ReturnedMarks all (scanFrom s offset a) (scanFrom s' offset' b) ∧
      (endFrom s' offset' b).unplaced = (endFrom s offset a).unplaced := by
  induction h generalizing s s' offset offset' with
  | nil => exact ⟨.nil, hAlike⟩
  | @keep a b c hc h ih =>
    have hRead := reads_step s offset c a
    obtain ⟨next', hRead', hNext⟩ := hRead.alike hAlike offset'
    have hRight := hRead'.congr (State.proper_of_unplaced hs hAlike) fun hq => h.twoMore_eq hq
    obtain ⟨hMarks, hEnd⟩ := ih (hRead.proper hs) (hRead.passes hs hPasses) hNext
      (offset + c.utf8Size) (offset' + c.utf8Size)
    rw [hRead.scanFrom_cons, hRight.scanFrom_cons, hRead.endFrom_cons, hRight.endFrom_cons]
    exact ⟨.keep (unplaced_mark hAlike hNext ..) hc hMarks, hEnd⟩
  | @put a b h ih =>
    have hRead := reads_step s offset '\n' a
    have hSkip : s.skip = 0 := by
      -- a delimiter that is being passed goes on with a quote
      cases hEq : s.skip with
      | zero => rfl
      | succ more =>
        have hQuote := hPasses '\n' (by rw [hEq]; exact List.mem_cons_self ..)
        cases hQuote
    obtain ⟨region', middle, hReturn, hNewline, hDepth, hComment, hLiteral⟩ :=
      hRead.put_return hs hSkip offset (offset + 1) b
    obtain ⟨middle', hReturn', hMiddle⟩ := hReturn.alike hAlike offset'
    obtain ⟨next', hNewline', hNext⟩ := hNewline.alike hMiddle (offset' + '\r'.utf8Size)
    obtain ⟨hMarks, hEnd⟩ := ih (hRead.proper hs) (hRead.passes hs hPasses) hNext
      (offset + '\n'.utf8Size) (offset' + '\r'.utf8Size + '\n'.utf8Size)
    rw [hRead.scanFrom_cons, hReturn'.scanFrom_cons, hNewline'.scanFrom_cons, hRead.endFrom_cons,
      hReturn'.endFrom_cons, hNewline'.endFrom_cons]
    refine ⟨.put ⟨rfl, hComment, rfl, hLiteral, ?_⟩ hMarks, hEnd⟩
    rw [unplaced_mark hMiddle hNext offset (offset' + '\r'.utf8Size), hDepth]

theorem scan_returned (h : Returns all a b) : ReturnedMarks all (scan a) (scan b) :=
  (scanFrom_returned h State.proper_start (State.passes_start a) rfl 0 0).1

theorem endState_returned (h : Returns all a b) :
    (endState b).unplaced = (endState a).unplaced :=
  (scanFrom_returned h State.proper_start (State.passes_start a) rfl 0 0).2

end

namespace ReturnedMarks

variable {all : Bool} {marks marks' : List Scanned}

theorem map_char (h : ReturnedMarks all marks marks') :
    Returns all (marks.map Scanned.char) (marks'.map Scanned.char) := by
  induction h with
  | nil => exact .nil
  | @keep m m' marks marks' hMark hc h ih =>
    rw [List.map_cons, List.map_cons, (Scanned.eq_of_unplaced hMark).1]
    exact .keep m.char hc ih
  | @put m ret newline marks marks' hBreak h ih =>
    rw [List.map_cons, List.map_cons, List.map_cons, (Scanned.eq_of_unplaced hBreak.unplaced).1,
      hBreak.char, hBreak.return_char]
    exact .put ih

/-- The part that belongs to a string, and what follows it. -/
theorem dropWhile_literal (h : ReturnedMarks all marks marks') :
    ReturnedMarks all (marks.dropWhile fun m => m.region = .literal)
      (marks'.dropWhile fun m => m.region = .literal) := by
  induction h with
  | nil => exact .nil
  | @keep m m' marks marks' hMark hc h ih =>
    rw [List.dropWhile_cons, List.dropWhile_cons, (Scanned.eq_of_unplaced hMark).2.1]
    split
    · exact ih
    · exact .keep hMark hc h
  | @put m ret newline marks marks' hBreak h ih =>
    have hLiteral : decide (ret.region = .literal) = decide (m.region = .literal) :=
      decide_eq_decide.2 hBreak.literal
    rw [List.dropWhile_cons, List.dropWhile_cons, List.dropWhile_cons, hLiteral,
      (Scanned.eq_of_unplaced hBreak.unplaced).2.1]
    split
    · exact ih
    · exact .put hBreak h

end ReturnedMarks

/-! ## Faults -/

/-- A fault without its place. -/
def SignatureFault.unplaced : SignatureFault → SignatureFault
  | unterminatedNesting depth _ => unterminatedNesting depth 0
  | unterminatedString quote _ => unterminatedString quote 0
  | unbalancedCloser closer _ => unbalancedCloser closer 0

@[simp] theorem SignatureFault.unplaced_shift (distance : Nat) (fault : SignatureFault) :
    (fault.shift distance).unplaced = fault.unplaced := by
  cases fault <;> rfl

theorem State.fault?_unplaced (s : State) :
    s.unplaced.fault?.map SignatureFault.unplaced = s.fault?.map SignatureFault.unplaced := by
  obtain ⟨mode, skip, openers, unbalanced⟩ := s
  cases mode with
  | literal quote escaped => rfl
  | code | comment =>
    cases unbalanced with
    | some stray => rfl
    | none =>
      simp only [State.unplaced, Mode.unplaced, State.fault?, State.depth, List.length_map,
        List.getLast?_map, Option.map_none, Option.map_map]
      rfl

theorem State.fault?_of_unplaced {s s' : State} (h : s'.unplaced = s.unplaced) :
    s'.fault?.map SignatureFault.unplaced = s.fault?.map SignatureFault.unplaced := by
  rw [← State.fault?_unplaced s', h, State.fault?_unplaced]

theorem fault?_returned {all : Bool} {a b : Text} (h : Returns all a b) :
    (fault? b).map SignatureFault.unplaced = (fault? a).map SignatureFault.unplaced :=
  State.fault?_of_unplaced (endState_returned h)

theorem closed_returned {all : Bool} {a b : Text} (h : Returns all a b) : Closed b ↔ Closed a := by
  have hFault : fault? b = none ↔ fault? a = none := by
    rw [← Option.map_eq_none_iff (f := SignatureFault.unplaced), fault?_returned h,
      Option.map_eq_none_iff]
  have hMode : ∀ s : State, s.mode = .comment ↔ s.unplaced.mode = .comment := by
    intro s
    obtain ⟨mode, skip, openers, unbalanced⟩ := s
    cases mode <;> simp [State.unplaced, Mode.unplaced]
  have hComment : EndsInComment b ↔ EndsInComment a := by
    rw [EndsInComment, EndsInComment, hMode, endState_returned h, ← hMode]
  rw [closed_iff, closed_iff, hFault, hComment]

end FieldFill
