import FieldFill.Proofs.Lexical.Closed
import Mathlib.Data.List.Forall2

/-!
# Scanning a text without its comments

Deleting the comments of a text, and writing something else for the line breaks of its code, gives
a text that is scanned in step with the old one: the new scan stands still while the old one is in
a comment (`Mirrors`). What makes this so is that the deletion never brings two quotes together: a
comment ends at a line break or at the end of the text, and the line break stays.

Main results:

* `Mirrors.reads` — the step: from states in step, related characters are read alike.
* `scanFrom_flatFrom` — the run: the flat text has the marks of the text without those of comments,
  and the two ends are in step.
* `closed_uncommented`, `Clear.uncommented` — a text without its comments is as closed and as clear.
* `flat_flat` — a flat text is left as it is.
-/

namespace FieldFill

/-! ## Flat texts -/

/-- The characters of a scan that are no comment. -/
def withoutComments (marks : List Scanned) : List Scanned :=
  marks.filter fun m => m.region ≠ .comment

/-- A line break in code is written as `nl`. -/
def Scanned.withBreak (nl : Char) (m : Scanned) : Scanned :=
  if m.region = .code ∧ m.char = '\n' then { m with char := nl } else m

/-- The marks of a text, scanned from a state, without comments and with `nl` for line breaks. -/
def flatMarks (nl : Char) (marks : List Scanned) : List Scanned :=
  (withoutComments marks).map (Scanned.withBreak nl)

/-- A text, scanned from a state, without its comments and with `nl` for the line breaks of its
code. -/
def flatFrom (nl : Char) (s : State) (offset : Nat) (text : Text) : Text :=
  (flatMarks nl (scanFrom s offset text)).map Scanned.char

/-- A text without its comments. -/
def uncommented (text : Text) : Text :=
  (withoutComments (scan text)).map Scanned.char

/-- A text without its comments, on one line but for the line breaks in its strings. -/
def flat (text : Text) : Text :=
  (flatMarks ' ' (scan text)).map Scanned.char

@[simp] theorem Scanned.withBreak_newline (m : Scanned) : m.withBreak '\n' = m := by
  rw [Scanned.withBreak]
  split
  · rename_i h
    rw [← h.2]
  · rfl

theorem flatFrom_newline (text : Text) : flatFrom '\n' .start 0 text = uncommented text := by
  have hSame : Scanned.withBreak '\n' = id := funext Scanned.withBreak_newline
  rw [flatFrom, flatMarks, hSame, List.map_id]
  rfl

theorem Scanned.char_withBreak (nl : Char) (m : Scanned) :
    (m.withBreak nl).char = if m.region = .code ∧ m.char = '\n' then nl else m.char := by
  rw [Scanned.withBreak]
  split <;> rfl

theorem flatMarks_cons {m : Scanned} (nl : Char) (rest : List Scanned)
    (hm : m.region ≠ .comment) :
    flatMarks nl (m :: rest) = m.withBreak nl :: flatMarks nl rest := by
  rw [flatMarks, withoutComments, List.filter_cons_of_pos (by simpa), List.map_cons]
  rfl

theorem Reads.flatFrom_comment {offset : Nat} {c : Char} {rest : Text} {s next : State}
    (nl : Char) (h : Reads offset c rest s .comment next) :
    flatFrom nl s offset (c :: rest) = flatFrom nl next (offset + c.utf8Size) rest := by
  rw [flatFrom, h.scanFrom_cons]
  rfl

theorem Reads.flatFrom_kept {offset : Nat} {c : Char} {rest : Text} {s next : State}
    {region : Region} (nl : Char) (h : Reads offset c rest s region next)
    (hRegion : region ≠ .comment) :
    flatFrom nl s offset (c :: rest) =
      (if region = .code ∧ c = '\n' then nl else c) ::
        flatFrom nl next (offset + c.utf8Size) rest := by
  rw [flatFrom, h.scanFrom_cons, flatMarks_cons nl _ hRegion, List.map_cons, Scanned.char_withBreak]
  rfl

/-! ## No two quotes are brought together -/

theorem Reads.mode_of_kept {offset : Nat} {c : Char} {rest : Text} {s next : State}
    {region : Region} (h : Reads offset c rest s region next)
    (hSkip : s.mode = .comment → s.skip = 0) (hRegion : region ≠ .comment) :
    next.mode ≠ .comment := by
  cases h with
  | delimiter more =>
    intro hMode
    cases hSkip hMode
  | remark | hash => exact absurd rfl hRegion
  | newline | escaped | escape | endQuote | inside | quote | opener | closer | stray | plain => simp

theorem Reads.eq_hash {offset : Nat} {c : Char} {rest : Text} {s next : State}
    (h : Reads offset c rest s .comment next) (hs : s.mode ≠ .comment) :
    c = '#' ∧ ∃ openers unbalanced, next = ⟨.comment, 0, openers, unbalanced⟩ := by
  cases h with
  | remark => exact absurd rfl hs
  | hash hc => exact ⟨hc, _, _, rfl⟩

/-- Behind a comment stands a line break, if anything. -/
theorem head_flatFrom_comment {nl q : Char} (hnl : isPlain nl = true) (hq : isQuote q = true)
    (openers : List Nat) (unbalanced : Option (Char × Nat)) (offset : Nat) (text : Text) :
    (flatFrom nl ⟨.comment, 0, openers, unbalanced⟩ offset text).head? ≠ some q := by
  induction text generalizing offset with
  | nil => simp [flatFrom, scanFrom, flatMarks, withoutComments]
  | cons c rest ih =>
    by_cases hc : c = '\n'
    · have hRead : Reads offset c rest ⟨.comment, 0, openers, unbalanced⟩ .code
          ⟨.code, 0, openers, unbalanced⟩ := .newline hc
      rw [hRead.flatFrom_kept nl (by decide), if_pos ⟨rfl, hc⟩, List.head?_cons]
      intro hHead
      exact ne_of_isPlain_of_isQuote hnl hq (Option.some.inj hHead)
    · have hRead : Reads offset c rest ⟨.comment, 0, openers, unbalanced⟩ .comment
          ⟨.comment, 0, openers, unbalanced⟩ := .remark hc
      rw [hRead.flatFrom_comment]
      exact ih _

theorem head_flatFrom {nl q : Char} (hnl : isPlain nl = true) (hq : isQuote q = true)
    {s : State} (hs : s.mode ≠ .comment) (offset : Nat) (text : Text) :
    (flatFrom nl s offset text).head? = some q ↔ text.head? = some q := by
  cases text with
  | nil => simp [flatFrom, scanFrom, flatMarks, withoutComments]
  | cons c rest =>
    obtain ⟨region, next, hRead⟩ := exists_reads s offset c rest
    by_cases hRegion : region = .comment
    · -- a comment starts here: neither its `#` nor what is left behind it is a quote
      subst hRegion
      obtain ⟨hHash, openers, unbalanced, rfl⟩ := hRead.eq_hash hs
      have hne : c ≠ q := by
        rintro rfl
        exact ne_hash_of_isQuote hq hHash
      have hBehind := head_flatFrom_comment hnl hq openers unbalanced
      rw [hRead.flatFrom_comment, List.head?_cons]
      simp [hne, hBehind]
    · rw [hRead.flatFrom_kept nl hRegion, List.head?_cons, List.head?_cons]
      split
      · -- neither the line break nor what is written for it is a quote
        rename_i hBreak
        have hnlq : nl ≠ q := ne_of_isPlain_of_isQuote hnl hq
        have hcq : c ≠ q := ne_of_isPlain_of_isQuote (hBreak.2 ▸ rfl) hq
        simp [hnlq, hcq]
      · rfl

theorem twoMore_cons_iff {q d : Char} {rest : Text} :
    twoMore q (d :: rest) = true ↔ d = q ∧ rest.head? = some q := by
  cases rest with
  | nil => simp [twoMore]
  | cons e rest => simp [twoMore]

/-- Triple quotes of the flat text are those of the text. -/
theorem twoMore_flatFrom {nl q : Char} (hnl : isPlain nl = true) (hq : isQuote q = true)
    {s : State} (hs : s.mode ≠ .comment) (offset : Nat) (text : Text) :
    twoMore q (flatFrom nl s offset text) = twoMore q text := by
  cases text with
  | nil => rfl
  | cons c rest =>
    have hHead := head_flatFrom hnl hq hs offset (c :: rest)
    by_cases hc : c = q
    · -- the first of the two stays, and what is behind it in the flat text decides
      subst hc
      obtain ⟨region, next, hRead⟩ := exists_reads s offset c rest
      have hRegion : region ≠ .comment := by
        rintro rfl
        exact ne_hash_of_isQuote hq (hRead.eq_hash hs).1
      have hNext := hRead.mode_of_kept (fun hMode => absurd hMode hs) hRegion
      have hBreak : ¬ (region = .code ∧ c = '\n') :=
        fun h => ne_of_isPlain_of_isQuote (h.2 ▸ rfl) hq rfl
      rw [hRead.flatFrom_kept nl hRegion, if_neg hBreak, Bool.eq_iff_iff, twoMore_cons_iff,
        twoMore_cons_iff, head_flatFrom hnl hq hNext]
    · rw [List.head?_cons, Option.some.injEq, iff_false_right hc] at hHead
      have hFlat : twoMore q (flatFrom nl s offset (c :: rest)) = false := by
        cases hEq : flatFrom nl s offset (c :: rest) with
        | nil => rfl
        | cons d more =>
          rw [hEq, List.head?_cons, Option.some.injEq] at hHead
          rw [Bool.eq_false_iff, ne_eq, twoMore_cons_iff]
          exact fun h => hHead h.1
      have hText : twoMore q (c :: rest) = false := by
        rw [Bool.eq_false_iff, ne_eq, twoMore_cons_iff]
        exact fun h => hc h.1
      rw [hFlat, hText]

/-! ## Characters that stand for each other -/

theorem not_isPlain_of_isQuote {c : Char} (h : isQuote c = true) : isPlain c = false := by
  simp [isPlain, h]

theorem not_isPlain_of_isOpener {c : Char} (h : isOpener c = true) : isPlain c = false := by
  simp [isPlain, h]

theorem not_isPlain_of_isCloser {c : Char} (h : isCloser c = true) : isPlain c = false := by
  simp [isPlain, h]

/-- `d` before `rest'` stands for `c` before `rest`: it is the same character, or `nl` for a line
break, and the same quotes follow it. -/
structure Renders (nl c : Char) (rest : Text) (d : Char) (rest' : Text) : Prop where
  plain : isPlain nl = true
  escape : nl ≠ '\\'
  char : d = c ∨ c = '\n' ∧ d = nl
  more : ∀ q, isQuote q = true → twoMore q rest' = twoMore q rest

namespace Renders

variable {nl c d : Char} {rest rest' : Text}

/-- Only a line break is not kept. -/
theorem eq_right (h : Renders nl c rest d rest') {e : Char} (hc : c = e) (he : e ≠ '\n') :
    d = e := by
  rcases h.char with rfl | ⟨hBreak, -⟩
  · exact hc
  · exact absurd (hc.symm.trans hBreak) he

theorem eq_of_not_plain (h : Renders nl c rest d rest') (hc : isPlain c = false) : d = c := by
  refine h.eq_right rfl ?_
  rintro rfl
  cases hc

theorem isPlain_right (h : Renders nl c rest d rest') (hc : isPlain c = true) :
    isPlain d = true := by
  rcases h.char with rfl | ⟨-, rfl⟩
  · exact hc
  · exact h.plain

theorem ne_escape (h : Renders nl c rest d rest') (hc : c ≠ '\\') : d ≠ '\\' := by
  rcases h.char with rfl | ⟨-, rfl⟩
  · exact hc
  · exact h.escape

/-- What is written for a line break is no quote. -/
theorem eq_left (h : Renders nl c rest d rest') {q : Char} (hq : isQuote q = true) (hd : d = q) :
    c = q := by
  rcases h.char with rfl | ⟨-, rfl⟩
  · exact hd
  · exact absurd hd (ne_of_isPlain_of_isQuote h.plain hq)

end Renders

/-! ## States in step -/

/-- `t` scans the flat text where `s` scans the text: code while `s` is in a comment, and else the
same, up to positions. -/
inductive Mirrors : State → State → Prop where
  | code (skip : Nat) {openers openers' : List Nat} {unbalanced unbalanced' : Option (Char × Nat)}
      (hOpeners : openers.length = openers'.length)
      (hUnbalanced : unbalanced = none ↔ unbalanced' = none) :
      Mirrors ⟨.code, skip, openers, unbalanced⟩ ⟨.code, skip, openers', unbalanced'⟩
  | comment {openers openers' : List Nat} {unbalanced unbalanced' : Option (Char × Nat)}
      (hOpeners : openers.length = openers'.length)
      (hUnbalanced : unbalanced = none ↔ unbalanced' = none) :
      Mirrors ⟨.code, 0, openers, unbalanced⟩ ⟨.comment, 0, openers', unbalanced'⟩
  | literal (char : Char) (triple : Bool) (start start' : Nat) (escaped : Bool) (skip : Nat)
      {openers openers' : List Nat} {unbalanced unbalanced' : Option (Char × Nat)}
      (hOpeners : openers.length = openers'.length)
      (hUnbalanced : unbalanced = none ↔ unbalanced' = none) :
      Mirrors ⟨.literal ⟨char, triple, start⟩ escaped, skip, openers, unbalanced⟩
        ⟨.literal ⟨char, triple, start'⟩ escaped, skip, openers', unbalanced'⟩

namespace Mirrors

variable {s t : State}

theorem start : Mirrors .start .start :=
  .code 0 rfl Iff.rfl

theorem depth_eq (h : Mirrors t s) : t.depth = s.depth := by
  cases h <;> assumption

theorem fault?_eq_none_iff (h : Mirrors t s) : t.fault? = none ↔ s.fault? = none := by
  rw [State.fault?_eq_none_iff, State.fault?_eq_none_iff]
  have hNil {openers openers' : List Nat} (hLength : openers.length = openers'.length) :
      openers = [] ↔ openers' = [] := by
    rw [← List.length_eq_zero_iff, ← List.length_eq_zero_iff, hLength]
  cases h with
  | code skip hOpeners hUnbalanced => simp [hUnbalanced, hNil hOpeners]
  | comment hOpeners hUnbalanced => simp [hUnbalanced, hNil hOpeners]
  | literal char triple start start' => simp

section Step

variable {nl c d : Char} {rest rest' : Text} {offset offset' : Nat} {next : State}
  {region : Region} {openers openers' : List Nat} {unbalanced unbalanced' : Option (Char × Nat)}

/-- The rules of code. -/
theorem reads_code {skip : Nat} (hRenders : Renders nl c rest d rest')
    (hOpeners : openers.length = openers'.length)
    (hUnbalanced : unbalanced = none ↔ unbalanced' = none)
    (hRead : Reads offset c rest ⟨.code, skip, openers', unbalanced'⟩ region next)
    (hRegion : region ≠ .comment) :
    ∃ next', Reads offset' d rest' ⟨.code, skip, openers, unbalanced⟩ region next' ∧
      Mirrors next' next := by
  cases hRead with
  | delimiter more => exact ⟨_, .delimiter more, .code more hOpeners hUnbalanced⟩
  | hash => exact absurd rfl hRegion
  | quote hc =>
    obtain rfl := hRenders.eq_of_not_plain (not_isPlain_of_isQuote hc)
    refine ⟨_, .quote hc, ?_⟩
    rw [hRenders.more d hc]
    exact .literal d _ offset' offset false _ hOpeners hUnbalanced
  | opener hc =>
    obtain rfl := hRenders.eq_of_not_plain (not_isPlain_of_isOpener hc)
    exact ⟨_, .opener hc, .code 0 (congrArg (· + 1) hOpeners) hUnbalanced⟩
  | closer inner outer hc =>
    obtain rfl := hRenders.eq_of_not_plain (not_isPlain_of_isCloser hc)
    -- as many brackets are open, so one is
    cases openers with
    | nil => cases hOpeners
    | cons inner' outer' =>
      exact ⟨_, .closer inner' outer' hc, .code 0 (Nat.succ.inj hOpeners) hUnbalanced⟩
  | stray hc =>
    obtain rfl := hRenders.eq_of_not_plain (not_isPlain_of_isCloser hc)
    obtain rfl : openers = [] := List.eq_nil_of_length_eq_zero hOpeners
    exact ⟨_, .stray hc, .code 0 rfl (by simp)⟩
  | plain hc => exact ⟨_, .plain (hRenders.isPlain_right hc), .code 0 hOpeners hUnbalanced⟩

/-- The rules inside a string, whose quote ends it on both sides or on neither. -/
theorem reads_literal {char : Char} {triple escaped : Bool} {start start' skip : Nat}
    (hQuote : isQuote char = true) (hRenders : Renders nl c rest d rest')
    (hOpeners : openers.length = openers'.length)
    (hUnbalanced : unbalanced = none ↔ unbalanced' = none)
    (hRead : Reads offset c rest
      ⟨.literal ⟨char, triple, start'⟩ escaped, skip, openers', unbalanced'⟩ region next) :
    ∃ next', Reads offset' d rest'
        ⟨.literal ⟨char, triple, start⟩ escaped, skip, openers, unbalanced⟩ region next' ∧
      Mirrors next' next := by
  cases hRead with
  | delimiter more =>
    exact ⟨_, .delimiter more, .literal char triple start start' escaped more hOpeners hUnbalanced⟩
  | escaped =>
    exact ⟨_, .escaped _, .literal char triple start start' false 0 hOpeners hUnbalanced⟩
  | escape _ hc =>
    have hd : d = '\\' := hRenders.eq_right hc (by decide)
    exact ⟨_, .escape _ hd, .literal char triple start start' true 0 hOpeners hUnbalanced⟩
  | endQuote _ hc hEnd hTriple =>
    have hd : d = char := hRenders.eq_right hEnd (ne_of_isPlain_of_isQuote rfl hQuote).symm
    refine ⟨_, .endQuote _ (hRenders.ne_escape hc) hd fun hT => ?_, .code _ hOpeners hUnbalanced⟩
    exact (hRenders.more _ hQuote).trans (hTriple hT)
  | inside _ hc hInside =>
    refine ⟨_, .inside _ (hRenders.ne_escape hc) fun hEnd => ?_,
      .literal char triple start start' false 0 hOpeners hUnbalanced⟩
    obtain ⟨hTriple, hNo⟩ := hInside (hRenders.eq_left hQuote hEnd)
    exact ⟨hTriple, (hRenders.more _ hQuote).trans hNo⟩

/-- **One step of a text and of its flat text.** A character outside of comments is read alike on
both sides. -/
theorem reads (h : Mirrors t s) (hs : s.Proper) (hRenders : Renders nl c rest d rest')
    (hRead : Reads offset c rest s region next) (hRegion : region ≠ .comment) :
    ∃ next', Reads offset' d rest' t region next' ∧ Mirrors next' next := by
  cases h with
  | code skip hOpeners hUnbalanced => exact reads_code hRenders hOpeners hUnbalanced hRead hRegion
  | comment hOpeners hUnbalanced =>
    cases hRead with
    | remark => exact absurd rfl hRegion
    | newline hc =>
      -- the flat text was in code all along
      have hd : isPlain d = true := hRenders.isPlain_right (hc ▸ rfl)
      exact ⟨_, .plain hd, .code 0 hOpeners hUnbalanced⟩
  | literal char triple start start' escaped skip hOpeners hUnbalanced =>
    exact reads_literal (hs _ _ rfl) hRenders hOpeners hUnbalanced hRead

end Step

/-- While a comment is read, the flat text has nothing to read. -/
theorem skip_comment (h : Mirrors t s) {offset : Nat} {c : Char} {rest : Text} {next : State}
    (hRead : Reads offset c rest s .comment next) : Mirrors t next := by
  cases hRead with
  | remark => exact h
  | hash =>
    cases h with
    | code _ hOpeners hUnbalanced => exact .comment hOpeners hUnbalanced

end Mirrors

/-! ## The whole scan -/

theorem Mirrors.skip_of_comment {s t : State} (h : Mirrors t s) :
    s.mode = .comment → s.skip = 0 := by
  cases h with
  | code | literal =>
    intro hMode
    cases hMode
  | comment => exact fun _ => rfl

/-- **The flat text is scanned in step with the text.** -/
theorem scanFrom_flatFrom {nl : Char} (hnl : isPlain nl = true) (hEscape : nl ≠ '\\')
    {s t : State} (h : Mirrors t s) (hs : s.Proper) (offset offset' : Nat) (text : Text) :
    (scanFrom t offset' (flatFrom nl s offset text)).map Scanned.unplaced =
        (flatMarks nl (scanFrom s offset text)).map Scanned.unplaced ∧
      Mirrors (endFrom t offset' (flatFrom nl s offset text)) (endFrom s offset text) := by
  induction text generalizing s t offset offset' with
  | nil => exact ⟨rfl, h⟩
  | cons c rest ih =>
    obtain ⟨region, next, hRead⟩ := exists_reads s offset c rest
    rw [hRead.endFrom_cons]
    by_cases hRegion : region = .comment
    · -- nothing of a comment is left to scan
      subst hRegion
      rw [hRead.flatFrom_comment, hRead.scanFrom_cons]
      exact ih (h.skip_comment hRead) (hRead.proper hs) _ _
    · -- the character is kept, and `d` is what is written for it
      have hNext := hRead.mode_of_kept h.skip_of_comment hRegion
      obtain ⟨d, hd⟩ : ∃ d, d = if region = .code ∧ c = '\n' then nl else c := ⟨_, rfl⟩
      have hChar : d = c ∨ c = '\n' ∧ d = nl := by
        by_cases hBreak : region = .code ∧ c = '\n'
        · exact .inr ⟨hBreak.2, by rw [hd, if_pos hBreak]⟩
        · exact .inl (by rw [hd, if_neg hBreak])
      have hRenders : Renders nl c rest d (flatFrom nl next (offset + c.utf8Size) rest) :=
        ⟨hnl, hEscape, hChar, fun q hq => twoMore_flatFrom hnl hq hNext _ rest⟩
      obtain ⟨next', hRead', hMirrors⟩ := h.reads hs hRenders hRead hRegion
      obtain ⟨hScan, hEnd⟩ := ih hMirrors (hRead.proper hs) (offset + c.utf8Size)
        (offset' + d.utf8Size)
      rw [hRead.flatFrom_kept nl hRegion, ← hd, hRead'.scanFrom_cons, hRead'.endFrom_cons,
        hRead.scanFrom_cons]
      refine ⟨?_, hEnd⟩
      rw [List.map_cons, hScan, flatMarks_cons nl _ hRegion, List.map_cons, h.depth_eq,
        hMirrors.depth_eq]
      congr 1
      -- the two marks have the region, the depths and `d` in common
      rw [Scanned.withBreak]
      split <;> simp_all [Scanned.unplaced]

theorem scan_flat (text : Text) :
    (scan (flat text)).map Scanned.unplaced = (flatMarks ' ' (scan text)).map Scanned.unplaced :=
  (scanFrom_flatFrom rfl (by decide) .start State.proper_start 0 0 text).1

theorem scan_uncommented (text : Text) :
    (scan (uncommented text)).map Scanned.unplaced =
      (withoutComments (scan text)).map Scanned.unplaced := by
  have hBreak : isPlain '\n' = true := rfl
  have h := (scanFrom_flatFrom hBreak (by decide) .start State.proper_start 0 0 text).1
  have hSame : Scanned.withBreak '\n' = id := funext Scanned.withBreak_newline
  rwa [flatFrom_newline, flatMarks, hSame, List.map_id] at h

theorem fault?_flat_eq_none_iff (text : Text) : fault? (flat text) = none ↔ fault? text = none :=
  (scanFrom_flatFrom rfl (by decide) .start State.proper_start 0 0 text).2.fault?_eq_none_iff

theorem Mirrors.mode_ne_comment {s t : State} (h : Mirrors t s) : t.mode ≠ .comment := by
  cases h <;> simp

theorem not_endsInComment_flatFrom {nl : Char} (hnl : isPlain nl = true) (hEscape : nl ≠ '\\')
    (text : Text) : ¬ EndsInComment (flatFrom nl .start 0 text) :=
  (scanFrom_flatFrom hnl hEscape .start State.proper_start 0 0 text).2.mode_ne_comment

/-- Without its comments, a text without faults is closed. -/
theorem isTop_unplaced (c : Char) (m : Scanned) : m.unplaced.isTop c = m.isTop c := rfl

theorem Clear.uncommented {c : Char} {text : Text} (h : Clear c text) :
    Clear c (uncommented text) := by
  intro m hm
  have hMem : m.unplaced ∈ (withoutComments (scan text)).map Scanned.unplaced :=
    scan_uncommented text ▸ List.mem_map_of_mem hm
  obtain ⟨k, hk, hEq⟩ := List.mem_map.1 hMem
  have hTop : k.unplaced.isTop c = m.unplaced.isTop c := congrArg (Scanned.isTop c) hEq
  rw [isTop_unplaced, isTop_unplaced] at hTop
  rw [← hTop, h k (List.mem_filter.1 hk).1]

/-- Behind a closed text, comments are deleted as in the text on its own. -/
theorem Closed.uncommented_append {a b : Text} (h : Closed a) (hSeam : Apart a b) :
    FieldFill.uncommented (a ++ b) = FieldFill.uncommented a ++ FieldFill.uncommented b := by
  have hShift : (withoutComments ((scan b).map (Scanned.shift (byteLength a)))).map Scanned.char =
      FieldFill.uncommented b := by
    rw [FieldFill.uncommented, withoutComments, withoutComments, List.filter_map, List.map_map]
    rfl
  calc FieldFill.uncommented (a ++ b)
      = (withoutComments (scan a ++ (scan b).map (Scanned.shift (byteLength a)))).map
          Scanned.char := by
        rw [FieldFill.uncommented, h.scan_append hSeam]
    _ = FieldFill.uncommented a ++ FieldFill.uncommented b := by
        rw [withoutComments, List.filter_append, List.map_append, ← hShift]
        rfl

theorem closed_uncommented {text : Text} (h : fault? text = none) : Closed (uncommented text) := by
  have hBreak : isPlain '\n' = true := rfl
  have hEnd := (scanFrom_flatFrom hBreak (by decide) .start State.proper_start 0 0 text).2
  have hComment := not_endsInComment_flatFrom hBreak (by decide) text
  rw [flatFrom_newline] at hEnd hComment
  exact closed_iff.2 ⟨hEnd.fault?_eq_none_iff.2 h, hComment⟩

/-! ## Flat texts are flat -/

theorem Scanned.unplaced_withBreak (nl : Char) (m : Scanned) :
    (m.withBreak nl).unplaced = m.unplaced.withBreak nl := by
  by_cases h : m.region = .code ∧ m.char = '\n' <;> simp [Scanned.withBreak, Scanned.unplaced, h]

theorem map_unplaced_flatMarks (nl : Char) (marks : List Scanned) :
    (flatMarks nl marks).map Scanned.unplaced = flatMarks nl (marks.map Scanned.unplaced) := by
  induction marks with
  | nil => rfl
  | cons m rest ih =>
    by_cases hm : m.region = .comment
    · have hDrop : flatMarks nl (m :: rest) = flatMarks nl rest := by
        simp [flatMarks, withoutComments, hm]
      have hDrop' : flatMarks nl (m.unplaced :: rest.map Scanned.unplaced) =
          flatMarks nl (rest.map Scanned.unplaced) := by
        simp [flatMarks, withoutComments, Scanned.unplaced, hm]
      rw [hDrop, List.map_cons, hDrop', ih]
    · rw [flatMarks_cons nl rest hm, List.map_cons, List.map_cons, ih,
        flatMarks_cons nl _ (show m.unplaced.region ≠ .comment from hm), Scanned.unplaced_withBreak]

theorem map_char_unplaced (marks : List Scanned) :
    (marks.map Scanned.unplaced).map Scanned.char = marks.map Scanned.char := by
  rw [List.map_map]
  rfl

theorem mem_flatMarks {nl : Char} {marks : List Scanned} {m : Scanned}
    (h : m ∈ flatMarks nl marks) :
    ∃ k ∈ marks, k.region ≠ .comment ∧ m = k.withBreak nl := by
  obtain ⟨k, hk, rfl⟩ := List.mem_map.1 h
  obtain ⟨hMem, hRegion⟩ := List.mem_filter.1 hk
  exact ⟨k, hMem, by simpa using hRegion, rfl⟩

theorem Scanned.region_withBreak (nl : Char) (m : Scanned) :
    (m.withBreak nl).region = m.region := by
  rw [Scanned.withBreak]
  split <;> rfl

theorem flatMarks_idem {nl : Char} (hnl : nl ≠ '\n') (marks : List Scanned) :
    flatMarks nl (flatMarks nl marks) = flatMarks nl marks := by
  have hKept : withoutComments (flatMarks nl marks) = flatMarks nl marks := by
    refine List.filter_eq_self.2 fun m hm => ?_
    obtain ⟨k, -, hRegion, rfl⟩ := mem_flatMarks hm
    simpa [Scanned.region_withBreak] using hRegion
  rw [flatMarks, hKept]
  -- and each mark is left as it is
  refine (List.map_congr_left fun m hm => ?_).trans (List.map_id _)
  obtain ⟨k, -, -, rfl⟩ := mem_flatMarks hm
  -- since no line break is left in code
  rw [id, Scanned.withBreak, if_neg]
  rintro ⟨hCode, hBreak⟩
  rw [Scanned.region_withBreak] at hCode
  rw [Scanned.char_withBreak] at hBreak
  split at hBreak
  · exact hnl hBreak
  · rename_i hKeep
    exact hKeep ⟨hCode, hBreak⟩

theorem flat_flat (text : Text) : flat (flat text) = flat text := by
  calc flat (flat text)
      = (flatMarks ' ' ((scan (flat text)).map Scanned.unplaced)).map Scanned.char := by
        rw [← map_unplaced_flatMarks, map_char_unplaced]
        rfl
    _ = (flatMarks ' ' (flatMarks ' ' (scan text))).map Scanned.char := by
        rw [scan_flat, ← map_unplaced_flatMarks, map_char_unplaced]
    _ = flat text := by
        rw [flatMarks_idem (by decide)]
        rfl

/-- No comment is left in a list of marks that is one without comments up to places. -/
theorem region_ne_comment_of_unplaced {nl : Char} {marks marks' : List Scanned}
    (h : marks'.map Scanned.unplaced = (flatMarks nl marks).map Scanned.unplaced) :
    ∀ m ∈ marks', m.region ≠ .comment := by
  intro m hm
  have hMem : m.unplaced ∈ (flatMarks nl marks).map Scanned.unplaced :=
    h ▸ List.mem_map_of_mem hm
  obtain ⟨k, hk, hEq⟩ := List.mem_map.1 hMem
  obtain ⟨j, -, hRegion, rfl⟩ := mem_flatMarks hk
  have hSame : (j.withBreak nl).unplaced.region = m.unplaced.region := congrArg Scanned.region hEq
  rw [Scanned.unplaced_withBreak, Scanned.region_withBreak] at hSame
  exact fun hComment => hRegion (hSame.trans hComment)

theorem region_scan_uncommented (text : Text) :
    ∀ m ∈ scan (uncommented text), m.region ≠ .comment := by
  have hSame : Scanned.withBreak '\n' = id := funext Scanned.withBreak_newline
  have hScan := scan_uncommented text
  rw [← List.map_id (withoutComments (scan text)), ← hSame] at hScan
  exact region_ne_comment_of_unplaced hScan

theorem region_scan_flat (text : Text) : ∀ m ∈ scan (flat text), m.region ≠ .comment :=
  region_ne_comment_of_unplaced (scan_flat text)

/-! ## Line breaks as spaces

Outside of comments a line break is read like a space, wherever it stands. -/

/-- A character, or the space that a line break became. -/
def Spaced (c d : Char) : Prop :=
  d = c ∨ c = '\n' ∧ d = ' '

/-- Two marks of texts that differ in line breaks only. -/
structure SpacedMark (m k : Scanned) : Prop where
  region : k.region = m.region
  depth : k.depth = m.depth
  char : Spaced m.char k.char

namespace Spaced

variable {c d : Char}

theorem eq_iff (h : Spaced c d) {e : Char} (hBreak : e ≠ '\n') (hSpace : e ≠ ' ') :
    d = e ↔ c = e := by
  rcases h with rfl | ⟨rfl, rfl⟩
  · rfl
  · exact ⟨fun hEq => absurd hEq.symm hSpace, fun hEq => absurd hEq.symm hBreak⟩

/-- Whatever is true of both or of neither of a line break and a space goes through. -/
theorem congr (h : Spaced c d) {p : Char → Bool} (hp : p ' ' = p '\n') : p d = p c := by
  rcases h with rfl | ⟨rfl, rfl⟩
  · rfl
  · exact hp

end Spaced

theorem twoMore_spaced {q : Char} (hq : isQuote q = true) {x y : Text}
    (h : List.Forall₂ Spaced x y) : twoMore q y = twoMore q x := by
  have hBreak : q ≠ '\n' := (ne_of_isPlain_of_isQuote rfl hq).symm
  have hSpace : q ≠ ' ' := (ne_of_isPlain_of_isQuote rfl hq).symm
  cases h with
  | nil => rfl
  | cons hFirst hRest =>
    cases hRest with
    | nil => rfl
    | cons hSecond _ => simp [twoMore, hFirst.eq_iff hBreak hSpace, hSecond.eq_iff hBreak hSpace]

theorem scanFrom_spaced {s t : State} (h : Mirrors t s) (hs : s.Proper) (offset offset' : Nat)
    {x y : Text} (hxy : List.Forall₂ Spaced x y)
    (hNo : ∀ m ∈ scanFrom s offset x, m.region ≠ .comment) :
    List.Forall₂ SpacedMark (scanFrom s offset x) (scanFrom t offset' y) := by
  induction hxy generalizing s t offset offset' with
  | nil => exact .nil
  | @cons c d rest rest' hChar hRest ih =>
    obtain ⟨region, next, hRead⟩ := exists_reads s offset c rest
    rw [hRead.scanFrom_cons] at hNo ⊢
    have hRegion : region ≠ .comment := hNo _ (List.mem_cons_self ..)
    have hRenders : Renders ' ' c rest d rest' :=
      ⟨rfl, by decide, hChar, fun q hq => twoMore_spaced hq hRest⟩
    obtain ⟨next', hRead', hMirrors⟩ := h.reads hs hRenders hRead hRegion
    rw [hRead'.scanFrom_cons]
    refine .cons ⟨rfl, ?_, hChar⟩ (ih hMirrors (hRead.proper hs) _ _ fun m hm => ?_)
    · simp only [h.depth_eq, hMirrors.depth_eq]
    · exact hNo m (List.mem_cons_of_mem _ hm)

/-- A text without comments and its twin with spaces for line breaks are scanned alike. -/
theorem scan_spaced {x y : Text} (hxy : List.Forall₂ Spaced x y)
    (hNo : ∀ m ∈ scan x, m.region ≠ .comment) : List.Forall₂ SpacedMark (scan x) (scan y) :=
  scanFrom_spaced .start State.proper_start 0 0 hxy hNo

end FieldFill
