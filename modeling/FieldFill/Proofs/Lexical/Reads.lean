import FieldFill.Lexical.Scan

/-!
# How a character is read

`State.step` decides by skip, mode and character at once. `Reads` says the same as rules, one for
each way a character can be read, and every law about scans is proved once for each rule and then
carried along the text.

Two things a scan looks at go beyond the character itself: its byte position, which is kept for
reports only, and up to two characters after it, which tell a triple quote from a single one.

Main results:

* `scanFrom_shift`, `endFrom_shift`, `State.fault?_shift` — a text scanned further to the right
  gives the same scan, with every position moved.
* `scanFrom_append`, `endFrom_append` — a scan goes through a seam between two texts, when the seam
  does not lie between two equal quotes.
* `endFrom_skip` — no scan ends inside a delimiter.
-/

namespace FieldFill

/-- A character that code passes over: it opens and closes nothing. -/
def isPlain (c : Char) : Bool :=
  c ≠ '#' && !isQuote c && !isOpener c && !isCloser c

/-- The ways to read a character `c` at `offset`, before `rest`: from which state, in which region
and to which state. -/
inductive Reads (offset : Nat) (c : Char) (rest : Text) : State → Region → State → Prop where
  | delimiter {mode openers unbalanced} (more : Nat) :
      Reads offset c rest ⟨mode, more + 1, openers, unbalanced⟩ .literal
        ⟨mode, more, openers, unbalanced⟩
  | newline {openers unbalanced} (hc : c = '\n') :
      Reads offset c rest ⟨.comment, 0, openers, unbalanced⟩ .code ⟨.code, 0, openers, unbalanced⟩
  | remark {openers unbalanced} (hc : c ≠ '\n') :
      Reads offset c rest ⟨.comment, 0, openers, unbalanced⟩ .comment
        ⟨.comment, 0, openers, unbalanced⟩
  | escaped {openers unbalanced} (quote : Quote) :
      Reads offset c rest ⟨.literal quote true, 0, openers, unbalanced⟩ .literal
        ⟨.literal quote false, 0, openers, unbalanced⟩
  | escape {openers unbalanced} (quote : Quote) (hc : c = '\\') :
      Reads offset c rest ⟨.literal quote false, 0, openers, unbalanced⟩ .literal
        ⟨.literal quote true, 0, openers, unbalanced⟩
  | endQuote {openers unbalanced} (quote : Quote) (hc : c ≠ '\\') (hChar : c = quote.char)
      (hTriple : quote.triple = true → twoMore quote.char rest = true) :
      Reads offset c rest ⟨.literal quote false, 0, openers, unbalanced⟩ .literal
        ⟨.code, if quote.triple then 2 else 0, openers, unbalanced⟩
  | inside {openers unbalanced} (quote : Quote) (hc : c ≠ '\\')
      (hChar : c = quote.char → quote.triple = true ∧ twoMore quote.char rest = false) :
      Reads offset c rest ⟨.literal quote false, 0, openers, unbalanced⟩ .literal
        ⟨.literal quote false, 0, openers, unbalanced⟩
  | hash {openers unbalanced} (hc : c = '#') :
      Reads offset c rest ⟨.code, 0, openers, unbalanced⟩ .comment
        ⟨.comment, 0, openers, unbalanced⟩
  | quote {openers unbalanced} (hc : isQuote c = true) :
      Reads offset c rest ⟨.code, 0, openers, unbalanced⟩ .literal
        ⟨.literal ⟨c, twoMore c rest, offset⟩ false, if twoMore c rest then 2 else 0, openers,
          unbalanced⟩
  | opener {openers unbalanced} (hc : isOpener c = true) :
      Reads offset c rest ⟨.code, 0, openers, unbalanced⟩ .code
        ⟨.code, 0, offset :: openers, unbalanced⟩
  | closer {unbalanced} (inner : Nat) (outer : List Nat) (hc : isCloser c = true) :
      Reads offset c rest ⟨.code, 0, inner :: outer, unbalanced⟩ .code
        ⟨.code, 0, outer, unbalanced⟩
  | stray {unbalanced} (hc : isCloser c = true) :
      Reads offset c rest ⟨.code, 0, [], unbalanced⟩ .code
        ⟨.code, 0, [], unbalanced <|> some (c, offset)⟩
  | plain {openers unbalanced} (hc : isPlain c = true) :
      Reads offset c rest ⟨.code, 0, openers, unbalanced⟩ .code ⟨.code, 0, openers, unbalanced⟩

/-! ## The kinds of characters exclude each other -/

theorem isQuote_iff {c : Char} : isQuote c = true ↔ c = '\'' ∨ c = '\"' := by
  simp [isQuote]

theorem isOpener_iff {c : Char} : isOpener c = true ↔ c = '(' ∨ c = '[' ∨ c = '\x7b' := by
  simp [isOpener, or_assoc]

theorem isCloser_iff {c : Char} : isCloser c = true ↔ c = ')' ∨ c = ']' ∨ c = '\x7d' := by
  simp [isCloser, or_assoc]

theorem isPlain_iff {c : Char} :
    isPlain c = true ↔
      c ≠ '#' ∧ isQuote c = false ∧ isOpener c = false ∧ isCloser c = false := by
  simp [isPlain, and_assoc]

theorem ne_hash_of_isQuote {c : Char} (h : isQuote c = true) : c ≠ '#' := by
  rintro rfl
  exact absurd h (by decide)

theorem ne_hash_of_isOpener {c : Char} (h : isOpener c = true) : c ≠ '#' := by
  rintro rfl
  exact absurd h (by decide)

theorem ne_hash_of_isCloser {c : Char} (h : isCloser c = true) : c ≠ '#' := by
  rintro rfl
  exact absurd h (by decide)

theorem not_isQuote_of_isOpener {c : Char} (h : isOpener c = true) : isQuote c = false := by
  rcases isOpener_iff.1 h with rfl | rfl | rfl <;> rfl

theorem not_isQuote_of_isCloser {c : Char} (h : isCloser c = true) : isQuote c = false := by
  rcases isCloser_iff.1 h with rfl | rfl | rfl <;> rfl

theorem not_isOpener_of_isCloser {c : Char} (h : isCloser c = true) : isOpener c = false := by
  rcases isCloser_iff.1 h with rfl | rfl | rfl <;> rfl

theorem not_isQuote_of_isPlain {c : Char} (h : isPlain c = true) : isQuote c = false :=
  (isPlain_iff.1 h).2.1

theorem ne_of_isPlain_of_isQuote {c q : Char} (hc : isPlain c = true) (hq : isQuote q = true) :
    c ≠ q := by
  rintro rfl
  rw [not_isQuote_of_isPlain hc] at hq
  cases hq

/-! ## The rules are the step -/

theorem Reads.step_eq {offset : Nat} {c : Char} {rest : Text} {s next : State} {region : Region}
    (h : Reads offset c rest s region next) : s.step offset c rest = (region, next) := by
  cases h with
  | delimiter more => rfl
  | newline hc => simp [State.step, hc]
  | remark hc => simp [State.step, hc]
  | escaped quote => rfl
  | escape quote hc => simp [State.step, State.stepLiteral, hc]
  | endQuote quote hc hChar hTriple =>
    cases hT : quote.triple <;> simp_all [State.step, State.stepLiteral]
  | inside quote hc hChar =>
    by_cases hq : c = quote.char <;> simp_all [State.step, State.stepLiteral]
  | hash hc => simp [State.step, State.stepCode, hc]
  | quote hc => simp [State.step, State.stepCode, hc, ne_hash_of_isQuote hc]
  | opener hc =>
    simp [State.step, State.stepCode, hc, ne_hash_of_isOpener hc, not_isQuote_of_isOpener hc]
  | closer inner outer hc =>
    -- three guards come before the one for closing brackets
    simp [State.step, State.stepCode, hc, ne_hash_of_isCloser hc, not_isQuote_of_isCloser hc,
      not_isOpener_of_isCloser hc]
  | stray hc =>
    simp [State.step, State.stepCode, hc, ne_hash_of_isCloser hc, not_isQuote_of_isCloser hc,
      not_isOpener_of_isCloser hc]
  | plain hc =>
    obtain ⟨hHash, hQuote, hOpener, hCloser⟩ := isPlain_iff.1 hc
    simp [State.step, State.stepCode, hHash, hQuote, hOpener, hCloser]

/-- Every character is read by one of the rules. -/
theorem exists_reads (s : State) (offset : Nat) (c : Char) (rest : Text) :
    ∃ region next, Reads offset c rest s region next := by
  obtain ⟨mode, skip, openers, unbalanced⟩ := s
  cases skip with
  | succ more => exact ⟨_, _, .delimiter more⟩
  | zero =>
    cases mode with
    | comment =>
      by_cases hc : c = '\n'
      · exact ⟨_, _, .newline hc⟩
      · exact ⟨_, _, .remark hc⟩
    | literal quote escaped =>
      cases escaped with
      | true => exact ⟨_, _, .escaped quote⟩
      | false =>
        by_cases hc : c = '\\'
        · exact ⟨_, _, .escape quote hc⟩
        · -- a triple string ends at three quotes only
          by_cases hEnd : c = quote.char ∧ (quote.triple = true → twoMore quote.char rest = true)
          · exact ⟨_, _, .endQuote quote hc hEnd.1 hEnd.2⟩
          · refine ⟨_, _, .inside quote hc fun hChar => ?_⟩
            simpa [hChar] using hEnd
    | code =>
      -- the guards, in the order of the step
      by_cases hHash : c = '#'
      · exact ⟨_, _, .hash hHash⟩
      by_cases hQuote : isQuote c = true
      · exact ⟨_, _, .quote hQuote⟩
      by_cases hOpener : isOpener c = true
      · exact ⟨_, _, .opener hOpener⟩
      by_cases hCloser : isCloser c = true
      · cases openers with
        | nil => exact ⟨_, _, .stray hCloser⟩
        | cons inner outer => exact ⟨_, _, .closer inner outer hCloser⟩
      · exact ⟨_, _, .plain (by simp [isPlain, hHash, hQuote, hOpener, hCloser])⟩

theorem reads_step (s : State) (offset : Nat) (c : Char) (rest : Text) :
    Reads offset c rest s (s.step offset c rest).1 (s.step offset c rest).2 := by
  obtain ⟨region, next, h⟩ := exists_reads s offset c rest
  rw [h.step_eq]
  exact h

theorem Reads.scanFrom_cons {offset : Nat} {c : Char} {rest : Text} {s next : State}
    {region : Region} (h : Reads offset c rest s region next) :
    scanFrom s offset (c :: rest) =
      ⟨offset, c, region, min s.depth next.depth, next.depth⟩ ::
        scanFrom next (offset + c.utf8Size) rest := by
  rw [scanFrom, h.step_eq]

theorem Reads.endFrom_cons {offset : Nat} {c : Char} {rest : Text} {s next : State}
    {region : Region} (h : Reads offset c rest s region next) :
    endFrom s offset (c :: rest) = endFrom next (offset + c.utf8Size) rest := by
  rw [endFrom, h.step_eq]

/-! ## Places -/

/-- A mark stands behind the characters of the marks in front of it. -/
theorem offset_of_scanFrom {s : State} {offset : Nat} {text : Text} {front back : List Scanned}
    {m : Scanned} (h : scanFrom s offset text = front ++ m :: back) :
    m.offset = offset + byteLength (front.map Scanned.char) := by
  induction text generalizing s offset front with
  | nil =>
    rw [scanFrom] at h
    exact absurd h (by simp)
  | cons c text ih =>
    rw [scanFrom] at h
    cases front with
    | nil =>
      rw [← (List.cons.inj h).1]
      rfl
    | cons n front =>
      obtain ⟨rfl, hRest⟩ := List.cons.inj h
      rw [ih hRest, List.map_cons, byteLength, Nat.add_assoc]

theorem le_offset_of_scanFrom {s : State} {offset : Nat} {text : Text} {front back : List Scanned}
    {m : Scanned} (h : scanFrom s offset text = front ++ back) (hm : m ∈ back) :
    offset + byteLength (front.map Scanned.char) ≤ m.offset := by
  obtain ⟨x, y, rfl⟩ := List.append_of_mem hm
  rw [← List.append_assoc] at h
  have hOffset := offset_of_scanFrom h
  rw [List.map_append, byteLength_append] at hOffset
  omega

theorem offset_lt_of_scanFrom {s : State} {offset : Nat} {text : Text} {front back : List Scanned}
    {m : Scanned} (h : scanFrom s offset text = front ++ back) (hm : m ∈ front) :
    m.offset < offset + byteLength (front.map Scanned.char) := by
  obtain ⟨x, y, rfl⟩ := List.append_of_mem hm
  rw [List.append_assoc] at h
  have hOffset := offset_of_scanFrom h
  have hSize := Char.utf8Size_pos m.char
  rw [List.map_append, List.map_cons, byteLength_append, byteLength]
  omega

/-- The marks of a scan stand in the order of the text, so none occurs twice. -/
theorem pairwise_offset_scanFrom (s : State) (offset : Nat) (text : Text) :
    (scanFrom s offset text).Pairwise fun m k => m.offset < k.offset := by
  induction text generalizing s offset with
  | nil => exact .nil
  | cons c rest ih =>
    obtain ⟨region, next, hRead⟩ := exists_reads s offset c rest
    rw [hRead.scanFrom_cons, List.pairwise_cons]
    refine ⟨fun m hm => ?_, ih next _⟩
    have hBehind := le_offset_of_scanFrom (List.nil_append _).symm hm
    have hSize := Char.utf8Size_pos c
    dsimp only
    omega

theorem nodup_scan (text : Text) : (scan text).Nodup :=
  (pairwise_offset_scanFrom .start 0 text).imp fun {m k} hLt (hEq : m = k) =>
    Nat.lt_irrefl _ (hEq ▸ hLt)

/-! ## Positions

A scan keeps byte positions for its reports and decides nothing by them, so that a text further to
the right is scanned alike. -/

def Quote.shift (distance : Nat) (q : Quote) : Quote :=
  { q with start := q.start + distance }

def Mode.shift (distance : Nat) : Mode → Mode
  | .literal quote escaped => .literal (quote.shift distance) escaped
  | .code => .code
  | .comment => .comment

def State.shift (distance : Nat) (s : State) : State :=
  ⟨s.mode.shift distance, s.skip, s.openers.map (· + distance),
    s.unbalanced.map fun (closer, offset) => (closer, offset + distance)⟩

def Scanned.shift (distance : Nat) (m : Scanned) : Scanned :=
  { m with offset := m.offset + distance }

/-- A mark without its place. -/
def Scanned.unplaced (m : Scanned) : Scanned :=
  { m with offset := 0 }

theorem map_unplaced_shift (distance : Nat) (marks : List Scanned) :
    (marks.map (Scanned.shift distance)).map Scanned.unplaced = marks.map Scanned.unplaced := by
  rw [List.map_map]
  rfl

theorem map_char_shift (distance : Nat) (marks : List Scanned) :
    (marks.map (Scanned.shift distance)).map Scanned.char = marks.map Scanned.char := by
  rw [List.map_map]
  rfl

theorem map_shift_shift (a b : Nat) (marks : List Scanned) :
    (marks.map (Scanned.shift a)).map (Scanned.shift b) = marks.map (Scanned.shift (b + a)) := by
  rw [List.map_map]
  refine List.map_congr_left fun m _ => ?_
  simp only [Function.comp_apply, Scanned.shift, Nat.add_assoc, Nat.add_comm a]

@[simp] theorem State.shift_start (distance : Nat) : State.start.shift distance = .start := rfl

@[simp] theorem State.depth_shift (distance : Nat) (s : State) :
    (s.shift distance).depth = s.depth := by
  simp [State.shift, State.depth]

theorem Reads.shift {offset : Nat} {c : Char} {rest : Text} {s next : State} {region : Region}
    (distance : Nat) (h : Reads offset c rest s region next) :
    Reads (offset + distance) c rest (s.shift distance) region (next.shift distance) := by
  cases h with
  | delimiter more => exact .delimiter more
  | newline hc => exact .newline hc
  | remark hc => exact .remark hc
  | escaped quote => exact .escaped (quote.shift distance)
  | escape quote hc => exact .escape (quote.shift distance) hc
  | endQuote quote hc hChar hTriple => exact .endQuote (quote.shift distance) hc hChar hTriple
  | inside quote hc hChar => exact .inside (quote.shift distance) hc hChar
  | hash hc => exact .hash hc
  | quote hc => exact .quote hc
  | opener hc => exact .opener hc
  | closer inner outer hc => exact .closer (inner + distance) (outer.map (· + distance)) hc
  | @stray unbalanced hc => cases unbalanced <;> exact .stray hc
  | plain hc => exact .plain hc

theorem scanFrom_shift (distance : Nat) (s : State) (offset : Nat) (text : Text) :
    scanFrom (s.shift distance) (offset + distance) text =
      (scanFrom s offset text).map (Scanned.shift distance) := by
  induction text generalizing s offset with
  | nil => rfl
  | cons c rest ih =>
    -- the same rule reads `c` at both places
    have h := reads_step s offset c rest
    rw [h.scanFrom_cons, (h.shift distance).scanFrom_cons, List.map_cons, ← ih,
      Nat.add_right_comm]
    simp [Scanned.shift]

theorem endFrom_shift (distance : Nat) (s : State) (offset : Nat) (text : Text) :
    endFrom (s.shift distance) (offset + distance) text =
      (endFrom s offset text).shift distance := by
  induction text generalizing s offset with
  | nil => rfl
  | cons c rest ih =>
    have h := reads_step s offset c rest
    rw [h.endFrom_cons, (h.shift distance).endFrom_cons, ← ih, Nat.add_right_comm]

theorem State.fault?_shift (distance : Nat) (s : State) :
    (s.shift distance).fault? = s.fault?.map (SignatureFault.shift distance) := by
  obtain ⟨mode, skip, openers, unbalanced⟩ := s
  cases mode with
  | literal quote escaped => rfl
  | code | comment =>
    cases unbalanced with
    | some stray => rfl
    | none =>
      -- nothing is wrong, or a bracket is open: the outermost one moves with the others
      cases hLast : openers.getLast? <;>
        simp [State.shift, Mode.shift, State.fault?, State.depth, SignatureFault.shift, hLast]

/-- A text that starts at `offset` is scanned as on its own. -/
theorem scanFrom_start (offset : Nat) (text : Text) :
    scanFrom .start offset text = (scan text).map (Scanned.shift offset) := by
  simpa [scan] using scanFrom_shift offset .start 0 text

theorem endFrom_start (offset : Nat) (text : Text) :
    endFrom .start offset text = (endState text).shift offset := by
  simpa [endState] using endFrom_shift offset .start 0 text

/-! ## Seams

The characters that follow are looked at behind a quote only, for two more of it. A seam between
two texts is not seen unless the same quote stands on both of its sides. -/

/-- No two equal quotes meet where `a` ends and `b` starts. -/
def Apart (a b : Text) : Prop :=
  ∀ c, isQuote c = true → a.getLast? = some c → b.head? ≠ some c

namespace Apart

theorem nil_right (a : Text) : Apart a [] := by
  intro c _ _ hHead
  cases hHead

theorem cons_right {d : Char} (a b : Text) (hd : isQuote d = false) : Apart a (d :: b) := by
  intro c hc _ hHead
  obtain rfl : d = c := by simpa using hHead
  simp [hd] at hc

theorem concat_left {d : Char} (a b : Text) (hd : isQuote d = false) : Apart (a ++ [d]) b := by
  intro c hc hLast _
  obtain rfl : d = c := by simpa using hLast
  simp [hd] at hc

theorem tail {c : Char} {a b : Text} (h : Apart (c :: a) b) : Apart a b := by
  intro d hd hLast
  refine h d hd ?_
  cases a with
  | nil => cases hLast
  | cons x a => rw [List.getLast?_cons_cons, hLast]

end Apart

/-- Only a quote opens a string. -/
def State.Proper (s : State) : Prop :=
  ∀ quote escaped, s.mode = .literal quote escaped → isQuote quote.char = true

theorem State.proper_start : State.start.Proper := by
  intro quote escaped h
  cases h

theorem Reads.proper {offset : Nat} {c : Char} {rest : Text} {s next : State} {region : Region}
    (h : Reads offset c rest s region next) (hs : s.Proper) : next.Proper := by
  cases h with
  | escaped quote | escape quote | inside quote =>
    intro q e hMode
    cases hMode
    exact hs quote _ rfl
  | quote hc =>
    intro q e hMode
    cases hMode
    exact hc
  | delimiter more => exact hs
  | newline | remark | endQuote | hash | opener | closer | stray | plain =>
    intro q e hMode
    cases hMode

theorem twoMore_append {c : Char} {a b : Text} (hc : isQuote c = true) (h : Apart (c :: a) b) :
    twoMore c (a ++ b) = twoMore c a := by
  -- with two characters or more in `a`, nothing of `b` is looked at
  match a with
  | [] =>
    cases b with
    | nil => rfl
    | cons d b =>
      have hd : d ≠ c := by simpa using h c hc rfl
      cases b <;> simp [twoMore, hd]
  | [x] =>
    cases b with
    | nil => rfl
    | cons d b =>
      by_cases hx : x = c
      · -- the seam is behind a quote, so no quote follows it
        subst hx
        have hd : d ≠ x := by simpa using h x hc rfl
        simp [twoMore, hd]
      · simp [twoMore, hx]
  | x :: y :: a => rfl

/-- What follows a character is looked at behind a quote only. -/
theorem Reads.congr {offset : Nat} {c : Char} {a b : Text} {s next : State} {region : Region}
    (h : Reads offset c a s region next) (hs : s.Proper)
    (hMore : isQuote c = true → twoMore c b = twoMore c a) : Reads offset c b s region next := by
  cases h with
  | delimiter more => exact .delimiter more
  | newline hc => exact .newline hc
  | remark hc => exact .remark hc
  | escaped quote => exact .escaped quote
  | escape quote hc => exact .escape quote hc
  | endQuote quote hc hChar hTriple =>
    subst hChar
    refine .endQuote quote hc rfl fun hT => ?_
    rw [hMore (hs quote _ rfl), hTriple hT]
  | inside quote hc hChar =>
    -- a quote that ends no triple string does not end one in front of `b`
    refine .inside quote hc fun hEq => ⟨(hChar hEq).1, ?_⟩
    subst hEq
    rw [hMore (hs quote _ rfl), (hChar rfl).2]
  | quote hc =>
    rw [← hMore hc]
    exact .quote hc
  | hash hc => exact .hash hc
  | opener hc => exact .opener hc
  | closer inner outer hc => exact .closer inner outer hc
  | stray hc => exact .stray hc
  | plain hc => exact .plain hc

theorem Reads.append {offset : Nat} {c : Char} {a b : Text} {s next : State} {region : Region}
    (h : Reads offset c a s region next) (hs : s.Proper) (hSeam : Apart (c :: a) b) :
    Reads offset c (a ++ b) s region next :=
  h.congr hs fun hc => twoMore_append hc hSeam

theorem step_append {s : State} (hs : s.Proper) (offset : Nat) {c : Char} {a b : Text}
    (hSeam : Apart (c :: a) b) : s.step offset c (a ++ b) = s.step offset c a :=
  ((reads_step s offset c a).append hs hSeam).step_eq

theorem scanFrom_append {s : State} (hs : s.Proper) (offset : Nat) {a b : Text}
    (hSeam : Apart a b) :
    scanFrom s offset (a ++ b) =
      scanFrom s offset a ++ scanFrom (endFrom s offset a) (offset + byteLength a) b := by
  induction a generalizing s offset with
  | nil => rfl
  | cons c a ih =>
    have h := reads_step s offset c a
    rw [List.cons_append, (h.append hs hSeam).scanFrom_cons, h.scanFrom_cons, h.endFrom_cons,
      ih (h.proper hs) _ hSeam.tail, byteLength, Nat.add_assoc, List.cons_append]

theorem endFrom_append {s : State} (hs : s.Proper) (offset : Nat) {a b : Text}
    (hSeam : Apart a b) :
    endFrom s offset (a ++ b) = endFrom (endFrom s offset a) (offset + byteLength a) b := by
  induction a generalizing s offset with
  | nil => rfl
  | cons c a ih =>
    have h := reads_step s offset c a
    rw [List.cons_append, (h.append hs hSeam).endFrom_cons, h.endFrom_cons,
      ih (h.proper hs) _ hSeam.tail, byteLength, Nat.add_assoc]

theorem scan_append {a b : Text} (hSeam : Apart a b) :
    scan (a ++ b) = scan a ++ scanFrom (endState a) (byteLength a) b := by
  have h := scanFrom_append State.proper_start 0 hSeam
  rwa [Nat.zero_add] at h

theorem endState_append {a b : Text} (hSeam : Apart a b) :
    endState (a ++ b) = endFrom (endState a) (byteLength a) b := by
  have h := endFrom_append State.proper_start 0 hSeam
  rwa [Nat.zero_add] at h

/-! ## What holds at the end -/

theorem length_of_twoMore {c : Char} {text : Text} (h : twoMore c text = true) :
    2 ≤ text.length := by
  match text with
  | [] | [x] => simp [twoMore] at h
  | x :: y :: text => simp

theorem Reads.skip_le {offset : Nat} {c : Char} {rest : Text} {s next : State} {region : Region}
    (h : Reads offset c rest s region next) (hSkip : s.skip ≤ rest.length + 1) :
    next.skip ≤ rest.length := by
  cases h with
  | delimiter more => exact Nat.le_of_succ_le_succ hSkip
  | endQuote quote hc hChar hTriple =>
    dsimp only
    split
    · exact length_of_twoMore (hTriple ‹_›)
    · exact Nat.zero_le _
  | quote hc =>
    dsimp only
    split
    · exact length_of_twoMore ‹_›
    · exact Nat.zero_le _
  | newline | remark | escaped | escape | inside | hash | opener | closer | stray | plain =>
    exact Nat.zero_le _

/-- A delimiter that is being passed is there in full, so that no text ends inside one. -/
theorem endFrom_skip {s : State} (offset : Nat) {text : Text} (hSkip : s.skip ≤ text.length) :
    (endFrom s offset text).skip = 0 := by
  induction text generalizing s offset with
  | nil => simpa [endFrom] using hSkip
  | cons c rest ih =>
    have h := reads_step s offset c rest
    rw [h.endFrom_cons]
    exact ih _ (h.skip_le hSkip)

theorem Reads.unbalanced_of_next {offset : Nat} {c : Char} {rest : Text} {s next : State}
    {region : Region} (h : Reads offset c rest s region next) (hNext : next.unbalanced = none) :
    s.unbalanced = none := by
  cases h with
  | @stray unbalanced hc =>
    -- the first one is kept, so there is one behind this character
    cases unbalanced <;> simp_all
  | delimiter | newline | remark | escaped | escape | endQuote | inside | hash | quote | opener
  | closer | plain => exact hNext

/-- A bracket that closed nothing is never forgotten. -/
theorem unbalanced_of_endFrom {s : State} {offset : Nat} {text : Text}
    (h : (endFrom s offset text).unbalanced = none) : s.unbalanced = none := by
  induction text generalizing s offset with
  | nil => exact h
  | cons c rest ih =>
    have hRead := reads_step s offset c rest
    rw [hRead.endFrom_cons] at h
    exact hRead.unbalanced_of_next (ih h)

end FieldFill
