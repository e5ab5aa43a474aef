import FieldFill.Proofs.Lexical.Stretches

/-!
# The scan, stretch by stretch

The scan of a text is that of its stretches, one after the other. Between two stretches the scan is
in code, or at the end of a comment, whose line break is read as code; a comment or a string is
passed in one region and at one depth (`Walks`), and behind a string the scan is where it was in
front of it.

Main definitions:

* `Walks` — a part of a text that is read in one region.
* `Stretch.marks`, `Stretch.next` — what a stretch adds to a scan, and the state behind it.
* `marksAlong`, `endAlong` — the same for a list of stretches.

Main results:

* `Stretch.Whole.scanFrom_eq` — the step: a whole stretch is scanned as such.
* `scanFrom_textOf` — the run.
* `scan_by_stretches` — the regions of a scan are those of the stretches of the text.
-/

namespace FieldFill

/-! ## Parts in one region -/

/-- The marks of a part of a text that is in one region. -/
def evenMarks (region : Region) (depth depthAfter offset : Nat) : Text → List Scanned
  | [] => []
  | c :: rest =>
    ⟨offset, c, region, depth, depthAfter⟩ ::
      evenMarks region depth depthAfter (offset + c.utf8Size) rest

theorem map_char_evenMarks (region : Region) (depth depthAfter offset : Nat) (text : Text) :
    (evenMarks region depth depthAfter offset text).map Scanned.char = text := by
  induction text generalizing offset with
  | nil => rfl
  | cons c rest ih => rw [evenMarks, List.map_cons, ih]

theorem region_of_mem_evenMarks {region : Region} {depth depthAfter offset : Nat} {text : Text}
    {m : Scanned} (h : m ∈ evenMarks region depth depthAfter offset text) : m.region = region := by
  induction text generalizing offset with
  | nil => cases h
  | cons c rest ih =>
    rcases List.mem_cons.1 h with rfl | hLater
    · rfl
    · exact ih hLater

/-- In front of `rest`, a part of a text is read in one region and at one depth, from one state to
another. -/
inductive Walks (region : Region) (rest : Text) : State → Nat → Text → State → Prop where
  | nil {s offset} : Walks region rest s offset [] s
  | cons {s next last offset c part} (hRead : Reads offset c (part ++ rest) s region next)
      (hDepth : next.depth = s.depth)
      (hPart : Walks region rest next (offset + c.utf8Size) part last) :
      Walks region rest s offset (c :: part) last

namespace Walks

variable {region : Region} {rest a b part : Text} {s mid last : State} {offset : Nat}

theorem append (ha : Walks region (b ++ rest) s offset a mid)
    (hb : Walks region rest mid (offset + byteLength a) b last) :
    Walks region rest s offset (a ++ b) last := by
  induction ha with
  | nil => exact hb
  | cons hRead hDepth hPart ih =>
    rw [byteLength, ← Nat.add_assoc] at hb
    rw [List.cons_append]
    refine .cons ?_ hDepth (ih hb)
    rw [List.append_assoc]
    exact hRead

theorem depth_eq (h : Walks region rest s offset part last) : last.depth = s.depth := by
  induction h with
  | nil => rfl
  | cons hRead hDepth hPart ih => exact ih.trans hDepth

theorem scanFrom_eq (h : Walks region rest s offset part last) :
    scanFrom s offset (part ++ rest) =
      evenMarks region s.depth s.depth offset part ++
        scanFrom last (offset + byteLength part) rest := by
  induction h with
  | nil => rfl
  | cons hRead hDepth hPart ih =>
    rw [List.cons_append, hRead.scanFrom_cons, ih, hDepth, Nat.min_self, byteLength, Nat.add_assoc]
    rfl

theorem endFrom_eq (h : Walks region rest s offset part last) :
    endFrom s offset (part ++ rest) = endFrom last (offset + byteLength part) rest := by
  induction h with
  | nil => rfl
  | cons hRead hDepth hPart ih =>
    rw [List.cons_append, hRead.endFrom_cons, ih, byteLength, Nat.add_assoc]

end Walks

/-! ## Comments and strings are walked -/

section

variable {rest part : Text} {openers : List Nat} {unbalanced : Option (Char × Nat)} {offset : Nat}

theorem walks_remark {remark : Text} (hLine : '\n' ∉ remark) :
    Walks .comment rest ⟨.comment, 0, openers, unbalanced⟩ offset remark
      ⟨.comment, 0, openers, unbalanced⟩ := by
  induction remark generalizing offset with
  | nil => exact .nil
  | cons c remark ih =>
    rw [List.mem_cons, not_or] at hLine
    exact .cons (.remark (Ne.symm hLine.1)) rfl (ih hLine.2)

theorem walks_comment {remark : Text} (hLine : '\n' ∉ remark) :
    Walks .comment rest ⟨.code, 0, openers, unbalanced⟩ offset ('#' :: remark)
      ⟨.comment, 0, openers, unbalanced⟩ :=
  .cons (.hash rfl) rfl (walks_remark hLine)

theorem twoMore_iff {quote : Char} {text : Text} :
    twoMore quote text = true ↔ [quote, quote] <+: text := by
  match text with
  | [] => simp [twoMore]
  | [a] => simp [twoMore]
  | a :: b :: text =>
    simp only [twoMore, Bool.and_eq_true, decide_eq_true_eq, List.cons_prefix_cons,
      List.nil_prefix, and_true, eq_comm (a := quote)]

/-- The quote that a delimiter at a place stands for. -/
def quoteOf (delimiter : Text) (start : Nat) : Quote :=
  ⟨delimiter.headD '\'', delimiter.length = 3, start⟩

theorem OpensWith.delimiter_quoteOf {quote : Char} {delimiter inside : Text}
    (h : OpensWith quote delimiter inside) (start : Nat) :
    (quoteOf delimiter start).char = quote ∧ (quoteOf delimiter start).delimiter = delimiter := by
  rcases h with rfl | ⟨rfl, -⟩ <;> exact ⟨rfl, rfl⟩

/-- The delimiter that opens a string is a part of it. -/
theorem OpensWith.walks {quote : Char} (hQuote : isQuote quote = true) {delimiter inside : Text}
    (h : OpensWith quote delimiter inside) :
    Walks .literal inside ⟨.code, 0, openers, unbalanced⟩ offset delimiter
      ⟨.literal (quoteOf delimiter offset) false, 0, openers, unbalanced⟩ := by
  have hRead : ∀ more, Reads offset quote more ⟨.code, 0, openers, unbalanced⟩ .literal
      ⟨.literal ⟨quote, twoMore quote more, offset⟩ false, if twoMore quote more then 2 else 0,
        openers, unbalanced⟩ := fun more => .quote hQuote
  rcases h with rfl | ⟨rfl, hSingle⟩
  · have hMore : twoMore quote (quote :: quote :: inside) = true := by simp [twoMore]
    have hFirst := hRead (quote :: quote :: inside)
    rw [hMore] at hFirst
    exact .cons hFirst rfl (.cons (.delimiter 1) rfl (.cons (.delimiter 0) rfl .nil))
  · have hMore : twoMore quote inside = false := by
      rw [Bool.eq_false_iff, ne_eq, twoMore_iff]
      exact hSingle
    have hFirst := hRead inside
    rw [hMore] at hFirst
    exact .cons hFirst rfl .nil

/-- A quote ends a string where its delimiter stands. -/
theorem delimiter_prefix_iff {quote : Quote} {c : Char} {rest : Text} :
    quote.delimiter <+: c :: rest ↔
      c = quote.char ∧ (quote.triple = true → twoMore quote.char rest = true) := by
  rw [Quote.delimiter, eq_comm (a := c), twoMore_iff]
  cases quote.triple <;> simp [List.cons_prefix_cons]

theorem escapesNext_concat (part : Text) (c : Char) :
    escapesNext (part ++ [c]) = (!escapesNext part && decide (c = '\\')) := by
  rw [escapesNext, List.foldl_append]
  rfl

/-- Up to where it ends, a string is walked; `seen` is what has been read of it. -/
theorem walks_body {quote : Quote} (seen : Text)
    (hNone : ∀ n < part.length, escapesNext (seen ++ part.take n) = false →
      ¬ quote.delimiter <+: part.drop n ++ rest) :
    Walks .literal rest ⟨.literal quote (escapesNext seen), 0, openers, unbalanced⟩ offset part
      ⟨.literal quote (escapesNext (seen ++ part)), 0, openers, unbalanced⟩ := by
  induction part generalizing seen offset with
  | nil =>
    rw [List.append_nil]
    exact .nil
  | cons c part ih =>
    have hTail := @ih (offset + c.utf8Size) (seen ++ [c]) fun n hn hEscape => by
      rw [List.append_assoc, List.singleton_append] at hEscape
      exact hNone (n + 1) (Nat.succ_lt_succ hn) hEscape
    rw [List.append_assoc, List.singleton_append, escapesNext_concat] at hTail
    cases hSeen : escapesNext seen with
    | true =>
      -- the backslash in front takes the character, whatever it is
      rw [hSeen] at hTail
      exact .cons (.escaped quote) rfl hTail
    | false =>
      rw [hSeen] at hTail
      by_cases hc : c = '\\'
      · rw [decide_eq_true hc] at hTail
        exact .cons (.escape quote hc) rfl hTail
      · rw [decide_eq_false hc] at hTail
        refine .cons (.inside quote hc fun hChar => ?_) rfl hTail
        -- the string would end here
        have hGoesOn := hNone 0 (Nat.zero_lt_succ _) (by simpa using hSeen)
        rw [List.drop_zero, List.cons_append, delimiter_prefix_iff] at hGoesOn
        simpa [hChar] using hGoesOn

/-- The delimiter that closes a string is a part of it. -/
theorem walks_delimiter {quote : Quote} (hQuote : isQuote quote.char = true) :
    Walks .literal rest ⟨.literal quote false, 0, openers, unbalanced⟩ offset quote.delimiter
      ⟨.code, 0, openers, unbalanced⟩ := by
  have hEscape : quote.char ≠ '\\' := by
    intro hEq
    rw [hEq] at hQuote
    cases hQuote
  have hRead : ∀ more, (quote.triple = true → twoMore quote.char more = true) →
      Reads offset quote.char more ⟨.literal quote false, 0, openers, unbalanced⟩ .literal
        ⟨.code, if quote.triple then 2 else 0, openers, unbalanced⟩ :=
    fun more hMore => .endQuote quote hEscape rfl hMore
  rw [Quote.delimiter]
  cases hTriple : quote.triple with
  | true =>
    have hFirst := hRead (quote.char :: quote.char :: rest) fun _ => by simp [twoMore]
    rw [hTriple] at hFirst
    exact .cons hFirst rfl (.cons (.delimiter 1) rfl (.cons (.delimiter 0) rfl .nil))
  | false =>
    have hFirst := hRead rest fun h => by simp [hTriple] at h
    rw [hTriple] at hFirst
    exact .cons hFirst rfl .nil

theorem walks_literal {delimiter body : Text} (h : (Stretch.literal delimiter body).Whole rest) :
    Walks .literal rest ⟨.code, 0, openers, unbalanced⟩ offset (delimiter ++ (body ++ delimiter))
      ⟨.code, 0, openers, unbalanced⟩ := by
  obtain ⟨hBody, quote, hQuote, hOpens⟩ := h
  obtain ⟨hChar, hDelimiter⟩ := hOpens.delimiter_quoteOf offset
  have hNone : ∀ n < body.length, escapesNext ([] ++ body.take n) = false →
      ¬ (quoteOf delimiter offset).delimiter <+: body.drop n ++ (delimiter ++ rest) := by
    intro n hn hEscape hPrefix
    have hNot := hBody.2 n hn
    rw [← endsAt_append (Nat.le_of_lt hn), Bool.eq_false_iff] at hNot
    refine hNot (endsAt_iff.2 ?_)
    rw [List.take_append_of_le_length (Nat.le_of_lt hn),
      List.drop_append_of_le_length (Nat.le_of_lt hn)]
    rw [hDelimiter] at hPrefix
    exact ⟨hEscape, hPrefix⟩
  -- the string is opened, read up to its end, and closed
  have hClose : ∀ place, Walks .literal rest
      ⟨.literal (quoteOf delimiter offset) false, 0, openers, unbalanced⟩ place delimiter
      ⟨.code, 0, openers, unbalanced⟩ := by
    intro place
    have hWalks := @walks_delimiter rest openers unbalanced place (quoteOf delimiter offset)
      (hChar.symm ▸ hQuote)
    rwa [hDelimiter] at hWalks
  have hInside : ∀ place, Walks .literal (delimiter ++ rest)
      ⟨.literal (quoteOf delimiter offset) false, 0, openers, unbalanced⟩ place body
      ⟨.literal (quoteOf delimiter offset) false, 0, openers, unbalanced⟩ := by
    intro place
    have hWalks := @walks_body (delimiter ++ rest) body openers unbalanced place
      (quoteOf delimiter offset) [] hNone
    rwa [List.nil_append, hBody.1] at hWalks
  rw [← List.append_assoc] at hOpens
  exact (hOpens.walks hQuote).append ((hInside _).append (hClose _))

theorem walks_unclosed {delimiter body : Text} (h : (Stretch.unclosed delimiter body).Whole []) :
    Walks .literal [] ⟨.code, 0, openers, unbalanced⟩ offset (delimiter ++ body)
      ⟨.literal (quoteOf delimiter offset) (escapesNext body), 0, openers, unbalanced⟩ := by
  obtain ⟨-, hNever, quote, hQuote, hOpens⟩ := h
  obtain ⟨-, hDelimiter⟩ := hOpens.delimiter_quoteOf offset
  have hNone : ∀ n < body.length, escapesNext ([] ++ body.take n) = false →
      ¬ (quoteOf delimiter offset).delimiter <+: body.drop n ++ [] := by
    intro n _ hEscape hPrefix
    rw [hDelimiter, List.append_nil] at hPrefix
    exact Bool.eq_false_iff.1 (hNever n) (endsAt_iff.2 ⟨hEscape, hPrefix⟩)
  have hInside := @walks_body [] body openers unbalanced (offset + byteLength delimiter)
    (quoteOf delimiter offset) [] hNone
  rw [List.nil_append] at hInside
  rw [← List.append_nil body] at hOpens
  exact (hOpens.walks hQuote).append hInside

end

/-! ## One stretch -/

namespace Stretch

/-- The state behind a stretch, when the scan is in code in front of it. -/
def next (s : State) (offset : Nat) : Stretch → State
  | code c => (s.step offset c []).2
  | comment _ => { s with mode := .comment }
  | literal _ _ => s
  | unclosed delimiter body =>
    { s with mode := .literal (quoteOf delimiter offset) (escapesNext body) }

/-- What a stretch adds to a scan. -/
def marks (s : State) (offset : Nat) (x : Stretch) : List Scanned :=
  evenMarks x.region (min s.depth (x.next s offset).depth) (x.next s offset).depth offset x.text

end Stretch

/-- The states in which a stretch of a text can start: code, and the end of a comment. -/
def State.BeginsStretch (s : State) (text : Text) : Prop :=
  s.skip = 0 ∧ (s.mode = .code ∨ s.mode = .comment ∧ ∀ c, text.head? = some c → c = '\n')

theorem State.beginsStretch_start (text : Text) : State.start.BeginsStretch text :=
  ⟨rfl, .inl rfl⟩

section

variable {s next : State} {offset : Nat} {c : Char} {rest : Text} {region : Region} {x : Stretch}

theorem State.BeginsStretch.proper (h : s.BeginsStretch rest) : s.Proper := by
  intro quote escaped hMode
  rcases h.2 with hCode | ⟨hComment, -⟩
  · simp [hCode] at hMode
  · simp [hComment] at hMode

theorem OpensWith.head {quote : Char} {delimiter inside : Text}
    (h : OpensWith quote delimiter inside) : ∃ more, delimiter = quote :: more := by
  rcases h with rfl | ⟨rfl, -⟩ <;> exact ⟨_, rfl⟩

theorem ne_newline_of_isQuote {quote : Char} (h : isQuote quote = true) : quote ≠ '\n' := by
  rintro rfl
  cases h

/-- Neither a comment nor a string starts with a line break. -/
theorem Stretch.Whole.head_ne (h : x.Whole rest) (hRegion : x.region ≠ .code) :
    ∃ c more, x.text = c :: more ∧ c ≠ '\n' := by
  cases x with
  | code c => exact absurd rfl hRegion
  | comment remark => exact ⟨'#', remark, rfl, by decide⟩
  | literal delimiter body =>
    obtain ⟨-, quote, hQuote, hOpens⟩ := h
    obtain ⟨more, rfl⟩ := hOpens.head
    exact ⟨quote, _, rfl, ne_newline_of_isQuote hQuote⟩
  | unclosed delimiter body =>
    obtain ⟨-, -, quote, hQuote, hOpens⟩ := h
    obtain ⟨more, rfl⟩ := hOpens.head
    exact ⟨quote, _, rfl, ne_newline_of_isQuote hQuote⟩

/-- At the end of a comment, only a line break follows, so comments and strings start in code. -/
theorem State.BeginsStretch.eq_code (h : s.BeginsStretch (x.text ++ rest)) (hWhole : x.Whole rest)
    (hRegion : x.region ≠ .code) : s = ⟨.code, 0, s.openers, s.unbalanced⟩ := by
  obtain ⟨c, more, hText, hne⟩ := hWhole.head_ne hRegion
  rw [hText] at h
  obtain ⟨mode, skip, openers, unbalanced⟩ := s
  obtain ⟨rfl, rfl | ⟨rfl, hHead⟩⟩ := h
  · rfl
  · exact absurd (hHead c rfl) hne

/-- A character that is a stretch of its own is code, and so is what follows it. -/
theorem Reads.code_of_beginsStretch (h : Reads offset c rest s region next)
    (hs : s.BeginsStretch (c :: rest)) (hHash : c ≠ '#') (hQuote : isQuote c = false) :
    region = .code ∧ next.mode = .code ∧ next.skip = 0 := by
  obtain ⟨hSkip, hMode⟩ := hs
  cases h with
  | delimiter more => cases hSkip
  | escaped | escape | endQuote | inside => simp at hMode
  | hash hc => exact absurd hc hHash
  | quote hc => simp [hQuote] at hc
  | remark hc =>
    rcases hMode with hCode | ⟨-, hHead⟩
    · cases hCode
    · exact absurd (hHead c rfl) hc
  | newline | opener | closer | stray | plain => exact ⟨rfl, rfl, rfl⟩

/-- A stretch that is walked adds even marks. -/
theorem Walks.stretch (h : Walks x.region rest s offset x.text (x.next s offset)) :
    scanFrom s offset (x.text ++ rest) =
        x.marks s offset ++ scanFrom (x.next s offset) (offset + byteLength x.text) rest ∧
      endFrom s offset (x.text ++ rest) =
        endFrom (x.next s offset) (offset + byteLength x.text) rest := by
  refine ⟨?_, h.endFrom_eq⟩
  rw [h.scanFrom_eq, Stretch.marks, h.depth_eq, Nat.min_self]

/-- **A whole stretch is scanned as such**, and behind it another one starts, unless it is never
closed. -/
theorem Stretch.Whole.scanFrom_eq (h : x.Whole rest) (hs : s.BeginsStretch (x.text ++ rest))
    (offset : Nat) :
    (scanFrom s offset (x.text ++ rest) =
        x.marks s offset ++ scanFrom (x.next s offset) (offset + byteLength x.text) rest ∧
      endFrom s offset (x.text ++ rest) =
        endFrom (x.next s offset) (offset + byteLength x.text) rest) ∧
      ((x.next s offset).BeginsStretch rest ∨ rest = []) := by
  cases x with
  | code d =>
    obtain ⟨hHash, hQuote⟩ := h
    have hRead : Reads offset d rest s (s.step offset d []).1 (s.step offset d []).2 :=
      (reads_step s offset d []).congr hs.proper fun h => by simp [hQuote] at h
    obtain ⟨hRegion, hMode, hSkip⟩ := hRead.code_of_beginsStretch hs hHash hQuote
    rw [hRegion] at hRead
    exact ⟨⟨hRead.scanFrom_cons, hRead.endFrom_cons⟩, .inl ⟨hSkip, .inl hMode⟩⟩
  | comment remark =>
    rw [hs.eq_code h (by simp [Stretch.region])]
    obtain ⟨hLine, hHead⟩ := h
    exact ⟨(walks_comment hLine).stretch (x := .comment remark), .inl ⟨rfl, .inr ⟨rfl, hHead⟩⟩⟩
  | literal delimiter body =>
    rw [hs.eq_code h (by simp [Stretch.region])]
    exact ⟨(walks_literal h).stretch (x := .literal delimiter body), .inl ⟨rfl, .inl rfl⟩⟩
  | unclosed delimiter body =>
    rw [hs.eq_code h (by simp [Stretch.region])]
    obtain rfl : rest = [] := h.1
    exact ⟨(walks_unclosed h).stretch (x := .unclosed delimiter body), .inr rfl⟩

end

/-! ## All stretches -/

def marksAlong (s : State) (offset : Nat) : List Stretch → List Scanned
  | [] => []
  | x :: rest => x.marks s offset ++ marksAlong (x.next s offset) (offset + byteLength x.text) rest

def endAlong (s : State) (offset : Nat) : List Stretch → State
  | [] => s
  | x :: rest => endAlong (x.next s offset) (offset + byteLength x.text) rest

section

variable {front rest : List Stretch} {s : State}

theorem textOf_cons (x : Stretch) (list : List Stretch) :
    textOf (x :: list) = x.text ++ textOf list := by
  rw [textOf, List.flatMap_cons, ← textOf]

theorem textOf_append (front rest : List Stretch) :
    textOf (front ++ rest) = textOf front ++ textOf rest := by
  rw [textOf, List.flatMap_append, ← textOf, ← textOf]

theorem textOf_concat (front : List Stretch) (x : Stretch) :
    textOf (front ++ [x]) = textOf front ++ x.text := by
  rw [textOf_append, textOf_cons]
  exact congrArg (textOf front ++ ·) (List.append_nil _)

theorem Separated.eq_nil {list : List Stretch} (h : Separated list) (hText : textOf list = []) :
    list = [] := by
  cases list with
  | nil => rfl
  | cons x list =>
    rw [textOf_cons, List.append_eq_nil_iff] at hText
    exact absurd hText.1 h.1.text_ne_nil

/-- **The scan goes along the stretches**, and what is left of them starts where a stretch can. -/
theorem scanFrom_textOf (h : Separated (front ++ rest))
    (hs : s.BeginsStretch (textOf (front ++ rest))) (offset : Nat) :
    (scanFrom s offset (textOf (front ++ rest)) =
        marksAlong s offset front ++
          scanFrom (endAlong s offset front) (offset + byteLength (textOf front)) (textOf rest) ∧
      endFrom s offset (textOf (front ++ rest)) =
        endFrom (endAlong s offset front) (offset + byteLength (textOf front)) (textOf rest)) ∧
      ((endAlong s offset front).BeginsStretch (textOf rest) ∨ rest = []) := by
  induction front generalizing s offset with
  | nil => exact ⟨⟨rfl, rfl⟩, .inl hs⟩
  | cons x front ih =>
    obtain ⟨hWhole, hTail⟩ : x.Whole (textOf (front ++ rest)) ∧ Separated (front ++ rest) := h
    rw [List.cons_append, textOf_cons] at hs ⊢
    obtain ⟨⟨hScan, hEnd⟩, hNext⟩ := hWhole.scanFrom_eq hs offset
    rw [hScan, hEnd, marksAlong, endAlong, textOf_cons, byteLength_append, ← Nat.add_assoc,
      List.append_assoc]
    rcases hNext with hBegins | hNil
    · obtain ⟨⟨hScanTail, hEndTail⟩, hRest⟩ := ih hTail hBegins (offset + byteLength x.text)
      exact ⟨⟨by rw [hScanTail], hEndTail⟩, hRest⟩
    · -- the stretch was the last one
      obtain ⟨rfl, rfl⟩ := List.append_eq_nil_iff.1 (hTail.eq_nil hNil)
      exact ⟨⟨rfl, rfl⟩, .inr rfl⟩

end

theorem scan_eq_marksAlong (text : Text) : scan text = marksAlong .start 0 (stretches text) := by
  have hSeparated := separated_stretches text
  rw [← List.append_nil (stretches text)] at hSeparated
  have hRun := (scanFrom_textOf hSeparated (State.beginsStretch_start _) 0).1.1
  rw [List.append_nil, textOf_stretches] at hRun
  exact hRun.trans (List.append_nil _)

theorem map_char_marksAlong (s : State) (offset : Nat) (list : List Stretch) :
    (marksAlong s offset list).map Scanned.char = textOf list := by
  induction list generalizing s offset with
  | nil => rfl
  | cons x list ih =>
    rw [marksAlong, List.map_append, ih, Stretch.marks, map_char_evenMarks, textOf_cons]

/-- A stretch with the region of each of its characters. -/
def Stretch.tagged (x : Stretch) : List (Char × Region) :=
  x.text.map fun c => (c, x.region)

theorem map_tag_evenMarks (region : Region) (depth depthAfter offset : Nat) (text : Text) :
    (evenMarks region depth depthAfter offset text).map (fun m => (m.char, m.region)) =
      text.map fun c => (c, region) := by
  induction text generalizing offset with
  | nil => rfl
  | cons c rest ih => rw [evenMarks, List.map_cons, ih, List.map_cons]

theorem map_tag_marksAlong (s : State) (offset : Nat) (list : List Stretch) :
    (marksAlong s offset list).map (fun m => (m.char, m.region)) =
      list.flatMap Stretch.tagged := by
  induction list generalizing s offset with
  | nil => rfl
  | cons x list ih =>
    rw [marksAlong, List.map_append, ih, Stretch.marks, map_tag_evenMarks, List.flatMap_cons]
    rfl

/-! ## The string at the end -/

/-- The delimiter and the place of the string that a text leaves open. -/
def openString? (text : Text) : Option (Text × Nat) :=
  match (stretches text).getLast? with
  | some (.unclosed delimiter _) =>
    some (delimiter, byteLength (textOf (stretches text).dropLast))
  | _ => none

section

variable {text delimiter : Text} {start : Nat}

theorem openString?_concat {front : List Stretch} {x : Stretch}
    (h : stretches text = front ++ [x]) :
    openString? text = some (delimiter, start) ↔
      (∃ body, x = .unclosed delimiter body) ∧ start = byteLength (textOf front) := by
  rw [openString?, h, List.getLast?_concat, List.dropLast_concat]
  cases x <;> simp [and_comm, eq_comm]

/-- The end of a text is behind its last stretch. -/
theorem endState_concat {front : List Stretch} {x : Stretch} (h : stretches text = front ++ [x]) :
    ∃ s : State, s.BeginsStretch (x.text ++ []) ∧ x.Whole [] ∧
      endState text = x.next s (byteLength (textOf front)) := by
  have hSeparated : Separated (front ++ [x]) := h ▸ separated_stretches text
  obtain ⟨⟨-, hEnd⟩, hBegins⟩ := scanFrom_textOf hSeparated (State.beginsStretch_start _) 0
  have hBegins : (endAlong .start 0 front).BeginsStretch (x.text ++ []) := by
    have hLast : textOf [x] = x.text ++ [] := textOf_cons x []
    rw [← hLast]
    exact hBegins.resolve_right (List.cons_ne_nil _ _)
  have hWhole : x.Whole [] := hSeparated.of_append.1
  refine ⟨_, hBegins, hWhole, ?_⟩
  have hLast := (hWhole.scanFrom_eq hBegins (byteLength (textOf front))).1.2
  rw [← h, textOf_stretches, Nat.zero_add, textOf_cons] at hEnd
  exact hEnd.trans hLast

/-- **The scan ends in a string when the last stretch is one that is never closed**, and it keeps the
delimiter and the place of that one. -/
theorem mode_endState_iff :
    (∃ quote escaped, (endState text).mode = .literal quote escaped ∧
        quote.delimiter = delimiter ∧ quote.start = start) ↔
      openString? text = some (delimiter, start) := by
  rcases List.eq_nil_or_concat (stretches text) with hNil | ⟨front, x, hConcat⟩
  · have hText : text = [] := by
      rw [← textOf_stretches text, hNil]
      rfl
    subst hText
    simp [openString?, hNil, endState, endFrom, State.start]
  · rw [List.concat_eq_append] at hConcat
    obtain ⟨s, hBegins, hWhole, hEnd⟩ := endState_concat hConcat
    rw [openString?_concat hConcat, hEnd]
    cases x with
    | code c =>
      -- a character of code leaves the scan in code
      have hMode := (reads_step s (byteLength (textOf front)) c []).code_of_beginsStretch hBegins
        hWhole.1 hWhole.2
      simp [Stretch.next, hMode]
    | comment remark => simp [Stretch.next]
    | literal delimiter body =>
      have hCode := hBegins.eq_code hWhole (by simp [Stretch.region])
      have hMode : s.mode = .code := by rw [hCode]
      simp [Stretch.next, hMode]
    | unclosed other body =>
      obtain ⟨-, -, quote, -, hOpens⟩ := hWhole
      obtain ⟨-, hDelimiter⟩ := hOpens.delimiter_quoteOf (byteLength (textOf front))
      constructor
      · rintro ⟨quote, escaped, hMode, rfl, rfl⟩
        obtain ⟨rfl, -⟩ := Mode.literal.inj hMode
        exact ⟨⟨body, by rw [hDelimiter]⟩, rfl⟩
      · rintro ⟨⟨body', hEq⟩, rfl⟩
        obtain ⟨rfl, rfl⟩ := Stretch.unclosed.inj hEq
        exact ⟨_, _, rfl, hDelimiter, rfl⟩

theorem State.fault?_eq_string_iff {s : State} :
    s.fault? = some (.unterminatedString delimiter start) ↔
      ∃ quote escaped, s.mode = .literal quote escaped ∧ quote.delimiter = delimiter ∧
        quote.start = start := by
  obtain ⟨mode, skip, openers, unbalanced⟩ := s
  cases mode with
  | literal quote escaped => simp [State.fault?]
  | code | comment =>
    -- the other faults are about brackets
    cases unbalanced <;> simp [State.fault?]

end

/-- **The scan reads what the lexer reads.** Every character has the region of the stretch it belongs
to. The scan ends in a string exactly when the last stretch is a string that is never closed, and what
it keeps and reports of it are its delimiter and its place. -/
theorem scan_by_stretches (text : Text) :
    (scan text).map (fun m => (m.char, m.region)) = (stretches text).flatMap Stretch.tagged ∧
    ∀ delimiter start,
      ((∃ quote escaped, (endState text).mode = .literal quote escaped ∧
          quote.delimiter = delimiter ∧ quote.start = start) ↔
        openString? text = some (delimiter, start)) ∧
      (fault? text = some (.unterminatedString delimiter start) ↔
        openString? text = some (delimiter, start)) := by
  refine ⟨?_, fun delimiter start => ⟨mode_endState_iff, ?_⟩⟩
  · rw [scan_eq_marksAlong, map_tag_marksAlong]
  · rw [fault?, State.fault?_eq_string_iff, mode_endState_iff]

/-- Of four quotes, three open a string, and the last one is the first character of it. -/
example : stretches "''''#'''\"".toList =
    [.literal "'''".toList "'#".toList, .unclosed ['\"'] []] := by
  decide +kernel

end FieldFill
