import FieldFill.Proofs.Parameter.Classify
import FieldFill.Proofs.Parameter.Cut

/-!
# The second scan

A default is looked for in a text that the list does not hold: the segment without its comments,
with its ends trimmed and its stars and its name cut off, scanned from the start. That scan decides
what the scan of the list shows. Comments can be put back, since what stands beside one in the text
is a line break or its `#` and never an `=`; stars, names and blanks are plain; and a segment is
scanned in its list as on its own.

Main definitions:

* `CommentStep` — what stands beside comments in every scan.
* `nameStart` — where the name of a segment stands, behind comments, blanks and stars.
* `MarksDefaultAt` — an `=` that marks a default, by its neighbours in the list.

Main results:

* `marksDefault_withoutComments` — comments do not matter.
* `marksDefault_behindName` — the second scan and the scan of the segment agree.
* `Cut.exists_scannedIn` — the scan of a segment is a part of the scan of the list.
* `defaulted_iff` — a parameter has a default when the scan of the list says so.
-/

namespace FieldFill

/-! ## Beside comments -/

/-- Behind a comment stands a line break, and a comment starts with a `#`. -/
def CommentStep (m k : Scanned) : Prop :=
  (m.region = .comment → k.region ≠ .comment → k.char = '\n') ∧
    (m.region ≠ .comment → k.region = .comment → k.char = '#')

theorem Reads.mode_of_comment {offset : Nat} {c : Char} {rest : Text} {s next : State}
    (h : Reads offset c rest s .comment next) : next.mode = .comment ∧ next.skip = 0 := by
  cases h with
  | remark | hash => exact ⟨rfl, rfl⟩

theorem Reads.eq_newline {offset : Nat} {c : Char} {rest : Text} {s next : State}
    {region : Region} (h : Reads offset c rest s region next)
    (hs : s.mode = .comment ∧ s.skip = 0) (hRegion : region ≠ .comment) : c = '\n' := by
  cases h with
  | delimiter more => cases hs.2
  | remark => exact absurd rfl hRegion
  | newline hc => exact hc
  | escaped | escape | endQuote | inside | hash | quote | opener | closer | stray | plain =>
    cases hs.1

theorem isChain_scanFrom {s : State} (hs : s.mode = .comment → s.skip = 0) (offset : Nat)
    (text : Text) : (scanFrom s offset text).IsChain CommentStep := by
  induction text generalizing s offset with
  | nil => exact .nil
  | cons c rest ih =>
    obtain ⟨region, next, hRead⟩ := exists_reads s offset c rest
    have hNext : next.mode = .comment → next.skip = 0 := by
      intro hMode
      by_cases hRegion : region = .comment
      · subst hRegion
        exact hRead.mode_of_comment.2
      · exact absurd hMode (hRead.mode_of_kept hs hRegion)
    have hTail := ih hNext (offset + c.utf8Size)
    rw [hRead.scanFrom_cons]
    cases rest with
    | nil => exact .singleton _
    | cons d rest =>
      obtain ⟨region', next', hRead'⟩ := exists_reads next (offset + c.utf8Size) d rest
      rw [hRead'.scanFrom_cons] at hTail ⊢
      refine .cons_cons ⟨fun hComment hKept => ?_, fun hKept hComment => ?_⟩ hTail
      · obtain rfl : region = .comment := hComment
        exact hRead'.eq_newline hRead.mode_of_comment hKept
      · obtain rfl : region' = .comment := hComment
        exact (hRead'.eq_hash (hRead.mode_of_kept hs hKept)).1

theorem isChain_scan (text : Text) : (scan text).IsChain CommentStep :=
  isChain_scanFrom (by simp [State.start]) 0 text

section

variable {m : Scanned} {rest : List Scanned} {c : Char}

theorem withoutComments_cons_comment (hm : m.region = .comment) :
    withoutComments (m :: rest) = withoutComments rest := by
  simp [withoutComments, hm]

theorem withoutComments_cons_kept (hm : m.region ≠ .comment) :
    withoutComments (m :: rest) = m :: withoutComments rest := by
  simp [withoutComments, hm]

/-- What is left behind a comment starts with a line break. -/
theorem head_withoutComments_of_comment (h : (m :: rest).IsChain CommentStep)
    (hm : m.region = .comment) (hc : c ≠ '\n') :
    (withoutComments rest).head?.map Scanned.char ≠ some c := by
  induction rest generalizing m with
  | nil => simp [withoutComments]
  | cons k rest ih =>
    obtain ⟨hStep, hTail⟩ := List.isChain_cons_cons.1 h
    by_cases hk : k.region = .comment
    · rw [withoutComments_cons_comment hk]
      exact ih hTail hk
    · rw [withoutComments_cons_kept hk, List.head?_cons, Option.map_some, hStep.1 hm hk]
      simpa using hc.symm

/-- Behind other characters, a comment is as little a given character as what is left behind it. -/
theorem head_withoutComments_of_kept (h : (m :: rest).IsChain CommentStep)
    (hm : m.region ≠ .comment) (hBreak : c ≠ '\n') (hHash : c ≠ '#') :
    (withoutComments rest).head?.map Scanned.char = some c ↔
      rest.head?.map Scanned.char = some c := by
  cases rest with
  | nil => simp [withoutComments]
  | cons k rest =>
    obtain ⟨hStep, hTail⟩ := List.isChain_cons_cons.1 h
    by_cases hk : k.region = .comment
    · rw [withoutComments_cons_comment hk, List.head?_cons, Option.map_some, hStep.2 hm hk]
      refine iff_of_false (head_withoutComments_of_comment hTail hk hBreak) ?_
      simpa using hHash.symm
    · rw [withoutComments_cons_kept hk, List.head?_cons, List.head?_cons]

end

/-- In front of anything but an `=`, the character before does not matter. -/
theorem marksDefault_before {marks : List Scanned} (h : marks.head?.map Scanned.char ≠ some '=')
    (before before' : Option Char) :
    Parameter.marksDefault before marks = Parameter.marksDefault before' marks := by
  cases marks with
  | nil => rfl
  | cons m marks =>
    have hTop : m.isTop '=' = false := by
      have hChar : m.char ≠ '=' := by simpa using h
      simp [Scanned.isTop, hChar]
    simp [Parameter.marksDefault, hTop]

/-- **Comments do not matter for a default.** -/
theorem marksDefault_withoutComments {marks : List Scanned} (h : marks.IsChain CommentStep)
    (before : Option Char) :
    Parameter.marksDefault before (withoutComments marks) =
      Parameter.marksDefault before marks := by
  induction marks generalizing before with
  | nil => rfl
  | cons m rest ih =>
    have hTail := h.tail
    by_cases hm : m.region = .comment
    · -- the line break behind the comment is no `=`
      have hHead := head_withoutComments_of_comment h hm (show '=' ≠ '\n' by decide)
      have hTop : m.isTop '=' = false := by simp [Scanned.isTop, Scanned.isCode, hm]
      rw [withoutComments_cons_comment hm, marksDefault_before hHead before (some m.char),
        ih hTail, Parameter.marksDefault, hTop]
      simp
    · have hHead := head_withoutComments_of_kept h hm (show '=' ≠ '\n' by decide) (by decide)
      rw [withoutComments_cons_kept hm, Parameter.marksDefault, Parameter.marksDefault, ih hTail]
      simp only [ne_eq, hHead]

/-! ## What is rescanned -/

/-- What stands in the code of a segment in front of its name. -/
def leadsName (c : Char) : Bool :=
  isBlank c || c = '*'

/-- A class of characters without those of comparisons leaves an `=` behind it alone. -/
theorem joinsEquals_of_class {p : Char → Bool} (hNone : ['=', '!', '<', '>'].any p = false)
    {c : Char} (h : p c = true) : Parameter.joinsEquals c = false := by
  rw [Bool.eq_false_iff]
  intro hJoins
  have hMem : c ∈ ['=', '!', '<', '>'] := by
    simpa [Parameter.joinsEquals, or_assoc] using hJoins
  exact List.any_eq_false.1 hNone c hMem h

/-- **The second scan sees the default that the scan of the segment shows.** -/
theorem marksDefault_behindName (raw : Text) :
    Parameter.marksDefault none (scan (Parameter.behindName (trim (uncommented raw)))) =
      Parameter.marksDefault none (scan raw) := by
  obtain ⟨lead, back, hLead, hBack, hKept⟩ := Parameter.exists_leading (uncommented raw)
  have hFirst : ∀ c ∈ lead, isPlain c = true ∧ Parameter.joinsEquals c = false := by
    intro c hc
    have hClass : leadsName c = true := by simpa [leadsName] using hLead c hc
    exact ⟨Parameter.isPlain_of_leading (hLead c hc), joinsEquals_of_class (by decide) hClass⟩
  have hName : ∀ c ∈ Parameter.nameOf (trim (uncommented raw)),
      isPlain c = true ∧ Parameter.joinsEquals c = false := by
    intro c hc
    have hClass := Parameter.continuesName_of_mem_leadingName hc
    exact ⟨Parameter.isPlain_of_mem_nameOf hc, joinsEquals_of_class (by decide) hClass⟩
  calc Parameter.marksDefault none (scan (Parameter.behindName (trim (uncommented raw))))
      = Parameter.marksDefault none (scan (uncommented raw)) := by
        rw [← marksDefault_blank hBack, ← marksDefault_plain_append hName,
          ← marksDefault_plain_append hFirst, ← hKept]
    _ = Parameter.marksDefault none (withoutComments (scan raw)) :=
        marksDefault_congr (scan_uncommented raw)
    _ = Parameter.marksDefault none (scan raw) :=
        marksDefault_withoutComments (isChain_scan raw) none

/-! ## Where the name stands -/

/-- What stands in a segment in front of its name. -/
def Scanned.leads (m : Scanned) : Bool :=
  m.region = .comment || leadsName m.char

/-- Where the name stands in the raw text of a segment: behind comments, blanks and stars. -/
def nameStart (raw : Text) : Nat :=
  byteLength (((scan raw).takeWhile Scanned.leads).map Scanned.char)

theorem not_leadsName_of_continuesName {c : Char} (h : continuesName c = true) :
    leadsName c = false := by
  rw [leadsName, not_isBlank_of_continuesName h, Bool.false_or, decide_eq_false_iff_not]
  rintro rfl
  exact absurd h (by decide)

theorem dropWhile_leads (marks : List Scanned) :
    ((withoutComments marks).map Scanned.char).dropWhile leadsName =
      (withoutComments (marks.dropWhile Scanned.leads)).map Scanned.char := by
  induction marks with
  | nil => rfl
  | cons m rest ih =>
    by_cases hm : m.region = .comment
    · have hLeads : m.leads = true := by simp [Scanned.leads, hm]
      rw [withoutComments_cons_comment hm, ih, List.dropWhile_cons_of_pos hLeads]
    · rw [withoutComments_cons_kept hm, List.map_cons]
      have hLeads : m.leads = leadsName m.char := by simp [Scanned.leads, hm]
      cases hChar : leadsName m.char with
      | true =>
        rw [List.dropWhile_cons_of_pos hChar, ih, List.dropWhile_cons_of_pos (hLeads.trans hChar)]
      | false =>
        rw [List.dropWhile_cons_of_neg (by simp [hChar]),
          List.dropWhile_cons_of_neg (by simp [hLeads, hChar]), withoutComments_cons_kept hm,
          List.map_cons]

/-- No comment stands within a line of what is left without comments. -/
theorem exists_named {m : Scanned} {rest : List Scanned} {c : Char} {x y : Text}
    (h : (m :: rest).IsChain CommentStep) (hm : m.region ≠ .comment) (hx : '\n' ∉ x)
    (hText : (withoutComments (m :: rest)).map Scanned.char = c :: (x ++ y)) :
    ∃ named tail, m :: rest = named ++ tail ∧ named.map Scanned.char = c :: x := by
  rw [withoutComments_cons_kept hm, List.map_cons, List.cons.injEq] at hText
  obtain ⟨hChar, hText⟩ := hText
  induction x generalizing m rest c with
  | nil => exact ⟨[m], rest, rfl, by rw [List.map_cons, hChar, List.map_nil]⟩
  | cons d x ih =>
    rw [List.mem_cons, not_or] at hx
    cases rest with
    | nil => cases hText
    | cons k rest =>
      obtain ⟨-, hTail⟩ := List.isChain_cons_cons.1 h
      have hk : k.region ≠ .comment := by
        intro hk
        rw [withoutComments_cons_comment hk] at hText
        refine head_withoutComments_of_comment hTail hk (Ne.symm hx.1) ?_
        rw [← List.head?_map, hText]
        rfl
      rw [withoutComments_cons_kept hk, List.map_cons, List.cons_append, List.cons.injEq] at hText
      obtain ⟨named, tail, hSplit, hNamed⟩ := ih hTail hk hx.2 hText.1 hText.2
      exact ⟨m :: named, tail, by rw [hSplit, List.cons_append],
        by rw [List.map_cons, hNamed, hChar]⟩

/-- The name of a segment stands in one piece behind what leads it. -/
theorem exists_scan_name {raw : Text} (h : Parameter.nameOf (trim (uncommented raw)) ≠ []) :
    ∃ named tail, scan raw = (scan raw).takeWhile Scanned.leads ++ (named ++ tail) ∧
      named.map Scanned.char = Parameter.nameOf (trim (uncommented raw)) := by
  obtain ⟨lead, back, hLead, -, hKept⟩ := Parameter.exists_leading (uncommented raw)
  obtain ⟨c, x, hName⟩ := List.exists_cons_of_ne_nil h
  have hMem : ∀ d ∈ c :: x, continuesName d = true := by
    intro d hd
    rw [← hName] at hd
    exact Parameter.continuesName_of_mem_leadingName hd
  have hLeads : ∀ d ∈ lead, leadsName d = true := by
    intro d hd
    simpa [leadsName] using hLead d hd
  have hStop : ¬ leadsName c = true := by
    rw [not_leadsName_of_continuesName (hMem c (List.mem_cons_self ..))]
    exact Bool.false_ne_true
  have hAfter := dropWhile_leads (scan raw)
  rw [show (withoutComments (scan raw)).map Scanned.char = uncommented raw from rfl, hKept, hName,
    List.cons_append, List.dropWhile_append_of_pos hLeads, List.dropWhile_cons_of_neg hStop] at hAfter
  have hSplit := List.takeWhile_append_dropWhile (p := Scanned.leads) (l := scan raw)
  have hHead := List.head?_dropWhile_not Scanned.leads (scan raw)
  -- the first mark that does not lead is that of the first character of the name
  cases hDrop : (scan raw).dropWhile Scanned.leads with
  | nil =>
    rw [hDrop] at hAfter
    cases hAfter
  | cons m rest =>
    rw [hDrop] at hAfter hHead hSplit
    have hm : m.region ≠ .comment := by
      intro hm
      simp [Scanned.leads, hm] at hHead
    have hChain : (m :: rest).IsChain CommentStep := by
      have hAll := isChain_scan raw
      rw [← hSplit] at hAll
      exact hAll.right_of_append
    have hBreak : '\n' ∉ x := fun hMemBreak =>
      absurd (hMem _ (List.mem_cons_of_mem _ hMemBreak)) (by decide)
    obtain ⟨named, tail, hRest, hNamed⟩ := exists_named hChain hm hBreak hAfter.symm
    exact ⟨named, tail, by rw [← hRest, hSplit], by rw [hNamed, hName]⟩

/-! ## A segment in its list -/

/-- `raw` stands in a list between `before` and `after`, and is scanned there as on its own. -/
structure ScannedIn (text before raw after : Text) : Prop where
  text_eq : text = before ++ raw ++ after
  behind : ∀ c, after.head? = some c → c = ','
  scan_eq : ∃ front back,
    scan text = front ++ (scan raw).map (Scanned.shift (byteLength before)) ++ back ∧
      front.map Scanned.char = before

theorem Cut.exists_scannedIn {text : Text} {raws : List Text} (h : Cut text raws) {start : Nat}
    {s : Segment} (hs : s ∈ placed start (raws.map piece)) :
    ∃ before after, ScannedIn text before s.raw after ∧ s.start = start + byteLength before := by
  induction h generalizing start with
  | @last text hFault hClear =>
    obtain rfl : s = ⟨start, text, uncommented text⟩ := by simpa [piece, placed] using hs
    refine ⟨[], [], ⟨by simp, by simp, [], [], ?_, rfl⟩, rfl⟩
    rw [List.nil_append, List.append_nil]
    exact scanFrom_start 0 text
  | @cons first text raws hClosed hClear hRest ih =>
    have hScan := hClosed.scan_append_cons (show isPlain ',' = true from rfl) text
    rw [List.map_cons, piece, placed] at hs
    rcases List.mem_cons.1 hs with rfl | hMem
    · have hFirst : scan first = (scan first).map (Scanned.shift 0) := scanFrom_start 0 first
      rw [hFirst] at hScan
      exact ⟨[], ',' :: text, ⟨rfl, by simp, [], _, hScan, rfl⟩, rfl⟩
    · obtain ⟨before, after, ⟨rfl, hBehind, front, back, hSplit, hFront⟩, hStart⟩ := ih hMem
      have hLength : byteLength (first ++ ',' :: before) =
          byteLength first + ','.utf8Size + byteLength before := by
        rw [byteLength_append, byteLength_cons, Nat.add_assoc]
      refine ⟨first ++ ',' :: before, after, ⟨by simp, hBehind, ?_⟩, ?_⟩
      · -- the scan of the list behind the comma is moved as a whole
        refine ⟨scan first ++ ⟨byteLength first, ',', .code, 0, 0⟩ ::
          front.map (Scanned.shift (byteLength first + ','.utf8Size)),
          back.map (Scanned.shift (byteLength first + ','.utf8Size)), ?_, ?_⟩
        · rw [hScan, hSplit, List.map_append, List.map_append, map_shift_shift, ← hLength]
          simp only [List.append_assoc, List.cons_append]
        · rw [List.map_append, List.map_cons, map_char_shift, hFront]
          exact congrArg (· ++ ',' :: before) (map_char_scanFrom .start 0 first)
      · rw [hStart, hLength, show ','.utf8Size = 1 from rfl]
        omega

namespace ScannedIn

variable {text before raw after : Text}

/-- The characters of a list that stand in the bytes of a segment are those of its own scan. -/
theorem exists_of_mem (h : ScannedIn text before raw after) {m : Scanned} (hm : m ∈ scan text)
    (hStart : byteLength before ≤ m.offset)
    (hStop : m.offset < byteLength before + byteLength raw) :
    ∃ k ∈ scan raw, m = k.shift (byteLength before) := by
  obtain ⟨-, -, front, back, hScan, hFront⟩ := h
  have hRaw : ((scan raw).map (Scanned.shift (byteLength before))).map Scanned.char = raw := by
    rw [map_char_shift]
    exact map_char_scanFrom .start 0 raw
  rw [hScan] at hm
  rcases List.mem_append.1 hm with hm | hm
  · rcases List.mem_append.1 hm with hm | hm
    · -- a character in front has its own bytes in front of the segment
      rw [List.append_assoc] at hScan
      have hOffset := offset_lt_of_scanFrom hScan hm
      rw [hFront] at hOffset
      omega
    · obtain ⟨k, hk, rfl⟩ := List.mem_map.1 hm
      exact ⟨k, hk, rfl⟩
  · have hOffset := le_offset_of_scanFrom hScan hm
    rw [List.map_append, hFront, hRaw, byteLength_append] at hOffset
    omega

theorem mem_of_mem (h : ScannedIn text before raw after) {k : Scanned} (hk : k ∈ scan raw) :
    k.shift (byteLength before) ∈ scan text := by
  obtain ⟨-, -, front, back, hScan, -⟩ := h
  rw [hScan]
  exact List.mem_append_left _ (List.mem_append_right _ (List.mem_map_of_mem hk))

/-- A character of a segment has the neighbours in the list that it has in the segment, when it is
not the first one, except that the comma behind the segment may follow it. -/
theorem neighbours (h : ScannedIn text before raw after) {x y : List Scanned} {k : Scanned}
    (hSplit : scan raw = x ++ k :: y) (hx : x ≠ []) (hk : k.char = '=') :
    charBefore? text (byteLength before + k.offset) = x.getLast?.map Scanned.char ∧
      (charAt? text (byteLength before + k.offset + 1) = some '=' ↔
        y.head?.map Scanned.char = some '=') := by
  obtain ⟨hText, hBehind, -⟩ := h
  have hOffset := offset_of_scanFrom hSplit
  have hRaw := congrArg (List.map Scanned.char) hSplit
  rw [scan, map_char_scanFrom, List.map_append, List.map_cons, hk] at hRaw
  rw [Nat.zero_add] at hOffset
  constructor
  · have hFront : text = (before ++ x.map Scanned.char) ++ ('=' :: y.map Scanned.char ++ after) := by
      rw [hText, hRaw]
      simp only [List.append_assoc]
    rw [hOffset, ← byteLength_append, hFront, charBefore?_append, List.getLast?_append,
      List.getLast?_map]
    -- the segment has a character in front of it
    obtain ⟨z, last, rfl⟩ := (List.eq_nil_or_concat x).resolve_left hx
    simp
  · have hBack : text =
        (before ++ (x.map Scanned.char ++ ['='])) ++ (y.map Scanned.char ++ after) := by
      rw [hText, hRaw]
      simp only [List.append_assoc, List.cons_append, List.nil_append]
    have hLength : byteLength before + k.offset + 1 =
        byteLength (before ++ (x.map Scanned.char ++ ['='])) := by
      rw [byteLength_append, byteLength_append, hOffset]
      rfl
    rw [hLength, hBack, charAt?_append, List.head?_append, List.head?_map]
    cases y with
    | cons n y => simp
    | nil =>
      -- behind the segment stands a comma, if anything
      simp only [List.head?_nil, Option.map_none, Option.none_or, reduceCtorEq, iff_false]
      intro hHead
      exact absurd (hBehind _ hHead) (by decide)

end ScannedIn

/-! ## Defaults -/

section

variable {text raw before after : Text}

/-- An `=` in the code of a segment stands behind its name. -/
theorem le_offset_of_isTop (hName : Parameter.nameOf (trim (uncommented raw)) ≠ []) {m : Scanned}
    (hm : m ∈ scan raw) (hTop : m.isTop '=' = true) :
    nameStart raw + byteLength (Parameter.nameOf (trim (uncommented raw))) ≤ m.offset := by
  obtain ⟨named, tail, hScan, hNamed⟩ := exists_scan_name hName
  obtain ⟨hRegion, -, hChar⟩ := Scanned.isTop_iff.1 hTop
  rw [hScan, ← List.append_assoc] at hm
  rcases List.mem_append.1 hm with hm | hm
  · rcases List.mem_append.1 hm with hm | hm
    · -- in front of the name stand comments, blanks and stars
      have hLeads := List.mem_takeWhile_imp hm
      rw [Scanned.leads, hRegion, hChar] at hLeads
      exact absurd hLeads (by decide)
    · have hMem := List.mem_map_of_mem (f := Scanned.char) hm
      rw [hNamed, hChar] at hMem
      exact absurd (Parameter.continuesName_of_mem_leadingName hMem) (by decide)
  · rw [← List.append_assoc] at hScan
    have hOffset := le_offset_of_scanFrom hScan hm
    rwa [List.map_append, hNamed, byteLength_append, Nat.zero_add] at hOffset

/-- The name of a segment is a slice of its list. -/
theorem ScannedIn.slice?_name (h : ScannedIn text before raw after)
    (hName : Parameter.nameOf (trim (uncommented raw)) ≠ []) :
    slice? text (byteLength before + nameStart raw)
        (byteLength before + nameStart raw +
          byteLength (Parameter.nameOf (trim (uncommented raw)))) =
      some (Parameter.nameOf (trim (uncommented raw))) := by
  obtain ⟨named, tail, hScan, hNamed⟩ := exists_scan_name hName
  have hRaw := congrArg (List.map Scanned.char) hScan
  rw [scan, map_char_scanFrom, List.map_append, List.map_append, hNamed] at hRaw
  rw [slice?_eq_some_iff]
  refine ⟨before ++ ((scan raw).takeWhile Scanned.leads).map Scanned.char,
    tail.map Scanned.char ++ after, ?_, ?_, ?_⟩
  · rw [h.text_eq]
    conv => lhs; rw [hRaw]
    simp only [List.append_assoc]
    rfl
  · rw [byteLength_append, nameStart]
  · rw [byteLength_append, nameStart]

/-- At a mark of the scan of a list stands an `=` in code outside of all brackets, and its neighbours
in the list make it no part of a comparison. -/
def MarksDefaultAt (text : Text) (m : Scanned) : Prop :=
  m.isTop '=' = true ∧ (charBefore? text m.offset).any Parameter.joinsEquals = false ∧
    charAt? text (m.offset + 1) ≠ some '='

/-- The scan of a segment marks a default where the scan of its list has a mark behind the name. -/
theorem ScannedIn.marksDefault_iff (h : ScannedIn text before raw after)
    (hName : Parameter.nameOf (trim (uncommented raw)) ≠ []) :
    Parameter.marksDefault none (scan raw) = true ↔
      ∃ m ∈ scan text, MarksDefaultAt text m ∧
        byteLength before + nameStart raw +
          byteLength (Parameter.nameOf (trim (uncommented raw))) ≤ m.offset ∧
        m.offset < byteLength before + byteLength raw := by
  have hPositive : 0 < byteLength (Parameter.nameOf (trim (uncommented raw))) := by
    refine Nat.pos_of_ne_zero fun hZero => hName (byteLength_eq_zero hZero)
  have hFront : ∀ {x y : List Scanned} {k : Scanned}, scan raw = x ++ k :: y →
      k.isTop '=' = true → x ≠ [] := by
    rintro x y k hSplit hTop rfl
    have hOffset := offset_of_scanFrom hSplit
    have hBehind := le_offset_of_isTop hName (hSplit ▸ List.mem_cons_self ..) hTop
    rw [List.map_nil, byteLength] at hOffset
    omega
  rw [Parameter.marksDefault_iff]
  constructor
  · rintro ⟨x, k, y, hSplit, hTop, hBefore, hAfter⟩
    have hk : k ∈ scan raw := hSplit ▸ List.mem_append_right _ (List.mem_cons_self ..)
    have hChar := (Scanned.isTop_iff.1 hTop).2.2
    obtain ⟨hLast, hNext⟩ := h.neighbours hSplit (hFront hSplit hTop) hChar
    have hBehind := le_offset_of_isTop hName hk hTop
    refine ⟨k.shift (byteLength before), h.mem_of_mem hk, ⟨hTop, ?_, ?_⟩, ?_, ?_⟩
    · rw [Scanned.shift, Nat.add_comm, hLast]
      simpa using hBefore
    · rw [Scanned.shift, Nat.add_comm k.offset, ne_eq, hNext]
      exact hAfter
    · simp only [Scanned.shift]
      omega
    · have hOffset := offset_lt_of_scanFrom (List.append_nil (scan raw)).symm hk
      rw [scan, map_char_scanFrom] at hOffset
      simp only [Scanned.shift]
      omega
  · rintro ⟨m, hm, ⟨hTop, hBefore, hAfter⟩, hBehind, hStop⟩
    obtain ⟨k, hk, rfl⟩ := h.exists_of_mem hm (by omega) hStop
    obtain ⟨x, y, hSplit⟩ := List.append_of_mem hk
    have hChar := (Scanned.isTop_iff.1 hTop).2.2
    obtain ⟨hLast, hNext⟩ := h.neighbours hSplit (hFront hSplit hTop) hChar
    rw [Scanned.shift, Nat.add_comm k.offset, hLast] at hBefore
    rw [Scanned.shift, Nat.add_comm k.offset, ne_eq, hNext] at hAfter
    exact ⟨x, k, y, hSplit, hTop, by simpa using hBefore, hAfter⟩

end

/-- **The default of a parameter shows in the scan of the whole list.** The name of a parameter stands
in its segment behind comments, blanks and stars. The parameter has a default when behind the name,
and within the segment, the scan of the list has an `=` in code outside of all brackets that is no
part of a comparison. -/
theorem defaulted_iff {receivers : List Text} {text : Text} {list : List Segment}
    (hSegments : segments text = .ok list) {segment : Segment} (hMem : segment ∈ list)
    {p : Parameter} (hParameter : Parameter.ofSegment? receivers segment = some p) :
    slice? text (segment.start + nameStart segment.raw)
        (segment.start + nameStart segment.raw + byteLength p.name) = some p.name ∧
      (p.defaulted = true ↔
        ∃ m ∈ scan text, MarksDefaultAt text m ∧
          segment.start + nameStart segment.raw + byteLength p.name ≤ m.offset ∧
          m.offset < segment.stop) := by
  obtain ⟨raws, hCut, rfl⟩ := segments_eq_ok_iff.1 hSegments
  obtain ⟨before, after, hIn, hStart⟩ := hCut.exists_scannedIn hMem
  obtain ⟨raw, -, hRaw, hKept⟩ := exists_of_mem_placed hMem
  have hCode : segment.code = trim (uncommented segment.raw) := by rw [Segment.code, hKept, hRaw]
  rw [Parameter.ofSegment?_eq, hCode] at hParameter
  split at hParameter
  · cases hParameter
  · rename_i hEmpty
    obtain rfl := Option.some.inj hParameter
    have hName : Parameter.nameOf (trim (uncommented segment.raw)) ≠ [] := by
      simpa using hEmpty
    rw [Nat.zero_add] at hStart
    rw [Segment.stop, hStart, marksDefault_behindName]
    exact ⟨hIn.slice?_name hName, hIn.marksDefault_iff hName⟩

/-- An `=` behind a bracket with an `=` in a string and one in a comment, and behind another comment
that the second scan does not see. -/
theorem defaulted_iff_behind_comment :
    segments "a, b: D['=',#=)\n] #==\n= 3".toList =
        .ok [⟨0, "a".toList, "a".toList⟩,
          ⟨2, " b: D['=',#=)\n] #==\n= 3".toList, " b: D['=',\n] \n= 3".toList⟩] ∧
      Parameter.ofSegment? [] ⟨2, " b: D['=',#=)\n] #==\n= 3".toList,
        " b: D['=',\n] \n= 3".toList⟩ = some ⟨"b".toList, .ordinary, true, true⟩ ∧
      slice? "a, b: D['=',#=)\n] #==\n= 3".toList 3 4 = some "b".toList ∧
      ∃ m ∈ scan "a, b: D['=',#=)\n] #==\n= 3".toList,
        MarksDefaultAt "a, b: D['=',#=)\n] #==\n= 3".toList m ∧ 4 ≤ m.offset ∧ m.offset < 25 := by
  have hSegments : segments "a, b: D['=',#=)\n] #==\n= 3".toList =
      .ok [⟨0, "a".toList, "a".toList⟩,
        ⟨2, " b: D['=',#=)\n] #==\n= 3".toList, " b: D['=',\n] \n= 3".toList⟩] := by
    decide +kernel
  have hParameter : Parameter.ofSegment? [] ⟨2, " b: D['=',#=)\n] #==\n= 3".toList,
      " b: D['=',\n] \n= 3".toList⟩ = some ⟨"b".toList, .ordinary, true, true⟩ := by
    decide +kernel
  have hStart : nameStart " b: D['=',#=)\n] #==\n= 3".toList = 1 := by decide +kernel
  have hStop : Segment.stop ⟨2, " b: D['=',#=)\n] #==\n= 3".toList,
      " b: D['=',\n] \n= 3".toList⟩ = 25 := by
    decide +kernel
  obtain ⟨hName, hDefault⟩ :=
    defaulted_iff hSegments (List.mem_cons_of_mem _ (List.mem_singleton_self _)) hParameter
  rw [hStart] at hName hDefault
  rw [hStop] at hDefault
  exact ⟨hSegments, hParameter, hName, hDefault.1 rfl⟩

end FieldFill
