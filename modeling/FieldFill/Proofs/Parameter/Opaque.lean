import FieldFill.Proofs.Lexical.Refill
import FieldFill.Proofs.Parameter.Defaults
import FieldFill.Proofs.Parameter.Written

/-!
# What a string holds does not matter

Two lists that differ in the contents of one string are cut at the same commas and declare the same
parameters. The scans of the two lists differ in the marks of that string only, and these are cut
nowhere and mark no default; and the name of a parameter is settled in front of the first quote.

Main definitions:

* `bareScan` — a scan without the places, in which two lists can be compared.
* `Segment.Holds` — a segment has some bytes of its list.

Main results:

* `Cut.splitOnP_bareScan` — the segments of a list are its scan, split at the commas.
* `exists_refilled` — only one segment changes when a string is filled anew.
* `ofSegment?_refilled` — and it declares what it declared.
* `literals_are_opaque` — both for the whole list.
-/

namespace FieldFill

/-- The marks of a text without their places. -/
def bareScan (text : Text) : List Scanned :=
  (scan text).map Scanned.unplaced

theorem map_char_bareScan (text : Text) : (bareScan text).map Scanned.char = text := by
  rw [bareScan, map_char_unplaced]
  exact map_char_scanFrom .start 0 text

/-! ## Cutting around a string -/

/-- **The segments of a list are its scan, split at the commas.** -/
theorem Cut.splitOnP_bareScan {text : Text} {raws : List Text} (h : Cut text raws) :
    (bareScan text).splitOnP (Scanned.isTop ',') = raws.map bareScan := by
  induction h with
  | @last text hFault hClear =>
    refine List.splitOnP_eq_singleton fun m hm => ?_
    obtain ⟨k, hk, rfl⟩ := List.mem_map.1 hm
    exact hClear k hk
  | @cons first text raws hClosed hClear hRest ih =>
    have hFirst : ∀ m ∈ bareScan first, m.isTop ',' = false := by
      intro m hm
      obtain ⟨k, hk, rfl⟩ := List.mem_map.1 hm
      exact hClear k hk
    rw [bareScan, hClosed.scan_append_cons rfl, List.map_append, List.map_cons,
      map_unplaced_shift]
    refine (List.splitOnP_append_cons_of_forall_mem hFirst _ rfl _).trans ?_
    rw [← bareScan, ih, List.map_cons]

/-- The text in front of a segment: the segments before it, with a comma behind each. -/
def inFront (raws : List Text) : Text :=
  raws.flatMap fun raw => raw ++ [',']

/-- The marks in front of a place are split into whole parts and the beginning of one, whatever stands
behind it. -/
theorem exists_splitOnP (marks : List Scanned) :
    ∃ parts last,
      marks.map Scanned.char =
        inFront (parts.map (List.map Scanned.char)) ++ last.map Scanned.char ∧
      ∀ behind first more, behind.splitOnP (Scanned.isTop ',') = first :: more →
        (marks ++ behind).splitOnP (Scanned.isTop ',') = parts ++ (last ++ first) :: more := by
  induction marks with
  | nil => exact ⟨[], [], rfl, fun behind first more h => h⟩
  | cons m marks ih =>
    obtain ⟨parts, last, hChars, hSplit⟩ := ih
    by_cases hTop : m.isTop ',' = true
    · refine ⟨[] :: parts, last, ?_, fun behind first more h => ?_⟩
      · rw [List.map_cons, hChars, (Scanned.isTop_iff.1 hTop).2.2]
        rfl
      · rw [List.cons_append, List.splitOnP_cons_eq_if_modifyHead, if_pos hTop,
          hSplit behind first more h]
        rfl
    · -- the mark belongs to the first part, or to the beginning when there is none
      cases parts with
      | nil =>
        refine ⟨[], m :: last, by rw [List.map_cons, hChars]; rfl, fun behind first more h => ?_⟩
        rw [List.cons_append, List.splitOnP_cons_eq_if_modifyHead, if_neg hTop,
          hSplit behind first more h]
        rfl
      | cons part parts =>
        refine ⟨(m :: part) :: parts, last, by rw [List.map_cons, hChars]; rfl,
          fun behind first more h => ?_⟩
        rw [List.cons_append, List.splitOnP_cons_eq_if_modifyHead, if_neg hTop,
          hSplit behind first more h]
        rfl

theorem splitOnP_literalMarks (depth : Nat) (text : Text) {behind first : List Scanned}
    {more : List (List Scanned)} (h : behind.splitOnP (Scanned.isTop ',') = first :: more) :
    (literalMarks depth text ++ behind).splitOnP (Scanned.isTop ',') =
      (literalMarks depth text ++ first) :: more := by
  induction text with
  | nil => exact h
  | cons c text ih =>
    rw [literalMarks, List.map_cons, ← literalMarks, List.cons_append,
      List.splitOnP_cons_eq_if_modifyHead, if_neg (by simp [Scanned.isTop, Scanned.isCode]), ih]
    rfl

section

variable {front back : List Stretch} {delimiter body contents : Text} {raws : List Text}

theorem Cut.raws_eq {text : Text} (h : Cut text raws) {parts : List (List Scanned)}
    (hSplit : (bareScan text).splitOnP (Scanned.isTop ',') = parts) :
    raws = parts.map (List.map Scanned.char) ∧
      ∀ part ∈ parts, bareScan (part.map Scanned.char) = part := by
  rw [h.splitOnP_bareScan] at hSplit
  subst hSplit
  constructor
  · rw [List.map_map]
    exact (List.map_id _).symm.trans (List.map_congr_left fun raw _ => (map_char_bareScan raw).symm)
  · intro part hPart
    obtain ⟨raw, -, rfl⟩ := List.mem_map.1 hPart
    rw [map_char_bareScan]

/-- **One segment changes when a string is filled anew**: the one that holds the string. -/
theorem exists_refilled (hCut : Cut (textOf (front ++ .literal delimiter body :: back)) raws)
    (hSeparated : Separated (front ++ .literal delimiter body :: back))
    (hFills : Fills delimiter contents) :
    ∃ before after ahead behind depth raw raw',
      raws = before ++ raw :: after ∧
      Cut (textOf (front ++ .literal delimiter contents :: back)) (before ++ raw' :: after) ∧
      bareScan raw =
        ahead ++ (literalMarks depth (Stretch.literal delimiter body).text ++ behind) ∧
      bareScan raw' =
        ahead ++ (literalMarks depth (Stretch.literal delimiter contents).text ++ behind) ∧
      textOf front = inFront before ++ ahead.map Scanned.char := by
  have hFault := (fault?_refill hSeparated hFills).2 hCut.fault?_eq_none
  obtain ⟨raws', hCut'⟩ := exists_cut hFault
  -- the two scans differ in the marks of the string
  have hScan := (scan_textOf_literal hSeparated).1
  have hScan' := (scan_textOf_literal (hSeparated.refill hFills)).1
  rw [← bareScan] at hScan hScan'
  obtain ⟨parts, ahead, hChars, hSplit⟩ :=
    exists_splitOnP ((marksAlong .start 0 front).map Scanned.unplaced)
  rw [map_char_unplaced, map_char_marksAlong] at hChars
  obtain ⟨behind, more, hBehind⟩ := List.exists_cons_of_ne_nil (List.splitOnP_ne_nil
    (Scanned.isTop ',') ((scanFrom (endAlong .start 0 front) 0 (textOf back)).map Scanned.unplaced))
  -- so only the part with the string differs
  have hParts := hSplit _ _ _ (splitOnP_literalMarks (endAlong .start 0 front).depth
    (Stretch.literal delimiter body).text hBehind)
  have hParts' := hSplit _ _ _ (splitOnP_literalMarks (endAlong .start 0 front).depth
    (Stretch.literal delimiter contents).text hBehind)
  rw [← hScan] at hParts
  rw [← hScan'] at hParts'
  obtain ⟨hRaws, hBare⟩ := hCut.raws_eq hParts
  obtain ⟨hRaws', hBare'⟩ := hCut'.raws_eq hParts'
  rw [List.map_append, List.map_cons] at hRaws hRaws'
  rw [hRaws'] at hCut'
  refine ⟨parts.map (List.map Scanned.char), more.map (List.map Scanned.char), ahead, behind, _, _, _,
    hRaws, hCut', hBare _ ?_, hBare' _ ?_, ?_⟩
  · exact List.mem_append_right _ (List.mem_cons_self ..)
  · exact List.mem_append_right _ (List.mem_cons_self ..)
  · exact hChars

end

/-! ## What the segment declares -/

section

variable {q : Char}

theorem stars_append_quote (hq : isQuote q = true) (w z : Text) :
    Parameter.stars (w ++ q :: z) =
      ((Parameter.stars w).1, (Parameter.stars w).2 ++ q :: z) := by
  have hne : q ≠ '*' := by
    rintro rfl
    cases hq
  match w with
  | [] => exact Parameter.stars_of_ne hne z
  | [a] =>
    by_cases ha : a = '*'
    · subst ha
      exact Parameter.stars_star_of_ne hne z
    · rw [Parameter.stars_of_ne ha, List.cons_append, Parameter.stars_of_ne ha]
  | a :: b :: w =>
    by_cases ha : a = '*'
    · subst ha
      by_cases hb : b = '*'
      · subst hb
        rfl
      · rw [Parameter.stars_star_of_ne hb, List.cons_append, List.cons_append,
          Parameter.stars_star_of_ne hb]
    · rw [Parameter.stars_of_ne ha, List.cons_append, Parameter.stars_of_ne ha]

theorem not_isBlank_of_isQuote (hq : isQuote q = true) : isBlank q = false := by
  rcases isQuote_iff.1 hq with rfl | rfl <;> rfl

theorem not_continuesName_of_isQuote (hq : isQuote q = true) : continuesName q = false := by
  rcases isQuote_iff.1 hq with rfl | rfl <;> decide

/-- A character outside of a class ends the run of it. -/
theorem span_append_stop {p : Char → Bool} (hStop : p q = false) (w z : Text) :
    (w ++ q :: z).takeWhile p = w.takeWhile p ∧
      (w ++ q :: z).dropWhile p = w.dropWhile p ++ q :: z := by
  induction w with
  | nil => simp [hStop]
  | cons c w ih => cases hc : p c <;> simp [hc, ih]

theorem trimStart_append_quote (hq : isQuote q = true) (w z : Text) :
    trimStart (w ++ q :: z) = trimStart w ++ q :: z :=
  (span_append_stop (not_isBlank_of_isQuote hq) w z).2

theorem leadingName_append_quote (hq : isQuote q = true) (w z : Text) :
    leadingName (w ++ q :: z) = ((leadingName w).1, (leadingName w).2 ++ q :: z) := by
  have hContinues := not_continuesName_of_isQuote hq
  cases w with
  | nil =>
    have hStarts : startsName q = false := by
      rw [Bool.eq_false_iff]
      intro h
      rw [continuesName_of_startsName h] at hContinues
      cases hContinues
    simp [leadingName, hStarts]
  | cons c w =>
    obtain ⟨hTake, hDrop⟩ := span_append_stop hContinues w z
    rw [List.cons_append, leadingName, leadingName, hTake, hDrop]
    split <;> rfl

/-- Nothing is trimmed of a string. -/
theorem trim_around_quotes (hq : isQuote q = true) (u inner v : Text) :
    trim (u ++ (q :: (inner ++ [q]) ++ v)) = trimStart u ++ q :: (inner ++ q :: trimEnd v) := by
  have hEnd := trimEnd_append (not_isBlank_of_isQuote hq) (trimStart u ++ q :: inner) v
  rw [trim, List.cons_append, trimStart_append_quote hq]
  simpa using hEnd

/-- The stars and the name of a segment are settled in front of its first quote. -/
theorem split_at_quote (hq : isQuote q = true) (w z : Text) :
    (Parameter.stars (w ++ q :: z)).1 = (Parameter.stars w).1 ∧
      Parameter.nameOf (w ++ q :: z) = Parameter.nameOf w ∧
      Parameter.behindName (w ++ q :: z) = Parameter.behindName w ++ q :: z := by
  rw [Parameter.nameOf, Parameter.behindName, stars_append_quote hq, trimStart_append_quote hq,
    leadingName_append_quote hq]
  exact ⟨rfl, rfl, rfl⟩

/-- What a segment with a quote declares: only its default depends on what follows the quote. -/
theorem ofSegment?_at_quote (receivers : List Text) (hq : isQuote q = true) {raw w z : Text}
    (hCode : trim (uncommented raw) = w ++ q :: z) :
    Parameter.ofSegment? receivers ⟨0, raw, uncommented raw⟩ =
      if (Parameter.nameOf w).isEmpty then none
      else
        some {
          name := Parameter.nameOf w
          role := (Parameter.stars w).1.getD
            (if receivers.contains (Parameter.nameOf w) then .receiver else .ordinary)
          annotated := (trimStart (Parameter.behindName w) ++ [q]).head? = some ':'
          defaulted := Parameter.marksDefault none (scan raw) } := by
  obtain ⟨hStars, hName, hBehind⟩ := split_at_quote hq w z
  have hHead : (trimStart (Parameter.behindName w ++ q :: z)).head? =
      (trimStart (Parameter.behindName w) ++ [q]).head? := by
    rw [trimStart_append_quote hq, List.head?_append, List.head?_append]
    rfl
  rw [Parameter.ofSegment?_eq, Segment.code, marksDefault_behindName, hCode, hStars, hName, hBehind,
    hHead]

/-! ## Its default -/

/-- A string marks no default, and of its marks only the last one shows to what follows. -/
theorem marksDefault_literalMarks (before : Option Char) (depth : Nat) (text : Text)
    (behind : List Scanned) :
    Parameter.marksDefault before (literalMarks depth (text ++ [q]) ++ behind) =
      Parameter.marksDefault (some q) behind := by
  have hTop : ∀ c, Scanned.isTop '=' ⟨0, c, .literal, depth, depth⟩ = false := by
    simp [Scanned.isTop, Scanned.isCode]
  induction text generalizing before with
  | nil => simp [literalMarks, Parameter.marksDefault, hTop]
  | cons c text ih =>
    rw [List.cons_append, literalMarks, List.map_cons, ← literalMarks, List.cons_append,
      Parameter.marksDefault, hTop, ih]
    simp

/-- Two strings with the same quotes are the same to the default around them. -/
theorem marksDefault_around (before : Option Char) (depth : Nat) (inner inner' : Text)
    (ahead behind : List Scanned) :
    Parameter.marksDefault before (ahead ++ (literalMarks depth (q :: (inner' ++ [q])) ++ behind)) =
      Parameter.marksDefault before
        (ahead ++ (literalMarks depth (q :: (inner ++ [q])) ++ behind)) := by
  induction ahead generalizing before with
  | nil =>
    rw [List.nil_append, List.nil_append, ← List.cons_append, ← List.cons_append,
      marksDefault_literalMarks, marksDefault_literalMarks]
  | cons m ahead ih =>
    rw [List.cons_append, List.cons_append, Parameter.marksDefault, Parameter.marksDefault, ih]
    -- the mark behind `m` is one of those ahead, or the quote
    cases ahead <;> rfl

end

section

variable {quote : Char} {delimiter inside contents : Text}

/-- A string starts and ends with its quote. -/
theorem OpensWith.exists_text (h : OpensWith quote delimiter inside) (contents : Text) :
    ∃ inner, (Stretch.literal delimiter contents).text = quote :: (inner ++ [quote]) := by
  rcases h with rfl | ⟨rfl, -⟩
  · exact ⟨quote :: quote :: (contents ++ [quote, quote]), by simp [Stretch.text]⟩
  · exact ⟨contents, rfl⟩

theorem uncommented_of_bareScan {raw : Text} {ahead behind : List Scanned} {depth : Nat}
    {text : Text} (h : bareScan raw = ahead ++ (literalMarks depth text ++ behind)) :
    uncommented raw =
      (withoutComments ahead).map Scanned.char ++
        (text ++ (withoutComments behind).map Scanned.char) := by
  have hLiteral : withoutComments (literalMarks depth text) = literalMarks depth text :=
    List.filter_eq_self.2 fun m hm => by
      obtain ⟨c, -, rfl⟩ := List.mem_map.1 hm
      rfl
  have hBare : uncommented raw = (withoutComments (bareScan raw)).map Scanned.char := by
    rw [bareScan, withoutComments, List.filter_map, map_char_unplaced]
    rfl
  rw [hBare, h, withoutComments, List.filter_append, List.filter_append, List.map_append,
    List.map_append]
  rw [← withoutComments, ← withoutComments, ← withoutComments, hLiteral, map_char_literalMarks]

/-- **A segment declares the same with other contents for one of its strings.** -/
theorem ofSegment?_refilled (receivers : List Text) (hQuote : isQuote quote = true)
    (hOpens : OpensWith quote delimiter inside) {raw raw' body : Text} {ahead behind : List Scanned}
    {depth : Nat}
    (hRaw : bareScan raw =
      ahead ++ (literalMarks depth (Stretch.literal delimiter body).text ++ behind))
    (hRaw' : bareScan raw' =
      ahead ++ (literalMarks depth (Stretch.literal delimiter contents).text ++ behind)) :
    Parameter.ofSegment? receivers ⟨0, raw', uncommented raw'⟩ =
      Parameter.ofSegment? receivers ⟨0, raw, uncommented raw⟩ := by
  obtain ⟨inner, hText⟩ := hOpens.exists_text body
  obtain ⟨inner', hText'⟩ := hOpens.exists_text contents
  rw [hText] at hRaw
  rw [hText'] at hRaw'
  have hCode := trim_around_quotes hQuote ((withoutComments ahead).map Scanned.char) inner
    ((withoutComments behind).map Scanned.char)
  have hCode' := trim_around_quotes hQuote ((withoutComments ahead).map Scanned.char) inner'
    ((withoutComments behind).map Scanned.char)
  rw [← uncommented_of_bareScan hRaw] at hCode
  rw [← uncommented_of_bareScan hRaw'] at hCode'
  have hDefault : Parameter.marksDefault none (scan raw') =
      Parameter.marksDefault none (scan raw) := by
    rw [← marksDefault_unplaced, ← bareScan, hRaw', marksDefault_around none depth inner inner',
      ← hRaw, bareScan, marksDefault_unplaced]
  rw [ofSegment?_at_quote receivers hQuote hCode, ofSegment?_at_quote receivers hQuote hCode',
    hDefault]

end

/-! ## The whole list -/

/-- A segment has the bytes of its list from one position up to another. -/
def Segment.Holds (s : Segment) (start stop : Nat) : Prop :=
  s.start ≤ start ∧ stop ≤ s.stop

theorem placed_append (start : Nat) (before after : List Text) :
    placed start ((before ++ after).map piece) =
      placed start (before.map piece) ++
        placed (start + byteLength (inFront before)) (after.map piece) := by
  induction before generalizing start with
  | nil => rfl
  | cons raw before ih =>
    have hStart : start + byteLength raw + 1 + byteLength (inFront before) =
        start + byteLength (inFront (raw :: before)) := by
      rw [inFront, inFront, List.flatMap_cons, byteLength_append, byteLength_append,
        show byteLength [','] = 1 from rfl]
      omega
    rw [List.cons_append, List.map_cons, List.map_cons, piece, placed, placed, ih, hStart,
      List.cons_append]

theorem length_placed (start : Nat) (raws : List Text) :
    (placed start (raws.map piece)).length = raws.length := by
  have h := congrArg List.length (map_raw_placed start raws)
  rwa [List.length_map] at h

section

variable {text : Text} {list : List Segment} {front back : List Stretch}
  {delimiter body contents : Text}

/-- The segment whose scan shows a string holds it. -/
theorem holds_of_bareScan {before after : List Text} {raw : Text} {ahead behind : List Scanned}
    {depth : Nat} {s : Segment}
    (hs : (placed 0 ((before ++ raw :: after).map piece))[before.length]? = some s)
    (hRaw : bareScan raw =
      ahead ++ (literalMarks depth (Stretch.literal delimiter body).text ++ behind))
    (hFront : textOf front = inFront before ++ ahead.map Scanned.char) :
    s.Holds (byteLength (textOf front))
      (byteLength (textOf (front ++ [.literal delimiter body]))) := by
  have hString : raw = ahead.map Scanned.char ++
      ((Stretch.literal delimiter body).text ++ behind.map Scanned.char) := by
    have hChars := congrArg (List.map Scanned.char) hRaw
    rwa [map_char_bareScan, List.map_append, List.map_append, map_char_literalMarks] at hChars
  rw [placed_append, List.getElem?_append_right (Nat.le_of_eq (length_placed 0 before)),
    length_placed, Nat.sub_self, List.map_cons, piece, placed] at hs
  obtain rfl := Option.some.inj hs
  rw [Segment.Holds, Segment.stop, textOf_concat, hFront, hString]
  simp only [byteLength_append]
  omega

/-- **Strings are opaque.** With other contents for one of its strings, which hold neither its quote
nor a backslash and are not empty, a list is cut again, into as many segments, it declares the same
parameters for any names of the receiver, and each segment that does not hold the string keeps its raw
text. -/
theorem literals_are_opaque (hSegments : segments text = .ok list)
    (hLiteral : stretches text = front ++ .literal delimiter body :: back)
    (hFills : Fills delimiter contents) :
    ∃ list', segments (textOf (front ++ .literal delimiter contents :: back)) = .ok list' ∧
      (∀ receivers, parameters receivers (textOf (front ++ .literal delimiter contents :: back)) =
        parameters receivers text) ∧
      list'.length = list.length ∧
      ∀ (i : Nat) (s : Segment), list[i]? = some s →
        ¬ s.Holds (byteLength (textOf front))
          (byteLength (textOf (front ++ [.literal delimiter body]))) →
        list'[i]?.map Segment.raw = some s.raw := by
  obtain ⟨raws, hCut, rfl⟩ := segments_eq_ok_iff.1 hSegments
  have hSeparated := separated_stretches text
  have hText := textOf_stretches text
  rw [hLiteral] at hSeparated hText
  subst hText
  obtain ⟨before, after, ahead, behind, depth, raw, raw', rfl, hCut', hRaw, hRaw', hFront⟩ :=
    exists_refilled hCut hSeparated hFills
  obtain ⟨-, quote, hQuote, hOpens⟩ := hSeparated.of_append.1
  refine ⟨_, hCut'.segments_eq, fun receivers => ?_, ?_, fun i s hs hHolds => ?_⟩
  · rw [hCut.parameters_eq, hCut'.parameters_eq, List.filterMap_append, List.filterMap_append,
      List.filterMap_cons, List.filterMap_cons,
      ofSegment?_refilled receivers hQuote hOpens hRaw hRaw']
  · rw [length_placed, length_placed, List.length_append, List.length_append, List.length_cons,
      List.length_cons]
  · have hEqual : i ≠ before.length := by
      rintro rfl
      exact hHolds (holds_of_bareScan hs hRaw hFront)
    have hRaws := congrArg (Option.map Segment.raw) hs
    rw [← List.getElem?_map, map_raw_placed, Option.map_some] at hRaws
    rw [← List.getElem?_map, map_raw_placed, ← hRaws]
    -- the two lists of segments differ in that one place
    rcases Nat.lt_or_gt_of_ne hEqual with hLt | hGt
    · rw [List.getElem?_append_left hLt, List.getElem?_append_left hLt]
    · obtain ⟨k, hk⟩ : ∃ k, i - before.length = k + 1 := ⟨i - before.length - 1, by omega⟩
      rw [List.getElem?_append_right (Nat.le_of_lt hGt),
        List.getElem?_append_right (Nat.le_of_lt hGt), hk, List.getElem?_cons_succ,
        List.getElem?_cons_succ]

end

/-- A subscript in an annotation, filled with all that could end it, its segment or its line. -/
theorem literals_are_opaque_in_annotation :
    segments "a: D['k'] = 1, *b".toList =
        .ok [⟨0, "a: D['k'] = 1".toList, "a: D['k'] = 1".toList⟩, ⟨14, " *b".toList, " *b".toList⟩] ∧
      stretches "a: D['k'] = 1, *b".toList =
        "a: D[".toList.map .code ++ .literal ['\''] ['k'] :: "] = 1, *b".toList.map .code ∧
      Fills ['\''] "],=#(:\n\"".toList ∧
      ∃ list', segments "a: D['],=#(:\n\"'] = 1, *b".toList = .ok list' ∧
        (∀ receivers, parameters receivers "a: D['],=#(:\n\"'] = 1, *b".toList =
          parameters receivers "a: D['k'] = 1, *b".toList) ∧
        list'.length = 2 ∧ list'[1]?.map Segment.raw = some " *b".toList := by
  have hSegments : segments "a: D['k'] = 1, *b".toList =
      .ok [⟨0, "a: D['k'] = 1".toList, "a: D['k'] = 1".toList⟩, ⟨14, " *b".toList, " *b".toList⟩] := by
    decide +kernel
  have hLiteral : stretches "a: D['k'] = 1, *b".toList =
      "a: D[".toList.map .code ++ .literal ['\''] ['k'] :: "] = 1, *b".toList.map .code := by
    decide +kernel
  have hFills : Fills ['\''] "],=#(:\n\"".toList := by decide
  obtain ⟨list', hNew, hParameters, hLength, hRaw⟩ :=
    literals_are_opaque hSegments hLiteral hFills
  refine ⟨hSegments, hLiteral, hFills, list', hNew, hParameters, hLength, hRaw 1 _ rfl ?_⟩
  -- the second segment starts behind the string
  rintro ⟨hStart, -⟩
  exact absurd hStart (by decide)

end FieldFill
