import FieldFill.Proofs.Parameter.Classify
import FieldFill.Proofs.Parameter.Cut

/-!
# Reading a written list back

A parameter list written from declarations is read back as those declarations: whatever code stands
in annotations and defaults, and whatever blanks and comments stand around the declarations.

A written declaration is a part of the list that the scan enters and leaves with nothing open
(`Part`), and parts go together. So the list is cut between the declarations, and the code of each
segment is the code of its declaration between blanks, which is where the classifier starts.

Main definitions:

* `Declaration` — a marker, or a name with its stars, annotation and default.
* `written` — the text of a list of declarations, with fillers around them.

Main results:

* `part_item` — a written declaration is a part.
* `ofSegment?_declared` — what the classifier makes of the code of a declaration.
* `parameters_written` — the whole list is read back.
-/

namespace FieldFill

/-! ## Written lists -/

/-- A blank, or a comment with the line break that ends it. -/
inductive Filler where
  | blank (char : Char) (hBlank : isBlank char = true)
  | remark (words : Text) (hLine : '\n' ∉ words)

namespace Filler

def text : Filler → Text
  | blank c _ => [c]
  | remark words _ => '#' :: (words ++ ['\n'])

/-- What is left of a filler without comments. -/
def code : Filler → Text
  | blank c _ => [c]
  | remark .. => ['\n']

end Filler

/-- Any number of blanks and comments. -/
abbrev Padding :=
  List Filler

namespace Padding

def text (p : Padding) : Text :=
  p.flatMap Filler.text

def code (p : Padding) : Text :=
  p.flatMap Filler.code

end Padding

/-- Code that can be the default of a parameter: it is a list of one segment, and does not end in a
comment. -/
structure Fragment where
  text : Text
  one : ∃ s, segments text = .ok [s]
  ended : ¬ EndsInComment text

/-- Code that can be the annotation of a parameter: no `=` of its code stands outside of all
brackets. -/
structure Hint extends Fragment where
  noEquals : Clear '=' text

structure Name where
  first : Char
  more : Text
  starts : startsName first = true
  continues : ∀ c ∈ more, continuesName c = true

namespace Name

def text (n : Name) : Text :=
  n.first :: n.more

end Name

inductive Stars where
  | none
  | one
  | two

namespace Stars

def text : Stars → Text
  | none => []
  | one => ['*']
  | two => ['*', '*']

def role? : Stars → Option Role
  | none => Option.none
  | one => some .variadicPositional
  | two => some .variadicKeyword

end Stars

def hintText : Option Hint → Text
  | none => []
  | some a => ':' :: ' ' :: a.text

def defaultText : Option Fragment → Text
  | none => []
  | some v => ' ' :: '=' :: ' ' :: v.text

inductive Declaration where
  | star
  | slash
  | named (stars : Stars) (name : Name) (hint : Option Hint) (value : Option Fragment)

namespace Declaration

def text : Declaration → Text
  | star => ['*']
  | slash => ['/']
  | named stars name hint value =>
    stars.text ++ (name.text ++ (hintText hint ++ defaultText value))

/-- The parameter that a declaration stands for. The markers stand for none. -/
def parameter? (receivers : List Text) : Declaration → Option Parameter
  | star => none
  | slash => none
  | named stars name hint value =>
    some {
      name := name.text
      role := stars.role?.getD (if receivers.contains name.text then .receiver else .ordinary)
      annotated := hint.isSome
      defaulted := value.isSome }

end Declaration

/-- A declaration with what is written in front of it and behind it. -/
structure Item where
  before : Padding
  declaration : Declaration
  after : Padding

namespace Item

def text (item : Item) : Text :=
  item.before.text ++ (item.declaration.text ++ item.after.text)

end Item

/-- The items with a comma between two of them, and maybe one more comma behind them. -/
def written (items : List Item) (trailing : Option Padding) : Text :=
  List.intercalate [','] (items.map Item.text) ++ trailing.elim [] fun p => ',' :: p.text

/-! ## Parts of a segment -/

/-- A text that stands within one segment, whatever stands around it, and leaves `code` there. -/
structure Part (text code : Text) : Prop where
  closed : Closed text
  clear : Clear ',' text
  code_eq : uncommented text = code

namespace Part

variable {a b x y : Text}

theorem nil : Part [] [] where
  closed := closed_nil
  clear _ hm := by cases hm
  code_eq := rfl

theorem append (ha : Part a x) (hb : Part b y) (hSeam : Apart a b) : Part (a ++ b) (x ++ y) where
  closed := ha.closed.append hSeam hb.closed
  clear := (ha.closed.clear_append hSeam).2 ⟨ha.clear, hb.clear⟩
  code_eq := by rw [ha.closed.uncommented_append hSeam, ha.code_eq, hb.code_eq]

theorem plain {text : Text} (hPlain : ∀ c ∈ text, isPlain c = true) (hComma : ',' ∉ text) :
    Part text text := by
  induction text with
  | nil => exact nil
  | cons c rest ih =>
    have hc := hPlain c (List.mem_cons_self ..)
    have hSeam : Apart [c] rest := Apart.concat_left [] rest (not_isQuote_of_isPlain hc)
    have hFirst : Part [c] [c] := by
      refine ⟨closed_plain hc, fun m hm => ?_, ?_⟩
      · -- its one mark would have to be that of a comma
        rw [scan_plain hc, List.mem_singleton] at hm
        rw [hm, Bool.eq_false_iff, ne_eq, Scanned.isTop_iff]
        rintro ⟨-, -, rfl⟩
        exact hComma (List.mem_cons_self ..)
      · rw [uncommented, scan_plain hc]
        rfl
    have hRest : Part rest rest :=
      ih (fun d hd => hPlain d (List.mem_cons_of_mem _ hd)) fun hd =>
        hComma (List.mem_cons_of_mem _ hd)
    exact hFirst.append hRest hSeam

end Part

/-! ## What is around a declaration -/

/-- A comment is read up to its line break, which is all that stays of it. -/
theorem scanFrom_remark {words : Text} (hLine : '\n' ∉ words) (offset : Nat) :
    endFrom ⟨.comment, 0, [], none⟩ offset (words ++ ['\n']) = .start ∧
      withoutComments (scanFrom ⟨.comment, 0, [], none⟩ offset (words ++ ['\n'])) =
        [⟨offset + byteLength words, '\n', .code, 0, 0⟩] := by
  induction words generalizing offset with
  | nil =>
    have hRead : Reads offset '\n' [] ⟨.comment, 0, [], none⟩ .code ⟨.code, 0, [], none⟩ :=
      .newline rfl
    rw [List.nil_append, hRead.endFrom_cons, hRead.scanFrom_cons]
    exact ⟨rfl, rfl⟩
  | cons c words ih =>
    have hc : c ≠ '\n' := fun h => hLine (h ▸ List.mem_cons_self ..)
    have hRead : Reads offset c (words ++ ['\n']) ⟨.comment, 0, [], none⟩ .comment
        ⟨.comment, 0, [], none⟩ := .remark hc
    obtain ⟨hEnd, hScan⟩ := ih (fun h => hLine (List.mem_cons_of_mem _ h)) (offset + c.utf8Size)
    rw [List.cons_append, hRead.endFrom_cons, hRead.scanFrom_cons]
    refine ⟨hEnd, ?_⟩
    rw [byteLength_cons, ← Nat.add_assoc, ← hScan]
    rfl

theorem part_remark {words : Text} (hLine : '\n' ∉ words) :
    Part ('#' :: (words ++ ['\n'])) ['\n'] := by
  have hRead : Reads 0 '#' (words ++ ['\n']) ⟨.code, 0, [], none⟩ .comment
      ⟨.comment, 0, [], none⟩ := .hash rfl
  obtain ⟨hEnd, hScan⟩ := scanFrom_remark hLine '#'.utf8Size
  have hKept : withoutComments (scan ('#' :: (words ++ ['\n']))) =
      [⟨'#'.utf8Size + byteLength words, '\n', .code, 0, 0⟩] := by
    rw [scan, State.start, hRead.scanFrom_cons, ← hScan, Nat.zero_add]
    rfl
  refine ⟨?_, fun m hm => ?_, ?_⟩
  · -- closed
    rw [Closed, endState, State.start, hRead.endFrom_cons, Nat.zero_add]
    exact hEnd
  · -- no comma: a mark is in the comment, or it is the one of the line break
    by_cases hComment : m.region = .comment
    · simp [Scanned.isTop, Scanned.isCode, hComment]
    · have hMem : m ∈ withoutComments (scan ('#' :: (words ++ ['\n']))) :=
        List.mem_filter.2 ⟨hm, by simpa using hComment⟩
      rw [hKept, List.mem_singleton] at hMem
      rw [hMem]
      rfl
  · -- the code
    rw [uncommented, hKept]
    rfl

theorem ne_comma_of_isBlank {c : Char} (h : isBlank c = true) : ',' ≠ c := by
  rintro rfl
  exact absurd h (by decide)

namespace Filler

theorem part (f : Filler) : Part f.text f.code := by
  cases f with
  | blank c hBlank =>
    refine Part.plain (fun d hd => ?_) fun hd => ?_
    · rw [List.mem_singleton.1 hd]
      exact isPlain_of_isBlank hBlank
    · exact ne_comma_of_isBlank hBlank (List.mem_singleton.1 hd)
  | remark words hLine => exact part_remark hLine

theorem blank_code (f : Filler) : Blank f.code := by
  intro c hc
  cases f with
  | blank d hBlank =>
    rw [List.mem_singleton.1 hc]
    exact hBlank
  | remark words hLine =>
    rw [List.mem_singleton.1 hc]
    rfl

/-- A filler begins with no quote. -/
theorem apart_text (f : Filler) (x rest : Text) : Apart x (f.text ++ rest) := by
  cases f with
  | blank c hBlank =>
    have hQuote := not_isQuote_of_isPlain (isPlain_of_isBlank hBlank)
    exact Apart.cons_right x rest hQuote
  | remark words hLine => exact Apart.cons_right x _ rfl

end Filler

namespace Padding

theorem apart_text (p : Padding) (x : Text) : Apart x p.text := by
  cases p with
  | nil => exact Apart.nil_right x
  | cons f p => exact f.apart_text x _

theorem part (p : Padding) : Part p.text p.code := by
  induction p with
  | nil => exact Part.nil
  | cons f p ih => exact f.part.append ih (apart_text p _)

theorem blank_code (p : Padding) : Blank p.code := by
  intro c hc
  obtain ⟨f, -, hMem⟩ := List.mem_flatMap.1 hc
  exact f.blank_code c hMem

end Padding

/-! ## Declarations -/

namespace Fragment

variable (v : Fragment)

theorem fault?_eq_none : fault? v.text = none := by
  obtain ⟨s, hSegments⟩ := v.one
  exact fault?_of_segments hSegments

theorem clear_comma : Clear ',' v.text := by
  obtain ⟨text, ⟨s, hSegments⟩, -⟩ := v
  obtain ⟨raws, hCut, hPlaced⟩ := segments_eq_ok_iff.1 hSegments
  cases hCut with
  | last hFault hClear => exact hClear
  | cons hClosed hClear hRest =>
    -- a second piece would be a second segment
    obtain ⟨raw, more, rfl⟩ := List.exists_cons_of_ne_nil hRest.ne_nil
    cases hPlaced

theorem part : Part v.text (uncommented v.text) :=
  ⟨closed_iff.2 ⟨v.fault?_eq_none, v.ended⟩, v.clear_comma, rfl⟩

end Fragment

namespace Name

variable (n : Name)

theorem continuesName_of_mem {c : Char} (hc : c ∈ n.text) : continuesName c = true := by
  rcases List.mem_cons.1 hc with rfl | hMem
  · exact continuesName_of_startsName n.starts
  · exact n.continues c hMem

theorem first_ne {c : Char} (hc : startsName c = false) : n.first ≠ c := by
  rintro rfl
  simp [n.starts] at hc

theorem plain : ∀ c ∈ n.text, isPlain c = true :=
  fun _ hc => isPlain_of_continuesName (n.continuesName_of_mem hc)

theorem not_isBlank_first : isBlank n.first = false :=
  not_isBlank_of_continuesName (continuesName_of_startsName n.starts)

theorem part : Part n.text n.text := by
  refine Part.plain n.plain fun hComma => ?_
  have hNot : continuesName ',' = false := by decide
  simp [n.continuesName_of_mem hComma] at hNot

/-- A name ends where its characters do. -/
theorem leadingName_eq (rest : Text) (hRest : ∀ c, rest.head? = some c → continuesName c = false) :
    leadingName (n.text ++ rest) = (n.text, rest) := by
  obtain ⟨hTake, hDrop⟩ := takeWhile_append_of_name n.continues hRest
  rw [text, List.cons_append, leadingName, if_pos n.starts, hTake, hDrop]

end Name

namespace Stars

theorem plain (s : Stars) : ∀ c ∈ s.text, isPlain c = true := by
  cases s <;> exact List.all_eq_true.1 rfl

theorem part (s : Stars) : Part s.text s.text := by
  refine Part.plain s.plain ?_
  cases s <;> decide

theorem stars_eq (s : Stars) (n : Name) (rest : Text) :
    Parameter.stars (s.text ++ (n.text ++ rest)) = (s.role?, n.text ++ rest) := by
  have hFirst : n.first ≠ '*' := n.first_ne (by decide)
  cases s with
  | none => exact Parameter.stars_of_ne hFirst _
  | one => exact Parameter.stars_star_of_ne hFirst _
  | two => rfl

end Stars

def hintCode : Option Hint → Text
  | none => []
  | some a => ':' :: ' ' :: uncommented a.text

def defaultCode : Option Fragment → Text
  | none => []
  | some v => ' ' :: '=' :: ' ' :: uncommented v.text

theorem plain_hintMark : ∀ c ∈ [':', ' '], isPlain c = true :=
  List.all_eq_true.1 rfl

theorem part_hint (hint : Option Hint) : Part (hintText hint) (hintCode hint) := by
  cases hint with
  | none => exact Part.nil
  | some a =>
    have hMark : Part [':', ' '] [':', ' '] := Part.plain plain_hintMark (by decide)
    exact hMark.append a.part (apart_of_plain plain_hintMark _)

theorem part_default (value : Option Fragment) : Part (defaultText value) (defaultCode value) := by
  cases value with
  | none => exact Part.nil
  | some v =>
    have hPlain : ∀ c ∈ [' ', '=', ' '], isPlain c = true := List.all_eq_true.1 rfl
    have hMark : Part [' ', '=', ' '] [' ', '=', ' '] := Part.plain hPlain (by decide)
    exact hMark.append v.part (apart_of_plain hPlain _)

theorem apart_default (x : Text) (value : Option Fragment) : Apart x (defaultText value) := by
  cases value with
  | none => exact Apart.nil_right x
  | some v => exact Apart.cons_right x _ rfl

/-- Behind the name of a declaration stands something that ends the name. -/
theorem head_behindName {hint : Option Hint} {value : Option Fragment} {c : Char}
    (h : (hintCode hint ++ defaultCode value).head? = some c) :
    continuesName c = false := by
  cases hint with
  | some a =>
    obtain rfl : ':' = c := Option.some.inj h
    decide
  | none =>
    cases value with
    | some v =>
      obtain rfl : ' ' = c := Option.some.inj h
      decide
    | none => cases h

namespace Declaration

/-- A declaration as its segment has it. -/
def code : Declaration → Text
  | star => ['*']
  | slash => ['/']
  | named stars name hint value =>
    stars.text ++ (name.text ++ (hintCode hint ++ defaultCode value))

theorem part (d : Declaration) : Part d.text d.code := by
  cases d with
  | star => exact Part.plain (List.all_eq_true.1 rfl) (by decide)
  | slash => exact Part.plain (List.all_eq_true.1 rfl) (by decide)
  | named stars name hint value =>
    have hBehind := (part_hint hint).append (part_default value) (apart_default _ value)
    have hNamed := name.part.append hBehind (apart_of_plain name.plain _)
    exact stars.part.append hNamed (apart_of_plain stars.plain _)

/-- A declaration begins with no quote. -/
theorem apart_text (d : Declaration) (x rest : Text) : Apart x (d.text ++ rest) := by
  cases d with
  | star => exact Apart.cons_right x _ rfl
  | slash => exact Apart.cons_right x _ rfl
  | named stars name hint value =>
    cases stars with
    | none =>
      have hFirst := name.plain name.first (List.mem_cons_self ..)
      exact Apart.cons_right x _ (not_isQuote_of_isPlain hFirst)
    | one => exact Apart.cons_right x _ rfl
    | two => exact Apart.cons_right x _ rfl

end Declaration

theorem part_item (item : Item) :
    Part item.text (item.before.code ++ (item.declaration.code ++ item.after.code)) := by
  have hBehind := item.declaration.part.append item.after.part (item.after.apart_text _)
  exact item.before.part.append hBehind (item.declaration.apart_text _ _)

/-! ## Reading a declaration -/

/-- An annotation is seen by its colon. -/
theorem annotated_iff (hint : Option Hint) (value : Option Fragment) :
    (trimStart (trimEnd (hintCode hint ++ defaultCode value))).head? = some ':' ↔
      hint.isSome = true := by
  cases hint with
  | some a =>
    have hColon : isBlank ':' = false := rfl
    -- the colon is no blank, so that trimming leaves it in front
    have hTrim := trimEnd_append hColon [] (' ' :: uncommented a.text ++ defaultCode value)
    rw [List.nil_append, List.nil_append] at hTrim
    rw [hintCode, List.cons_append, hTrim, trimStart_of_head hColon]
    simp
  | none =>
    cases value with
    | some v =>
      -- what is in front is the `=` of the default
      have hEquals : isBlank '=' = false := rfl
      have hTrim := trimEnd_append hEquals [' '] (' ' :: uncommented v.text)
      have hSpace : Blank [' '] := fun c hc => List.mem_singleton.1 hc ▸ rfl
      rw [hintCode, List.nil_append, defaultCode]
      rw [List.singleton_append, List.singleton_append] at hTrim
      rw [hTrim, ← List.singleton_append, trimStart_append_of_blank hSpace,
        trimStart_of_head hEquals]
      simp
    | none => simp [hintCode, defaultCode, trimEnd, trimStart]

theorem closed_hintCode (hint : Option Hint) : Closed (hintCode hint) := by
  cases hint with
  | none => exact closed_nil
  | some a =>
    have hMark : Closed [':', ' '] := closed_of_plain plain_hintMark
    exact hMark.append (apart_of_plain plain_hintMark _) (closed_uncommented a.fault?_eq_none)

/-- No `=` of an annotation is taken for the mark of a default. -/
theorem clear_hintCode (hint : Option Hint) : Clear '=' (hintCode hint) := by
  cases hint with
  | none =>
    intro m hm
    cases hm
  | some a =>
    have hMark : Closed [':', ' '] := closed_of_plain plain_hintMark
    have hSeam : Apart [':', ' '] (uncommented a.text) := apart_of_plain plain_hintMark _
    exact (hMark.clear_append hSeam).2 ⟨by decide, a.noEquals.uncommented⟩

/-- A default is seen by its `=`, which has a space on either side. -/
theorem defaulted_eq (hint : Option Hint) (value : Option Fragment) :
    Parameter.marksDefault none (scan (trimEnd (hintCode hint ++ defaultCode value))) =
      value.isSome := by
  cases value with
  | none =>
    -- trimming takes blanks from the annotation, which leaves it clear
    rw [defaultCode, List.append_nil]
    obtain ⟨back, hBack, hCode⟩ := exists_trimEnd (hintCode hint)
    have hClear : Clear '=' (trimEnd (hintCode hint)) :=
      Clear.of_append (hCode ▸ clear_hintCode hint) (apart_blank hBack _)
    exact Parameter.marksDefault_eq_false hClear
  | some v =>
    have hEquals : isBlank '=' = false := rfl
    have hTrim := trimEnd_append hEquals (hintCode hint ++ [' ']) (' ' :: uncommented v.text)
    have hClosed : Closed (hintCode hint ++ [' ']) := (closed_hintCode hint).concat_plain rfl
    rw [List.append_assoc, List.singleton_append] at hTrim
    rw [defaultCode, hTrim, hClosed.scan_append_cons rfl, Option.isSome_some,
      Parameter.marksDefault_iff]
    refine ⟨_, _, _, rfl, rfl, ?_, ?_⟩
    · -- in front of the `=` stands a space
      rw [← List.getLast?_map, scan, map_char_scanFrom, List.getLast?_concat]
      rfl
    · -- what is behind it begins with a space, if anything is left of it
      have hChars : ((scan (trimEnd (' ' :: uncommented v.text))).map
          (Scanned.shift (byteLength (hintCode hint ++ [' ']) + '='.utf8Size))).map
            Scanned.char = trimEnd (' ' :: uncommented v.text) := by
        rw [List.map_map]
        exact map_char_scanFrom .start 0 _
      rw [← List.head?_map, hChars]
      intro hHead
      cases head_of_head_trimEnd hHead

/-- The code of a declaration with a name, without the blanks at its ends. -/
theorem trim_named (stars : Stars) (name : Name) (tail : Text) :
    trim (stars.text ++ (name.text ++ tail)) = stars.text ++ (name.text ++ trimEnd tail) := by
  have hHead : ∃ c rest, stars.text ++ (name.text ++ tail) = c :: rest ∧ isBlank c = false := by
    cases stars with
    | none => exact ⟨name.first, _, rfl, name.not_isBlank_first⟩
    | one => exact ⟨'*', _, rfl, rfl⟩
    | two => exact ⟨'*', _, rfl, rfl⟩
  obtain ⟨c, rest, hCons, hBlank⟩ := hHead
  have hStart : trimStart (stars.text ++ (name.text ++ tail)) =
      stars.text ++ (name.text ++ tail) := by
    rw [hCons, trimStart_of_head hBlank]
  -- the name has a last character, which is no blank, so trimming stops behind it
  have hName : ∀ c ∈ name.text, continuesName c = true := fun _ hc => name.continuesName_of_mem hc
  rw [trim, hStart, trimEnd_append_of_name hName (List.cons_ne_nil _ _)]

/-- Stars, name and what stands behind the name are told apart again. -/
theorem split_named (stars : Stars) (name : Name) {tail : Text}
    (hTail : ∀ c, tail.head? = some c → continuesName c = false) :
    (Parameter.stars (stars.text ++ (name.text ++ tail))).1 = stars.role? ∧
      Parameter.nameOf (stars.text ++ (name.text ++ tail)) = name.text ∧
      Parameter.behindName (stars.text ++ (name.text ++ tail)) = tail := by
  have hStart : trimStart (name.text ++ tail) = name.text ++ tail :=
    trimStart_of_head name.not_isBlank_first _
  have hStars := stars.stars_eq name tail
  have hLeading := name.leadingName_eq tail hTail
  refine ⟨?_, ?_, ?_⟩
  · rw [hStars]
  · rw [Parameter.nameOf, hStars, hStart, hLeading]
  · rw [Parameter.behindName, hStars, hStart, hLeading]

/-- **A declaration between blanks is read as what it declares.** -/
theorem ofSegment?_declared (receivers : List Text) (d : Declaration) {segment : Segment}
    {front back : Text} (hFront : Blank front) (hBack : Blank back)
    (hKept : segment.kept = front ++ (d.code ++ back)) :
    Parameter.ofSegment? receivers segment = d.parameter? receivers := by
  have hCode : segment.code = trim d.code := by
    rw [Segment.code, hKept, trim_append_of_blank hFront hBack]
  rw [Parameter.ofSegment?_eq, hCode]
  cases d with
  | star => rfl
  | slash => rfl
  | named stars name hint value =>
    have hTail : ∀ c, (trimEnd (hintCode hint ++ defaultCode value)).head? = some c →
        continuesName c = false := fun c hc => head_behindName (head_of_head_trimEnd hc)
    obtain ⟨hRole, hName, hBehind⟩ := split_named stars name hTail
    -- field by field
    rw [Declaration.code, trim_named, hRole, hName, hBehind, defaulted_eq,
      if_neg (by simp [Name.text])]
    simp only [annotated_iff, Bool.decide_eq_true]
    rfl

/-! ## Reading a list -/

theorem filterMap_placed {receivers : List Text} {raws : List Text} (start : Nat) :
    (placed start (raws.map piece)).filterMap (Parameter.ofSegment? receivers) =
      raws.filterMap fun raw => Parameter.ofSegment? receivers ⟨0, raw, uncommented raw⟩ := by
  induction raws generalizing start with
  | nil => rfl
  | cons raw raws ih =>
    -- where a segment stands does not matter for what it declares
    have hFirst : Parameter.ofSegment? receivers ⟨start, raw, uncommented raw⟩ =
        Parameter.ofSegment? receivers ⟨0, raw, uncommented raw⟩ := rfl
    rw [List.map_cons, piece, placed, List.filterMap_cons, List.filterMap_cons, hFirst, ih]

theorem Cut.parameters_eq {text : Text} {raws : List Text} (h : Cut text raws)
    (receivers : List Text) :
    parameters receivers text =
      .ok (raws.filterMap fun raw => Parameter.ofSegment? receivers ⟨0, raw, uncommented raw⟩) := by
  rw [parameters, h.segments_eq, ← filterMap_placed 0]
  rfl

/-- Parts with a comma between two of them are cut at these commas. -/
theorem cut_intercalate {raws : List Text} (hne : raws ≠ [])
    (hParts : ∀ raw ∈ raws, Closed raw ∧ Clear ',' raw) :
    Cut (List.intercalate [','] raws) raws ∧ Closed (List.intercalate [','] raws) := by
  induction raws with
  | nil => exact absurd rfl hne
  | cons raw raws ih =>
    obtain ⟨hClosed, hClear⟩ := hParts raw (List.mem_cons_self ..)
    by_cases hNil : raws = []
    · rw [hNil, List.intercalate_singleton]
      exact ⟨.last hClosed.fault?_eq_none hClear, hClosed⟩
    · obtain ⟨hCut, hRest⟩ := ih hNil fun r hr => hParts r (List.mem_cons_of_mem _ hr)
      have hComma : Closed (raw ++ [',']) := hClosed.concat_plain rfl
      rw [List.intercalate_cons_of_ne_nil hNil]
      refine ⟨?_, hComma.append (Apart.concat_left raw _ rfl) hRest⟩
      rw [List.append_assoc, List.singleton_append]
      exact .cons hClosed hClear hCut

/-- The pieces of the list before a trailing comma. -/
theorem exists_cut_items (receivers : List Text) (items : List Item) :
    ∃ raws, Cut (List.intercalate [','] (items.map Item.text)) raws ∧
      Closed (List.intercalate [','] (items.map Item.text)) ∧
      (raws.filterMap fun raw => Parameter.ofSegment? receivers ⟨0, raw, uncommented raw⟩) =
        items.filterMap fun item => item.declaration.parameter? receivers := by
  cases items with
  | nil =>
    -- the empty list is one empty piece
    exact ⟨[[]], .last rfl (by decide), closed_nil, rfl⟩
  | cons first more =>
    have hParts : ∀ raw ∈ (first :: more).map Item.text, Closed raw ∧ Clear ',' raw := by
      intro raw hRaw
      obtain ⟨item, -, rfl⟩ := List.mem_map.1 hRaw
      exact ⟨(part_item item).closed, (part_item item).clear⟩
    obtain ⟨hCut, hClosed⟩ := cut_intercalate (by simp) hParts
    refine ⟨(first :: more).map Item.text, hCut, hClosed, ?_⟩
    -- the code of each piece is its declaration between blanks
    rw [List.filterMap_map]
    refine List.filterMap_congr fun item _ => ?_
    exact ofSegment?_declared receivers item.declaration item.before.blank_code
      item.after.blank_code (part_item item).code_eq

/-- The empty segment behind a trailing comma declares nothing. -/
theorem ofSegment?_padding (receivers : List Text) (p : Padding) :
    Parameter.ofSegment? receivers ⟨0, p.text, uncommented p.text⟩ = none := by
  have hCode : Segment.code ⟨0, p.text, uncommented p.text⟩ = [] := by
    have hNone : Blank [] := fun c hc => by cases hc
    have hTrim := trim_append_of_blank p.blank_code hNone []
    rw [List.append_nil, List.append_nil] at hTrim
    rw [Segment.code, p.part.code_eq, hTrim]
    rfl
  rw [Parameter.ofSegment?_eq, hCode]
  rfl

/-- **A written list is read back.** Every declaration with a name gives one parameter, in the order
of the list, with its name, its role, and whether it has an annotation and a default. -/
theorem parameters_written (receivers : List Text) (items : List Item) (trailing : Option Padding) :
    parameters receivers (written items trailing) =
      .ok (items.filterMap fun item => item.declaration.parameter? receivers) := by
  obtain ⟨raws, hCut, hClosed, hRead⟩ := exists_cut_items receivers items
  cases trailing with
  | none =>
    rw [written, Option.elim_none, List.append_nil, hCut.parameters_eq, hRead]
  | some p =>
    have hPadding : Cut p.text [p.text] := .last p.part.closed.fault?_eq_none p.part.clear
    have hJoin := hCut.join (closed_iff.1 hClosed).2 hPadding
    rw [written, Option.elim_some, hJoin.parameters_eq, List.filterMap_append, hRead]
    simp [ofSegment?_padding]

/-- Commas and brackets in a comment, in strings and between brackets, and a comment inside of an
annotation. -/
theorem parameters_written_nested :
    parameters ["self".toList] "self#,(\n, *, x: D['a,)',#(\n=] = \"#=,\",".toList =
      .ok [⟨"self".toList, .receiver, false, false⟩, ⟨"x".toList, .ordinary, true, true⟩] :=
  let receiver : Name := ⟨'s', "elf".toList, by decide, List.all_eq_true.1 (by decide)⟩
  let name : Name := ⟨'x', [], by decide, List.all_eq_true.1 rfl⟩
  let hint : Hint := ⟨⟨"D['a,)',#(\n=]".toList, ⟨_, rfl⟩, by decide⟩, by decide⟩
  let value : Fragment := ⟨"\"#=,\"".toList, ⟨_, rfl⟩, by decide⟩
  parameters_written ["self".toList]
    [⟨[], .named .none receiver none none, [.remark ",(".toList (by decide)]⟩,
      ⟨[.blank ' ' rfl], .star, []⟩,
      ⟨[.blank ' ' rfl], .named .none name (some hint) (some value), []⟩]
    (some [])

end FieldFill
