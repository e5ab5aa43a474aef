import FieldFill.Parameter.Assignment
import FieldFill.Proofs.Parameter.Written

/-!
# The commas of a lambda

The cutter knows brackets, strings and comments, and no expressions. So a `lambda` that stands as a
default without parentheses is cut at the commas between its own parameters: its first parameter
stays in the default, and each of the others becomes a parameter of the list, the last one with the
body of the `lambda` as its annotation.

Main definitions:

* `LambdaParameter`, `lambdaText` — a `lambda` and how it is written.
* `strayParameters` — what the list gains from the parameters of a `lambda` behind the first one.

Main results:

* `ofSegment?_assigned`, `ofSegment?_hinted` — a segment with `=` or `:` right behind its name.
* `marksDefault_behind_colon` — a body marks a default by an `=` of its own only.
* `parameters_comma`, `parameters_space` — lists put together.
* `parameters_withLambda` — the whole list, for any number of parameters of the `lambda`.
-/

namespace FieldFill

/-! ## Written lambdas -/

/-- The default of a parameter of a `lambda`: its `=` is not followed by another one. -/
structure LambdaDefault extends Fragment where
  noEquals : (uncommented text).head? ≠ some '='

structure LambdaParameter where
  name : Name
  value : Option LambdaDefault

namespace LambdaParameter

def valueText : Option LambdaDefault → Text
  | none => []
  | some v => '=' :: v.text

def text (p : LambdaParameter) : Text :=
  p.name.text ++ valueText p.value

end LambdaParameter

/-- The parameters of a `lambda` with the body behind them. -/
def lambdaTail (body : Fragment) : List LambdaParameter → Text
  | [] => ':' :: ' ' :: body.text
  | [p] => p.text ++ ':' :: ' ' :: body.text
  | p :: more => p.text ++ ',' :: ' ' :: lambdaTail body more

def lambdaText (body : Fragment) : List LambdaParameter → Text
  | [] => "lambda".toList ++ lambdaTail body []
  | ps => "lambda ".toList ++ lambdaTail body ps

/-- A list with the parameter `k=lambda ..` between two others. -/
def withLambda (before : Text) (k : Name) (ps : List LambdaParameter) (body : Fragment)
    (after : Text) : Text :=
  before ++ ',' :: ' ' :: (k.text ++ '=' :: (lambdaText body ps ++ ',' :: ' ' :: after))

/-! ## What they are taken for -/

def Name.toParameter (receivers : List Text) (n : Name) (annotated defaulted : Bool) : Parameter :=
  ⟨n.text, if receivers.contains n.text then .receiver else .ordinary, annotated, defaulted⟩

/-- The parameters that a list gains from these parameters of a `lambda` in front of its body. -/
def strayParameters (receivers : List Text) (body : Fragment) :
    List LambdaParameter → List Parameter
  | [] => []
  | [p] =>
    [p.name.toParameter receivers p.value.isNone
      (p.value.isSome || Parameter.marksDefault none (scan (uncommented body.text)))]
  | p :: more =>
    p.name.toParameter receivers false p.value.isSome :: strayParameters receivers body more

/-! ## Segments with a name -/

/-- The parameter of a segment that holds a name without stars. -/
theorem ofSegment?_named (receivers : List Text) (n : Name) {raw front tail : Text}
    (hFront : Blank front) (hKept : uncommented raw = front ++ (n.text ++ tail))
    (hTail : ∀ c, tail.head? = some c → continuesName c = false) :
    Parameter.ofSegment? receivers ⟨0, raw, uncommented raw⟩ =
      some (n.toParameter receivers ((trimStart (trimEnd tail)).head? = some ':')
        (Parameter.marksDefault none (scan (trimEnd tail)))) := by
  have hNone : Blank [] := fun c hc => by cases hc
  have hCode : Segment.code ⟨0, raw, uncommented raw⟩ = n.text ++ trimEnd tail := by
    have hTrim := trim_append_of_blank hFront hNone (n.text ++ tail)
    have hNamed := trim_named .none n tail
    simp only [Stars.text, List.nil_append] at hNamed
    rw [List.append_nil] at hTrim
    rw [Segment.code, hKept, hTrim, hNamed]
  have hEnd : ∀ c, (trimEnd tail).head? = some c → continuesName c = false :=
    fun c hc => hTail c (head_of_head_trimEnd hc)
  obtain ⟨hRole, hName, hBehind⟩ := split_named .none n hEnd
  simp only [Stars.text, List.nil_append] at hRole hName hBehind
  rw [Parameter.ofSegment?_eq, hCode, hRole, hName, hBehind, if_neg (by simp [Name.text])]
  rfl

/-- An `=` right behind the name marks a default, when no other `=` follows. -/
theorem ofSegment?_assigned (receivers : List Text) (n : Name) {raw front code : Text}
    (hFront : Blank front) (hKept : uncommented raw = front ++ (n.text ++ '=' :: code))
    (hCode : code.head? ≠ some '=') :
    Parameter.ofSegment? receivers ⟨0, raw, uncommented raw⟩ =
      some (n.toParameter receivers false true) := by
  have hTail : ∀ c, ('=' :: code).head? = some c → continuesName c = false := by
    intro c hc
    obtain rfl : '=' = c := by simpa using hc
    decide
  have hEquals : isBlank '=' = false := rfl
  have hTrim : trimEnd ('=' :: code) = '=' :: trimEnd code := trimEnd_append hEquals [] code
  have hMarks : Parameter.marksDefault none (scan ('=' :: trimEnd code)) = true := by
    rw [scan_plain_cons rfl, Parameter.marksDefault_iff]
    refine ⟨[], _, _, rfl, rfl, rfl, ?_⟩
    -- the scan goes on with the characters of the default
    have hChars : ((scan (trimEnd code)).map (Scanned.shift (byteLength ['=']))).map
        Scanned.char = trimEnd code := by
      rw [List.map_map]
      exact map_char_scanFrom .start 0 _
    rw [← List.head?_map, hChars]
    exact fun hHead => hCode (head_of_head_trimEnd hHead)
  rw [ofSegment?_named receivers n hFront hKept hTail, hTrim, trimStart_of_head hEquals, hMarks]
  rfl

/-! ## The mark of a default in a body -/

/-- Behind the colon of a `lambda`, a default is marked by an `=` of the body only. -/
theorem marksDefault_behind_colon (text : Text) :
    Parameter.marksDefault none (scan (trimEnd (':' :: ' ' :: text))) =
      Parameter.marksDefault none (scan text) := by
  rw [marksDefault_trimEnd, marksDefault_plain rfl (by decide) (by decide),
    marksDefault_plain rfl (by decide) (by decide)]

/-- A colon right behind the name marks an annotation. -/
theorem ofSegment?_hinted (receivers : List Text) (n : Name) {raw front code : Text}
    (hFront : Blank front) (hKept : uncommented raw = front ++ (n.text ++ ':' :: ' ' :: code)) :
    Parameter.ofSegment? receivers ⟨0, raw, uncommented raw⟩ =
      some (n.toParameter receivers true (Parameter.marksDefault none (scan code))) := by
  have hTail : ∀ c, (':' :: ' ' :: code).head? = some c → continuesName c = false := by
    intro c hc
    obtain rfl : ':' = c := by simpa using hc
    decide
  have hColon : isBlank ':' = false := rfl
  have hTrim : trimEnd (':' :: ' ' :: code) = ':' :: trimEnd (' ' :: code) :=
    trimEnd_append hColon [] (' ' :: code)
  rw [ofSegment?_named receivers n hFront hKept hTail, marksDefault_behind_colon, hTrim,
    trimStart_of_head hColon]
  rfl

/-! ## The pieces of a lambda -/

namespace LambdaParameter

def valueCode : Option LambdaDefault → Text
  | none => []
  | some v => '=' :: uncommented v.text

theorem part_value (value : Option LambdaDefault) : Part (valueText value) (valueCode value) := by
  cases value with
  | none => exact Part.nil
  | some v =>
    have hPlain : ∀ c ∈ ['='], isPlain c = true := List.all_eq_true.1 rfl
    have hMark : Part ['='] ['='] := Part.plain hPlain (by decide)
    exact hMark.append v.toFragment.part (apart_of_plain hPlain _)

theorem part (p : LambdaParameter) : Part p.text (p.name.text ++ valueCode p.value) :=
  p.name.part.append (part_value p.value) (apart_of_plain p.name.plain _)

end LambdaParameter

theorem part_body (body : Fragment) :
    Part (':' :: ' ' :: body.text) (':' :: ' ' :: uncommented body.text) := by
  have hMark : Part [':', ' '] [':', ' '] := Part.plain plain_hintMark (by decide)
  exact hMark.append body.part (apart_of_plain plain_hintMark _)

/-- A parameter of a `lambda` with blanks in front. -/
theorem part_spaced {lead : Text} (hLead : Blank lead) (p : LambdaParameter) :
    Part (lead ++ p.text) (lead ++ (p.name.text ++ LambdaParameter.valueCode p.value)) := by
  have hPlain : ∀ c ∈ lead, isPlain c = true := fun c hc => isPlain_of_isBlank (hLead c hc)
  have hComma : ',' ∉ lead := fun hMem => ne_comma_of_isBlank (hLead _ hMem) rfl
  exact (Part.plain hPlain hComma).append p.part (apart_of_plain hPlain _)

/-- The last parameter of a `lambda` with the body behind it. -/
theorem part_last {lead : Text} (hLead : Blank lead) (p : LambdaParameter) (body : Fragment) :
    Part (lead ++ (p.text ++ ':' :: ' ' :: body.text))
      (lead ++ (p.name.text ++ (LambdaParameter.valueCode p.value ++
        ':' :: ' ' :: uncommented body.text))) := by
  have h := (part_spaced hLead p).append (part_body body) (Apart.cons_right _ _ rfl)
  simpa only [List.append_assoc] using h

theorem ofSegment?_spaced_parameter (receivers : List Text) {lead : Text} (hLead : Blank lead)
    (p : LambdaParameter) :
    Parameter.ofSegment? receivers ⟨0, lead ++ p.text, uncommented (lead ++ p.text)⟩ =
      some (p.name.toParameter receivers false p.value.isSome) := by
  have hKept := (part_spaced hLead p).code_eq
  cases hValue : p.value with
  | none =>
    rw [hValue] at hKept
    exact ofSegment?_named receivers p.name hLead hKept fun c hc => by cases hc
  | some v =>
    rw [hValue] at hKept
    exact ofSegment?_assigned receivers p.name hLead hKept v.noEquals

theorem ofSegment?_last_parameter (receivers : List Text) {lead : Text} (hLead : Blank lead)
    (p : LambdaParameter) (body : Fragment) :
    Parameter.ofSegment? receivers ⟨0, lead ++ (p.text ++ ':' :: ' ' :: body.text),
        uncommented (lead ++ (p.text ++ ':' :: ' ' :: body.text))⟩ =
      some (p.name.toParameter receivers p.value.isNone
        (p.value.isSome || Parameter.marksDefault none (scan (uncommented body.text)))) := by
  have hKept := (part_last hLead p body).code_eq
  cases hValue : p.value with
  | none =>
    rw [hValue] at hKept
    exact ofSegment?_hinted receivers p.name hLead hKept
  | some v =>
    rw [hValue] at hKept
    refine ofSegment?_assigned receivers p.name hLead hKept fun hHead => v.noEquals ?_
    -- with no code of its own, the default would be followed by the colon
    cases hCode : uncommented v.text with
    | nil =>
      rw [hCode] at hHead
      simp at hHead
    | cons c code =>
      rw [hCode] at hHead
      exact hHead

/-! ## Lists put together -/

theorem exists_cut_of_parameters {receivers : List Text} {text : Text} {list : List Parameter}
    (h : parameters receivers text = .ok list) :
    ∃ raws, Cut text raws ∧
      (raws.filterMap fun raw => Parameter.ofSegment? receivers ⟨0, raw, uncommented raw⟩) =
        list := by
  obtain ⟨segs, hSegments⟩ : ∃ segs, segments text = .ok segs := by
    cases hSegments : segments text with
    | ok segs => exact ⟨segs, rfl⟩
    | error fault =>
      rw [parameters, hSegments] at h
      cases h
  obtain ⟨raws, hCut, -⟩ := segments_eq_ok_iff.1 hSegments
  refine ⟨raws, hCut, ?_⟩
  rw [hCut.parameters_eq] at h
  exact Except.ok.inj h

/-- Two lists with a comma between them declare what the one and the other declare. -/
theorem parameters_comma {receivers : List Text} {a b : Text} {as bs : List Parameter}
    (ha : parameters receivers a = .ok as) (hEnded : ¬ EndsInComment a)
    (hb : parameters receivers b = .ok bs) :
    parameters receivers (a ++ ',' :: b) = .ok (as ++ bs) := by
  obtain ⟨rawsA, hCutA, rfl⟩ := exists_cut_of_parameters ha
  obtain ⟨rawsB, hCutB, rfl⟩ := exists_cut_of_parameters hb
  rw [(hCutA.join hEnded hCutB).parameters_eq, List.filterMap_append]

theorem Closed.comma {a b : Text} (ha : Closed a) (hb : Closed b) : Closed (a ++ ',' :: b) := by
  have hComma : Closed (a ++ [',']) := ha.concat_plain rfl
  have hAll := hComma.append (Apart.concat_left a b rfl) hb
  rwa [List.append_assoc, List.singleton_append] at hAll

theorem parameters_part {text code : Text} (h : Part text code) (receivers : List Text) :
    parameters receivers text =
      .ok (Parameter.ofSegment? receivers ⟨0, text, uncommented text⟩).toList := by
  have hCut : Cut text [text] := .last h.closed.fault?_eq_none h.clear
  rw [hCut.parameters_eq, List.filterMap_cons]
  cases Parameter.ofSegment? receivers ⟨0, text, uncommented text⟩ <;> rfl

theorem blank_space : Blank [' '] :=
  fun _ hc => List.mem_singleton.1 hc ▸ rfl

theorem plain_space : ∀ c ∈ [' '], isPlain c = true :=
  List.all_eq_true.1 rfl

theorem part_space : Part [' '] [' '] :=
  Part.plain plain_space (by decide)

/-- A space in front of a segment changes nothing. -/
theorem ofSegment?_space (receivers : List Text) (raw : Text) :
    Parameter.ofSegment? receivers ⟨0, ' ' :: raw, uncommented (' ' :: raw)⟩ =
      Parameter.ofSegment? receivers ⟨0, raw, uncommented raw⟩ := by
  have hNone : Blank [] := fun c hc => by cases hc
  have hSeam : Apart [' '] raw := apart_of_plain plain_space raw
  have hKept : uncommented (' ' :: raw) = [' '] ++ (uncommented raw ++ []) := by
    have hAppend := part_space.closed.uncommented_append hSeam
    rwa [part_space.code_eq, List.singleton_append, ← List.append_nil (uncommented raw)] at hAppend
  have hCode : Segment.code ⟨0, ' ' :: raw, uncommented (' ' :: raw)⟩ =
      Segment.code ⟨0, raw, uncommented raw⟩ := by
    rw [Segment.code, hKept, trim_append_of_blank blank_space hNone]
    rfl
  rw [Parameter.ofSegment?_eq, hCode]
  rfl

/-- A space in front of a list changes nothing. -/
theorem parameters_space {receivers : List Text} {text : Text} {list : List Parameter}
    (h : parameters receivers text = .ok list) :
    parameters receivers (' ' :: text) = .ok list := by
  obtain ⟨raws, hCut, rfl⟩ := exists_cut_of_parameters h
  cases hCut with
  | last hFault hClear =>
    have hSeam : Apart [' '] text := apart_of_plain plain_space text
    have hCut : Cut (' ' :: text) [' ' :: text] := by
      refine .last ?_ ((part_space.closed.clear_append hSeam).2 ⟨part_space.clear, hClear⟩)
      have hAll := part_space.closed.fault?_append hSeam
      rwa [hFault] at hAll
    rw [hCut.parameters_eq, List.filterMap_cons, List.filterMap_cons, ofSegment?_space]
  | @cons first rest raws hClosed hClear hRest =>
    have hSeam : Apart [' '] first := apart_of_plain plain_space first
    have hCut : Cut ((' ' :: first) ++ ',' :: rest) ((' ' :: first) :: raws) :=
      .cons (part_space.closed.append hSeam hClosed)
        ((part_space.closed.clear_append hSeam).2 ⟨part_space.clear, hClear⟩) hRest
    rw [← List.cons_append, hCut.parameters_eq, List.filterMap_cons, List.filterMap_cons,
      ofSegment?_space]

/-! ## The list of a lambda -/

/-- The parameters of a `lambda` behind its first comma. -/
theorem parameters_lambdaTail (receivers : List Text) (body : Fragment) (p : LambdaParameter)
    (more : List LambdaParameter) {lead : Text} (hLead : Blank lead) :
    parameters receivers (lead ++ lambdaTail body (p :: more)) =
        .ok (strayParameters receivers body (p :: more)) ∧
      Closed (lead ++ lambdaTail body (p :: more)) := by
  induction more generalizing p lead with
  | nil =>
    have hPart := part_last hLead p body
    have hRead := parameters_part hPart receivers
    rw [ofSegment?_last_parameter receivers hLead] at hRead
    exact ⟨hRead, hPart.closed⟩
  | cons q more ih =>
    have hPart := part_spaced hLead p
    have hFirst := parameters_part hPart receivers
    rw [ofSegment?_spaced_parameter receivers hLead] at hFirst
    obtain ⟨hRest, hClosed⟩ := ih q blank_space
    have hText : lead ++ lambdaTail body (p :: q :: more) =
        (lead ++ p.text) ++ ',' :: ([' '] ++ lambdaTail body (q :: more)) := by
      simp [lambdaTail]
    rw [hText]
    exact ⟨parameters_comma hFirst (closed_iff.1 hPart.closed).2 hRest,
      hPart.closed.comma hClosed⟩

/-- A part behind `k=lambda` belongs to the default of `k`. -/
theorem part_keyed (k : Name) {x code : Text} (hx : Part x code) :
    Part (' ' :: (k.text ++ '=' :: ("lambda".toList ++ x)))
      ([' '] ++ (k.text ++ '=' :: ("lambda".toList ++ code))) := by
  have hWord : ∀ c ∈ '=' :: "lambda".toList, isPlain c = true := List.all_eq_true.1 rfl
  have hLambda : Part ('=' :: "lambda".toList) ('=' :: "lambda".toList) :=
    Part.plain hWord (by decide)
  have hNamed := k.part.append (hLambda.append hx (apart_of_plain hWord _))
    (apart_of_plain k.plain _)
  exact part_space.append hNamed (apart_of_plain plain_space _)

theorem parameters_keyed (receivers : List Text) (k : Name) {x code : Text} (hx : Part x code) :
    parameters receivers (' ' :: (k.text ++ '=' :: ("lambda".toList ++ x))) =
        .ok [k.toParameter receivers false true] ∧
      Closed (' ' :: (k.text ++ '=' :: ("lambda".toList ++ x))) := by
  have hPart := part_keyed k hx
  have hRead := parameters_part hPart receivers
  rw [ofSegment?_assigned receivers k blank_space hPart.code_eq (by simp)] at hRead
  exact ⟨hRead, hPart.closed⟩

/-- **A parameter with a lambda as its default** declares itself and one parameter for each of the
parameters of the lambda behind the first. -/
theorem parameters_lambdaText (receivers : List Text) (k : Name) (body : Fragment)
    (ps : List LambdaParameter) :
    parameters receivers (' ' :: (k.text ++ '=' :: lambdaText body ps)) =
        .ok (k.toParameter receivers false true :: strayParameters receivers body ps.tail) ∧
      Closed (' ' :: (k.text ++ '=' :: lambdaText body ps)) := by
  match ps with
  | [] => exact parameters_keyed receivers k (part_body body)
  | [p] => exact parameters_keyed receivers k (part_last blank_space p body)
  | p :: q :: more =>
    -- the first comma ends the default
    have hFirst := parameters_keyed receivers k (part_spaced blank_space p)
    have hRest := parameters_lambdaTail receivers body q more blank_space
    have hWord : ∀ word : Text, ' ' :: (k.text ++ '=' :: (word ++ [' '] ++
        lambdaTail body (p :: q :: more))) =
        (' ' :: (k.text ++ '=' :: (word ++ ([' '] ++ p.text)))) ++
          ',' :: ([' '] ++ lambdaTail body (q :: more)) := fun word => by simp [lambdaTail]
    have hSpace : "lambda ".toList = "lambda".toList ++ [' '] := by decide +kernel
    have hText : ' ' :: (k.text ++ '=' :: lambdaText body (p :: q :: more)) =
        (' ' :: (k.text ++ '=' :: ("lambda".toList ++ ([' '] ++ p.text)))) ++
          ',' :: ([' '] ++ lambdaTail body (q :: more)) := by
      have hLambda : lambdaText body (p :: q :: more) =
          "lambda ".toList ++ lambdaTail body (p :: q :: more) := rfl
      rw [hLambda, hSpace]
      exact hWord _
    rw [hText]
    exact ⟨parameters_comma hFirst.1 (closed_iff.1 hFirst.2).2 hRest.1,
      hFirst.2.comma hRest.2⟩

/-- Every parameter of a `lambda` behind the first is among those that the list gains. -/
theorem exists_strayParameter (receivers : List Text) (body : Fragment)
    {ps : List LambdaParameter} {p : LambdaParameter} (hp : p ∈ ps) :
    ∃ q ∈ strayParameters receivers body ps, q.name = p.name.text ∧
      q.role = if receivers.contains p.name.text then .receiver else .ordinary := by
  induction ps with
  | nil => cases hp
  | cons first more ih =>
    cases more with
    | nil =>
      obtain rfl : p = first := List.mem_singleton.1 hp
      exact ⟨_, List.mem_singleton.2 rfl, rfl, rfl⟩
    | cons second more =>
      rcases List.mem_cons.1 hp with rfl | hMem
      · exact ⟨_, List.mem_cons_self .., rfl, rfl⟩
      · obtain ⟨q, hq, hBoth⟩ := ih hMem
        exact ⟨q, List.mem_cons_of_mem _ hq, hBoth⟩

/-- **The commas of a lambda cut the list.** With `k=lambda p1, ..., pn: body` between two lists,
the whole declares what the list in front declares, then `k` with a default, then one parameter for
each of `p2` to `pn`, and then what the list behind declares. So there is a statement for each of
`p2` to `pn` that is no receiver, and up to one parameter of the lambda nothing is gained. -/
theorem parameters_withLambda (settings : Settings) {before after : Text} (k : Name)
    (ps : List LambdaParameter) (body : Fragment) {listBefore listAfter : List Parameter}
    (hBefore : parameters settings.receiverNames before = .ok listBefore)
    (hEnded : ¬ EndsInComment before)
    (hAfter : parameters settings.receiverNames after = .ok listAfter) :
    parameters settings.receiverNames (withLambda before k ps body after) =
      .ok (listBefore ++ k.toParameter settings.receiverNames false true ::
        (strayParameters settings.receiverNames body ps.tail ++ listAfter)) ∧
    (ps.length ≤ 1 → strayParameters settings.receiverNames body ps.tail = []) ∧
    ∃ made, assignments settings (withLambda before k ps body after) = .ok made ∧
      ∀ p ∈ ps.tail, p.name.text ∉ settings.receiverNames →
        p.name.text ∈ made.map Assignment.target := by
  obtain ⟨hKeyed, hClosed⟩ := parameters_lambdaText settings.receiverNames k body ps
  have hBehind := parameters_comma hKeyed (closed_iff.1 hClosed).2 (parameters_space hAfter)
  have hAll := parameters_comma hBefore hEnded hBehind
  have hText : before ++ ',' :: (' ' :: (k.text ++ '=' :: lambdaText body ps) ++
      ',' :: ' ' :: after) = withLambda before k ps body after := by
    simp [withLambda]
  rw [hText] at hAll
  refine ⟨hAll, fun hLength => ?_, ?_⟩
  · have hTail : ps.tail = [] := List.eq_nil_of_length_eq_zero (by simp; omega)
    rw [hTail]
    rfl
  · let list := listBefore ++ k.toParameter settings.receiverNames false true ::
      (strayParameters settings.receiverNames body ps.tail ++ listAfter)
    have hMade : assignments settings (withLambda before k ps body after) =
        .ok (assign (receiverOf settings list) list) := by
      rw [assignments, hAll]
      rfl
    refine ⟨_, hMade, fun p hp hReceiver => ?_⟩
    obtain ⟨q, hq, hName, hRole⟩ := exists_strayParameter settings.receiverNames body hp
    have hOrdinary : q.isOrdinary = true := by
      rw [Parameter.isOrdinary, hRole, if_neg (by simpa using hReceiver)]
      rfl
    unfold assign
    rw [List.map_map, List.mem_map]
    refine ⟨q, List.mem_filter.2 ⟨?_, hOrdinary⟩, hName⟩
    simp [list, hq]

/-- A lambda with two parameters, the second with a default, and a body with brackets. -/
theorem parameters_withLambda_pair :
    let settings := Settings.default
    parameters settings.receiverNames "self".toList = .ok [⟨"self".toList, .receiver, false, false⟩] ∧
    ¬ EndsInComment "self".toList ∧
    parameters settings.receiverNames "z".toList = .ok [⟨['z'], .ordinary, false, false⟩] ∧
    parameters settings.receiverNames "self, k=lambda a, b=1: (a, b), z".toList =
      .ok [⟨"self".toList, .receiver, false, false⟩, ⟨['k'], .ordinary, false, true⟩,
        ⟨['b'], .ordinary, false, true⟩, ⟨['z'], .ordinary, false, false⟩] := by
  intro settings
  have hBefore : parameters settings.receiverNames "self".toList =
      .ok [⟨"self".toList, .receiver, false, false⟩] := by rfl
  have hEnded : ¬ EndsInComment "self".toList := by decide
  have hAfter : parameters settings.receiverNames "z".toList =
      .ok [⟨['z'], .ordinary, false, false⟩] := by rfl
  let name (c : Char) (h : startsName c = true) : Name := ⟨c, [], h, List.all_eq_true.1 rfl⟩
  let one : LambdaDefault := ⟨⟨['1'], ⟨_, rfl⟩, by decide⟩, by decide⟩
  let body : Fragment := ⟨"(a, b)".toList, ⟨_, rfl⟩, by decide⟩
  have hList := (parameters_withLambda settings (name 'k' rfl)
    [⟨name 'a' rfl, none⟩, ⟨name 'b' rfl, some one⟩] body hBefore hEnded hAfter).1
  exact ⟨hBefore, hEnded, hAfter, hList⟩

/-- A list with a lambda of two parameters declares the second of them, too. And a body that ends
in a comment takes what follows with it. -/
theorem parameters_lambda_not_kept :
    parameters ["self".toList, "cls".toList] "self, k=lambda a, b: a, z".toList ≠
      .ok [⟨"self".toList, .receiver, false, false⟩, ⟨['k'], .ordinary, false, true⟩,
        ⟨['z'], .ordinary, false, false⟩] ∧
    parameters ["self".toList, "cls".toList] "self, k=lambda a, b: a, z".toList =
      .ok [⟨"self".toList, .receiver, false, false⟩, ⟨['k'], .ordinary, false, true⟩,
        ⟨['b'], .ordinary, true, false⟩, ⟨['z'], .ordinary, false, false⟩] ∧
    segments "a#c".toList = .ok [⟨0, "a#c".toList, ['a']⟩] ∧
    parameters ["self".toList, "cls".toList] "self, k=lambda a: a#c, z".toList =
      .ok [⟨"self".toList, .receiver, false, false⟩, ⟨['k'], .ordinary, false, true⟩] := by
  have hGained : parameters ["self".toList, "cls".toList] "self, k=lambda a, b: a, z".toList =
      .ok [⟨"self".toList, .receiver, false, false⟩, ⟨['k'], .ordinary, false, true⟩,
        ⟨['b'], .ordinary, true, false⟩, ⟨['z'], .ordinary, false, false⟩] := by rfl
  refine ⟨?_, hGained, rfl, rfl⟩
  rw [hGained]
  decide

end FieldFill
