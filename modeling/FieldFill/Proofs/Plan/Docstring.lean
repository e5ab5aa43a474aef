import FieldFill.Plan.AtLine
import FieldFill.Proofs.Lexical.Anywhere
import FieldFill.Proofs.Lexical.Closed
import FieldFill.Proofs.Text.Lines
import FieldFill.Proofs.Text.Slice

/-!
# Docstrings, found by their text

A body begins with a docstring when its first text is a string that ends in the body, with nothing
but a comment behind it on its line. The search goes in three steps: to the string, over it, and to
the end of its line. Each step is a function of its own here, so that it can be followed through a
change of the text.

Main definitions:

* `openingString?` — the text from the string on that a body begins with.
* `behindString` — what follows the string that a text begins with.
* `endsStatement` — whether nothing but a comment stands on the rest of a line.

Main results:

* `docstring?_eq` — the search in three steps.
* `exists_of_openingString?` — what stands in front of a string that is found.
* `exists_of_docstring?` — a docstring is a part at the start of the body, of whole lines.
* `docstring?_insert` — plain text that is put in further down makes no difference.
-/

namespace FieldFill

/-! ## The steps of the search -/

/-- The text from the first quote on, when nothing but the kind of a string is in front of it. -/
def openingString? (body : Text) : Option Text :=
  let literal := body.dropWhile isBlank
  let kind := literal.takeWhile fun c => !isQuote c
  let string := literal.dropWhile fun c => !isQuote c
  if string.isEmpty || 2 < byteLength kind || !kind.all isDocstringKind then none else some string

/-- What follows the string that a text begins with. -/
def behindString (string : Text) : Text :=
  ((scan string).dropWhile fun m => m.region = .literal).map Scanned.char

/-- Whether the rest of a line holds nothing but a comment. -/
def endsStatement (rest : Text) : Bool :=
  allBlank rest || (trim rest).head? = some '#'

theorem docstring?_eq (body : Text) :
    docstring? body = (openingString? body).bind fun string =>
      if (behindString string).isEmpty || !endsStatement (breakLine (behindString string)).1 then none
      else some (body.take (body.length - (breakLine (behindString string)).2.length)) := by
  unfold docstring? openingString?
  dsimp only
  split
  · rfl
  · rw [Option.bind_some]
    show (if (behindString _).isEmpty = true then none else _) = _
    by_cases hEmpty : (behindString ((body.dropWhile isBlank).dropWhile fun c => !isQuote c)).isEmpty
    · simp only [hEmpty, Bool.true_or, if_true]
    · simp only [hEmpty, Bool.false_or]
      cases hEnds : endsStatement
          (breakLine (behindString ((body.dropWhile isBlank).dropWhile fun c => !isQuote c))).1 with
      | true => exact if_pos hEnds
      | false => exact if_neg (ne_true_of_eq_false hEnds)

/-! ## Where the steps lead -/

/-- The string that is found at the start of a body has nothing but its kind between the blanks and
its quote. -/
theorem exists_of_openingString? {body string : Text} (h : openingString? body = some string) :
    ∃ kind, body.dropWhile isBlank = kind ++ string ∧ kind.all isDocstringKind = true ∧
      kind.length ≤ 2 ∧ string.head?.any isQuote = true := by
  unfold openingString? at h
  dsimp only at h
  split at h
  · cases h
  · rename_i hGuard
    obtain rfl := Option.some.inj h
    simp only [Bool.or_eq_true, not_or, Bool.not_eq_true, List.isEmpty_eq_false_iff,
      decide_eq_true_eq, Bool.not_eq_false'] at hGuard
    obtain ⟨⟨hne, hBytes⟩, hKind⟩ := hGuard
    refine ⟨(body.dropWhile isBlank).takeWhile fun c => !isQuote c,
      List.takeWhile_append_dropWhile.symm, hKind, ?_, ?_⟩
    · have hle := length_le_byteLength ((body.dropWhile isBlank).takeWhile fun c => !isQuote c)
      omega
    · have hHead := List.head_dropWhile_not (fun c => !isQuote c) hne
      rw [List.head?_eq_some_head hne]
      simpa using hHead

theorem exists_front_of_openingString? {body string : Text} (h : openingString? body = some string) :
    ∃ front, body = front ++ string ∧ string ≠ [] := by
  obtain ⟨kind, hLiteral, -, -, hQuote⟩ := exists_of_openingString? h
  refine ⟨body.takeWhile isBlank ++ kind, ?_, ?_⟩
  · rw [List.append_assoc, ← hLiteral, List.takeWhile_append_dropWhile]
  · rintro rfl
    cases hQuote

/-- The characters of the string that a text begins with. -/
def stringOf (string : Text) : Text :=
  ((scan string).takeWhile fun m => m.region = .literal).map Scanned.char

theorem stringOf_append_behindString (string : Text) :
    stringOf string ++ behindString string = string := by
  rw [stringOf, behindString, ← List.map_append, List.takeWhile_append_dropWhile]
  exact map_char_scanFrom .start 0 string

/-- What is taken of a body is its text up to the end of the line on which the string ends. -/
theorem take_docstring (front string : Text) :
    (front ++ string).take
        ((front ++ string).length - (breakLine (behindString string)).2.length) =
      front ++ (stringOf string ++ (breakLine (behindString string)).1) := by
  have hSplit : front ++ string = (front ++ (stringOf string ++
      (breakLine (behindString string)).1)) ++ (breakLine (behindString string)).2 := by
    rw [List.append_assoc, List.append_assoc, breakLine_append, stringOf_append_behindString]
  rw [hSplit, List.length_append, Nat.add_sub_cancel, List.take_left]

/-- **A docstring is a part at the start of the body**, and a line begins behind it, if anything. -/
theorem exists_of_docstring? {body d : Text} (h : docstring? body = some d) :
    ∃ rest, body = d ++ rest ∧ (endsInNewline d = true ∨ rest = []) := by
  rw [docstring?_eq] at h
  obtain ⟨string, hString, h⟩ := Option.bind_eq_some_iff.1 h
  split at h
  · cases h
  · rename_i hBehind
    obtain ⟨front, rfl, -⟩ := exists_front_of_openingString? hString
    rw [take_docstring] at h
    obtain rfl := Option.some.inj h
    refine ⟨(breakLine (behindString string)).2, ?_, ?_⟩
    · rw [List.append_assoc, List.append_assoc, breakLine_append, stringOf_append_behindString]
    · -- the last line of the docstring is the line behind the string
      refine (breakLine_ends (behindString string)).imp (fun hEnds => ?_) id
      exact endsInNewline_append (endsInNewline_append hEnds _) _

/-! ## What is behind the docstring

The search looks arbitrarily far ahead, through a string that is not closed soon. Text that is put in
further down makes no difference to it all the same, when the text is read as part of such a string
wherever that goes on. -/

/-- The search for the string is over at a line that holds some text. -/
theorem openingString?_append {v : Text} (hBlank : allBlank v = false)
    (hEnds : endsInNewline v = true) (x : Text) :
    openingString? (v ++ x) = (openingString? v).map fun string => string ++ x := by
  have hne : v.dropWhile isBlank ≠ [] := by
    intro hNil
    have hAll : allBlank v = true := List.all_eq_true.2 (List.dropWhile_eq_nil_iff.1 hNil)
    rw [hBlank] at hAll
    cases hAll
  have hDrop : (v ++ x).dropWhile isBlank = v.dropWhile isBlank ++ x := by
    rw [List.dropWhile_append, if_neg]
    exact fun hNil => hne (List.isEmpty_iff.1 hNil)
  have hNewline : '\n' ∈ v.dropWhile isBlank := by
    have hSplit := List.takeWhile_append_dropWhile (p := isBlank) (l := v)
    rw [← hSplit] at hEnds
    obtain ⟨y, hy⟩ := endsInNewline_iff.1 (endsInNewline_of_append hEnds hne)
    rw [hy]
    simp
  unfold openingString?
  dsimp only
  rw [hDrop]
  generalize v.dropWhile isBlank = literal at hNewline
  by_cases hQuote : ∀ c ∈ literal, (!isQuote c) = true
  · -- without a quote in it, the line ends in the middle of the kind
    rw [List.takeWhile_append_of_pos hQuote, List.dropWhile_append_of_pos hQuote,
      List.dropWhile_eq_nil_iff.2 hQuote]
    have hKind : (literal ++ x.takeWhile fun c => !isQuote c).all isDocstringKind = false := by
      rw [List.all_eq_false]
      exact ⟨'\n', List.mem_append_left _ hNewline, by decide⟩
    rw [hKind, Bool.not_false, Bool.or_true, if_pos rfl]
    rfl
  · have hne : literal.dropWhile (fun c => !isQuote c) ≠ [] := fun hNil =>
      hQuote (List.dropWhile_eq_nil_iff.1 hNil)
    have hShort : (literal.takeWhile fun c => !isQuote c).length ≠ literal.length := by
      intro hLength
      have hTake := (List.takeWhile_prefix (l := literal) fun c => !isQuote c).eq_of_length hLength
      exact hQuote (List.takeWhile_eq_self_iff.1 hTake)
    have hEmpty := List.isEmpty_eq_false_iff.2 hne
    have hEmpty' := List.isEmpty_eq_false_iff.2 (List.append_ne_nil_of_left_ne_nil hne x)
    rw [List.takeWhile_append, if_neg hShort, List.dropWhile_append,
      if_neg (ne_true_of_eq_false hEmpty), hEmpty, hEmpty']
    split <;> rfl

/-- The search at a string that a body begins with, somewhere. -/
theorem docstring?_of_opening {front string : Text}
    (h : openingString? (front ++ string) = some string) :
    docstring? (front ++ string) =
      if (behindString string).isEmpty || !endsStatement (breakLine (behindString string)).1 then none
      else some (front ++ (stringOf string ++ (breakLine (behindString string)).1)) := by
  rw [docstring?_eq, h, Option.bind_some, take_docstring]

/-- What follows a string that ends in a text does not matter for where it ends. -/
theorem behindString_append {string : Text} (hEnds : endsInNewline string = true)
    (h : behindString string ≠ []) (x : Text) :
    behindString (string ++ x) = behindString string ++ x ∧
      stringOf (string ++ x) = stringOf string := by
  obtain ⟨y, rfl⟩ := endsInNewline_iff.1 hEnds
  have hSeam : Apart (y ++ ['\n']) x := Apart.concat_left y x rfl
  have hMarks : ¬ (List.dropWhile (fun m : Scanned => m.region = .literal)
      (scan (y ++ ['\n']))).isEmpty = true := by
    intro hNil
    rw [behindString, List.isEmpty_iff.1 hNil] at h
    exact h rfl
  have hBehind : behindString (y ++ ['\n'] ++ x) = behindString (y ++ ['\n']) ++ x := by
    rw [behindString, behindString, scan_append hSeam, List.dropWhile_append, if_neg hMarks,
      List.map_append, map_char_scanFrom]
  refine ⟨hBehind, ?_⟩
  -- the string is what stands in front
  have hWhole := stringOf_append_behindString (y ++ ['\n'] ++ x)
  rw [hBehind, ← List.append_assoc, List.append_left_inj] at hWhole
  exact List.append_cancel_right (hWhole.trans (stringOf_append_behindString _).symm)

/-- In a string that a line leaves open, plain text does not matter for where it ends. -/
theorem behindString_insert {string : Text} (hEnds : endsInNewline string = true)
    (h : behindString string = []) {b : Text} (hb : ∀ c ∈ b, isPlain c = true ∧ c ≠ '\\') (x : Text) :
    behindString (string ++ (b ++ x)) = behindString (string ++ x) ∧
      ∃ z, x = z ++ behindString (string ++ x) := by
  obtain ⟨y, rfl⟩ := endsInNewline_iff.1 hEnds
  have hLiteral : ∀ m ∈ scan (y ++ ['\n']), m.region = .literal := by
    have hNil := List.map_eq_nil_iff.1 h
    simpa using List.dropWhile_eq_nil_iff.1 hNil
  have hIn := inString_of_newline hLiteral
  have hDrop : ∀ t, behindString (y ++ ['\n'] ++ t) =
      ((scanFrom (endState (y ++ ['\n'])) (byteLength (y ++ ['\n'])) t).dropWhile
        fun m => m.region = .literal).map Scanned.char := by
    intro t
    rw [behindString, scan_append (Apart.concat_left y t rfl),
      List.dropWhile_append_of_pos (by simpa using hLiteral)]
  obtain ⟨hMarks, hEnd⟩ := hIn.scanFrom_plain hb (byteLength (y ++ ['\n']))
  have hSeam : Apart b x := apart_of_plain (fun c hc => (hb c hc).1) x
  have hChars : ∀ marks : List Scanned,
      (marks.dropWhile fun m => m.region = .literal).map Scanned.char =
        ((marks.map Scanned.unplaced).dropWhile fun m => m.region = .literal).map Scanned.char := by
    intro marks
    rw [List.dropWhile_map, List.map_map]
    rfl
  refine ⟨?_, ?_⟩
  · -- behind the new text the string goes on as before, at other places
    have hProper : (endState (y ++ ['\n'])).Proper := State.proper_start.endFrom 0 _
    rw [hDrop, hDrop, scanFrom_append hProper _ hSeam, hEnd,
      List.dropWhile_append_of_pos (by simpa using hMarks), hChars, scanFrom_alike rfl, ← hChars]
  · rw [hDrop]
    refine ⟨((scanFrom (endState (y ++ ['\n'])) (byteLength (y ++ ['\n'])) x).takeWhile
      fun m => m.region = .literal).map Scanned.char, ?_⟩
    rw [← List.map_append, List.takeWhile_append_dropWhile, map_char_scanFrom]

/-- **Plain text that is put in behind a docstring does not change the docstring**, nor whether there
is one: behind a line with some text, only a string that is still open could reach it. -/
theorem docstring?_insert {v b x : Text} (hBlank : allBlank v = false)
    (hEnds : endsInNewline v = true) (hb : ∀ c ∈ b, isPlain c = true ∧ c ≠ '\\')
    (hShort : ∀ d, docstring? (v ++ x) = some d → d.length < v.length) :
    docstring? (v ++ (b ++ x)) = docstring? (v ++ x) := by
  cases hOpening : openingString? v with
  | none =>
    rw [docstring?_eq, docstring?_eq, openingString?_append hBlank hEnds,
      openingString?_append hBlank hEnds, hOpening]
    rfl
  | some string =>
    obtain ⟨front, rfl, hne⟩ := exists_front_of_openingString? hOpening
    have hString : ∀ t, openingString? (front ++ (string ++ t)) = some (string ++ t) := by
      intro t
      rw [← List.append_assoc, openingString?_append hBlank hEnds, hOpening]
      rfl
    have hLine := endsInNewline_of_append hEnds hne
    rw [List.append_assoc] at hShort ⊢
    rw [List.append_assoc, docstring?_of_opening (hString _), docstring?_of_opening (hString _)]
    rw [docstring?_of_opening (hString _)] at hShort
    by_cases hOpen : behindString string = []
    · -- a string that is open there goes beyond any docstring in front
      obtain ⟨hSame, z, hz⟩ := behindString_insert hLine hOpen hb x
      rw [hSame]
      split
      · rfl
      · rename_i hFound
        have hLength := hShort _ (if_neg hFound)
        have hStringLength : string.length ≤ (stringOf (string ++ x)).length := by
          have hWhole := congrArg List.length (stringOf_append_behindString (string ++ x))
          have hx := congrArg List.length hz
          rw [List.length_append, List.length_append] at hWhole
          rw [List.length_append] at hx
          omega
        simp only [List.length_append] at hLength
        omega
    · obtain ⟨hBehind, hStringOf⟩ := behindString_append hLine hOpen x
      obtain ⟨hBehind', hStringOf'⟩ := behindString_append hLine hOpen (b ++ x)
      have hBehindEnds : endsInNewline (behindString string) = true := by
        rw [← stringOf_append_behindString string] at hLine
        exact endsInNewline_of_append hLine hOpen
      have hFound : ∀ t, (behindString string ++ t).isEmpty = false := fun t =>
        List.isEmpty_eq_false_iff.2 (List.append_ne_nil_of_left_ne_nil hOpen t)
      rw [hBehind, hBehind', hStringOf, hStringOf', breakLine_append_of_ends hBehindEnds,
        breakLine_append_of_ends hBehindEnds, hFound, hFound]

end FieldFill
