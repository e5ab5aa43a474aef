import FieldFill.Proofs.Layout.Onset
import FieldFill.Proofs.Layout.Physical
import FieldFill.Proofs.Plan.Docstring
import FieldFill.Proofs.Text.Slice
import FieldFill.Proofs.Text.Trim

/-!
# A string at the start of a statement

A string that a statement begins with is read twice: as a token of its logical line, and as characters
of a text that need not be a program. The line reader knows replacement fields and stops at a newline
in a one-line string, and the scanner knows neither. For a string that is not formatted the two go
side by side all the same, through escapes and through adjacent strings, as long as the line can be
read. So they agree on where the string ends.

Main definitions:

* `Abreast` — the states of both readings in front of the same text.

Main results:

* `Abreast.step`, `Abreast.readLine?` — one character of a string, and the string.
* `tokens_of_string` — the string is the first token of the statement.
* `tokens_of_endsStatement` — what ends a statement holds no token.
-/

namespace FieldFill

/-! ## Two readings of a string -/

/-- The states in which the line reader and the scanner stand in front of the same text, both outside
of the string or both inside. -/
inductive Abreast : Reader → State → Text → Prop
  | outside (skip : Nat) (openers : List Nat) (unbalanced : Option (Char × Nat)) (text : Text) :
      Abreast ⟨[], false, false, skip, []⟩ ⟨.code, skip, openers, unbalanced⟩ text
  | inside (quote : Quote) (hQuote : isQuote quote.char = true) (escaped : Bool) (skip : Nat)
      (openers : List Nat) (unbalanced : Option (Char × Nat)) (text : Text) :
      Abreast ⟨[.literal quote.char quote.triple false], false, escaped, skip, []⟩
        ⟨.literal quote escaped, skip, openers, unbalanced⟩ text
  /-- Behind a backslash, the line reader takes a carriage return and a newline for one character. -/
  | halfway (quote : Quote) (hQuote : isQuote quote.char = true) (openers : List Nat)
      (unbalanced : Option (Char × Nat)) (rest : Text) :
      Abreast ⟨[.literal quote.char quote.triple false], false, true, 0, []⟩
        ⟨.literal quote false, 0, openers, unbalanced⟩ ('\n' :: rest)

theorem State.stepCode_literal {s : State} {offset : Nat} {c : Char} {rest : Text}
    (h : (s.stepCode offset c rest).1 = .literal) : isQuote c = true := by
  unfold State.stepCode at h
  split at h
  · cases h
  split at h
  · assumption
  split at h
  · cases h
  split at h
  · split at h <;> cases h
  · cases h

theorem Reader.stepCode_quote {c : Char} (hc : isQuote c = true) (word rest : Text) :
    (Reader.within word).stepCode c rest = .continues .literal
      ⟨[.literal c (twoMore c rest) (isFormatted word)], false, false,
        if twoMore c rest then 2 else 0, []⟩ := by
  rcases isQuote_iff.1 hc with rfl | rfl
  · rfl
  · rfl

namespace Abreast

variable {r : Reader} {s : State} {c : Char} {rest text : Text}

/-- **One character of a string**: the line reader gives up, or both readings go on side by side. -/
theorem step (h : Abreast r s (c :: rest)) {offset : Nat}
    (hLiteral : (s.step offset c rest).1 = .literal) :
    r.step c rest = .breaks ∨ ∃ next, r.step c rest = .continues .literal next ∧
      Abreast next (s.step offset c rest).2 rest := by
  cases h with
  | outside skip openers unbalanced =>
    cases skip with
    | succ more => exact .inr ⟨_, rfl, .outside more openers unbalanced rest⟩
    | zero =>
      -- a further string begins right behind the first one
      have hQuote := State.stepCode_literal hLiteral
      refine .inr ⟨_, Reader.stepCode_quote hQuote [] rest, ?_⟩
      have hNext : (State.step ⟨.code, 0, openers, unbalanced⟩ offset c rest).2 =
          ⟨.literal ⟨c, twoMore c rest, offset⟩ false, if twoMore c rest then 2 else 0, openers,
            unbalanced⟩ := by
        rcases isQuote_iff.1 hQuote with rfl | rfl <;> rfl
      rw [hNext]
      exact .inside ⟨c, twoMore c rest, offset⟩ hQuote false _ openers unbalanced rest
  | inside quote hQuote escaped skip openers unbalanced =>
    cases skip with
    | succ more => exact .inr ⟨_, rfl, .inside quote hQuote escaped more openers unbalanced rest⟩
    | zero =>
      show Reader.stepLiteral _ quote.char quote.triple false c rest = _ ∨
        ∃ next, Reader.stepLiteral _ quote.char quote.triple false c rest = _ ∧
          Abreast next (State.stepLiteral _ quote escaped c rest) rest
      cases escaped with
      | true =>
        refine .inr ⟨_, rfl, ?_⟩
        by_cases hReturn : c = '\r' ∧ rest.head? = some '\n'
        · obtain ⟨rfl, hHead⟩ := hReturn
          obtain ⟨rest, rfl⟩ : ∃ more, rest = '\n' :: more := by
            cases rest with
            | nil => cases hHead
            | cons d more =>
              obtain rfl : d = '\n' := Option.some.inj hHead
              exact ⟨more, rfl⟩
          exact .halfway quote hQuote openers unbalanced rest
        · have hOver : (c = '\r' && rest.head? = some '\n' : Bool) = false := by
            simpa using hReturn
          rw [hOver]
          exact .inside quote hQuote false 0 openers unbalanced rest
      | false =>
        unfold Reader.stepLiteral State.stepLiteral
        by_cases hEscape : c = '\\'
        · subst hEscape
          exact .inr ⟨_, rfl, .inside quote hQuote true 0 openers unbalanced rest⟩
        · by_cases hCloses : (c = quote.char && (!quote.triple || twoMore quote.char rest) : Bool) = true
          · simp only [hEscape, hCloses, if_true, if_false, Bool.false_eq_true]
            exact .inr ⟨_, rfl, .outside _ openers unbalanced rest⟩
          · by_cases hBreaks : (c = '\n' && !quote.triple : Bool) = true
            · left
              simp only [hEscape, hCloses, hBreaks, if_true, if_false, Bool.false_eq_true]
            · simp only [hEscape, hCloses, hBreaks, if_false, Bool.false_eq_true, Bool.false_and]
              exact .inr ⟨_, rfl, .inside quote hQuote false 0 openers unbalanced rest⟩
  | halfway quote hQuote openers unbalanced =>
    have hNot : '\n' ≠ quote.char := by
      intro hEq
      rw [← hEq] at hQuote
      cases hQuote
    have hNext : State.stepLiteral ⟨.literal quote false, 0, openers, unbalanced⟩ quote false '\n' rest =
        ⟨.literal quote false, 0, openers, unbalanced⟩ := by
      simp [State.stepLiteral, hNot]
    refine .inr ⟨_, rfl, ?_⟩
    show Abreast _ (State.stepLiteral _ quote false '\n' rest) rest
    rw [hNext]
    exact .inside quote hQuote false 0 openers unbalanced rest

/-- At the first character that is not part of a string, nothing is open. -/
theorem eq_start (h : Abreast r s (c :: rest)) {offset : Nat}
    (hCode : (s.step offset c rest).1 ≠ .literal) : r = .start ∧ isQuote c = false := by
  cases h with
  | outside skip openers unbalanced =>
    cases skip with
    | succ more => exact absurd rfl hCode
    | zero =>
      refine ⟨rfl, ?_⟩
      refine Bool.eq_false_iff.2 fun hQuote => ?_
      rcases isQuote_iff.1 hQuote with rfl | rfl
      · exact hCode rfl
      · exact hCode rfl
  | inside quote hQuote escaped skip openers unbalanced =>
    cases skip with
    | succ more => exact absurd rfl hCode
    | zero => exact absurd rfl hCode
  | halfway quote hQuote openers unbalanced => exact absurd rfl hCode

/-- **Both readings of a string end at the same place**, in a line that can be read. -/
theorem readLine? (h : Abreast r s text) {offset : Nat} {marks : List Scanned} {after : Text}
    (hRead : FieldFill.readLine? r offset text = some (marks, after)) (place : Nat) :
    ∃ front back, marks = front ++ back ∧ (∀ m ∈ front, m.region = .literal) ∧
      front.map Scanned.char =
        ((scanFrom s place text).takeWhile fun m => m.region = .literal).map Scanned.char ∧
      FieldFill.readLine? .start (offset + byteLength (front.map Scanned.char))
        (((scanFrom s place text).dropWhile fun m => m.region = .literal).map Scanned.char) =
          some (back, after) ∧
      ∀ d, (((scanFrom s place text).dropWhile fun m => m.region = .literal).map Scanned.char).head? =
        some d → isQuote d = false := by
  induction text generalizing r s offset marks place with
  | nil =>
    cases h with
    | outside skip openers unbalanced =>
      exact ⟨[], marks, rfl, fun m hm => absurd hm List.not_mem_nil, rfl, hRead, nofun⟩
    | inside quote hQuote escaped skip openers unbalanced => cases hRead
  | cons c rest ih =>
    by_cases hLiteral : (s.step place c rest).1 = .literal
    · rcases h.step hLiteral with hBreaks | ⟨next, hStep, hNext⟩
      · rw [FieldFill.readLine?, hBreaks] at hRead
        cases hRead
      · rw [FieldFill.readLine?, hStep] at hRead
        obtain ⟨⟨more, after'⟩, hMore, hEq⟩ := Option.map_eq_some_iff.1 hRead
        obtain ⟨rfl, rfl⟩ := Prod.mk.inj hEq
        obtain ⟨front, back, rfl, hFront, hChars, hBack, hHead⟩ :=
          ih hNext hMore (place + c.utf8Size)
        refine ⟨_ :: front, back, rfl, List.forall_mem_cons.2 ⟨rfl, hFront⟩, ?_, ?_, ?_⟩
        · rw [scanFrom, List.takeWhile_cons_of_pos (by simpa using hLiteral), List.map_cons,
            List.map_cons, hChars]
        · rw [scanFrom, List.dropWhile_cons_of_pos (by simpa using hLiteral), List.map_cons, byteLength,
            ← Nat.add_assoc]
          exact hBack
        · rw [scanFrom, List.dropWhile_cons_of_pos (by simpa using hLiteral)]
          exact hHead
    · obtain ⟨rfl, hQuote⟩ := h.eq_start hLiteral
      have hDrop : (scanFrom s place (c :: rest)).dropWhile (fun m => m.region = .literal) =
          scanFrom s place (c :: rest) := by
        rw [scanFrom, List.dropWhile_cons_of_neg (by simpa using hLiteral)]
      refine ⟨[], marks, rfl, fun m hm => absurd hm List.not_mem_nil, ?_, ?_, ?_⟩
      · rw [scanFrom, List.takeWhile_cons_of_neg (by simpa using hLiteral)]
      · rw [hDrop, map_char_scanFrom]
        exact hRead
      · rw [hDrop, map_char_scanFrom]
        intro d hd
        obtain rfl : c = d := Option.some.inj hd
        exact hQuote

end Abreast

/-! ## The token of a string -/

/-- The characters of a string are one token, unless another string follows right behind. -/
theorem pushAll_string {marks : List Scanned} (hne : marks ≠ []) {offset : Nat}
    (hLiteral : ∀ m ∈ marks, m.region = .literal) (hPlaces : Consecutive offset marks)
    {following : List Token}
    (hNext : ∀ t, following.head? = some t → t.isLiteral = true →
      t.start ≠ offset + byteLength (marks.map Scanned.char)) :
    ∃ depth, pushAll marks following =
      ⟨offset, offset + byteLength (marks.map Scanned.char), depth, .literal⟩ :: following := by
  induction marks generalizing offset with
  | nil => exact absurd rfl hne
  | cons m marks ih =>
    obtain ⟨hm, hMore⟩ := List.forall_mem_cons.1 hLiteral
    obtain ⟨place, c, region, depth, depthAfter⟩ := m
    obtain rfl : region = .literal := hm
    obtain ⟨hPlace, hRest⟩ := hPlaces
    obtain rfl : place = offset := hPlace
    rw [List.map_cons, byteLength, ← Nat.add_assoc] at hNext ⊢
    show ∃ depth', pushChar ⟨place, c, .literal, depth, depthAfter⟩ (pushAll marks following) = _
    by_cases hEmpty : marks = []
    · -- the last character: a string right behind it would go on with it
      subst hEmpty
      refine ⟨depth, ?_⟩
      show pushChar ⟨place, c, .literal, depth, depthAfter⟩ following = _
      cases following with
      | nil => rfl
      | cons t more =>
        have hApart : (t.isLiteral && t.start = place + c.utf8Size : Bool) = false := by
          have hNot := hNext t rfl
          simpa [byteLength] using hNot
        simp only [pushChar, hApart, Bool.false_eq_true, if_false]
        rfl
    · obtain ⟨depth', hPush⟩ := ih hEmpty hMore hRest hNext
      refine ⟨depth', ?_⟩
      rw [hPush]
      simp [pushChar, Token.isLiteral]

/-- No string starts at a character that is not part of one. -/
theorem not_isLiteral_pushAll {m : Scanned} {back : List Scanned} {offset : Nat}
    (hPlaces : Consecutive offset (m :: back)) (hRegion : m.region ≠ .literal) :
    ∀ t, (pushAll (m :: back) []).head? = some t → t.isLiteral = true → t.start ≠ offset := by
  obtain ⟨place, c, region, depth, depthAfter⟩ := m
  obtain ⟨hPlace, hBack⟩ := hPlaces
  obtain rfl : place = offset := hPlace
  have hBehind : ∀ t, (pushAll back []).head? = some t → t.start ≠ place := by
    intro t hHead hStart
    have hSize := Char.utf8Size_pos c
    have hle := ((ascending_pushAll hBack).le_start (List.mem_of_head? hHead)).1
    dsimp only at hle
    omega
  intro t hHead hString
  change (pushChar ⟨place, c, region, depth, depthAfter⟩ (pushAll back [])).head? = some t at hHead
  have hWord : ∀ {u : Token} {list : List Token}, (u :: list).head? = some t → u.isLiteral = true := by
    intro u list hEq
    rwa [Option.some.inj hEq]
  unfold pushChar at hHead
  cases region with
  | literal => exact absurd rfl hRegion
  | comment => exact hBehind t hHead
  | code =>
    -- a character of code is in a word or a mark, or in no token
    by_cases hName : isNameChar c = true
    · simp only [hName, if_true] at hHead
      split at hHead
      · split at hHead <;> cases hWord hHead
      · cases hWord hHead
    · simp only [hName, Bool.false_eq_true, if_false] at hHead
      split at hHead
      · exact hBehind t hHead
      · cases hWord hHead

theorem joinKinds_literal {t : Token} (h : t.lexeme = .literal) (more : List Token) :
    joinKinds (t :: more) = t :: joinKinds more := by
  obtain ⟨start, stop, depth, lexeme⟩ := t
  obtain rfl : lexeme = .literal := h
  cases more <;> rfl

namespace Reader

/-- A reading of a name in code. -/
theorem run?_name {a : Text} (ha : ∀ c ∈ a, isNameChar c = true ∧ staysPlain c = true)
    (after word : Text) (offset : Nat) :
    run? after (within word) offset a = some (unread offset a, within (a.reverse ++ word)) := by
  induction a generalizing word offset with
  | nil => rfl
  | cons c a ih =>
    obtain ⟨⟨hName, hPlain⟩, hMore⟩ := List.forall_mem_cons.1 ha
    have hStep := step_plain hPlain word (a ++ after)
    rw [hName] at hStep
    rw [run?_cons hStep, ih hMore]
    simp [unread, depth, within]

/-- At the start of a line, only a quote begins a string. -/
theorem isQuote_of_start {c : Char} {rest : Text} {next : Reader}
    (h : start.step c rest = .continues .literal next) : isQuote c = true := by
  change start.stepCode c rest = _ at h
  revert h
  fun_cases stepCode start c rest <;> intro h
  case case7 hQuote triple => exact hQuote
  case case10 hField =>
    -- outside of everything there is no field
    simp [start] at hField
  all_goals cases h

end Reader

/-- What follows a string does not begin with one. -/
theorem region_ne_literal {offset : Nat} {text after : Text} {m : Scanned} {back : List Scanned}
    (h : readLine? .start offset text = some (m :: back, after))
    (hHead : ∀ c, text.head? = some c → isQuote c = false) : m.region ≠ .literal := by
  cases text with
  | nil => cases h
  | cons c rest =>
    rw [readLine?] at h
    split at h
    · rename_i region next hStep
      obtain ⟨⟨more, after'⟩, -, hEq⟩ := Option.map_eq_some_iff.1 h
      obtain ⟨rfl, -⟩ := List.cons.inj (Prod.mk.inj hEq).1
      intro hRegion
      obtain rfl : region = .literal := hRegion
      have hNot := hHead c rfl
      rw [Reader.isQuote_of_start hStep] at hNot
      cases hNot
    · cases h
    · cases h

section

variable {kind string : Text} {offset : Nat} {marks : List Scanned} {after : Text}

theorem eq_of_isDocstringKind {c : Char} (h : isDocstringKind c = true) :
    c = 'r' ∨ c = 'R' ∨ c = 'u' ∨ c = 'U' := by
  simpa [isDocstringKind, or_assoc] using h

theorem exists_quote (h : string.head?.any isQuote = true) :
    ∃ quote inside, string = quote :: inside ∧ isQuote quote = true := by
  cases string with
  | nil => cases h
  | cons quote inside => exact ⟨quote, inside, rfl, by simpa using h⟩

/-- A quote at the start of a text opens a string. -/
theorem scan_quote {quote : Char} (h : isQuote quote = true) (inside : Text) :
    scan (quote :: inside) = ⟨0, quote, .literal, 0, 0⟩ ::
      scanFrom ⟨.literal ⟨quote, twoMore quote inside, 0⟩ false,
        if twoMore quote inside then 2 else 0, [], none⟩ (0 + quote.utf8Size) inside := by
  rcases isQuote_iff.1 h with rfl | rfl
  · rfl
  · rfl

/-- **A line that begins with a string**, its kind in front: the characters of the kind, those of the
string, and the rest of the line, which begins where nothing is open. -/
theorem exists_of_readLine?_string (hKind : kind.all isDocstringKind = true)
    (hQuote : string.head?.any isQuote = true)
    (hRead : readLine? .start offset (kind ++ string) = some (marks, after)) :
    ∃ literal back, marks = unread offset kind ++ (literal ++ back) ∧ literal ≠ [] ∧
      (∀ m ∈ literal, m.region = .literal) ∧ literal.map Scanned.char = stringOf string ∧
      readLine? .start (offset + byteLength (kind ++ stringOf string)) (behindString string) =
        some (back, after) ∧
      ∀ c, (behindString string).head? = some c → isQuote c = false := by
  obtain ⟨quote, inside, rfl, hOpens⟩ := exists_quote hQuote
  have hLetters : ∀ c ∈ kind, c = 'r' ∨ c = 'R' ∨ c = 'u' ∨ c = 'U' :=
    fun c hc => eq_of_isDocstringKind (List.all_eq_true.1 hKind c hc)
  -- the kind is read as a name
  have hFront : Reader.run? (quote :: inside) .start offset kind =
      some (unread offset kind, Reader.within kind.reverse) := by
    have hName : ∀ c ∈ kind, isNameChar c = true ∧ staysPlain c = true := by
      intro c hc
      rcases hLetters c hc with rfl | rfl | rfl | rfl <;> decide
    have hRun := Reader.run?_name hName (quote :: inside) [] offset
    rwa [List.append_nil] at hRun
  -- no letter of it makes the string a formatted one
  have hPlain : isFormatted kind.reverse = false := by
    have hNone : kind.reverse.any (fun c => ['f', 't'].contains c.toLower) = false := by
      rw [List.any_eq_false]
      intro c hc
      rcases hLetters c (List.mem_reverse.1 hc) with rfl | rfl | rfl | rfl <;> decide
    rw [isFormatted, hNone, Bool.and_false]
  have hStep := Reader.stepCode_quote hOpens kind.reverse inside
  rw [hPlain] at hStep
  change (Reader.within kind.reverse).step quote inside = _ at hStep
  rw [Reader.readLine?_append hFront] at hRead
  obtain ⟨⟨rest, after'⟩, hString, hEq⟩ := Option.map_eq_some_iff.1 hRead
  obtain ⟨rfl, rfl⟩ := Prod.mk.inj hEq
  rw [readLine?, hStep] at hString
  obtain ⟨⟨more, after''⟩, hMore, hEq⟩ := Option.map_eq_some_iff.1 hString
  obtain ⟨rfl, rfl⟩ := Prod.mk.inj hEq
  have hAbreast := Abreast.inside ⟨quote, twoMore quote inside, 0⟩ hOpens false
    (if twoMore quote inside then 2 else 0) [] none inside
  obtain ⟨front, back, rfl, hLiteral, hChars, hBack, hHead⟩ :=
    hAbreast.readLine? hMore (0 + quote.utf8Size)
  have hStringOf : stringOf (quote :: inside) = quote :: front.map Scanned.char := by
    rw [stringOf, scan_quote hOpens, List.takeWhile_cons_of_pos rfl, List.map_cons, ← hChars]
  have hBehind := congrArg (List.map Scanned.char ∘ List.dropWhile fun m => m.region = .literal)
    (scan_quote hOpens inside)
  simp only [Function.comp_apply] at hBehind
  rw [List.dropWhile_cons_of_pos rfl] at hBehind
  rw [← hBehind] at hBack hHead
  refine ⟨_ :: front, back, rfl, List.cons_ne_nil _ _, List.forall_mem_cons.2 ⟨rfl, hLiteral⟩,
    hStringOf.symm, ?_, hHead⟩
  rw [hStringOf, byteLength_append, byteLength, ← Nat.add_assoc, ← Nat.add_assoc]
  exact hBack

/-- **A string that a statement begins with is its first token**, and the statement goes on behind
it. -/
theorem tokens_of_string (hKind : kind.all isDocstringKind = true) (hLength : kind.length ≤ 2)
    (hQuote : string.head?.any isQuote = true)
    (hRead : readLine? .start offset (kind ++ string) = some (marks, after)) :
    ∃ depth back, tokens marks =
        ⟨offset, offset + byteLength (kind ++ stringOf string), depth, .literal⟩ :: tokens back ∧
      readLine? .start (offset + byteLength (kind ++ stringOf string)) (behindString string) =
        some (back, after) := by
  have hPlaces := (exists_of_readLine? hRead).1
  obtain ⟨literal, back, rfl, hne, hLiteral, hChars, hBack, hHead⟩ :=
    exists_of_readLine?_string hKind hQuote hRead
  have hString := hPlaces.of_append
  rw [map_char_unread] at hString
  have hRest := hString.of_append
  have hNext : ∀ t, (pushAll back []).head? = some t → t.isLiteral = true →
      t.start ≠ offset + byteLength kind + byteLength (literal.map Scanned.char) := by
    cases back with
    | nil => intro t hNone; cases hNone
    | cons m back => exact not_isLiteral_pushAll hRest (region_ne_literal hBack hHead)
  obtain ⟨depth, hPush⟩ := pushAll_string hne hLiteral hString.left_of_append hNext
  rw [hChars, Nat.add_assoc, ← byteLength_append] at hPush
  refine ⟨depth, back, ?_, hBack⟩
  show joinKinds (pushAll (unread offset kind ++ (literal ++ back)) []) = _
  rw [pushAll_append, pushAll_append, hPush]
  by_cases hEmpty : kind = []
  · subst hEmpty
    exact joinKinds_literal rfl _
  · have hName : ∀ c ∈ kind, isNameChar c = true := by
      intro c hc
      rcases eq_of_isDocstringKind (List.all_eq_true.1 hKind c hc) with rfl | rfl | rfl | rfl <;> decide
    have hStringKind : isStringKind kind = true := by
      have hAll : kind.all (fun c => ['r', 'b', 'u', 'f', 't'].contains c.toLower) = true := by
        rw [List.all_eq_true]
        intro c hc
        rcases eq_of_isDocstringKind (List.all_eq_true.1 hKind c hc) with rfl | rfl | rfl | rfl <;>
          decide
      rw [isStringKind, hAll, Bool.and_true, decide_eq_true_eq]
      exact hLength
    -- the kind is a word right in front of the string, and is joined to it
    have hNoWord : NoWordAt (offset + byteLength kind) (⟨offset + byteLength kind,
        offset + byteLength (kind ++ stringOf string), depth, .literal⟩ :: pushAll back []) := by
      intro t hHead text hText
      obtain rfl := Option.some.inj hHead
      cases hText
    have hWord := pushAll_name hName hEmpty offset hNoWord
    rw [hWord, joinKinds, if_pos (by simp [Token.isLiteral, hStringKind])]
    rfl

/-- A comment goes on to the end of the line. -/
theorem silent_of_inRemark {text : Text}
    (h : readLine? Reader.inRemark offset text = some (marks, after)) : ∀ m ∈ marks, m.Silent := by
  induction text generalizing offset marks with
  | nil =>
    obtain ⟨rfl, -⟩ := Prod.mk.inj (Option.some.inj h)
    intro m hm
    cases hm
  | cons c rest ih =>
    by_cases hNewline : c = '\n'
    · subst hNewline
      obtain ⟨rfl, -⟩ := Prod.mk.inj (Option.some.inj h)
      intro m hm
      cases hm
    · rw [readLine?, Reader.step_inRemark hNewline] at h
      obtain ⟨⟨more, after'⟩, hMore, hEq⟩ := Option.map_eq_some_iff.1 h
      obtain ⟨rfl, rfl⟩ := Prod.mk.inj hEq
      exact List.forall_mem_cons.2 ⟨.inl rfl, ih hMore⟩

theorem endsStatement_of_blank {c : Char} {rest : Text} (hc : isBlank c = true) :
    endsStatement (c :: rest) = endsStatement rest := by
  have hTrim : trim (c :: rest) = trim rest := by
    rw [trim, trim, trimStart, List.dropWhile_cons_of_pos hc, trimStart]
  rw [endsStatement, endsStatement, hTrim, allBlank, List.all_cons, hc, Bool.true_and, allBlank]

theorem eq_hash_of_endsStatement {c : Char} {rest : Text} (hc : isBlank c = false)
    (h : endsStatement (c :: rest) = true) : c = '#' := by
  have hNot : allBlank (c :: rest) = false := by
    rw [allBlank, List.all_cons, hc, Bool.false_and]
  rw [endsStatement, hNot, Bool.false_or, decide_eq_true_eq, trim, trimStart_of_head hc] at h
  exact Option.some.inj (head_of_head_trimEnd h)

/-- **What ends a statement holds no token**: a comment, or nothing but blanks. -/
theorem tokens_of_endsStatement {text : Text}
    (h : readLine? .start offset text = some (marks, after))
    (hEnds : endsStatement (breakLine text).1 = true) : tokens marks = [] := by
  have hSilent : ∀ m ∈ marks, m.Silent := by
    induction text generalizing offset marks with
    | nil =>
      obtain ⟨rfl, -⟩ := Prod.mk.inj (Option.some.inj h)
      intro m hm
      cases hm
    | cons c rest ih =>
      by_cases hNewline : c = '\n'
      · subst hNewline
        obtain ⟨rfl, -⟩ := Prod.mk.inj (Option.some.inj h)
        intro m hm
        cases hm
      · rw [breakLine_cons hNewline] at hEnds
        by_cases hBlank : isBlank c = true
        · -- the line goes on behind a blank as it began
          have hStep := Reader.step_plain (staysPlain_of_isBlank hBlank hNewline) [] rest
          rw [not_isNameChar_of_isBlank hBlank] at hStep
          change Reader.start.step c rest = .continues .code .start at hStep
          rw [readLine?, hStep] at h
          obtain ⟨⟨more, after'⟩, hMore, hEq⟩ := Option.map_eq_some_iff.1 h
          obtain ⟨rfl, rfl⟩ := Prod.mk.inj hEq
          have hHere : Scanned.Silent ⟨offset, c, .code, min Reader.start.depth Reader.start.depth,
              Reader.start.depth⟩ := .inr ⟨rfl, by simp [beginsCode, hBlank]⟩
          exact List.forall_mem_cons.2 ⟨hHere, ih hMore (endsStatement_of_blank hBlank ▸ hEnds)⟩
        · obtain rfl := eq_hash_of_endsStatement (Bool.eq_false_iff.2 hBlank) hEnds
          obtain ⟨⟨more, after'⟩, hMore, hEq⟩ := Option.map_eq_some_iff.1 h
          obtain ⟨rfl, -⟩ := Prod.mk.inj hEq
          exact List.forall_mem_cons.2 ⟨.inl rfl, silent_of_inRemark hMore⟩
  have hNone := tokens_of_silent hSilent []
  rwa [List.append_nil] at hNone

/-! ## The text that a body opens with -/

/-- **A body that opens with a string**, with blanks and a kind in front of it. A kind has two letters
at most. -/
theorem openingString?_kind {front : Text} (hFront : Blank front)
    (hKind : kind.all isDocstringKind = true) (hQuote : string.head?.any isQuote = true) :
    openingString? (front ++ (kind ++ string)) = if kind.length ≤ 2 then some string else none := by
  obtain ⟨quote, inside, rfl, hOpens⟩ := exists_quote hQuote
  have hLetters : ∀ c ∈ kind, isBlank c = false ∧ (!isQuote c) = true ∧ c.utf8Size = 1 := by
    intro c hc
    rcases eq_of_isDocstringKind (List.all_eq_true.1 hKind c hc) with rfl | rfl | rfl | rfl <;> decide
  have hLiteral : (front ++ (kind ++ quote :: inside)).dropWhile isBlank = kind ++ quote :: inside := by
    rw [List.dropWhile_append_of_pos hFront]
    cases kind with
    | nil =>
      have hBlank : isBlank quote = false := by
        rcases isQuote_iff.1 hOpens with rfl | rfl <;> decide
      exact List.dropWhile_cons_of_neg (by simp [hBlank])
    | cons c kind =>
      exact List.dropWhile_cons_of_neg (by simp [(hLetters c (List.mem_cons_self ..)).1])
  have hStops : ¬ (!isQuote quote) = true := by simp [hOpens]
  have hTake : (kind ++ quote :: inside).takeWhile (fun c => !isQuote c) = kind := by
    rw [List.takeWhile_append_of_pos fun c hc => (hLetters c hc).2.1,
      List.takeWhile_cons_of_neg (p := fun c => !isQuote c) hStops, List.append_nil]
  have hDrop : (kind ++ quote :: inside).dropWhile (fun c => !isQuote c) = quote :: inside := by
    rw [List.dropWhile_append_of_pos fun c hc => (hLetters c hc).2.1,
      List.dropWhile_cons_of_neg (p := fun c => !isQuote c) hStops]
  have hBytes : byteLength kind = kind.length := by
    clear hKind hLiteral hTake hDrop
    induction kind with
    | nil => rfl
    | cons c kind ih =>
      obtain ⟨hc, hMore⟩ := List.forall_mem_cons.1 hLetters
      rw [byteLength, List.length_cons, hc.2.2, ih hMore, Nat.add_comm]
  unfold openingString?
  dsimp only
  rw [hLiteral, hTake, hDrop, hKind, hBytes]
  by_cases hLength : kind.length ≤ 2
  · simp [hLength]
  · simp [hLength, Nat.lt_of_not_le hLength]

theorem openingString?_eq_some {front : Text} (hFront : Blank front)
    (hKind : kind.all isDocstringKind = true) (hLength : kind.length ≤ 2)
    (hQuote : string.head?.any isQuote = true) :
    openingString? (front ++ (kind ++ string)) = some string := by
  rw [openingString?_kind hFront hKind hQuote, if_pos hLength]

end

end FieldFill
