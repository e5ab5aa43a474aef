import FieldFill.Proofs.Outline.HeaderSearch
import FieldFill.Proofs.Outline.LineEnd

/-!
# What a header line looks like

Header lines are recognised by reading on from word to word. Here they are described by what they are
made of instead: words with blanks between them, and any text behind. Both come to the same, so that a
line is known to be a header, or none, without following the reading.

Main definitions:

* `HasInitializerAt`, `IsFirstInitializer` — `def __init__ (` somewhere in a line, and its first place.
* `IsFunctionLine`, `IsClassLine` — a line that begins with the header of a function or a class.
* `IsHeaderLine` — a line of one of the three kinds.

Main results:

* `findInitializer?_cases` — the search finds the first place, if there is one.
* `isFunctionHead_iff`, `classHead?_isSome_iff` — the other two kinds.
* `Header.ofLine?_initializer_iff`, `Header.ofLine?_other_iff`, `Header.ofLine?_none_iff` — what a line
  is taken for.
-/

namespace FieldFill

/-! ## The three kinds -/

/-- At least one blank. -/
def IsGap (text : Text) : Prop :=
  Blank text ∧ text ≠ []

def IsWordText (text : Text) : Prop :=
  text ≠ [] ∧ ∀ c ∈ text, isWord c = true

/-- The header of an initializer stands in a line behind `front`. The text of the line up to the opening
parenthesis is `header`. -/
def HasInitializerAt (line front header : Text) : Prop :=
  ∃ gap space inside, IsGap gap ∧ Blank space ∧
    header = front ++ (['d', 'e', 'f'] ++ (gap ++ (initializerName ++ space))) ∧
    line = header ++ '(' :: inside

/-- The first header of an initializer in a line. -/
def IsFirstInitializer (line header : Text) : Prop :=
  ∃ front, HasInitializerAt line front header ∧
    ∀ front' header', HasInitializerAt line front' header' → front.length ≤ front'.length

/-- A line begins with `def`, a name and an opening parenthesis, and `async` in front if it likes. -/
def IsFunctionLine (line : Text) : Prop :=
  ∃ lead async gap name space inside, Blank lead ∧
    (async = [] ∨ ∃ gap', IsGap gap' ∧ async = ['a', 's', 'y', 'n', 'c'] ++ gap') ∧ IsGap gap ∧
    IsWordText name ∧ Blank space ∧
    line = lead ++ (async ++ (['d', 'e', 'f'] ++ (gap ++ (name ++ (space ++ '(' :: inside)))))

/-- A line begins with `class` and a name. -/
def IsClassLine (line : Text) : Prop :=
  ∃ lead gap name rest, Blank lead ∧ IsGap gap ∧ IsWordText name ∧
    line = lead ++ (['c', 'l', 'a', 's', 's'] ++ (gap ++ (name ++ rest)))

/-- A line is a header of one of the three kinds. -/
def IsHeaderLine (line : Text) : Prop :=
  (∃ front header, HasInitializerAt line front header) ∨ IsFunctionLine line ∨ IsClassLine line

/-! ## Words and gaps -/

theorem after?_word (word rest : Text) : after? word (word ++ rest) = some rest := by
  induction word with
  | nil => rfl
  | cons c word ih => rw [List.cons_append, after?, if_pos rfl, ih]

theorem trimStart_trimStart (text : Text) : trimStart (trimStart text) = trimStart text := by
  cases hText : trimStart text with
  | nil => rfl
  | cons c rest => exact trimStart_of_head (not_isBlank_of_trimStart hText) rest

theorem trimStart_gap {gap rest : Text} (hGap : Blank gap) (hRest : trimStart rest = rest) :
    trimStart (gap ++ rest) = rest := by
  rw [trimStart_append_of_blank hGap, hRest]

theorem behindWord_of {word gap rest : Text} (hGap : IsGap gap) (hRest : trimStart rest = rest) :
    (after? word (word ++ (gap ++ rest))).bind afterBlanks? = some rest := by
  obtain ⟨hBlank, hne⟩ := hGap
  obtain ⟨c, gap, rfl⟩ := List.exists_cons_of_ne_nil hne
  obtain ⟨hc, hMore⟩ := List.forall_mem_cons.1 hBlank
  rw [after?_word, Option.bind_some, List.cons_append, afterBlanks?, if_pos hc,
    trimStart_gap hMore hRest]

/-- What is read behind a word and a gap begins with no blank. -/
theorem behindWord_eq_some_iff {word text rest : Text} :
    (after? word text).bind afterBlanks? = some rest ↔
      ∃ gap, IsGap gap ∧ text = word ++ (gap ++ rest) ∧ trimStart rest = rest := by
  constructor
  · intro h
    obtain ⟨behind, hWord, hGap⟩ := Option.bind_eq_some_iff.1 h
    cases behind with
    | nil => cases hGap
    | cons c behind =>
      rw [afterBlanks?] at hGap
      split at hGap
      · rename_i hc
        obtain ⟨front, hFront, hBehind⟩ := exists_trimStart behind
        obtain rfl := Option.some.inj hGap
        refine ⟨c :: front, ⟨List.forall_mem_cons.2 ⟨hc, hFront⟩, List.cons_ne_nil c front⟩, ?_, ?_⟩
        · rw [eq_append_of_after? hWord, List.cons_append, ← hBehind]
        · exact trimStart_trimStart behind
      · cases hGap
  · rintro ⟨gap, hGap, rfl, hRest⟩
    exact behindWord_of hGap hRest

theorem not_isBlank_of_isWord {c : Char} (h : isWord c = true) : isBlank c = false := by
  cases hBlank : isBlank c with
  | false => rfl
  | true =>
    rw [not_isWord_of_isBlank hBlank] at h
    cases h

/-- Behind a name stands what is no part of a word. -/
theorem dropWhile_isWord_of {name rest : Text} (hName : ∀ c ∈ name, isWord c = true)
    (hRest : rest.head?.any isWord = false) : (name ++ rest).dropWhile isWord = rest := by
  rw [List.dropWhile_append_of_pos hName]
  cases rest with
  | nil => rfl
  | cons c rest =>
    have hc : isWord c = false := hRest
    rw [List.dropWhile_cons_of_neg (ne_true_of_eq_false hc)]

theorem IsWordText.trimStart_append {name : Text} (h : IsWordText name) (rest : Text) :
    trimStart (name ++ rest) = name ++ rest := by
  obtain ⟨hne, hName⟩ := h
  obtain ⟨c, name, rfl⟩ := List.exists_cons_of_ne_nil hne
  exact trimStart_of_head (not_isBlank_of_isWord (hName c (List.mem_cons_self ..))) _

/-! ## Functions -/

theorem isDefinition_iff {text : Text} :
    isDefinition text = true ↔ ∃ gap name space inside, IsGap gap ∧ IsWordText name ∧ Blank space ∧
      text = ['d', 'e', 'f'] ++ (gap ++ (name ++ (space ++ '(' :: inside))) := by
  unfold isDefinition
  constructor
  · intro h
    split at h
    · rename_i rest hBehind
      obtain ⟨gap, hGap, rfl, -⟩ := behindWord_eq_some_iff.1 hBehind
      rw [Bool.and_eq_true, decide_eq_true_eq] at h
      obtain ⟨hHead, hParen⟩ := h
      obtain ⟨space, hSpace, hTrim⟩ := exists_trimStart (rest.dropWhile isWord)
      obtain ⟨inside, hInside⟩ : ∃ inside, trimStart (rest.dropWhile isWord) = '(' :: inside := by
        cases hText : trimStart (rest.dropWhile isWord) with
        | nil =>
          rw [hText] at hParen
          cases hParen
        | cons c inside =>
          rw [hText] at hParen
          obtain rfl : c = '(' := Option.some.inj hParen
          exact ⟨inside, rfl⟩
      refine ⟨gap, rest.takeWhile isWord, space, inside, hGap, ⟨?_, fun c => List.mem_takeWhile_imp⟩,
        hSpace, ?_⟩
      · cases rest with
        | nil => cases hHead
        | cons c rest =>
          have hc : isWord c = true := hHead
          rw [List.takeWhile_cons_of_pos hc]
          exact List.cons_ne_nil _ _
      · rw [← hInside, ← hTrim, List.takeWhile_append_dropWhile]
    · cases h
  · rintro ⟨gap, name, space, inside, hGap, hName, hSpace, rfl⟩
    rw [behindWord_of hGap (hName.trimStart_append _)]
    -- neither a blank nor the parenthesis goes on with the name
    have hStop : (space ++ '(' :: inside).head?.any isWord = false := by
      cases space with
      | nil => rfl
      | cons c space => exact not_isWord_of_isBlank (hSpace c (List.mem_cons_self ..))
    obtain ⟨c, tail, hCons⟩ := List.exists_cons_of_ne_nil hName.1
    have hHead : (name ++ (space ++ '(' :: inside)).head?.any isWord = true := by
      rw [hCons]
      exact hName.2 c (by simp [hCons])
    dsimp only
    rw [hHead, dropWhile_isWord_of hName.2 hStop,
      trimStart_gap hSpace (trimStart_of_head rfl inside)]
    rfl

theorem isFunctionHead_iff {line : Text} : isFunctionHead line = true ↔ IsFunctionLine line := by
  unfold isFunctionHead IsFunctionLine
  dsimp only
  rw [Bool.or_eq_true, isDefinition_iff, Option.any_eq_true]
  constructor
  · obtain ⟨lead, hLead, hLine⟩ := exists_trimStart line
    rintro (⟨gap, name, space, inside, hGap, hName, hSpace, hText⟩ | ⟨rest, hRest, hDefinition⟩)
    · exact ⟨lead, [], gap, name, space, inside, hLead, .inl rfl, hGap, hName, hSpace,
        hLine.trans (by rw [hText]; rfl)⟩
    · obtain ⟨gap', hGap', hText, -⟩ := behindWord_eq_some_iff.1 hRest
      obtain ⟨gap, name, space, inside, hGap, hName, hSpace, rfl⟩ := isDefinition_iff.1 hDefinition
      refine ⟨lead, _, gap, name, space, inside, hLead, .inr ⟨gap', hGap', rfl⟩, hGap, hName, hSpace,
        hLine.trans ?_⟩
      rw [hText]
      simp
  · rintro ⟨lead, async, gap, name, space, inside, hLead, hAsync, hGap, hName, hSpace, rfl⟩
    rcases hAsync with rfl | ⟨gap', hGap', rfl⟩
    · left
      refine ⟨gap, name, space, inside, hGap, hName, hSpace, ?_⟩
      exact trimStart_gap hLead (trimStart_of_head rfl _)
    · right
      refine ⟨['d', 'e', 'f'] ++ (gap ++ (name ++ (space ++ '(' :: inside))),
        behindWord_eq_some_iff.2 ⟨gap', hGap', ?_, trimStart_of_head rfl _⟩,
        isDefinition_iff.2 ⟨gap, name, space, inside, hGap, hName, hSpace, rfl⟩⟩
      rw [List.append_assoc ['a', 's', 'y', 'n', 'c']]
      exact trimStart_gap hLead (trimStart_of_head rfl _)

/-! ## Classes -/

theorem classHead?_isSome_iff {line : Text} :
    (classHead? line).isSome = true ↔ IsClassLine line := by
  unfold classHead? IsClassLine
  constructor
  · obtain ⟨lead, hLead, hLine⟩ := exists_trimStart line
    intro h
    split at h
    · rename_i rest hBehind
      obtain ⟨gap, hGap, hText, -⟩ := behindWord_eq_some_iff.1 hBehind
      dsimp only at h
      split at h
      · cases h
      · rename_i hNonempty
        refine ⟨lead, gap, rest.takeWhile isWord, rest.dropWhile isWord, hLead, hGap,
          ⟨fun hNil => hNonempty (List.isEmpty_iff.2 hNil), fun c => List.mem_takeWhile_imp⟩,
          hLine.trans ?_⟩
        rw [hText, List.takeWhile_append_dropWhile]
    · cases h
  · rintro ⟨lead, gap, name, rest, hLead, hGap, hName, rfl⟩
    have hTrim : trimStart (lead ++ (['c', 'l', 'a', 's', 's'] ++ (gap ++ (name ++ rest)))) =
        ['c', 'l', 'a', 's', 's'] ++ (gap ++ (name ++ rest)) :=
      trimStart_gap hLead (trimStart_of_head rfl _)
    rw [hTrim, behindWord_of hGap (hName.trimStart_append _)]
    dsimp only
    rw [if_neg]
    · rfl
    · rw [List.takeWhile_append_of_pos hName.2, List.isEmpty_iff]
      exact List.append_ne_nil_of_left_ne_nil hName.1 _

/-! ## Initializers -/

/-- **A header of an initializer is read where it begins**, up to its parenthesis. -/
theorem initializerHead?_eq_some_iff {text rest : Text} :
    initializerHead? text = some rest ↔
      ∃ header, HasInitializerAt text [] header ∧ text = header ++ rest := by
  constructor
  · intro h
    obtain ⟨gap, space, inside, rfl, hGap, hne, hSpace⟩ := initializerHead?_eq_some h
    rw [initializerHead?_of_text hGap hne hSpace] at h
    obtain rfl := Option.some.inj h
    refine ⟨_, ⟨gap, space, inside, ⟨hGap, hne⟩, hSpace, rfl, ?_⟩, ?_⟩ <;> simp
  · rintro ⟨header, ⟨gap, space, inside, hGap, hSpace, rfl, rfl⟩, hText⟩
    obtain rfl := List.append_cancel_left hText
    simpa using initializerHead?_of_text hGap.1 hGap.2 hSpace inside

theorem HasInitializerAt.header_unique {text header header' : Text}
    (h : HasInitializerAt text [] header) (h' : HasInitializerAt text [] header') :
    header = header' := by
  obtain ⟨-, -, inside, -, -, -, hText⟩ := id h
  obtain ⟨-, -, inside', -, -, -, hText'⟩ := id h'
  -- both are read, with one rest
  have hRead := initializerHead?_eq_some_iff.2 ⟨header, h, hText⟩
  rw [initializerHead?_eq_some_iff.2 ⟨header', h', hText'⟩] at hRead
  rw [Option.some.inj hRead, hText] at hText'
  exact List.append_cancel_right hText'

/-- A header further on in a line is one in the rest of the line. -/
theorem hasInitializerAt_cons_iff {c : Char} {line front header : Text} :
    HasInitializerAt (c :: line) (c :: front) header ↔
      ∃ header', header = c :: header' ∧ HasInitializerAt line front header' := by
  constructor
  · rintro ⟨gap, space, inside, hGap, hSpace, rfl, hLine⟩
    exact ⟨_, rfl, gap, space, inside, hGap, hSpace, rfl, (List.cons.inj hLine).2⟩
  · rintro ⟨header', rfl, gap, space, inside, hGap, hSpace, rfl, rfl⟩
    exact ⟨gap, space, inside, hGap, hSpace, rfl, rfl⟩

theorem HasInitializerAt.exists_front {c : Char} {line front header : Text}
    (h : HasInitializerAt (c :: line) front header) (hFront : front ≠ []) :
    ∃ front' header', front = c :: front' ∧ header = c :: header' ∧
      HasInitializerAt line front' header' := by
  obtain ⟨d, front, rfl⟩ := List.exists_cons_of_ne_nil hFront
  obtain rfl : c = d := by
    obtain ⟨gap, space, inside, -, -, rfl, hLine⟩ := h
    exact (List.cons.inj hLine).1
  obtain ⟨header', rfl, hAt⟩ := hasInitializerAt_cons_iff.1 h
  exact ⟨front, header', rfl, rfl, hAt⟩

/-- **The search finds the first header of an initializer**, with the text from its parenthesis on, and
nothing only where there is none. -/
theorem findInitializer?_cases (line : Text) :
    (findInitializer? line = none ∧ ∀ front header, ¬ HasInitializerAt line front header) ∨
      ∃ header rest, findInitializer? line = some (header, rest) ∧ IsFirstInitializer line header := by
  induction line with
  | nil =>
    refine .inl ⟨rfl, ?_⟩
    rintro front header ⟨gap, space, inside, -, -, -, hLine⟩
    simp at hLine
  | cons c line ih =>
    rw [findInitializer?]
    cases hHead : initializerHead? (c :: line) with
    | some rest =>
      obtain ⟨header, hAt, hText⟩ := initializerHead?_eq_some_iff.1 hHead
      refine .inr ⟨header, rest, ?_, [], hAt, fun front' header' _ => Nat.zero_le _⟩
      dsimp only
      rw [hText, List.length_append, Nat.add_sub_cancel, List.take_left]
    | none =>
      -- no header begins here, so every one of them is further on
      have hFront : ∀ front header, HasInitializerAt (c :: line) front header → front ≠ [] := by
        rintro front header hAt rfl
        obtain ⟨-, -, inside, -, -, -, hText⟩ := id hAt
        rw [initializerHead?_eq_some_iff.2 ⟨header, hAt, hText⟩] at hHead
        cases hHead
      rcases ih with ⟨hNone, hNot⟩ | ⟨header, rest, hSome, front, hAt, hFirst⟩
      · rw [hNone]
        refine .inl ⟨rfl, fun front header hAt => ?_⟩
        obtain ⟨front', header', -, -, hLater⟩ := hAt.exists_front (hFront front header hAt)
        exact hNot front' header' hLater
      · rw [hSome]
        refine .inr ⟨c :: header, rest, rfl, c :: front,
          hasInitializerAt_cons_iff.2 ⟨header, rfl, hAt⟩, fun front' header' hAt' => ?_⟩
        obtain ⟨front', header', rfl, -, hLater⟩ := hAt'.exists_front (hFront front' header' hAt')
        exact Nat.succ_le_succ (hFirst front' header' hLater)

theorem IsFirstInitializer.header_eq {line header header' : Text}
    (h : IsFirstInitializer line header) (h' : IsFirstInitializer line header') :
    header = header' := by
  obtain ⟨front, hAt, hFirst⟩ := h
  obtain ⟨front', hAt', hFirst'⟩ := h'
  have hLength : front.length = front'.length :=
    Nat.le_antisymm (hFirst front' header' hAt') (hFirst' front header hAt)
  -- what stands in front of both is the same part of the line
  obtain ⟨gap, space, inside, hGap, hSpace, rfl, hLine⟩ := hAt
  obtain ⟨gap', space', inside', hGap', hSpace', rfl, hLine'⟩ := hAt'
  rw [List.append_assoc] at hLine hLine'
  obtain ⟨rfl, hRest⟩ := List.append_inj (hLine.symm.trans hLine') hLength
  congr 1
  exact HasInitializerAt.header_unique ⟨gap, space, inside, hGap, hSpace, rfl, rfl⟩
    ⟨gap', space', inside', hGap', hSpace', rfl, hRest⟩

/-! ## What a line is taken for -/

theorem Header.ofLine?_initializer_iff {line header : Text} :
    Header.ofLine? line = some (.initializer header) ↔ IsFirstInitializer line header := by
  unfold Header.ofLine?
  rcases findInitializer?_cases line with ⟨hNone, hNot⟩ | ⟨found, rest, hSome, hFirst⟩
  · rw [hNone]
    dsimp only
    constructor
    · intro h
      split at h <;> cases h
    · rintro ⟨front, hAt, -⟩
      exact absurd hAt (hNot front header)
  · rw [hSome]
    dsimp only
    constructor
    · intro h
      obtain rfl : found = header := by simpa using h
      exact hFirst
    · intro h
      rw [hFirst.header_eq h]

/-- A line is no header exactly when it is of none of the three kinds. -/
theorem Header.ofLine?_none_iff {line : Text} :
    Header.ofLine? line = none ↔ ¬ IsHeaderLine line := by
  unfold Header.ofLine? IsHeaderLine
  rcases findInitializer?_cases line with ⟨hNone, hNot⟩ | ⟨found, rest, hSome, front, hAt, -⟩
  · rw [hNone, ← isFunctionHead_iff, ← classHead?_isSome_iff]
    simp [hNot]
  · rw [hSome]
    simp only [reduceCtorEq, false_iff, not_not]
    exact .inl ⟨front, found, hAt⟩

theorem Header.ofLine?_other_iff {line : Text} :
    Header.ofLine? line = some .other ↔
      IsHeaderLine line ∧ ∀ front header, ¬ HasInitializerAt line front header := by
  unfold Header.ofLine? IsHeaderLine
  rcases findInitializer?_cases line with ⟨hNone, hNot⟩ | ⟨found, rest, hSome, front, hAt, -⟩
  · rw [hNone, ← isFunctionHead_iff, ← classHead?_isSome_iff]
    cases isFunctionHead line <;> cases classHead? line <;> simp [hNot]
  · rw [hSome]
    simp only [Option.some.injEq, reduceCtorEq, false_iff, not_and, not_forall, not_not]
    exact fun _ => ⟨front, found, hAt⟩

end FieldFill
