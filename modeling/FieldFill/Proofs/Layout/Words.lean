import FieldFill.Proofs.Layout.Tokens
import FieldFill.Proofs.Parameter.Classify

/-!
# Words in a line

Outside of brackets, strings and comments, blanks and names are read character by character, and the
tokens of such a text can be written down: blanks give none, and a name gives one.

* `run?_plain` — plain text leaves nothing open.
* `pushAll_blank`, `pushAll_name`, `pushAll_mark` — the tokens of blanks, of a name and of a mark in
  front of given tokens.
-/

namespace FieldFill

/-! ## Plain text -/

/-- A character that opens, closes and ends nothing in a line of code. -/
def staysPlain (c : Char) : Bool :=
  isPlain c && c ≠ '\n' && c ≠ '\\'

theorem staysPlain_iff {c : Char} :
    staysPlain c = true ↔ isPlain c = true ∧ c ≠ '\n' ∧ c ≠ '\\' := by
  simp [staysPlain, and_assoc]

namespace Reader

/-- The reader outside of everything, in the middle of a word. -/
def within (word : Text) : Reader :=
  ⟨[], false, false, 0, word⟩

theorem atRest_within (word : Text) : (within word).AtRest :=
  ⟨rfl, rfl, rfl⟩

theorem step_plain {c : Char} (hc : staysPlain c = true) (word rest : Text) :
    (within word).step c rest =
      .continues .code (within (if isNameChar c then c :: word else [])) := by
  obtain ⟨hPlain, hNewline, hEscape⟩ := staysPlain_iff.1 hc
  obtain ⟨hHash, hQuote, hOpener, hCloser⟩ := isPlain_iff.1 hPlain
  show (within word).stepCode c rest = _
  unfold stepCode within
  simp only [hNewline, hHash, hEscape, hQuote, hOpener, hCloser, if_false, Bool.false_eq_true,
    Bool.false_and, List.head?_nil, reduceCtorEq, decide_false]
  split <;> rfl

/-- Plain text is code, and nothing is open behind it. -/
theorem run?_plain {a : Text} (ha : ∀ c ∈ a, staysPlain c = true) (after word : Text)
    (offset : Nat) :
    ∃ last, run? after (within word) offset a = some (unread offset a, within last) := by
  induction a generalizing word offset with
  | nil => exact ⟨word, rfl⟩
  | cons c a ih =>
    obtain ⟨hc, hMore⟩ := List.forall_mem_cons.1 ha
    obtain ⟨last, hRun⟩ := ih hMore (if isNameChar c then c :: word else []) (offset + c.utf8Size)
    refine ⟨last, ?_⟩
    rw [run?_cons (step_plain hc word _), hRun]
    rfl

end Reader

theorem isLogicalLine_plain {a : Text} (ha : ∀ c ∈ a, staysPlain c = true) :
    IsLogicalLine a ∧ marksOf a = unread 0 a := by
  obtain ⟨last, hRun⟩ := Reader.run?_plain ha ['\n'] [] 0
  refine ⟨⟨_, _, hRun, Reader.atRest_within last⟩, ?_⟩
  show ((Reader.run? ['\n'] (Reader.within []) 0 a).map Prod.fst).getD [] = _
  rw [hRun]
  rfl

/-- A logical line that begins with plain text. -/
theorem IsLogicalLine.exists_marksOf {a b : Text} (h : IsLogicalLine (a ++ b))
    (ha : ∀ c ∈ a, staysPlain c = true) :
    ∃ word marks last, marksOf (a ++ b) = unread 0 a ++ marks ∧
      Reader.run? ['\n'] (Reader.within word) (byteLength a) b = some (marks, last) := by
  obtain ⟨last, hRun, -⟩ := h.run?_eq
  obtain ⟨word, hFront⟩ := Reader.run?_plain ha (b ++ ['\n']) [] 0
  have hStart : Reader.run? (b ++ ['\n']) .start 0 a = some (unread 0 a, Reader.within word) := hFront
  rw [Reader.run?_append, hStart, Option.bind_some, Nat.zero_add] at hRun
  obtain ⟨⟨marks, last'⟩, hBack, hEq⟩ := Option.map_eq_some_iff.1 hRun
  obtain ⟨hMarks, -⟩ := Prod.mk.inj hEq
  exact ⟨word, marks, last', hMarks.symm, hBack⟩

/-! ## Classes of characters -/

theorem staysPlain_of_isBlank {c : Char} (h : isBlank c = true) (hNewline : c ≠ '\n') :
    staysPlain c = true := by
  refine staysPlain_iff.2 ⟨isPlain_of_isBlank h, hNewline, ?_⟩
  rintro rfl
  cases h

theorem staysPlain_of_continuesName {c : Char} (h : continuesName c = true) :
    staysPlain c = true := by
  refine staysPlain_iff.2 ⟨isPlain_of_continuesName h, ?_, ?_⟩
  · rintro rfl
    exact absurd h (by decide)
  · rintro rfl
    exact absurd h (by decide)

theorem not_isNameChar_of_isBlank {c : Char} (h : isBlank c = true) : isNameChar c = false := by
  have hCodes : ∀ n ∈ blankCodes, isNameChar (Char.ofNat n) = false := by decide +kernel
  have hNot := hCodes _ (mem_blankCodes h)
  rwa [Char.ofNat_toNat] at hNot

theorem isNameChar_of_continuesName {c : Char} (h : continuesName c = true) :
    isNameChar c = true := by
  have hBlank := not_isBlank_of_continuesName h
  have hMark : c ≠ '\uFEFF' := by
    rintro rfl
    exact absurd h (by decide +kernel)
  simp only [continuesName, isAlphanumeric, isLetter, Bool.or_eq_true, Bool.and_eq_true,
    decide_eq_true_eq] at h
  simp only [isNameChar, Char.isAlphanum, Bool.or_eq_true, Bool.and_eq_true, decide_eq_true_eq,
    Bool.not_eq_true']
  rcases h with hUnderscore | ((hAlpha | hWide) | hDigit) | hWide
  · exact .inl (.inr hUnderscore)
  · exact .inl (.inl (.inl hAlpha))
  · exact .inr ⟨⟨hWide.1, hBlank⟩, hMark⟩
  · exact .inl (.inl (.inr hDigit))
  · exact .inr ⟨⟨hWide.1, hBlank⟩, hMark⟩

/-! ## Tokens -/

/-- The tokens of some scanned characters in front of given ones, with every string apart from its
kind. -/
def pushAll (marks : List Scanned) (following : List Token) : List Token :=
  marks.foldr pushChar following

theorem pushAll_append (a b : List Scanned) (following : List Token) :
    pushAll (a ++ b) following = pushAll a (pushAll b following) :=
  List.foldr_append

theorem pushAll_blank {a : Text} (ha : Blank a) (offset : Nat) (following : List Token) :
    pushAll (unread offset a) following = following := by
  induction a generalizing offset with
  | nil => rfl
  | cons c a ih =>
    obtain ⟨hc, hMore⟩ := List.forall_mem_cons.1 ha
    show pushChar ⟨offset, c, .code, 0, 0⟩ (pushAll (unread (offset + c.utf8Size) a) following) = _
    rw [ih hMore]
    simp [pushChar, not_isNameChar_of_isBlank hc, hc]

/-- No word of these tokens starts at a byte position. -/
def NoWordAt (offset : Nat) (following : List Token) : Prop :=
  ∀ t, following.head? = some t → ∀ text, t.lexeme = .word text → t.start ≠ offset

theorem noWordAt_nil (offset : Nat) : NoWordAt offset [] := by
  intro t hHead
  cases hHead

theorem noWordAt_mark {t : Token} {c : Char} (h : t.lexeme = .mark c) (offset : Nat)
    (following : List Token) : NoWordAt offset (t :: following) := by
  intro u hHead text hWord
  obtain rfl : t = u := Option.some.inj hHead
  rw [h] at hWord
  cases hWord

theorem pushAll_name {a : Text} (ha : ∀ c ∈ a, isNameChar c = true) (hne : a ≠ []) (offset : Nat)
    {following : List Token} (hNext : NoWordAt (offset + byteLength a) following) :
    pushAll (unread offset a) following =
      ⟨offset, offset + byteLength a, 0, .word a⟩ :: following := by
  induction a generalizing offset with
  | nil => exact absurd rfl hne
  | cons c a ih =>
    obtain ⟨hc, hMore⟩ := List.forall_mem_cons.1 ha
    show pushChar ⟨offset, c, .code, 0, 0⟩ (pushAll (unread (offset + c.utf8Size) a) following) = _
    rw [byteLength, ← Nat.add_assoc] at hNext ⊢
    by_cases hEmpty : a = []
    · subst hEmpty
      simp only [byteLength, Nat.add_zero] at hNext ⊢
      show pushChar ⟨offset, c, .code, 0, 0⟩ following = _
      simp only [pushChar, hc, if_true]
      -- a word right behind it would go on with it
      cases following with
      | nil => rfl
      | cons t more =>
        obtain ⟨start, stop, depth, lexeme⟩ := t
        cases lexeme with
        | literal => rfl
        | mark d => rfl
        | word text =>
          have hne : start ≠ offset + c.utf8Size := hNext _ rfl text rfl
          simp only [hne, if_false]
    · rw [ih hMore hEmpty _ hNext]
      simp [pushChar, hc]

theorem pushAll_mark {c : Char} (hName : isNameChar c = false) (hBlank : isBlank c = false)
    (hEscape : c ≠ '\\') (hMark : c ≠ '\uFEFF') (offset : Nat) (following : List Token) :
    pushAll (unread offset [c]) following =
      ⟨offset, offset + c.utf8Size, 0, .mark c⟩ :: following := by
  show pushChar ⟨offset, c, .code, 0, 0⟩ following = _
  simp [pushChar, hName, hBlank, hEscape, hMark]

theorem map_char_unread (offset : Nat) (a : Text) : (unread offset a).map Scanned.char = a := by
  induction a generalizing offset with
  | nil => rfl
  | cons c a ih => rw [unread, List.map_cons, ih]

theorem unread_append (offset : Nat) (a b : Text) :
    unread offset (a ++ b) = unread offset a ++ unread (offset + byteLength a) b := by
  induction a generalizing offset with
  | nil => rfl
  | cons c a ih =>
    rw [List.cons_append, unread, ih, byteLength, ← Nat.add_assoc]
    rfl

end FieldFill
