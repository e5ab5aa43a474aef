/-!
# Texts and byte positions

A text is a list of characters. Positions in it are counted in bytes of its UTF-8 form, from zero,
because reports and insertions name places that way; a position is good only when it falls between
two characters.

Main definitions:

* `byteLength` — the number of bytes of a text.
* `splitAt?` — the two parts of a text around a byte position, when that is a good one.
* `breakLine`, `lines` — lines keep the newline that ends them.
-/

namespace FieldFill

abbrev Text := List Char

/-! ## Bytes -/

def byteLength : Text → Nat
  | [] => 0
  | c :: rest => c.utf8Size + byteLength rest

/-- The parts before and after a byte position, or `none` when the position is beyond the text or
inside a character. -/
def splitAt? : Text → Nat → Option (Text × Text)
  | text, 0 => some ([], text)
  | [], _ + 1 => none
  | c :: rest, n + 1 =>
    if c.utf8Size ≤ n + 1 then
      (splitAt? rest (n + 1 - c.utf8Size)).map fun (before, after) => (c :: before, after)
    else none

/-! ## Lines -/

/-- The first line with its newline, and the rest. -/
def breakLine : Text → Text × Text
  | [] => ([], [])
  | c :: rest =>
    if c = '\n' then ([c], rest)
    else
      let (line, after) := breakLine rest
      (c :: line, after)

/-- The lines of a text, each with the newline that ends it; the last one may have none. -/
def lines : Text → List Text
  | [] => []
  | c :: rest =>
    if c = '\n' then [c] :: lines rest
    else
      match lines rest with
      | [] => [[c]]
      | line :: more => (c :: line) :: more

/-- How many newlines a text holds. -/
def newlines (text : Text) : Nat :=
  text.count '\n'

def endsInNewline (text : Text) : Bool :=
  text.getLast? = some '\n'

/-- What follows the last newline of a text: the part of its last line that is there. -/
def lastLine (text : Text) : Text :=
  (text.reverse.takeWhile (· ≠ '\n')).reverse

/-! ## Fixed words -/

/-- What follows `word` at the start of a text. -/
def after? : (word text : Text) → Option Text
  | [], text => some text
  | _ :: _, [] => none
  | w :: word, c :: text => if w = c then after? word text else none

/-! ## Small laws -/

theorem byteLength_append (a b : Text) : byteLength (a ++ b) = byteLength a + byteLength b := by
  induction a with
  | nil => simp [byteLength]
  | cons c a ih => simp [byteLength, ih, Nat.add_assoc]

theorem breakLine_append (text : Text) : (breakLine text).1 ++ (breakLine text).2 = text := by
  induction text with
  | nil => rfl
  | cons c rest ih =>
    by_cases h : c = '\n'
    · simp [breakLine, h]
    · simp [breakLine, h, ih]

theorem flatten_lines (text : Text) : (lines text).flatten = text := by
  induction text with
  | nil => rfl
  | cons c rest ih =>
    by_cases h : c = '\n'
    · simp [lines, h, ih]
    · cases hl : lines rest with
      | nil =>
        rw [hl, List.flatten_nil] at ih
        simp [lines, h, ← ih]
      | cons line more =>
        rw [hl, List.flatten_cons] at ih
        simp [lines, h, hl, ih]

theorem eq_append_of_after? {word text rest : Text} (h : after? word text = some rest) :
    text = word ++ rest := by
  induction word generalizing text with
  | nil => simpa [after?] using h
  | cons w word ih =>
    cases text with
    | nil => simp [after?] at h
    | cons c text =>
      by_cases hc : w = c
      · simp [after?, hc] at h
        simp [hc, ih h]
      · simp [after?, hc] at h

theorem splitAt?_byteLength (before after : Text) :
    splitAt? (before ++ after) (byteLength before) = some (before, after) := by
  induction before with
  | nil => cases after <;> simp [byteLength, splitAt?]
  | cons c before ih =>
    have hpos : 0 < c.utf8Size := Char.utf8Size_pos c
    obtain ⟨n, hn⟩ : ∃ n, byteLength (c :: before) = n + 1 :=
      ⟨byteLength (c :: before) - 1, by simp [byteLength]; omega⟩
    have hle : c.utf8Size ≤ n + 1 := by rw [← hn]; simp [byteLength]
    have hsub : n + 1 - c.utf8Size = byteLength before := by rw [← hn]; simp [byteLength]
    rw [hn, List.cons_append, splitAt?, if_pos hle, hsub, ih]
    rfl

theorem eq_of_splitAt? {text before after : Text} {n : Nat}
    (h : splitAt? text n = some (before, after)) :
    text = before ++ after ∧ n = byteLength before := by
  induction text generalizing n before with
  | nil => cases n <;> simp_all [splitAt?, byteLength]
  | cons c rest ih =>
    cases n with
    | zero =>
      simp only [splitAt?, Option.some.injEq, Prod.mk.injEq] at h
      simp [← h.1, ← h.2, byteLength]
    | succ n =>
      rw [splitAt?] at h
      split at h
      · rename_i hle
        obtain ⟨⟨b, a⟩, hb, heq⟩ := Option.map_eq_some_iff.1 h
        simp only [Prod.mk.injEq] at heq
        obtain ⟨rfl, rfl⟩ := heq
        obtain ⟨h1, h2⟩ := ih hb
        refine ⟨by simp [h1], ?_⟩
        simp only [byteLength]
        omega
      · cases h

end FieldFill
