import FieldFill.Proofs.Lexical.Reads
import Mathlib.Data.List.TakeWhile

/-!
# Reading a text stretch by stretch

The scan looks at one character at a time and keeps in its state how far it is in a string. Here is
the same language as it is described: at a character of code, a lexer takes a whole stretch at once,
which is a comment up to the end of its line, a string up to the leftmost delimiter that is not
escaped, or a single character.

Main definitions:

* `Stretch`, `readStretch`, `stretches` — the stretches of a text.
* `Stretch.Whole` — a stretch as it stands, in front of the text that follows it.
* `Separated` — stretches that can be written one behind the other.

Main results:

* `textOf_stretches` — nothing is lost.
* `separated_stretches` — each stretch is whole in front of the text that follows it.
-/

namespace FieldFill

inductive Stretch where
  /-- A single character of code. -/
  | code (char : Char)
  /-- A comment, with what follows its `#`. -/
  | comment (remark : Text)
  /-- A string between two equal delimiters. -/
  | literal (delimiter body : Text)
  /-- A string that is never closed. -/
  | unclosed (delimiter body : Text)
  deriving DecidableEq, Repr

namespace Stretch

def text : Stretch → Text
  | code c => [c]
  | comment remark => '#' :: remark
  | literal delimiter body => delimiter ++ (body ++ delimiter)
  | unclosed delimiter body => delimiter ++ body

def region : Stretch → Region
  | code _ => .code
  | comment _ => .comment
  | literal _ _ => .literal
  | unclosed _ _ => .literal

end Stretch

/-- The text that a list of stretches makes up. -/
def textOf (list : List Stretch) : Text :=
  list.flatMap Stretch.text

/-! ## The lexer -/

/-- Whether the character behind a part of a string is escaped: the one before it is a backslash that
is not escaped itself. -/
def escapesNext (part : Text) : Bool :=
  part.foldl (fun escaped c => !escaped && c = '\\') false

/-- Whether a delimiter stands behind the first `n` characters of a string, not at an escaped one. -/
def endsAt (delimiter inside : Text) (n : Nat) : Bool :=
  !escapesNext (inside.take n) && delimiter.isPrefixOf (inside.drop n)

/-- How many characters a string has up to the leftmost delimiter that ends it. -/
def bodyLength? (delimiter inside : Text) : Option Nat :=
  (List.range inside.length).find? (endsAt delimiter inside)

/-- The delimiter that a quote opens: three of it when two more follow. -/
def delimiterFor (quote : Char) (rest : Text) : Text :=
  if [quote, quote, quote].isPrefixOf (quote :: rest) then [quote, quote, quote] else [quote]

/-- The stretch that a character of code starts, and the text behind it. -/
def readStretch (c : Char) (rest : Text) : Stretch × Text :=
  if c = '#' then (.comment (rest.takeWhile (· ≠ '\n')), rest.dropWhile (· ≠ '\n'))
  else if isQuote c then
    let delimiter := delimiterFor c rest
    let inside := (c :: rest).drop delimiter.length
    match bodyLength? delimiter inside with
    | some n => (.literal delimiter (inside.take n), inside.drop (n + delimiter.length))
    | none => (.unclosed delimiter inside, [])
  else (.code c, rest)

theorem length_delimiterFor (quote : Char) (rest : Text) :
    1 ≤ (delimiterFor quote rest).length := by
  unfold delimiterFor
  split <;> simp

theorem length_readStretch (c : Char) (rest : Text) :
    (readStretch c rest).2.length ≤ rest.length := by
  unfold readStretch
  split
  · exact (List.dropWhile_sublist _).length_le
  · split
    · have hDelimiter := length_delimiterFor c rest
      dsimp only
      split
      · simp only [List.length_drop, List.length_cons]
        omega
      · exact Nat.zero_le _
    · exact Nat.le_refl _

def stretches : Text → List Stretch
  | [] => []
  | c :: rest => (readStretch c rest).1 :: stretches (readStretch c rest).2
termination_by text => text.length
decreasing_by
  have hLength := length_readStretch c rest
  rw [List.length_cons]
  omega

/-! ## Whole stretches -/

/-- `delimiter` is what a quote opens a string with, when `inside` follows. -/
def OpensWith (quote : Char) (delimiter inside : Text) : Prop :=
  delimiter = [quote, quote, quote] ∨ delimiter = [quote] ∧ ¬ [quote, quote] <+: inside

/-- A string with this body ends where its delimiter stands behind it, and not before. -/
def IsBody (delimiter body : Text) : Prop :=
  escapesNext body = false ∧ ∀ n < body.length, endsAt delimiter (body ++ delimiter) n = false

/-- A stretch that is complete in front of the text that follows it. -/
def Stretch.Whole : Stretch → Text → Prop
  | .code c, _ => c ≠ '#' ∧ isQuote c = false
  | .comment remark, rest => '\n' ∉ remark ∧ ∀ c, rest.head? = some c → c = '\n'
  | .literal delimiter body, rest =>
    IsBody delimiter body ∧
      ∃ quote, isQuote quote = true ∧ OpensWith quote delimiter (body ++ (delimiter ++ rest))
  | .unclosed delimiter body, rest =>
    rest = [] ∧ (∀ n, endsAt delimiter body n = false) ∧
      ∃ quote, isQuote quote = true ∧ OpensWith quote delimiter body

/-- Stretches that can be written one behind the other and told apart again. -/
def Separated : List Stretch → Prop
  | [] => True
  | s :: rest => s.Whole (textOf rest) ∧ Separated rest

/-! ## The end of a string -/

section Body

variable {delimiter body inside rest : Text} {n : Nat}

theorem endsAt_iff :
    endsAt delimiter inside n = true ↔
      escapesNext (inside.take n) = false ∧ delimiter <+: inside.drop n := by
  simp [endsAt]

/-- What follows the delimiter behind a body is not looked at. -/
theorem endsAt_append (hn : n ≤ body.length) :
    endsAt delimiter (body ++ (delimiter ++ rest)) n = endsAt delimiter (body ++ delimiter) n := by
  have hPrefix : delimiter <+: body.drop n ++ delimiter ++ rest ↔
      delimiter <+: body.drop n ++ delimiter := by
    constructor
    · intro h
      refine List.prefix_of_prefix_length_le h (List.prefix_append ..) ?_
      rw [List.length_append]
      exact Nat.le_add_left ..
    · exact fun h => h.trans (List.prefix_append ..)
  rw [Bool.eq_iff_iff, endsAt_iff, endsAt_iff, List.take_append_of_le_length hn,
    List.take_append_of_le_length hn, List.drop_append_of_le_length hn,
    List.drop_append_of_le_length hn, ← List.append_assoc, hPrefix]

theorem lt_length_of_endsAt (hDelimiter : delimiter ≠ []) (h : endsAt delimiter inside n = true) :
    n < inside.length := by
  have hLength := (endsAt_iff.1 h).2.length_le
  have hPos := List.length_pos_iff.2 hDelimiter
  rw [List.length_drop] at hLength
  omega

theorem bodyLength?_eq_some_iff (hDelimiter : delimiter ≠ []) :
    bodyLength? delimiter inside = some n ↔
      endsAt delimiter inside n = true ∧ ∀ m < n, endsAt delimiter inside m = false := by
  rw [bodyLength?, List.find?_range_eq_some]
  simp only [List.mem_range, Bool.not_eq_true']
  constructor
  · rintro ⟨hEnd, -, hNone⟩
    exact ⟨hEnd, hNone⟩
  · rintro ⟨hEnd, hNone⟩
    exact ⟨hEnd, lt_length_of_endsAt hDelimiter hEnd, hNone⟩

theorem bodyLength?_eq_none_iff (hDelimiter : delimiter ≠ []) :
    bodyLength? delimiter inside = none ↔ ∀ n, endsAt delimiter inside n = false := by
  rw [bodyLength?, List.find?_range_eq_none]
  simp only [Bool.not_eq_true']
  constructor
  · intro h n
    cases hEnd : endsAt delimiter inside n with
    | false => rfl
    | true => exact hEnd.symm.trans (h n (lt_length_of_endsAt hDelimiter hEnd))
  · exact fun h n _ => h n

/-- The first end of a string cuts it into a body, its delimiter and what follows. -/
theorem isBody_of_bodyLength? (hDelimiter : delimiter ≠ [])
    (h : bodyLength? delimiter inside = some n) :
    IsBody delimiter (inside.take n) ∧
      inside = inside.take n ++ (delimiter ++ inside.drop (n + delimiter.length)) := by
  obtain ⟨hEnd, hNone⟩ := (bodyLength?_eq_some_iff hDelimiter).1 h
  obtain ⟨hEscape, behind, hBehind⟩ := endsAt_iff.1 hEnd
  have hLength : (inside.take n).length = n :=
    List.length_take_of_le (Nat.le_of_lt (lt_length_of_endsAt hDelimiter hEnd))
  have hRest : inside.drop (n + delimiter.length) = behind := by
    rw [← List.drop_drop, ← hBehind, List.drop_left]
  have hInside : inside = inside.take n ++ (delimiter ++ inside.drop (n + delimiter.length)) := by
    rw [hRest, hBehind, List.take_append_drop]
  refine ⟨⟨hEscape, fun m hm => ?_⟩, hInside⟩
  -- an end in the body would be one of the string
  have hBefore := hNone m (hLength ▸ hm)
  rw [hInside, endsAt_append (Nat.le_of_lt hm)] at hBefore
  exact hBefore

end Body

/-! ## The delimiter of a string -/

section Delimiter

variable {quote : Char} {delimiter inside body rest rest' : Text}

theorem OpensWith.ne_nil (h : OpensWith quote delimiter inside) : delimiter ≠ [] := by
  rcases h with rfl | ⟨rfl, -⟩ <;> exact List.cons_ne_nil _ _

theorem opensWith_delimiterFor (quote : Char) (rest : Text) :
    ∃ inside, quote :: rest = delimiterFor quote rest ++ inside ∧
      OpensWith quote (delimiterFor quote rest) inside := by
  unfold delimiterFor
  split
  · rename_i hTriple
    obtain ⟨inside, hInside⟩ := List.isPrefixOf_iff_prefix.1 hTriple
    exact ⟨inside, hInside.symm, .inl rfl⟩
  · rename_i hSingle
    refine ⟨rest, rfl, .inr ⟨rfl, fun hPair => hSingle ?_⟩⟩
    rw [List.isPrefixOf_iff_prefix, List.cons_prefix_cons]
    exact ⟨rfl, hPair⟩

/-- Of the text behind a string, the delimiter depends on whether the same quote follows. -/
theorem OpensWith.congr (h : OpensWith quote delimiter (body ++ (delimiter ++ rest)))
    (hHead : rest'.head? = some quote → rest.head? = some quote) :
    OpensWith quote delimiter (body ++ (delimiter ++ rest')) := by
  rcases h with rfl | ⟨rfl, hSingle⟩
  · exact .inl rfl
  · refine .inr ⟨rfl, fun hPair => hSingle ?_⟩
    -- with two characters or more in front of `rest`, nothing of it is looked at
    match body with
    | [] =>
      simp only [List.nil_append, List.singleton_append, List.cons_prefix_cons, true_and] at hPair ⊢
      obtain ⟨more, rfl⟩ := hPair
      obtain ⟨tail, rfl⟩ := List.head?_eq_some_iff.1 (hHead rfl)
      exact ⟨tail, rfl⟩
    | [x] => simpa using hPair
    | x :: y :: body => simpa using hPair

end Delimiter

/-! ## One stretch -/

section Stretch

variable {s : Stretch} {c : Char} {rest rest' : Text}

/-- **The lexer takes a whole stretch** and loses nothing. -/
theorem whole_readStretch (c : Char) (rest : Text) :
    (readStretch c rest).1.Whole (readStretch c rest).2 ∧
      c :: rest = (readStretch c rest).1.text ++ (readStretch c rest).2 := by
  unfold readStretch
  by_cases hHash : c = '#'
  · rw [if_pos hHash]
    refine ⟨⟨fun hBreak => ?_, fun d hd => ?_⟩, ?_⟩
    · simpa using List.mem_takeWhile_imp hBreak
    · have hNot := List.head?_dropWhile_not (· ≠ '\n') rest
      rw [hd] at hNot
      simpa using hNot
    · rw [hHash, Stretch.text, List.cons_append, List.takeWhile_append_dropWhile]
  · rw [if_neg hHash]
    by_cases hQuote : isQuote c = true
    · rw [if_pos hQuote]
      obtain ⟨inside, hText, hOpens⟩ := opensWith_delimiterFor c rest
      have hDelimiter := hOpens.ne_nil
      have hInside : (c :: rest).drop (delimiterFor c rest).length = inside := by
        rw [hText, List.drop_left]
      simp only [hInside]
      split
      · rename_i n hLength
        obtain ⟨hBody, hParts⟩ := isBody_of_bodyLength? hDelimiter hLength
        refine ⟨⟨hBody, c, hQuote, ?_⟩, ?_⟩
        · rw [← hParts]
          exact hOpens
        · rw [hText, Stretch.text, List.append_assoc, List.append_assoc, ← hParts]
      · rename_i hNone
        refine ⟨⟨rfl, (bodyLength?_eq_none_iff hDelimiter).1 hNone, c, hQuote, hOpens⟩, ?_⟩
        rw [hText, Stretch.text, List.append_nil]
    · rw [if_neg hQuote]
      exact ⟨⟨hHash, by simpa using hQuote⟩, rfl⟩

theorem Stretch.Whole.text_ne_nil (h : s.Whole rest) : s.text ≠ [] := by
  cases s with
  | code | comment => exact List.cons_ne_nil _ _
  | literal delimiter body =>
    obtain ⟨-, quote, -, hOpens⟩ := h
    exact List.append_ne_nil_of_left_ne_nil hOpens.ne_nil _
  | unclosed delimiter body =>
    obtain ⟨-, -, quote, -, hOpens⟩ := h
    exact List.append_ne_nil_of_left_ne_nil hOpens.ne_nil _

/-- Of the text behind a stretch, the first character is looked at. -/
theorem Stretch.Whole.congr (h : s.Whole rest) (hHead : rest'.head? = rest.head?) :
    s.Whole rest' := by
  cases s with
  | code d => exact h
  | comment remark => exact ⟨h.1, fun c hc => h.2 c (hHead ▸ hc)⟩
  | literal delimiter body =>
    obtain ⟨hBody, quote, hQuote, hOpens⟩ := h
    exact ⟨hBody, quote, hQuote, hOpens.congr fun hFollows => hHead ▸ hFollows⟩
  | unclosed delimiter body =>
    obtain ⟨rfl, hNone, hOpens⟩ := h
    exact ⟨List.head?_eq_none_iff.1 hHead, hNone, hOpens⟩

end Stretch

/-! ## All stretches -/

theorem Separated.of_append {front rest : List Stretch} (h : Separated (front ++ rest)) :
    Separated rest := by
  induction front with
  | nil => exact h
  | cons x front ih => exact ih h.2

theorem stretches_cons (c : Char) (rest : Text) :
    stretches (c :: rest) = (readStretch c rest).1 :: stretches (readStretch c rest).2 := by
  rw [stretches]

/-- **Nothing is lost.** -/
theorem textOf_stretches (text : Text) : textOf (stretches text) = text := by
  induction text using stretches.induct with
  | case1 => rw [stretches, textOf, List.flatMap_nil]
  | case2 c rest ih =>
    rw [stretches_cons, textOf, List.flatMap_cons, ← textOf, ih, ← (whole_readStretch c rest).2]

theorem separated_stretches (text : Text) : Separated (stretches text) := by
  induction text using stretches.induct with
  | case1 =>
    rw [stretches]
    trivial
  | case2 c rest ih =>
    rw [stretches_cons]
    refine ⟨?_, ih⟩
    rw [textOf_stretches]
    exact (whole_readStretch c rest).1

end FieldFill
