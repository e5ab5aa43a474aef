import FieldFill.Text.Basic

/-!
# Parts of a text by byte position

A position is good when the bytes of a part in front of it add up to it, and then the text falls
into the part before and the part from there on in one way only.

* `splitAt?_eq_some_iff` — the two parts at a position.
* `charAt?`, `charBefore?`, `slice?` — the characters at a position, and the text between two
  positions.
* `exists_between` — the part between two positions.
-/

namespace FieldFill

theorem byteLength_cons (c : Char) (rest : Text) :
    byteLength (c :: rest) = c.utf8Size + byteLength rest := rfl

theorem length_le_byteLength (text : Text) : text.length ≤ byteLength text := by
  induction text with
  | nil => exact Nat.le_refl 0
  | cons c text ih =>
    have hc := Char.utf8Size_pos c
    rw [List.length_cons, byteLength]
    omega

/-- The character that starts at a byte position. -/
def charAt? (text : Text) (offset : Nat) : Option Char :=
  (splitAt? text offset).bind fun (_, after) => after.head?

/-- The character that ends at a byte position. -/
def charBefore? (text : Text) (offset : Nat) : Option Char :=
  (splitAt? text offset).bind fun (before, _) => before.getLast?

/-- The text from one byte position up to another. -/
def slice? (text : Text) (start stop : Nat) : Option Text :=
  if start ≤ stop then
    (splitAt? text start).bind fun (_, after) => (splitAt? after (stop - start)).map Prod.fst
  else none

theorem splitAt?_eq_some_iff {text before after : Text} {offset : Nat} :
    splitAt? text offset = some (before, after) ↔
      text = before ++ after ∧ offset = byteLength before := by
  constructor
  · exact eq_of_splitAt?
  · rintro ⟨rfl, rfl⟩
    exact splitAt?_byteLength before after

theorem charAt?_eq_some_iff {text : Text} {offset : Nat} {c : Char} :
    charAt? text offset = some c ↔
      ∃ before after, text = before ++ c :: after ∧ offset = byteLength before := by
  rw [charAt?, Option.bind_eq_some_iff]
  constructor
  · rintro ⟨⟨before, after⟩, hSplit, hHead⟩
    obtain ⟨rfl, rfl⟩ := splitAt?_eq_some_iff.1 hSplit
    cases after with
    | nil => cases hHead
    | cons d after =>
      obtain rfl : d = c := by simpa using hHead
      exact ⟨before, after, rfl, rfl⟩
  · rintro ⟨before, after, rfl, rfl⟩
    exact ⟨(before, c :: after), splitAt?_byteLength before _, rfl⟩

theorem charAt?_append (before after : Text) :
    charAt? (before ++ after) (byteLength before) = after.head? := by
  rw [charAt?, splitAt?_byteLength, Option.bind_some]

theorem charBefore?_append (before after : Text) :
    charBefore? (before ++ after) (byteLength before) = before.getLast? := by
  rw [charBefore?, splitAt?_byteLength, Option.bind_some]

theorem slice?_eq_some_iff {text part : Text} {start stop : Nat} :
    slice? text start stop = some part ↔
      ∃ before after, text = before ++ part ++ after ∧ start = byteLength before ∧
        stop = byteLength before + byteLength part := by
  rw [slice?]
  constructor
  · intro h
    split at h
    · rename_i hle
      obtain ⟨⟨before, rest⟩, hSplit, hPart⟩ := Option.bind_eq_some_iff.1 h
      obtain ⟨⟨part', after⟩, hRest, rfl⟩ := Option.map_eq_some_iff.1 hPart
      obtain ⟨rfl, rfl⟩ := splitAt?_eq_some_iff.1 hSplit
      obtain ⟨rfl, hLength⟩ := splitAt?_eq_some_iff.1 hRest
      refine ⟨before, after, (List.append_assoc ..).symm, rfl, ?_⟩
      -- the length of the part is the difference of the two positions
      dsimp only at hLength ⊢
      omega
    · cases h
  · rintro ⟨before, after, rfl, rfl, rfl⟩
    rw [if_pos (Nat.le_add_right ..), List.append_assoc, splitAt?_byteLength, Option.bind_some,
      Nat.add_sub_cancel_left]
    dsimp only
    rw [splitAt?_byteLength, Option.map_some]

theorem charAt?_of_splitAt? {text before after : Text} {offset : Nat}
    (h : splitAt? text offset = some (before, after)) : charAt? text offset = after.head? := by
  rw [charAt?, h, Option.bind_some]

/-- A slice is a part in front of what follows its start. -/
theorem slice?_of_splitAt? {text before after part : Text} {start stop : Nat}
    (h : splitAt? text start = some (before, after)) :
    slice? text start stop = some part ↔
      ∃ rest, after = part ++ rest ∧ stop = start + byteLength part := by
  obtain ⟨rfl, rfl⟩ := splitAt?_eq_some_iff.1 h
  rw [slice?_eq_some_iff]
  constructor
  · rintro ⟨before', rest, hText, hStart, hStop⟩
    -- a position splits a text in one way only
    have hSplit := splitAt?_byteLength before' (part ++ rest)
    rw [← List.append_assoc, ← hText, ← hStart, splitAt?_byteLength, Option.some.injEq,
      Prod.mk.injEq] at hSplit
    exact ⟨rest, hSplit.2, by rw [hStop, hStart]⟩
  · rintro ⟨rest, rfl, rfl⟩
    exact ⟨before, rest, (List.append_assoc ..).symm, rfl, rfl⟩

theorem byteLength_eq_zero {text : Text} (h : byteLength text = 0) : text = [] := by
  cases text with
  | nil => rfl
  | cons c rest =>
    have hc := Char.utf8Size_pos c
    rw [byteLength_cons] at h
    omega

/-- Between two positions stands one part, which the splits at both have in common. -/
theorem exists_between {text before after front back : Text} {start stop : Nat}
    (hStart : splitAt? text start = some (before, after))
    (hStop : splitAt? text stop = some (front, back)) (hle : start ≤ stop) :
    ∃ middle, front = before ++ middle ∧ after = middle ++ back ∧
      stop = start + byteLength middle := by
  obtain ⟨hText, hBefore⟩ := eq_of_splitAt? hStart
  obtain ⟨hText', hFront⟩ := eq_of_splitAt? hStop
  rcases List.append_eq_append_iff.1 (hText.symm.trans hText') with
    ⟨middle, hEq, hAfter⟩ | ⟨extra, hEq, hBack⟩
  · refine ⟨middle, hEq, hAfter, ?_⟩
    rw [hFront, hEq, byteLength_append, hBefore]
  · -- `stop` is not in front of `start`, so nothing is between them
    have hLength := congrArg byteLength hEq
    rw [byteLength_append] at hLength
    obtain rfl : extra = [] := byteLength_eq_zero (by omega)
    rw [List.append_nil] at hEq
    rw [List.nil_append] at hBack
    refine ⟨[], by rw [hEq, List.append_nil], by rw [hBack, List.nil_append], ?_⟩
    rw [hFront, ← hEq, hBefore]
    rfl

end FieldFill
