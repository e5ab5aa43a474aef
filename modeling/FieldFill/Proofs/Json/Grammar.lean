import FieldFill.Json.Reading
import FieldFill.Json.Value

/-!
# JSON texts

What a JSON text looks like, said without its readers. A text is not determined by what it holds: a
character of a string may be written in several ways, and blanks may stand between any two tokens.
The readers of strings are then run on every text that has this form, with anything behind it.

Main definitions:

* `Gap` — what may stand between two tokens.
* `Spelling` — the ways to write a character of a string.
* `StringText` — a string in its quotes.
* `Listed` — what stands between two brackets, with commas.
* `ListText` — a list, given what its items look like.
* `ObjectText` — an object. The values of its entries may be any texts.

Main results:

* `stringBody_of_spells` — however a string is written, it is read as the string.
* `stringText_quote`, `listText_pretty`, `objectText_pretty` — what the writer of reports writes is of
  this form.
-/

namespace FieldFill.Json

/-! ## Blanks -/

/-- What may stand between two tokens. -/
def Gap (gap : Text) : Prop :=
  ∀ c ∈ gap, c ∈ [' ', '\n', '\t', '\r']

instance (gap : Text) : Decidable (Gap gap) :=
  List.decidableBAll (fun c => c ∈ [' ', '\n', '\t', '\r']) gap

theorem gap_nil : Gap [] := by
  intro c hc
  cases hc

theorem isJsonBlank_iff {c : Char} : isJsonBlank c = true ↔ c ∈ [' ', '\n', '\t', '\r'] := by
  simp [isJsonBlank, or_assoc]

theorem skipBlanks_gap {gap : Text} (hg : Gap gap) (rest : Text) :
    skipBlanks (gap ++ rest) = skipBlanks rest := by
  apply List.dropWhile_append_of_pos
  intro c hc
  exact isJsonBlank_iff.2 (hg c hc)

theorem skipBlanks_eq_nil {gap : Text} (hg : Gap gap) : skipBlanks gap = [] := by
  simpa [skipBlanks] using skipBlanks_gap hg []

/-- The blanks in front of a token are skipped, and no more than these. -/
theorem skipBlanks_token {gap : Text} (hg : Gap gap) {c : Char} (hc : isJsonBlank c = false)
    (rest : Text) : skipBlanks (gap ++ c :: rest) = c :: rest := by
  rw [skipBlanks_gap hg, skipBlanks, List.dropWhile_cons_of_neg (by simp [hc])]

/-! ## Strings -/

/-- The hexadecimal digits, in either case, with their values. -/
def hexDigits : List (Char × Nat) :=
  [('0', 0), ('1', 1), ('2', 2), ('3', 3), ('4', 4), ('5', 5), ('6', 6), ('7', 7), ('8', 8), ('9', 9),
    ('a', 10), ('b', 11), ('c', 12), ('d', 13), ('e', 14), ('f', 15),
    ('A', 10), ('B', 11), ('C', 12), ('D', 13), ('E', 14), ('F', 15)]

/-- A number in four hexadecimal digits. -/
inductive CodeUnit : Nat → Text → Prop
  | mk {d₃ d₂ d₁ d₀ : Char} {v₃ v₂ v₁ v₀ : Nat} :
    (d₃, v₃) ∈ hexDigits → (d₂, v₂) ∈ hexDigits → (d₁, v₁) ∈ hexDigits → (d₀, v₀) ∈ hexDigits →
    CodeUnit (((v₃ * 16 + v₂) * 16 + v₁) * 16 + v₀) [d₃, d₂, d₁, d₀]

/-- The letters behind a backslash that stand for a character, with the character. -/
def shortEscapes : List (Char × Char) :=
  [('\"', '\"'), ('\\', '\\'), ('/', '/'), ('b', '\x08'), ('f', '\x0c'), ('n', '\n'), ('r', '\r'),
    ('t', '\t')]

/-- The ways to write a character of a string. -/
inductive Spelling (c : Char) : Text → Prop
  | plain : 0x20 ≤ c.toNat → c ≠ '\"' → c ≠ '\\' → Spelling c [c]
  | short {letter : Char} : (letter, c) ∈ shortEscapes → Spelling c ['\\', letter]
  | unit {digits : Text} : CodeUnit c.toNat digits → Spelling c ('\\' :: 'u' :: digits)
  /-- A character beyond sixteen bits, as two surrogates. -/
  | pair {high low : Text} :
    0x10000 ≤ c.toNat →
    CodeUnit (0xD800 + (c.toNat - 0x10000) / 0x400) high →
    CodeUnit (0xDC00 + (c.toNat - 0x10000) % 0x400) low →
    Spelling c ('\\' :: 'u' :: high ++ '\\' :: 'u' :: low)

/-- The ways to write the characters of a string one after the other. -/
inductive Spells : Text → Text → Prop
  | nil : Spells [] []
  | cons {c : Char} {string spelled body : Text} :
    Spelling c spelled → Spells string body → Spells (c :: string) (spelled ++ body)

/-- A string in its quotes. -/
inductive StringText (string : Text) : Text → Prop
  | mk {body : Text} : Spells string body → StringText string ('\"' :: body ++ ['\"'])

/-! ### Reading strings -/

theorem hexValue?_of_mem : ∀ p ∈ hexDigits, hexValue? p.1 = some p.2 := by
  decide

theorem hex4_of_codeUnit {n : Nat} {digits : Text} (h : CodeUnit n digits) (rest : Text) :
    hex4 (digits ++ rest) = .ok (n, rest) := by
  obtain ⟨h₃, h₂, h₁, h₀⟩ := h
  simp only [List.cons_append, List.nil_append, hex4, hexValue?_of_mem _ h₃, hexValue?_of_mem _ h₂,
    hexValue?_of_mem _ h₁, hexValue?_of_mem _ h₀]

/-- No character is a surrogate. -/
theorem toNat_lt_or_lt (c : Char) :
    c.toNat < 0xD800 ∨ 0xDFFF < c.toNat ∧ c.toNat < 0x110000 :=
  c.valid

theorem codeUnits_of_unit {c : Char} {digits : Text} (h : CodeUnit c.toNat digits) (rest : Text) :
    codeUnits (digits ++ rest) = .ok (c, rest) := by
  have hc := toNat_lt_or_lt c
  have hlow : isLowSurrogate c.toNat = false := by
    simp only [isLowSurrogate, Bool.and_eq_false_iff, decide_eq_false_iff_not]
    omega
  have hhigh : isHighSurrogate c.toNat = false := by
    simp only [isHighSurrogate, Bool.and_eq_false_iff, decide_eq_false_iff_not]
    omega
  simp [codeUnits, hex4_of_codeUnit h, hlow, hhigh, Char.ofNat_toNat]

theorem codeUnits_of_pair {c : Char} {high low : Text} (hc : 0x10000 ≤ c.toNat)
    (hh : CodeUnit (0xD800 + (c.toNat - 0x10000) / 0x400) high)
    (hl : CodeUnit (0xDC00 + (c.toNat - 0x10000) % 0x400) low) (rest : Text) :
    codeUnits (high ++ '\\' :: 'u' :: low ++ rest) = .ok (c, rest) := by
  have hlt : c.toNat < 0x110000 := by
    have := toNat_lt_or_lt c
    omega
  -- The halves are kept apart from their sums, so that what remains is arithmetic on two numbers.
  generalize hn : 0xD800 + (c.toNat - 0x10000) / 0x400 = n at hh
  generalize hm : 0xDC00 + (c.toNat - 0x10000) % 0x400 = m at hl
  have hcode : (n - 0xD800) * 0x400 + (m - 0xDC00) + 0x10000 = c.toNat := by
    omega
  have hnotLow : isLowSurrogate n = false := by
    simp only [isLowSurrogate, Bool.and_eq_false_iff, decide_eq_false_iff_not]
    omega
  have hhigh : isHighSurrogate n = true := by
    simp only [isHighSurrogate, Bool.and_eq_true, decide_eq_true_eq]
    omega
  have hlow : isLowSurrogate m = true := by
    simp only [isLowSurrogate, Bool.and_eq_true, decide_eq_true_eq]
    omega
  have hsecond : lowSurrogate ('\\' :: 'u' :: (low ++ rest)) = .ok (m, rest) := by
    simp [lowSurrogate, hex4_of_codeUnit hl, hlow]
  simp only [List.append_assoc, List.cons_append, codeUnits, hex4_of_codeUnit hh, hnotLow, hhigh,
    hsecond, hcode, Char.ofNat_toNat, Bool.false_eq_true, if_false, if_true]

theorem escaped_of_short {letter c : Char} (h : (letter, c) ∈ shortEscapes) (rest : Text) :
    escaped (letter :: rest) = .ok (c, rest) := by
  simp only [shortEscapes, List.mem_cons, List.not_mem_nil, or_false, Prod.mk.injEq] at h
  rcases h with ⟨rfl, rfl⟩ | ⟨rfl, rfl⟩ | ⟨rfl, rfl⟩ | ⟨rfl, rfl⟩ | ⟨rfl, rfl⟩ | ⟨rfl, rfl⟩ |
    ⟨rfl, rfl⟩ | ⟨rfl, rfl⟩ <;> rfl

/-- Each way to write a character is read as the character. -/
theorem stringChar_of_spelling {c : Char} {spelled : Text} (h : Spelling c spelled) (rest : Text) :
    stringChar (spelled ++ rest) = .ok (some c, rest) := by
  cases h with
  | plain hc hQuote hSlash =>
    rw [List.cons_append, List.nil_append, stringChar, if_neg (Nat.not_lt.2 hc)]
    · exact hQuote
    · exact hSlash
  | short h => simp [stringChar, escaped_of_short h, Except.map]
  | unit h => simp [stringChar, escaped, codeUnits_of_unit h, Except.map]
  | pair hc hh hl =>
    have := codeUnits_of_pair hc hh hl rest
    simp only [List.append_assoc, List.cons_append] at this
    simp [stringChar, escaped, this, Except.map]

/-- However a string is written, it is read as the string. -/
theorem stringBody_of_spells {string body : Text} (h : Spells string body) (rest : Text) :
    stringBody (body ++ '\"' :: rest) = .ok (string, rest) := by
  induction h with
  | nil =>
    rw [stringBody]
    rfl
  | cons hc _ ih =>
    rw [List.append_assoc, stringBody]
    -- Only the case in which a character is read agrees with `stringChar_of_spelling`.
    split
    · rename_i heq
      cases (stringChar_of_spelling hc _).symm.trans heq
    · rename_i heq
      cases (stringChar_of_spelling hc _).symm.trans heq
    · rename_i heq
      cases (stringChar_of_spelling hc _).symm.trans heq
      rw [ih, Except.map]

/-! ### Writing strings -/

theorem digitChar_mem_hexDigits : ∀ v < 16, (Nat.digitChar v, v) ∈ hexDigits := by
  decide

theorem spelling_escape (c : Char) : Spelling c (JsonValue.escape c) := by
  unfold JsonValue.escape
  split
  case h_8 hQuote hSlash _ _ _ _ _ =>
    split
    · rename_i hc
      refine .unit ?_
      have hunit := CodeUnit.mk (digitChar_mem_hexDigits 0 (by decide))
        (digitChar_mem_hexDigits 0 (by decide))
        (digitChar_mem_hexDigits (c.toNat / 16) (by omega))
        (digitChar_mem_hexDigits (c.toNat % 16) (by omega))
      rwa [show ((0 * 16 + 0) * 16 + c.toNat / 16) * 16 + c.toNat % 16 = c.toNat by omega] at hunit
    · rename_i hc
      exact .plain (Nat.not_lt.1 hc) hQuote hSlash
  all_goals exact .short (by decide)

theorem spells_escape (string : Text) : Spells string (string.flatMap JsonValue.escape) := by
  induction string with
  | nil => exact .nil
  | cons c string ih => exact .cons (spelling_escape c) ih

theorem stringText_quote (string : Text) : StringText string (JsonValue.quote string) :=
  .mk (spells_escape string)

/-! ## Lists and objects -/

/-- What stands between two brackets from some place on: the items, with a comma in front of each but
the first one, and blanks. `first` says that no item stands in front of the place. -/
inductive Listed {α : Type} (Item : α → Text → Prop) : Bool → List α → Text → Prop
  | nil {first : Bool} {gap : Text} : Gap gap → Listed Item first [] gap
  | head {item : α} {items : List α} {gap text rest : Text} :
    Gap gap → Item item text → Listed Item false items rest →
    Listed Item true (item :: items) (gap ++ text ++ rest)
  | next {item : α} {items : List α} {gap gap' text rest : Text} :
    Gap gap → Gap gap' → Item item text → Listed Item false items rest →
    Listed Item false (item :: items) (gap ++ ',' :: gap' ++ text ++ rest)

theorem Listed.gap_of_nil {α : Type} {Item : α → Text → Prop} {first : Bool} {text : Text}
    (h : Listed Item first [] text) : Gap text := by
  cases h with
  | nil hg => exact hg

/-- A list in its brackets. -/
inductive ListText {α : Type} (Item : α → Text → Prop) (items : List α) : Text → Prop
  | mk {body : Text} : Listed Item true items body → ListText Item items ('[' :: body ++ [']'])

/-- A list of strings. -/
def StringsText : List Text → Text → Prop :=
  ListText StringText

/-- A key of an object and the text of its value. -/
structure Entry where
  name : Text
  value : Text

inductive EntryText (entry : Entry) : Text → Prop
  | mk {key gap gap' : Text} :
    StringText entry.name key → Gap gap → Gap gap' →
    EntryText entry (key ++ gap ++ ':' :: gap' ++ entry.value)

/-- A text that is an object with these entries. -/
inductive ObjectText (entries : List Entry) : Text → Prop
  | mk {gap body gap' : Text} :
    Gap gap → Listed EntryText true entries body → Gap gap' →
    ObjectText entries (gap ++ '\x7b' :: body ++ '\x7d' :: gap')

theorem StringText.exists_cons {string text : Text} (h : StringText string text) :
    ∃ rest, text = '\"' :: rest := by
  obtain ⟨-⟩ := h
  exact ⟨_, rfl⟩

theorem EntryText.exists_cons {entry : Entry} {text : Text} (h : EntryText entry text) :
    ∃ rest, text = '\"' :: rest := by
  obtain ⟨hKey, -, -⟩ := h
  obtain ⟨rest, rfl⟩ := hKey.exists_cons
  exact ⟨_, rfl⟩

/-! ### Writing lists and objects -/

/-- Items with nothing but commas between them. -/
def joined {α : Type} (write : α → Text) : List α → Text
  | [] => []
  | item :: items => write item ++ items.flatMap fun other => ',' :: write other

theorem listed_joined {α : Type} {Item : α → Text → Prop} {write : α → Text}
    (hw : ∀ item, Item item (write item)) (items : List α) :
    Listed Item true items (joined write items) := by
  -- The first item has no comma, so that the induction starts behind it.
  have hTail : ∀ items, Listed Item false items (items.flatMap fun other => ',' :: write other) := by
    intro items
    induction items with
    | nil => exact .nil gap_nil
    | cons item items ih => exact .next gap_nil gap_nil (hw item) ih
  cases items with
  | nil => exact .nil gap_nil
  | cons item items => exact .head gap_nil (hw item) (hTail items)

/-- An object without blanks. -/
def compact (entries : List Entry) : Text :=
  let write := fun entry : Entry => JsonValue.quote entry.name ++ ':' :: entry.value
  '\x7b' :: joined write entries ++ ['\x7d']

theorem objectText_compact (entries : List Entry) : ObjectText entries (compact entries) := by
  refine .mk gap_nil (listed_joined ?_ entries) gap_nil
  intro entry
  have hText := EntryText.mk (stringText_quote entry.name) gap_nil gap_nil
  rwa [List.append_nil, List.append_assoc] at hText

theorem gap_indentation (depth : Nat) : Gap ('\n' :: JsonValue.indentation depth) := by
  intro c hc
  rcases List.mem_cons.1 hc with rfl | hc
  · decide
  · rw [List.eq_of_mem_replicate hc]
    decide

theorem listed_prettyItems {α : Type} {Item : α → Text → Prop} {value : α → JsonValue} {depth : Nat}
    (hw : ∀ item, Item item ((value item).pretty depth)) (items : List α) {gap : Text}
    (hg : Gap gap) :
    Listed Item false items (JsonValue.prettyItems depth (items.map value) ++ gap) := by
  induction items with
  | nil => exact .nil hg
  | cons item items ih =>
    have := Listed.next gap_nil (gap_indentation depth) (hw item) ih
    simpa [JsonValue.prettyItems] using this

/-- A list is written as one of what its items are written as. -/
theorem listText_pretty {α : Type} {Item : α → Text → Prop} {value : α → JsonValue} {depth : Nat}
    (hw : ∀ item, Item item ((value item).pretty (depth + 1))) (items : List α) :
    ListText Item items ((JsonValue.list (items.map value)).pretty depth) := by
  cases items with
  | nil => exact .mk (.nil gap_nil)
  | cons item items =>
    have := ListText.mk (.head (gap_indentation (depth + 1)) (hw item)
      (listed_prettyItems hw items (gap_indentation depth)))
    simpa [JsonValue.pretty] using this

theorem stringText_pretty (depth : Nat) (string : Text) :
    StringText string ((JsonValue.text string).pretty depth) := by
  rw [JsonValue.pretty]
  exact stringText_quote string

theorem stringsText_pretty (depth : Nat) (strings : List Text) :
    StringsText strings (JsonValue.pretty depth (.list (strings.map .text))) :=
  listText_pretty (stringText_pretty (depth + 1)) strings

/-- The entries of an object as the writer of reports writes them. -/
def prettyEntries (depth : Nat) (members : List (Text × JsonValue)) : List Entry :=
  members.map fun (key, value) => ⟨key, value.pretty depth⟩

theorem entryText_pretty (depth : Nat) (key : Text) (value : JsonValue) :
    EntryText ⟨key, value.pretty depth⟩
      (JsonValue.quote key ++ ':' :: ' ' :: value.pretty depth) := by
  have hText : EntryText ⟨key, value.pretty depth⟩
      (JsonValue.quote key ++ [] ++ ':' :: [' '] ++ value.pretty depth) :=
    .mk (stringText_quote key) gap_nil (by decide)
  simpa using hText

theorem listed_prettyMembers (depth : Nat) (members : List (Text × JsonValue)) {gap : Text}
    (hg : Gap gap) :
    Listed EntryText false (prettyEntries depth members)
      (JsonValue.prettyMembers depth members ++ gap) := by
  induction members with
  | nil => exact .nil hg
  | cons member members ih =>
    obtain ⟨key, value⟩ := member
    have := Listed.next gap_nil (gap_indentation depth) (entryText_pretty depth key value) ih
    simpa [prettyEntries, JsonValue.prettyMembers] using this

theorem objectText_pretty (depth : Nat) (members : List (Text × JsonValue)) :
    ObjectText (prettyEntries (depth + 1) members) ((JsonValue.object members).pretty depth) := by
  cases members with
  | nil => exact .mk gap_nil (.nil gap_nil) gap_nil
  | cons member members =>
    obtain ⟨key, value⟩ := member
    have := ObjectText.mk gap_nil (.head (gap_indentation (depth + 1))
      (entryText_pretty (depth + 1) key value)
      (listed_prettyMembers (depth + 1) members (gap_indentation depth))) gap_nil
    simpa [prettyEntries, JsonValue.pretty] using this

end FieldFill.Json
