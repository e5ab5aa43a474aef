import FieldFill.Proofs.Json.Grammar
import FieldFill.Settings.Reading
import Mathlib.Data.List.Perm.Subperm

/-!
# What the members of settings are read from

The readers of values and of keys, run on every text that writes a value or an entry of an object, with
anything behind it.

Main definitions:

* `Member.Value` — the texts that write the value of a member.
* `Member.copy` — the value of one member taken over.

Main results:

* `stringItems_of_listed` — what is read from a list of strings.
* `Member.read_of_value` — the value of a member is read as it is written.
* `readString_of_entryText` — the key of an entry and what stands behind its colon.
-/

namespace FieldFill

theorem BodyPolicy.ofName?_name (policy : BodyPolicy) : ofName? policy.name.toList = some policy := by
  cases policy <;> decide

namespace Settings

open Json

/-! ## Values -/

theorem readString_of_stringText {string text : Text} (h : StringText string text) (expected : String)
    (last : Text) : readString expected (text ++ last) = .ok (string, last) := by
  obtain ⟨h⟩ := h
  simpa [readString, skipBlanks, isJsonBlank] using stringBody_of_spells h last

/-- In front of an item, the separator and the blanks are passed over. -/
theorem nextItem_of_listed {first : Bool} {string : Text} {strings : List Text} {text : Text}
    (h : Listed StringText first (string :: strings) text) (last : Text) :
    ∃ written rest, StringText string written ∧ Listed StringText false strings rest ∧
      nextItem first (text ++ last) = .ok (true, written ++ (rest ++ last)) := by
  cases h with
  | head hg ht hr =>
    refine ⟨_, _, ht, hr, ?_⟩
    obtain ⟨inner, rfl⟩ := ht.exists_cons
    simp only [List.append_assoc, List.cons_append, nextItem]
    rw [skipBlanks_token hg (by decide)]
    rfl
  | next hg hg' ht hr =>
    refine ⟨_, _, ht, hr, ?_⟩
    obtain ⟨inner, rfl⟩ := ht.exists_cons
    have hComma := fun rest => skipBlanks_token hg (show isJsonBlank ',' = false by decide) rest
    have hQuote := fun rest => skipBlanks_token hg' (show isJsonBlank '\"' = false by decide) rest
    simp [nextItem, hComma, hQuote]

theorem nextItem_of_gap {first : Bool} {gap : Text} (hg : Gap gap) (last : Text) :
    nextItem first (gap ++ ']' :: last) = .ok (false, ']' :: last) := by
  rw [nextItem, skipBlanks_token hg (by decide)]
  rfl

theorem stringItems_of_end {first : Bool} {text rest : Text}
    (hNext : nextItem first text = .ok (false, rest)) : stringItems first text = .ok ([], rest) := by
  rw [stringItems]
  split <;> simp_all

theorem stringItems_of_item {first : Bool} {text rest string after : Text}
    (hNext : nextItem first text = .ok (true, rest))
    (hItem : readString "a string" rest = .ok (string, after)) :
    stringItems first text =
      (stringItems false after).map fun (strings, last) => (string :: strings, last) := by
  rw [stringItems]
  split
  · simp_all
  · simp_all
  · rename_i heq
    cases hNext.symm.trans heq
    split
    · simp_all
    · rename_i heq
      cases hItem.symm.trans heq
      rfl

theorem stringItems_of_listed {first : Bool} {strings : List Text} {text : Text}
    (h : Listed StringText first strings text) (last : Text) :
    stringItems first (text ++ ']' :: last) = .ok (strings, ']' :: last) := by
  induction strings generalizing first text with
  | nil =>
    exact stringItems_of_end (nextItem_of_gap h.gap_of_nil last)
  | cons string strings ih =>
    obtain ⟨written, rest, hw, hr, hNext⟩ := nextItem_of_listed h (']' :: last)
    rw [stringItems_of_item hNext (readString_of_stringText hw _ _), ih hr, Except.map]

theorem readStrings_of_stringsText {strings : List Text} {text : Text} (h : StringsText strings text)
    (last : Text) : readStrings (text ++ last) = .ok (strings, last) := by
  obtain ⟨h⟩ := h
  have hItems := stringItems_of_listed h last
  simp [readStrings, hItems, closeList, skipBlanks, isJsonBlank, bind, Except.bind, pure, Except.pure]

theorem readPolicy_of_stringText {policy : BodyPolicy} {text : Text}
    (h : StringText policy.name.toList text) (last : Text) :
    readPolicy (text ++ last) = .ok (policy, last) := by
  have hName := readString_of_stringText h "variant identifier" last
  obtain ⟨inner, rfl⟩ := h.exists_cons
  rw [List.cons_append] at hName ⊢
  rw [readPolicy, skipBlanks, List.dropWhile_cons_of_neg (by decide)]
  simp [readPolicyName, hName, BodyPolicy.ofName?_name, bind, Except.bind, pure, Except.pure]

/-! ## Members -/

namespace Member

/-- The texts that write the value which settings have for a member. -/
def Value (s : Settings) : Member → Text → Prop
  | receiverNames => StringsText s.receiverNames
  | defaultReceiver => StringText s.defaultReceiver
  | indentUnit => StringText s.indentUnit
  | bodyPolicy => StringText s.bodyPolicy.name.toList

/-- Settings with the value of one member taken from others. -/
def copy (source target : Settings) : Member → Settings
  | receiverNames => { target with receiverNames := source.receiverNames }
  | defaultReceiver => { target with defaultReceiver := source.defaultReceiver }
  | indentUnit => { target with indentUnit := source.indentUnit }
  | bodyPolicy => { target with bodyPolicy := source.bodyPolicy }

theorem value_copy_self {source target : Settings} {m : Member} {text : Text} :
    m.Value (m.copy source target) text ↔ m.Value source text := by
  cases m <;> rfl

theorem value_copy_of_ne {source target : Settings} {k m : Member} {text : Text} (h : k ≠ m) :
    k.Value (m.copy source target) text ↔ k.Value target text := by
  cases k <;> cases m <;> simp_all [Value, copy]

theorem read_gap {m : Member} {target : Settings} {gap : Text} (hg : Gap gap) (text : Text) :
    m.read target (gap ++ text) = m.read target text := by
  cases m <;> simp only [read, readStrings, readString, readPolicy, skipBlanks_gap hg]

theorem read_of_value {source target : Settings} {m : Member} {text : Text}
    (h : m.Value source text) (last : Text) :
    m.read target (text ++ last) = .ok (m.copy source target, last) := by
  cases m with
  | receiverNames => rw [read, readStrings_of_stringsText h last]; rfl
  | defaultReceiver => rw [read, readString_of_stringText h _ last]; rfl
  | indentUnit => rw [read, readString_of_stringText h _ last]; rfl
  | bodyPolicy => rw [read, readPolicy_of_stringText h last]; rfl

theorem mem_all (m : Member) : m ∈ all := by
  cases m <;> decide

theorem length_le_all {members : List Member} (h : members.Nodup) : members.length ≤ all.length :=
  (h.subperm fun m _ => mem_all m).length_le

theorem ofName?_name (m : Member) : ofName? m.name.toList = some m := by
  cases m <;> decide

theorem ofName?_eq_none {name : Text} (h : name ∉ all.map fun m => m.name.toList) :
    ofName? name = none := by
  refine List.find?_eq_none.2 ?_
  intro m hm hName
  exact h (List.mem_map.2 ⟨m, hm, by simpa using hName⟩)

end Member

/-! ## Keys -/

/-- In front of an entry, the separator and the blanks are passed over. -/
theorem nextKey_of_listed {first : Bool} {entry : Entry} {entries : List Entry} {text : Text}
    (h : Listed EntryText first (entry :: entries) text) (last : Text) :
    ∃ written rest, EntryText entry written ∧ Listed EntryText false entries rest ∧
      nextKey first (text ++ last) = .ok (true, written ++ (rest ++ last)) := by
  cases h with
  | head hg ht hr =>
    refine ⟨_, _, ht, hr, ?_⟩
    obtain ⟨inner, rfl⟩ := ht.exists_cons
    simp only [List.append_assoc, List.cons_append, nextKey]
    rw [skipBlanks_token hg (by decide)]
    rfl
  | next hg hg' ht hr =>
    refine ⟨_, _, ht, hr, ?_⟩
    obtain ⟨inner, rfl⟩ := ht.exists_cons
    have hComma := fun rest => skipBlanks_token hg (show isJsonBlank ',' = false by decide) rest
    have hQuote := fun rest => skipBlanks_token hg' (show isJsonBlank '\"' = false by decide) rest
    simp [nextKey, hComma, hQuote]

theorem nextKey_of_gap {first : Bool} {gap : Text} (hg : Gap gap) (last : Text) :
    nextKey first (gap ++ '\x7d' :: last) = .ok (false, '\x7d' :: last) := by
  rw [nextKey, skipBlanks_token hg (by decide)]
  rfl

/-- The name of an entry is read from its key, and the value stands behind the colon. -/
theorem readString_of_entryText {entry : Entry} {text : Text} (h : EntryText entry text) (last : Text) :
    ∃ rest gap, Gap gap ∧ readString "a string" (text ++ last) = .ok (entry.name, rest) ∧
      afterColon rest = .ok (gap ++ (entry.value ++ last)) := by
  cases h with
  | @mk key gap gap' hKey hg hg' =>
    refine ⟨gap ++ ':' :: (gap' ++ (entry.value ++ last)), gap', hg', ?_, ?_⟩
    · simpa using readString_of_stringText hKey _ (gap ++ ':' :: (gap' ++ (entry.value ++ last)))
    · rw [afterColon, skipBlanks_token hg (by decide)]
      rfl

end Settings

end FieldFill
