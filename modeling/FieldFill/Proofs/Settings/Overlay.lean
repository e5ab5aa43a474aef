import FieldFill.Proofs.Settings.Values
import Mathlib.Data.List.Forall2

/-!
# Settings overlay the defaults

A text with settings is an object with some of the members, in some order. The settings read from it
have the values that are written for these members and the defaults for the others, whatever strings
the values are made of, however these are escaped, and whatever blanks stand between the tokens. An
object that has a key of another name, or one member twice, is refused for that.

Main definitions:

* `overlay` — settings on some members, and the defaults elsewhere.
* `Holds` — an entry that gives a member its value.
* `Refused` — a text that is refused for a fault.
* `write`, `toJson` — two ways to write settings.

Main results:

* `readMembers_run` — what a row of members leaves behind.
* `settings_overlay_defaults` — what is read from an object, and what is refused.
-/

namespace FieldFill.Settings

open Json

/-! ## Settings on some members -/

/-- What settings say of some members, and the defaults of the others. -/
def overlay (s : Settings) (members : List Member) : Settings where
  receiverNames := if .receiverNames ∈ members then s.receiverNames else default.receiverNames
  defaultReceiver := if .defaultReceiver ∈ members then s.defaultReceiver else default.defaultReceiver
  indentUnit := if .indentUnit ∈ members then s.indentUnit else default.indentUnit
  bodyPolicy := if .bodyPolicy ∈ members then s.bodyPolicy else default.bodyPolicy

@[simp] theorem overlay_nil (s : Settings) : s.overlay [] = default := by
  simp [overlay]

theorem overlay_all (s : Settings) : s.overlay Member.all = s := by
  simp [overlay, Member.mem_all]

theorem copy_overlay (s : Settings) (m : Member) (members : List Member) :
    m.copy s (s.overlay members) = s.overlay (m :: members) := by
  cases m <;> simp [Member.copy, overlay]

theorem overlay_congr {s : Settings} {members others : List Member}
    (h : ∀ m, m ∈ members ↔ m ∈ others) : s.overlay members = s.overlay others := by
  simp only [overlay, h]

/-- An entry that gives a member the value which settings have for it. -/
def Holds (s : Settings) (m : Member) (entry : Entry) : Prop :=
  entry.name = m.name.toList ∧ m.Value s entry.value

theorem holds_copy_of_notMem {s other : Settings} {m : Member} {members : List Member}
    {entries : List Entry} (hHolds : List.Forall₂ (Holds s) members entries) (hm : m ∉ members) :
    List.Forall₂ (Holds (m.copy other s)) members entries := by
  have hNe : ∀ k ∈ members, k ≠ m := by
    intro k hk hEq
    exact hm (hEq ▸ hk)
  refine ((List.forall₂_and_left members entries).2 ⟨hNe, hHolds⟩).imp ?_
  rintro k entry ⟨hk, hName, hValue⟩
  exact ⟨hName, (Member.value_copy_of_ne hk).2 hValue⟩

/-- A text is refused for a fault; the message says where. -/
def Refused (fault : Fault) (origin text : Text) : Prop :=
  ∃ failure : Failure, failure.fault = fault ∧
    parse origin text = .error ⟨origin, failure.message text⟩

/-! ## Entries -/

section
variable {s target : Settings} {m : Member} {entry : Entry} {entries : List Entry}
  {known : List Member} {text : Text}

/-- An entry that gives its value to a member which has none yet. -/
theorem readMembers_of_holds (hText : Listed EntryText known.isEmpty (entry :: entries) text)
    (hHolds : Holds s m entry) (hNew : m ∉ known) (target : Settings) (last : Text) :
    ∃ rest, Listed EntryText false entries rest ∧ ∀ steps,
      readMembers (steps + 1) known target (text ++ last) =
        readMembers steps (m :: known) (m.copy s target) (rest ++ last) := by
  obtain ⟨written, rest, hWritten, hRest, hNext⟩ := nextKey_of_listed hText last
  obtain ⟨behind, gap, hg, hKey, hColon⟩ := readString_of_entryText hWritten (rest ++ last)
  obtain ⟨hName, hValue⟩ := hHolds
  have hRead : m.read target (gap ++ (entry.value ++ (rest ++ last))) =
      .ok (m.copy s target, rest ++ last) := by
    rw [Member.read_gap hg, Member.read_of_value hValue]
  refine ⟨rest, hRest, fun steps => ?_⟩
  simp [readMembers, hNext, readKey, hKey, hName, Member.ofName?_name, hNew, hColon, hRead, bind,
    Except.bind, pure, Except.pure]

theorem readMembers_of_end (hText : Listed EntryText known.isEmpty [] text) (steps : Nat) (last : Text) :
    readMembers (steps + 1) known target (text ++ '\x7d' :: last) = .ok (target, '\x7d' :: last) := by
  simp [readMembers, nextKey_of_gap hText.gap_of_nil, bind, Except.bind, pure, Except.pure]

/-- A key that is not the name of a member is refused, whatever stands behind it. -/
theorem readMembers_of_foreign (hText : Listed EntryText known.isEmpty (entry :: entries) text)
    (hName : entry.name ∉ Member.all.map fun m => m.name.toList) (steps : Nat) (last : Text) :
    ∃ failure, failure.fault = .unknownField entry.name (Member.all.map Member.name) ∧
      readMembers (steps + 1) known target (text ++ last) = .error failure := by
  obtain ⟨written, rest, hWritten, -, hNext⟩ := nextKey_of_listed hText last
  obtain ⟨behind, -, -, hKey, -⟩ := readString_of_entryText hWritten (rest ++ last)
  refine ⟨⟨_, pastKey behind, 0⟩, rfl, ?_⟩
  simp [readMembers, hNext, readKey, hKey, Member.ofName?_eq_none hName, failHere, bind, Except.bind]

/-- The key of a member that has its value is refused, whatever stands behind it. -/
theorem readMembers_of_known (hText : Listed EntryText known.isEmpty (entry :: entries) text)
    (hName : entry.name = m.name.toList) (hKnown : m ∈ known) (steps : Nat) (last : Text) :
    ∃ failure, failure.fault = .duplicateField m.name ∧
      readMembers (steps + 1) known target (text ++ last) = .error failure := by
  obtain ⟨written, rest, hWritten, -, hNext⟩ := nextKey_of_listed hText last
  obtain ⟨behind, -, -, hKey, -⟩ := readString_of_entryText hWritten (rest ++ last)
  refine ⟨⟨_, pastKey behind, 0⟩, rfl, ?_⟩
  simp [readMembers, hNext, readKey, hKey, hName, Member.ofName?_name, hKnown, failHere, bind,
    Except.bind]

/-- **A row of members**: their values are read over the defaults, and the reading goes on behind them
as if they had been read in one step. -/
theorem readMembers_run {members : List Member} {before after : List Entry}
    (hHolds : List.Forall₂ (Holds s) members before) (hNodup : members.Nodup)
    (hNew : ∀ m ∈ members, m ∉ known)
    (hText : Listed EntryText known.isEmpty (before ++ after) text) (last : Text) :
    ∃ rest, Listed EntryText (members.reverse ++ known).isEmpty after rest ∧ ∀ steps,
      readMembers (steps + members.length) known (s.overlay known) (text ++ last) =
        readMembers steps (members.reverse ++ known) (s.overlay (members.reverse ++ known))
          (rest ++ last) := by
  -- What has been read is always the settings on the known members, so that the induction needs no
  -- more than the list of these.
  induction hHolds generalizing known text with
  | nil => exact ⟨text, hText, fun steps => rfl⟩
  | @cons m entry members before hEntry hHolds ih =>
    obtain ⟨hNotMem, hNodup⟩ := List.nodup_cons.1 hNodup
    obtain ⟨behind, hBehind, hStep⟩ :=
      readMembers_of_holds hText hEntry (hNew m List.mem_cons_self) (s.overlay known) last
    have hNew' : ∀ k ∈ members, k ∉ m :: known := by
      intro k hk hMem
      rcases List.mem_cons.1 hMem with rfl | hMem
      · exact hNotMem hk
      · exact hNew k (List.mem_cons_of_mem m hk) hMem
    obtain ⟨rest, hRest, hRun⟩ := ih hNodup hNew' hBehind
    rw [List.reverse_cons, List.append_assoc]
    refine ⟨rest, hRest, fun steps => ?_⟩
    rw [List.length_cons, ← Nat.add_assoc, hStep, copy_overlay]
    exact hRun steps

/-- The first members of an object. There are steps enough for them and for what stands behind. -/
theorem readMembers_row {members : List Member} {before after : List Entry}
    (hHolds : List.Forall₂ (Holds s) members before) (hNodup : members.Nodup)
    (hText : Listed EntryText true (before ++ after) text) (last : Text) :
    ∃ rest steps, Listed EntryText members.reverse.isEmpty after rest ∧
      readMembers (Member.all.length + 1) [] default (text ++ last) =
        readMembers (steps + 1) members.reverse (s.overlay members) (rest ++ last) := by
  have hText' : Listed EntryText ([] : List Member).isEmpty (before ++ after) text :=
    hText
  obtain ⟨rest, hRest, hRun⟩ := readMembers_run hHolds hNodup (by simp) hText' last
  rw [List.append_nil] at hRest hRun
  have hSteps : Member.all.length + 1 = Member.all.length - members.length + 1 + members.length := by
    have := Member.length_le_all hNodup
    omega
  refine ⟨rest, Member.all.length - members.length, hRest, ?_⟩
  rw [hSteps, ← overlay_nil s, hRun]
  congr 1
  -- The known members stand in the opposite order, which the settings do not show.
  exact overlay_congr (by simp)

end

/-! ## Objects -/

section
variable {s other : Settings} {m : Member} {members : List Member}
  {before after entries : List Entry} {extra : Entry} {text : Text}

/-- What the members of an object come to decides about the text: only blanks stand around it. -/
theorem parse_of_objectText (hText : ObjectText entries text) :
    ∃ body last, Listed EntryText true entries body ∧
      (∀ settings, readMembers (Member.all.length + 1) [] default (body ++ '\x7d' :: last) =
        .ok (settings, '\x7d' :: last) → ∀ origin, parse origin text = .ok settings) ∧
      ∀ failure, readMembers (Member.all.length + 1) [] default (body ++ '\x7d' :: last) =
        .error failure → ∀ origin, parse origin text = .error ⟨origin, failure.message text⟩ := by
  cases hText with
  | @mk gap body gap' hg hBody hg' =>
    have hOpen := skipBlanks_token hg (show isJsonBlank '\x7b' = false by decide)
      (body ++ '\x7d' :: gap')
    rw [List.append_assoc, List.cons_append]
    have hClose : closeObject ('\x7d' :: gap') = .ok gap' := by
      rw [closeObject, skipBlanks, List.dropWhile_cons_of_neg (by decide)]
      rfl
    refine ⟨body, gap', hBody, ?_, ?_⟩
    · intro settings hMembers origin
      simp [parse, ofJson, read, hOpen, hMembers, hClose, skipBlanks_eq_nil hg', bind, Except.bind,
        pure, Except.pure, Except.mapError]
    · intro failure hMembers origin
      simp [parse, ofJson, read, hOpen, hMembers, bind, Except.bind, Except.mapError]

theorem parse_of_holds (hNodup : members.Nodup) (hHolds : List.Forall₂ (Holds s) members entries)
    (hText : ObjectText entries text) (origin : Text) : parse origin text = .ok (s.overlay members) := by
  obtain ⟨body, last, hBody, hParse, -⟩ := parse_of_objectText hText
  rw [← List.append_nil entries] at hBody
  obtain ⟨rest, steps, hRest, hRow⟩ := readMembers_row hHolds hNodup hBody ('\x7d' :: last)
  exact hParse _ (hRow.trans (readMembers_of_end hRest steps last)) origin

/-- A text is refused for the key that is refused behind a row of its members. -/
theorem refused_of_row {fault : Fault} (hNodup : members.Nodup)
    (hHolds : List.Forall₂ (Holds s) members before)
    (hKey : ∀ rest steps last, Listed EntryText members.reverse.isEmpty (extra :: after) rest →
      ∃ failure, failure.fault = fault ∧
        readMembers (steps + 1) members.reverse (s.overlay members) (rest ++ last) = .error failure)
    (hText : ObjectText (before ++ extra :: after) text) (origin : Text) :
    Refused fault origin text := by
  obtain ⟨body, last, hBody, -, hParse⟩ := parse_of_objectText hText
  obtain ⟨rest, steps, hRest, hRow⟩ := readMembers_row hHolds hNodup hBody ('\x7d' :: last)
  obtain ⟨failure, hFault, hError⟩ := hKey rest steps ('\x7d' :: last) hRest
  exact ⟨failure, hFault, hParse _ (hRow.trans hError) origin⟩

theorem refused_of_foreign (hNodup : members.Nodup) (hHolds : List.Forall₂ (Holds s) members before)
    (hName : extra.name ∉ Member.all.map fun m => m.name.toList)
    (hText : ObjectText (before ++ extra :: after) text) (origin : Text) :
    Refused (.unknownField extra.name (Member.all.map Member.name)) origin text := by
  refine refused_of_row hNodup hHolds ?_ hText origin
  intro rest steps last hRest
  exact readMembers_of_foreign hRest hName steps last

theorem refused_of_known (hNodup : members.Nodup) (hHolds : List.Forall₂ (Holds s) members before)
    (hm : m ∈ members) (hName : extra.name = m.name.toList)
    (hText : ObjectText (before ++ extra :: after) text) (origin : Text) :
    Refused (.duplicateField m.name) origin text := by
  refine refused_of_row hNodup hHolds ?_ hText origin
  intro rest steps last hRest
  exact readMembers_of_known hRest hName (List.mem_reverse.2 hm) steps last

/-- The members in front of a place between two entries, and those behind it. -/
theorem exists_append_of_holds (hHolds : List.Forall₂ (Holds s) members (before ++ after)) :
    ∃ front back, members = front ++ back ∧ List.Forall₂ (Holds s) front before ∧
      List.Forall₂ (Holds s) back after :=
  ⟨members.take before.length, members.drop before.length, (List.take_append_drop _ _).symm,
    List.forall₂_take_append _ _ _ hHolds, List.forall₂_drop_append _ _ _ hHolds⟩

/-- The entry of a member, with what stands on both sides of it. -/
theorem exists_entry_of_mem (hHolds : List.Forall₂ (Holds s) members entries) (hm : m ∈ members) :
    ∃ front back entry left right, members = front ++ m :: back ∧ entries = left ++ entry :: right ∧
      List.Forall₂ (Holds s) front left ∧ entry.name = m.name.toList := by
  obtain ⟨front, back, rfl⟩ := List.append_of_mem hm
  have hLeft := List.forall₂_take_append _ _ _ hHolds.flip
  have hRight := List.forall₂_drop_append _ _ _ hHolds.flip
  obtain ⟨entry, right, hEntry, -, hDrop⟩ := List.forall₂_cons_right_iff.1 hRight
  refine ⟨front, back, entry, entries.take front.length, right, rfl, ?_, hLeft.flip, hEntry.1⟩
  rw [← hDrop, List.take_append_drop]

/-- A member may have two entries with different values: the first of them is read, and the key of the
second one is refused. -/
theorem refused_of_repeated (hNodup : members.Nodup)
    (hHolds : List.Forall₂ (Holds s) members (before ++ after)) (hm : m ∈ members)
    (hExtra : Holds other m extra) (hText : ObjectText (before ++ extra :: after) text) (origin : Text) :
    Refused (.duplicateField m.name) origin text := by
  obtain ⟨front, back, rfl, hBefore, hAfter⟩ := exists_append_of_holds hHolds
  rcases List.mem_append.1 hm with hmFront | hmBack
  · exact refused_of_known (List.nodup_append.1 hNodup).1 hBefore hmFront hExtra.1 hText origin
  · -- The other entry stands behind the extra one, which is then read as the value of the member.
    obtain ⟨near, far, entry, left, right, rfl, rfl, hNear, hName⟩ := exists_entry_of_mem hAfter hmBack
    rw [← List.append_assoc, List.perm_middle.nodup_iff] at hNodup
    have hRow : (m :: (front ++ near)).Nodup :=
      hNodup.sublist (List.Sublist.cons_cons m (List.sublist_append_left (front ++ near) far))
    obtain ⟨hNotMem, -⟩ := List.nodup_cons.1 hRow
    rw [List.mem_append, not_or] at hNotMem
    -- No member stands twice in this row, so that one record of settings has all its values.
    have hHolds' :
        List.Forall₂ (Holds (m.copy other s)) (front ++ m :: near) (before ++ extra :: left) :=
      List.rel_append (holds_copy_of_notMem hBefore hNotMem.1)
        (.cons ⟨hExtra.1, Member.value_copy_self.2 hExtra.2⟩ (holds_copy_of_notMem hNear hNotMem.2))
    have hText' : ObjectText ((before ++ extra :: left) ++ entry :: right) text := by
      rwa [List.append_assoc, List.cons_append]
    exact refused_of_known (List.perm_middle.nodup_iff.2 hRow) hHolds' (by simp) hName hText' origin

end

/-! ## Writing settings -/

namespace Member

def toJson (s : Settings) : Member → JsonValue
  | receiverNames => .list (s.receiverNames.map .text)
  | defaultReceiver => .text s.defaultReceiver
  | indentUnit => .text s.indentUnit
  | bodyPolicy => .text s.bodyPolicy.name.toList

/-- The value of a member without blanks. -/
def write (s : Settings) : Member → Text
  | receiverNames => '[' :: joined JsonValue.quote s.receiverNames ++ [']']
  | defaultReceiver => JsonValue.quote s.defaultReceiver
  | indentUnit => JsonValue.quote s.indentUnit
  | bodyPolicy => JsonValue.quote s.bodyPolicy.name.toList

theorem value_pretty (s : Settings) (m : Member) (depth : Nat) :
    m.Value s ((m.toJson s).pretty depth) := by
  cases m with
  | receiverNames => exact stringsText_pretty depth s.receiverNames
  | defaultReceiver =>
    rw [toJson, JsonValue.pretty]
    exact stringText_quote s.defaultReceiver
  | indentUnit =>
    rw [toJson, JsonValue.pretty]
    exact stringText_quote s.indentUnit
  | bodyPolicy =>
    rw [toJson, JsonValue.pretty]
    exact stringText_quote s.bodyPolicy.name.toList

theorem value_write (s : Settings) (m : Member) : m.Value s (m.write s) := by
  cases m with
  | receiverNames => exact .mk (listed_joined stringText_quote s.receiverNames)
  | defaultReceiver => exact stringText_quote s.defaultReceiver
  | indentUnit => exact stringText_quote s.indentUnit
  | bodyPolicy => exact stringText_quote s.bodyPolicy.name.toList

end Member

/-- All members with their values, for the writer of reports. -/
def toJson (s : Settings) : JsonValue :=
  .object (Member.all.map fun m => (m.name.toList, m.toJson s))

/-- Some members with their values, without blanks. -/
def write (s : Settings) (members : List Member) : Text :=
  compact (members.map fun m => ⟨m.name.toList, m.write s⟩)

theorem parse_write (origin : Text) (s : Settings) {members : List Member} (hNodup : members.Nodup) :
    parse origin (s.write members) = .ok (s.overlay members) := by
  refine parse_of_holds hNodup ?_ (objectText_compact _) origin
  refine List.forall₂_map_right_iff.2 (List.forall₂_same.2 fun m _ => ?_)
  exact ⟨rfl, m.value_write s⟩

theorem parse_pretty (origin : Text) (s : Settings) : parse origin (s.toJson.pretty 0) = .ok s := by
  have hHolds : List.Forall₂ (Holds s) Member.all
      (prettyEntries 1 (Member.all.map fun m => (m.name.toList, m.toJson s))) := by
    rw [prettyEntries, List.map_map]
    refine List.forall₂_map_right_iff.2 (List.forall₂_same.2 fun m _ => ?_)
    exact ⟨rfl, m.value_pretty s 1⟩
  have hParse := parse_of_holds (by decide) hHolds (objectText_pretty 0 _) origin
  rwa [overlay_all] at hParse

/-! ## The overlay -/

/-- **Settings overlay the defaults.** Take an object that gives some members, in some order, the values
which settings have for them. Read from any text of it are these values, and the defaults of the other
members. With one more entry it is refused: for a key that is not the name of a member, whatever its
value, or for a second value of a member. What is written of settings is read as the settings. -/
theorem settings_overlay_defaults (origin : Text) {s : Settings} {members : List Member}
    {before after : List Entry} (hNodup : members.Nodup)
    (hHolds : List.Forall₂ (Holds s) members (before ++ after)) :
    (∀ text, ObjectText (before ++ after) text → parse origin text = .ok (s.overlay members)) ∧
    (∀ extra text, extra.name ∉ Member.all.map (fun m => m.name.toList) →
      ObjectText (before ++ extra :: after) text →
      Refused (.unknownField extra.name (Member.all.map Member.name)) origin text) ∧
    (∀ m ∈ members, ∀ other extra text, Holds other m extra →
      ObjectText (before ++ extra :: after) text →
      Refused (.duplicateField m.name) origin text) ∧
    parse origin (s.write members) = .ok (s.overlay members) ∧
    parse origin (s.write Member.all) = .ok s ∧
    parse origin (s.toJson.pretty 0) = .ok s := by
  have hAll := parse_write origin s (show Member.all.Nodup by decide)
  rw [overlay_all] at hAll
  refine ⟨?_, ?_, ?_, parse_write origin s hNodup, hAll, parse_pretty origin s⟩
  · intro text hText
    exact parse_of_holds hNodup hHolds hText origin
  · intro extra text hName hText
    obtain ⟨front, back, rfl, hBefore, -⟩ := exists_append_of_holds hHolds
    exact refused_of_foreign (List.nodup_append.1 hNodup).1 hBefore hName hText origin
  · intro m hm other extra text hExtra hText
    exact refused_of_repeated hNodup hHolds hm hExtra hText origin

/-- Two members, one of them with its key, a quote and two surrogates written as escapes. -/
theorem settings_overlay_defaults_escaped :
    let s : Settings :=
      { Settings.default with
        receiverNames := ["a\"".toList, "😀".toList]
        indentUnit := "\t".toList }
    let members : List Member := [.indentUnit, .receiverNames]
    let unit : Entry := ⟨"indent_unit".toList, "\"\\t\"".toList⟩
    let names : Entry := ⟨"receiver_names".toList, "[ \"a\\\"\",\"\\uD83D\\ude00\" ]".toList⟩
    members.Nodup ∧ List.Forall₂ (Holds s) members [unit, names] ∧
      parse "a.json".toList
        ("\x7b\t\"indent_unit\" :\"\\t\" ,\r\n" ++
          "\"\\u0072eceiver_names\": [ \"a\\\"\",\"\\uD83D\\ude00\" ] \x7d\n").toList = .ok s ∧
      Refused (.unknownField "indent".toList (Member.all.map Member.name)) "a.json".toList
        ("\x7b\"indent_unit\":\"\\t\",\"indent\":2," ++
          "\"receiver_names\":[ \"a\\\"\",\"\\uD83D\\ude00\" ]\x7d").toList ∧
      Refused (.duplicateField "receiver_names") "a.json".toList
        ("\x7b\"indent_unit\":\"\\t\",\"receiver_names\":[]," ++
          "\"receiver_names\":[ \"a\\\"\",\"\\uD83D\\ude00\" ]\x7d").toList := by
  intro s members unit names
  have hLetter : CodeUnit 0x72 ['0', '0', '7', '2'] :=
    .mk (show ('0', 0) ∈ hexDigits by decide) (show ('0', 0) ∈ hexDigits by decide)
      (show ('7', 7) ∈ hexDigits by decide) (show ('2', 2) ∈ hexDigits by decide)
  have hEscaped : Spelling 'r' ('\\' :: 'u' :: ['0', '0', '7', '2']) :=
    .unit hLetter
  have hHigh : CodeUnit 0xD83D ['D', '8', '3', 'D'] :=
    .mk (show ('D', 13) ∈ hexDigits by decide) (show ('8', 8) ∈ hexDigits by decide)
      (show ('3', 3) ∈ hexDigits by decide) (show ('D', 13) ∈ hexDigits by decide)
  have hLow : CodeUnit 0xDE00 ['d', 'e', '0', '0'] :=
    .mk (show ('d', 13) ∈ hexDigits by decide) (show ('e', 14) ∈ hexDigits by decide)
      (show ('0', 0) ∈ hexDigits by decide) (show ('0', 0) ∈ hexDigits by decide)
  have hFace : Spelling '😀'
      ('\\' :: 'u' :: ['D', '8', '3', 'D'] ++ '\\' :: 'u' :: ['d', 'e', '0', '0']) :=
    .pair (by decide) hHigh hLow
  have hUnit : StringText "\t".toList unit.value :=
    .mk (.cons (.short (by decide)) .nil)
  have hNames : StringsText s.receiverNames names.value :=
    .mk (.head (show Gap [' '] by decide) (stringText_quote "a\"".toList)
      (.next gap_nil gap_nil (.mk (.cons hFace .nil)) (.nil (show Gap [' '] by decide))))
  have hNodup : members.Nodup := by
    decide
  have hHolds : List.Forall₂ (Holds s) members ([unit] ++ [names]) :=
    .cons ⟨rfl, hUnit⟩ (.cons ⟨rfl, hNames⟩ .nil)
  have hKey : StringText names.name "\"\\u0072eceiver_names\"".toList :=
    .mk (.cons hEscaped (spells_escape "eceiver_names".toList))
  have hText : ObjectText ([unit] ++ [names])
      ("\x7b\t\"indent_unit\" :\"\\t\" ,\r\n" ++
        "\"\\u0072eceiver_names\": [ \"a\\\"\",\"\\uD83D\\ude00\" ] \x7d\n").toList :=
    .mk gap_nil
      (.head (show Gap ['\t'] by decide)
        (.mk (stringText_quote unit.name) (show Gap [' '] by decide) gap_nil)
        (.next (show Gap [' '] by decide) (show Gap ['\r', '\n'] by decide)
          (.mk hKey gap_nil (show Gap [' '] by decide)) (.nil (show Gap [' '] by decide))))
      (show Gap ['\n'] by decide)
  obtain ⟨hRead, hForeign, hRepeated, -⟩ :=
    settings_overlay_defaults "a.json".toList hNodup hHolds
  refine ⟨hNodup, hHolds, ?_, ?_, ?_⟩
  · exact hRead _ hText
  · exact hForeign ⟨"indent".toList, "2".toList⟩ _ (by decide) (objectText_compact _)
  · exact hRepeated .receiverNames (by decide) { s with receiverNames := [] }
      ⟨"receiver_names".toList, "[]".toList⟩ _ ⟨rfl, .mk (.nil gap_nil)⟩ (objectText_compact _)

end FieldFill.Settings
