import FieldFill.Json.Reading
import FieldFill.Settings.Basic

/-!
# Reading settings

Settings come as a JSON object with any of four members in any order, each at most once; a missing
member keeps its default. They may also come as a list of the members in their fixed order, cut
short anywhere. A body policy is its name, or an object with its name as the only member and null
as the value.

* `Settings.ofJson` — the settings of a JSON text, or what is wrong with it.
* `SettingsFault` — that together with where the text came from.
-/

namespace FieldFill

open Json

namespace BodyPolicy

def name : BodyPolicy → String
  | trivialOnly => "trivial_only"
  | always => "always"

def ofName? (text : Text) : Option BodyPolicy :=
  [trivialOnly, always].find? fun policy => policy.name.toList = text

def names : List String :=
  [trivialOnly.name, always.name]

end BodyPolicy

namespace Settings

/-! ## Values -/

/-- A string; `expected` says what it stands for. -/
def readString (expected : String) (text : Text) : Except Failure (Text × Text) :=
  match skipBlanks text with
  | [] => failHere .endOfValue []
  | '\"' :: rest => stringBody rest
  | other => unexpected expected other

theorem length_readString {expected : String} {text rest string : Text}
    (h : readString expected text = .ok (string, rest)) : rest.length < text.length := by
  have hle : (skipBlanks text).length ≤ text.length :=
    (List.dropWhile_sublist _).length_le
  unfold readString at h
  split at h
  · cases h
  · rename_i tail heq
    have := length_stringBody h
    rw [heq, List.length_cons] at hle
    omega
  · exact absurd h unexpected_ne_ok

/-- The separator in front of the next item of a list: whether the list goes on, and what follows.
`first` says that no item has been read. -/
def nextItem (first : Bool) (text : Text) : Except Failure (Bool × Text) :=
  match skipBlanks text with
  | [] => failHere .endOfList []
  | ']' :: rest => .ok (false, ']' :: rest)
  | c :: rest =>
    if first then .ok (true, c :: rest)
    else if c = ',' then
      match skipBlanks rest with
      | [] => failHere .endOfValue []
      | ']' :: after => failNext .trailingComma (']' :: after)
      | after => .ok (true, after)
    else failNext .expectedListSeparator (c :: rest)

theorem length_nextItem {first goesOn : Bool} {text rest : Text}
    (h : nextItem first text = .ok (goesOn, rest)) : rest.length ≤ text.length := by
  have hle : ∀ t : Text, (skipBlanks t).length ≤ t.length := fun t =>
    (List.dropWhile_sublist _).length_le
  have h1 := hle text
  unfold nextItem at h
  split at h
  · cases h
  · rename_i heq
    simp only [Except.ok.injEq, Prod.mk.injEq] at h
    rw [heq] at h1
    rw [← h.2]
    exact h1
  · rename_i c tail _ heq
    rw [heq, List.length_cons] at h1
    have h2 := hle tail
    split at h
    · simp only [Except.ok.injEq, Prod.mk.injEq] at h
      rw [← h.2, List.length_cons]
      exact h1
    · split at h
      · split at h
        · cases h
        · cases h
        · simp only [Except.ok.injEq, Prod.mk.injEq] at h
          rw [← h.2]
          omega
      · cases h

/-- The strings of a list up to its closing bracket. -/
def stringItems (first : Bool) (text : Text) : Except Failure (List Text × Text) :=
  match _h : nextItem first text with
  | .error failure => .error failure
  | .ok (false, rest) => .ok ([], rest)
  | .ok (true, rest) =>
    match _hs : readString "a string" rest with
    | .error failure => .error failure
    | .ok (item, after) => (stringItems false after).map fun (items, last) => (item :: items, last)
termination_by text.length
decreasing_by
  have := length_nextItem _h
  have := length_readString _hs
  omega

/-- The end of a list whose items have been read. -/
def closeList (text : Text) : Except Failure Text :=
  match skipBlanks text with
  | [] => failHere .endOfList []
  | ']' :: rest => .ok rest
  | ',' :: rest =>
    match skipBlanks rest with
    | ']' :: after => failNext .trailingComma (']' :: after)
    | after => failNext .trailingCharacters after
  | other => failNext .trailingCharacters other

def readStrings (text : Text) : Except Failure (List Text × Text) :=
  match skipBlanks text with
  | [] => failHere .endOfValue []
  | '[' :: rest => do
    let p ← stringItems true rest
    let after ← closeList p.2
    return (p.1, after)
  | other => unexpected "a sequence" other

/-- The colon between a key and its value. -/
def afterColon (text : Text) : Except Failure Text :=
  match skipBlanks text with
  | [] => failHere .endOfObject []
  | ':' :: rest => .ok rest
  | other => failNext .expectedColon other

def readNull (text : Text) : Except Failure Text :=
  match skipBlanks text with
  | [] => failHere .endOfValue []
  | 'n' :: rest => wordRest ['u', 'l', 'l'] rest
  | other => unexpected "unit" other

/-- The name of a policy. -/
def readPolicyName (text : Text) : Except Failure (BodyPolicy × Text) := do
  let p ← readString "variant identifier" text
  match BodyPolicy.ofName? p.1 with
  | some policy => return (policy, p.2)
  | none => failHere (.unknownVariant p.1 BodyPolicy.names) p.2

def readPolicy (text : Text) : Except Failure (BodyPolicy × Text) :=
  match skipBlanks text with
  | [] => failHere .endOfValue []
  | '\x7b' :: rest => do
    let p ← readPolicyName rest
    let after ← readNull (← afterColon p.2)
    match skipBlanks after with
    | '\x7d' :: last => return (p.1, last)
    | [] => failHere .endOfObject []
    | other => failHere .expectedValue other
  | '\"' :: rest => readPolicyName ('\"' :: rest)
  | other => failNext .expectedValue other

/-! ## Members -/

inductive Member where
  | receiverNames
  | defaultReceiver
  | indentUnit
  | bodyPolicy
  deriving DecidableEq, Repr

namespace Member

def name : Member → String
  | receiverNames => "receiver_names"
  | defaultReceiver => "default_receiver"
  | indentUnit => "indent_unit"
  | bodyPolicy => "body_policy"

/-- The members in the order in which they stand in a list. -/
def all : List Member :=
  [receiverNames, defaultReceiver, indentUnit, bodyPolicy]

def ofName? (text : Text) : Option Member :=
  all.find? fun member => member.name.toList = text

/-- Reads the value of a member into settings. -/
def read (member : Member) (settings : Settings) (text : Text) : Except Failure (Settings × Text) :=
  match member with
  | receiverNames =>
    (readStrings text).map fun (names, rest) => ({ settings with receiverNames := names }, rest)
  | defaultReceiver =>
    (readString "a string" text).map fun (receiver, rest) =>
      ({ settings with defaultReceiver := receiver }, rest)
  | indentUnit =>
    (readString "a string" text).map fun (unit, rest) =>
      ({ settings with indentUnit := unit }, rest)
  | bodyPolicy =>
    (readPolicy text).map fun (policy, rest) => ({ settings with bodyPolicy := policy }, rest)

end Member

/-! ## Objects -/

/-- What stands before the next key of an object: whether there is one, and the text from it on. -/
def nextKey (first : Bool) (text : Text) : Except Failure (Bool × Text) :=
  match skipBlanks text with
  | [] => failHere .endOfObject []
  | '\x7d' :: rest => .ok (false, '\x7d' :: rest)
  | c :: rest =>
    if first then
      if c = '\"' then .ok (true, c :: rest) else failNext .keyNotString (c :: rest)
    else if c = ',' then
      match skipBlanks rest with
      | [] => failHere .endOfValue []
      | '\"' :: after => .ok (true, '\"' :: after)
      | '\x7d' :: after => failNext .trailingComma ('\x7d' :: after)
      | after => failNext .keyNotString after
    else failNext .expectedObjectSeparator (c :: rest)

/-- The place at which a wrong key is reported: past the brace, if the object ends right there. -/
def pastKey (text : Text) : Text :=
  match skipBlanks text with
  | '\x7d' :: rest => rest
  | rest => rest

/-- A key that is a member not yet read. -/
def readKey (known : List Member) (text : Text) : Except Failure (Member × Text) := do
  let p ← readString "a string" text
  match Member.ofName? p.1 with
  | none => failHere (.unknownField p.1 (Member.all.map Member.name)) (pastKey p.2)
  | some member =>
    if known.contains member then failHere (.duplicateField member.name) (pastKey p.2)
    else return (member, p.2)

/-- The members of an object up to its closing brace. No member can be read twice, so that as many
steps suffice as there are members, and one for the brace. -/
def readMembers (steps : Nat) (known : List Member) (settings : Settings) (text : Text) :
    Except Failure (Settings × Text) :=
  match steps with
  | 0 => .ok (settings, text)
  | more + 1 => do
    let p ← nextKey known.isEmpty text
    if p.1 then
      let key ← readKey known p.2
      let value ← key.1.read settings (← afterColon key.2)
      readMembers more (key.1 :: known) value.1 value.2
    else return (settings, p.2)

/-- The end of an object whose members have been read. -/
def closeObject (text : Text) : Except Failure Text :=
  match skipBlanks text with
  | [] => failHere .endOfObject []
  | '\x7d' :: rest => .ok rest
  | ',' :: rest => failNext .trailingComma (',' :: rest)
  | other => failNext .trailingCharacters other

/-- The members of a list, in their order, as far as it goes. -/
def readItems (first : Bool) (settings : Settings) (members : List Member) (text : Text) :
    Except Failure (Settings × Text) :=
  match members with
  | [] => .ok (settings, text)
  | member :: more => do
    let p ← nextItem first text
    if p.1 then
      let value ← member.read settings p.2
      readItems false value.1 more value.2
    else return (settings, p.2)

/-! ## Settings -/

def read (text : Text) : Except Failure (Settings × Text) :=
  match skipBlanks text with
  | [] => failHere .endOfValue []
  | '[' :: rest => do
    let p ← readItems true Settings.default Member.all rest
    let after ← closeList p.2
    return (p.1, after)
  | '\x7b' :: rest => do
    let p ← readMembers (Member.all.length + 1) [] Settings.default rest
    let after ← closeObject p.2
    return (p.1, after)
  | other => unexpected "struct GenerationConfig" other

/-- The settings that make up a whole text. -/
def ofJson (text : Text) : Except Failure Settings := do
  let p ← read text
  match skipBlanks p.2 with
  | [] => return p.1
  | other => failNext .trailingCharacters other

end Settings

/-- Settings that could not be read, and where they came from. -/
structure SettingsFault where
  origin : Text
  /-- What is wrong, with its place. -/
  problem : String
  deriving DecidableEq, Repr

namespace SettingsFault

def message (f : SettingsFault) : String :=
  "Invalid configuration in " ++ String.ofList f.origin ++ ": " ++ f.problem

end SettingsFault

namespace Settings

/-- The settings in a text from a named place. -/
def parse (origin text : Text) : Except SettingsFault Settings :=
  (ofJson text).mapError fun failure => ⟨origin, failure.message text⟩

end Settings

end FieldFill
