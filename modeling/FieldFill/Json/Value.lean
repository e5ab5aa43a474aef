import FieldFill.Text.Basic

/-!
# JSON values and their text

The values that reports are made of, and how they are written: each member and each item on a line
of its own, two spaces deeper than what holds it, and empty lists and objects as two brackets.

* `JsonValue.pretty` — the text of a value.
* `JsonValue.quote` — a string in double quotes. Quotes, backslashes and control characters are
  escaped, with the short escape where there is one.
-/

namespace FieldFill

inductive JsonValue where
  | bool (value : Bool)
  | number (value : Nat)
  | text (value : Text)
  | list (items : List JsonValue)
  | object (members : List (Text × JsonValue))

namespace JsonValue

/-! ## Strings -/

def hexDigit (n : Nat) : Char :=
  Nat.digitChar n

def escape (c : Char) : Text :=
  match c with
  | '\"' => ['\\', '\"']
  | '\\' => ['\\', '\\']
  | '\x08' => ['\\', 'b']
  | '\x0c' => ['\\', 'f']
  | '\n' => ['\\', 'n']
  | '\r' => ['\\', 'r']
  | '\t' => ['\\', 't']
  | _ =>
    if c.toNat < 0x20 then ['\\', 'u', '0', '0', hexDigit (c.toNat / 16), hexDigit (c.toNat % 16)]
    else [c]

def quote (text : Text) : Text :=
  '\"' :: text.flatMap escape ++ ['\"']

/-! ## Values -/

def indentation (depth : Nat) : Text :=
  List.replicate (2 * depth) ' '

mutual

def pretty (depth : Nat) : JsonValue → Text
  | bool true => "true".toList
  | bool false => "false".toList
  | number n => Nat.toDigits 10 n
  | text t => quote t
  | list [] => ['[', ']']
  | list (item :: items) =>
    ['[', '\n'] ++ indentation (depth + 1) ++ pretty (depth + 1) item ++
      prettyItems (depth + 1) items ++ ['\n'] ++ indentation depth ++ [']']
  | object [] => ['\x7b', '\x7d']
  | object ((key, value) :: members) =>
    ['\x7b', '\n'] ++ indentation (depth + 1) ++ quote key ++ [':', ' '] ++
      pretty (depth + 1) value ++ prettyMembers (depth + 1) members ++ ['\n'] ++
      indentation depth ++ ['\x7d']

def prettyItems (depth : Nat) : List JsonValue → Text
  | [] => []
  | item :: items =>
    [',', '\n'] ++ indentation depth ++ pretty depth item ++ prettyItems depth items

def prettyMembers (depth : Nat) : List (Text × JsonValue) → Text
  | [] => []
  | (key, value) :: members =>
    [',', '\n'] ++ indentation depth ++ quote key ++ [':', ' '] ++ pretty depth value ++
      prettyMembers depth members

end

end JsonValue

end FieldFill
