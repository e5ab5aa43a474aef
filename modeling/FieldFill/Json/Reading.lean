import FieldFill.Decimal.Shortest
import FieldFill.Json.Fault

/-!
# Reading JSON tokens

The tokens of a JSON text, each read from the start of a text and given with the text after it.

* `skipBlanks` — what follows the blanks of JSON.
* `stringBody` — a string after its opening quote, with its escapes resolved.
* `readNumber` — a number, as what it would be if something else was asked for.
* `unexpected` — the fault of a value of the wrong type.
-/

namespace FieldFill.Json

def isJsonBlank (c : Char) : Bool :=
  c = ' ' || c = '\n' || c = '\t' || c = '\r'

def skipBlanks (text : Text) : Text :=
  text.dropWhile isJsonBlank

/-! ## Strings -/

def hexValue? (c : Char) : Option Nat :=
  if c.isDigit then some (c.toNat - '0'.toNat)
  else if 'a' ≤ c && c ≤ 'f' then some (c.toNat - 'a'.toNat + 10)
  else if 'A' ≤ c && c ≤ 'F' then some (c.toNat - 'A'.toNat + 10)
  else none

/-- Four bytes that are no hexadecimal digits. They count as read. -/
def brokenHex (text : Text) : Except Failure (Nat × Text) :=
  if byteLength text < 4 then failHere .endOfString [] else .error ⟨.invalidEscape, text, 4⟩

/-- Four hexadecimal digits. -/
def hex4 (text : Text) : Except Failure (Nat × Text) :=
  match text with
  | a :: b :: c :: d :: rest =>
    match hexValue? a, hexValue? b, hexValue? c, hexValue? d with
    | some a, some b, some c, some d => .ok (((a * 16 + b) * 16 + c) * 16 + d, rest)
    | _, _, _, _ => brokenHex text
  | _ => brokenHex text

def isHighSurrogate (n : Nat) : Bool :=
  decide (0xD800 ≤ n) && decide (n ≤ 0xDBFF)

def isLowSurrogate (n : Nat) : Bool :=
  decide (0xDC00 ≤ n) && decide (n ≤ 0xDFFF)

/-- The second half of a character written as two code units. -/
def lowSurrogate : Text → Except Failure (Nat × Text)
  | [] => failHere .endOfString []
  | '\\' :: rest =>
    match rest with
    | [] => failHere .endOfString []
    | 'u' :: digits =>
      match hex4 digits with
      | .error failure => .error failure
      | .ok (n, after) =>
        if isLowSurrogate n then .ok (n, after) else failHere .loneSurrogate after
    | _ => failNext .unfinishedSurrogate rest
  | text => failNext .unfinishedSurrogate text

/-- A character by its code, after `\u`. -/
def codeUnits (text : Text) : Except Failure (Char × Text) :=
  match hex4 text with
  | .error failure => .error failure
  | .ok (n, rest) =>
    if isLowSurrogate n then failHere .loneSurrogate rest
    else if isHighSurrogate n then
      match lowSurrogate rest with
      | .error failure => .error failure
      | .ok (m, after) =>
        .ok (Char.ofNat ((n - 0xD800) * 0x400 + (m - 0xDC00) + 0x10000), after)
    else .ok (Char.ofNat n, rest)

/-- The character of an escape, after the backslash. -/
def escaped : Text → Except Failure (Char × Text)
  | [] => failHere .endOfString []
  | '\"' :: rest => .ok ('\"', rest)
  | '\\' :: rest => .ok ('\\', rest)
  | '/' :: rest => .ok ('/', rest)
  | 'b' :: rest => .ok ('\x08', rest)
  | 'f' :: rest => .ok ('\x0c', rest)
  | 'n' :: rest => .ok ('\n', rest)
  | 'r' :: rest => .ok ('\r', rest)
  | 't' :: rest => .ok ('\t', rest)
  | 'u' :: rest => codeUnits rest
  | text => failNext .invalidEscape text

/-- The next character of a string, or none at its closing quote. -/
def stringChar : Text → Except Failure (Option Char × Text)
  | [] => failHere .endOfString []
  | '\"' :: rest => .ok (none, rest)
  | '\\' :: rest => (escaped rest).map fun (c, after) => (some c, after)
  | c :: rest => if c.toNat < 0x20 then failNext .controlCharacter (c :: rest) else .ok (some c, rest)

theorem brokenHex_ne_ok {text : Text} {p : Nat × Text} : brokenHex text ≠ .ok p := by
  unfold brokenHex failHere
  split <;> simp

theorem length_hex4 {text rest : Text} {n : Nat} (h : hex4 text = .ok (n, rest)) :
    rest.length < text.length := by
  unfold hex4 at h
  split at h
  · split at h
    · simp only [Except.ok.injEq, Prod.mk.injEq] at h
      simp only [List.length_cons, ← h.2]
      omega
    · exact absurd h brokenHex_ne_ok
  · exact absurd h brokenHex_ne_ok

theorem length_lowSurrogate {text rest : Text} {n : Nat} (h : lowSurrogate text = .ok (n, rest)) :
    rest.length < text.length := by
  unfold lowSurrogate at h
  split at h
  · cases h
  · split at h
    · cases h
    · split at h
      · cases h
      · rename_i hd
        have := length_hex4 hd
        split at h
        · simp only [Except.ok.injEq, Prod.mk.injEq] at h
          simp only [List.length_cons, ← h.2]
          omega
        · cases h
    · cases h
  · cases h

theorem length_codeUnits {text rest : Text} {c : Char} (h : codeUnits text = .ok (c, rest)) :
    rest.length < text.length := by
  unfold codeUnits at h
  split at h
  · cases h
  · rename_i hd
    have hlen := length_hex4 hd
    split at h
    · cases h
    · split at h
      · split at h
        · cases h
        · rename_i hl
          have := length_lowSurrogate hl
          simp only [Except.ok.injEq, Prod.mk.injEq] at h
          rw [← h.2]
          omega
      · simp only [Except.ok.injEq, Prod.mk.injEq] at h
        rw [← h.2]
        exact hlen

theorem length_escaped {text rest : Text} {c : Char} (h : escaped text = .ok (c, rest)) :
    rest.length < text.length := by
  unfold escaped at h
  split at h
  case h_10 =>
    have := length_codeUnits h
    simp only [List.length_cons]
    omega
  all_goals cases h <;> simp

theorem length_stringChar {text rest : Text} {c : Option Char}
    (h : stringChar text = .ok (c, rest)) : rest.length < text.length := by
  unfold stringChar at h
  split at h
  · cases h
  · simp only [Except.ok.injEq, Prod.mk.injEq] at h
    simp [← h.2]
  · rename_i tail
    cases he : escaped tail with
    | error e => simp [he, Except.map] at h
    | ok p =>
      obtain ⟨char, after⟩ := p
      have := length_escaped he
      simp only [he, Except.map, Except.ok.injEq, Prod.mk.injEq] at h
      simp only [List.length_cons, ← h.2]
      omega
  · split at h
    · cases h
    · simp only [Except.ok.injEq, Prod.mk.injEq] at h
      simp [← h.2]

/-- A string after its opening quote. -/
def stringBody (text : Text) : Except Failure (Text × Text) :=
  match _h : stringChar text with
  | .error failure => .error failure
  | .ok (none, rest) => .ok ([], rest)
  | .ok (some c, rest) =>
    (stringBody rest).map fun (string, after) => (c :: string, after)
termination_by text.length
decreasing_by exact length_stringChar _h

theorem length_stringBody {text rest string : Text} (h : stringBody text = .ok (string, rest)) :
    rest.length < text.length := by
  fun_induction stringBody text generalizing string rest with
  | case1 text failure hc => cases h
  | case2 text after hc =>
    simp only [Except.ok.injEq, Prod.mk.injEq] at h
    rw [← h.2]
    exact length_stringChar hc
  | case3 text c after hc ih =>
    cases hb : stringBody after with
    | error e => simp [hb, Except.map] at h
    | ok p =>
      obtain ⟨tail, last⟩ := p
      have h1 := ih hb
      have h2 := length_stringChar hc
      simp only [hb, Except.map, Except.ok.injEq, Prod.mk.injEq] at h
      rw [← h.2]
      omega

/-! ## Words -/

/-- The rest of a word whose first letter has been read. -/
def wordRest : (expected text : Text) → Except Failure Text
  | [], text => .ok text
  | _ :: _, [] => failHere .endOfValue []
  | w :: expected, c :: text =>
    if w = c then wordRest expected text else failNext .expectedWord (c :: text)

/-! ## Numbers -/

/-- Integers that are larger are kept as binary fractions. -/
def greatestInteger : Nat :=
  0xFFFFFFFFFFFFFFFF

/-- Exponents that are larger are not read to their end. -/
def greatestExponent : Nat :=
  0x7FFFFFFF

/-- What the fraction of a binary fraction stays below: it has fifty-two bits. -/
def fractionBound : Nat :=
  0x10000000000000

/-- Numbers in messages are positional from 0.00001 up to sixteen digits before the point. -/
def messageFormat : DecimalFormat :=
  ⟨-5, 15⟩

/-- The text of a binary fraction. -/
def floatText (x : Float) : Text :=
  let bits := x.toBits.toNat
  let sign := if bits / 0x8000000000000000 = 1 then ['-'] else []
  let fraction : Nat := bits % fractionBound
  let biased : Nat := bits / fractionBound % 0x800
  if fraction = 0 && biased = 0 then sign ++ ['0', '.', '0']
  else
    let magnitude : Magnitude :=
      if biased = 0 then ⟨fraction, -1074, false⟩
      else ⟨fractionBound + fraction, (biased : Int) - 1075, fraction = 0 && decide (1 < biased)⟩
    sign ++ messageFormat.write magnitude.shortest

/-- A power of ten as a binary fraction. -/
def floatPower (exponent : Nat) : Float :=
  Float.ofScientific 1 false exponent

/-- `x * 10 ^ exponent`, rounded after each step of at most three hundred and eight places; none
when it is too large. -/
def scaleFloat (fuel : Nat) (x : Float) (exponent : Int) : Option Float :=
  if exponent.natAbs ≤ 308 then
    if 0 ≤ exponent then
      let y := x * floatPower exponent.natAbs
      if y.isInf then none else some y
    else some (x / floatPower exponent.natAbs)
  else if x == 0.0 then some x
  else if 0 ≤ exponent then none
  else
    match fuel with
    | 0 => some 0.0
    | more + 1 => scaleFloat more (x / floatPower 308) (exponent + 308)

def decimalOf (positive : Bool) (significand : Nat) (exponent : Int) (rest : Text) :
    Except Failure (Unexpected × Text) :=
  match scaleFloat 10 significand.toUInt64.toFloat exponent with
  | some x => .ok (.decimal (floatText (if positive then x else -x)), rest)
  | none => failHere .numberOutOfRange rest

/-- Reads digits into a number as long as it stays within `greatest`; the second number counts the
digits read. -/
def digitsWithin (greatest acc count : Nat) : Text → Nat × Nat × Text
  | [] => (acc, count, [])
  | c :: rest =>
    if c.isDigit && decide (acc * 10 + (c.toNat - '0'.toNat) ≤ greatest) then
      digitsWithin greatest (acc * 10 + (c.toNat - '0'.toNat)) (count + 1) rest
    else (acc, count, c :: rest)

/-- The exponent of a number, after its `e`. -/
def exponentPart (positive : Bool) (significand : Nat) (start : Int) (text : Text) :
    Except Failure (Unexpected × Text) :=
  let (negative, text) :=
    match text with
    | '+' :: rest => (false, rest)
    | '-' :: rest => (true, rest)
    | _ => (false, text)
  match text with
  | [] => failHere .endOfValue []
  | c :: _ =>
    if !c.isDigit then failNext .invalidNumber text
    else
      let (exponent, _, rest) := digitsWithin greatestExponent 0 0 text
      if rest.head?.any Char.isDigit then
        if significand ≠ 0 && !negative then failNext .numberOutOfRange rest
        else
          .ok (.decimal (floatText (if positive then 0.0 else -0.0)),
            rest.dropWhile Char.isDigit)
      else
        decimalOf positive significand
          (if negative then start - exponent else start + exponent) rest

/-- What may follow the digits of a number that is no integer. -/
def afterDigits (positive : Bool) (significand : Nat) (exponent : Int) (text : Text) :
    Except Failure (Unexpected × Text) :=
  match text with
  | 'e' :: rest => exponentPart positive significand exponent rest
  | 'E' :: rest => exponentPart positive significand exponent rest
  | _ => decimalOf positive significand exponent text

/-- The fraction of a number, after its point. Digits that no longer fit are passed over. -/
def fractionPart (positive : Bool) (significand : Nat) (exponent : Int) (text : Text) :
    Except Failure (Unexpected × Text) :=
  let (acc, count, rest) := digitsWithin greatestInteger significand 0 text
  if rest.head?.any Char.isDigit then
    afterDigits positive acc (exponent - count) (rest.dropWhile Char.isDigit)
  else if count = 0 then
    if rest.isEmpty then failHere .endOfValue [] else failNext .invalidNumber rest
  else afterDigits positive acc (exponent - count) rest

/-- What follows the digits of an integer part. -/
def afterInteger (positive : Bool) (significand : Nat) (text : Text) : Except Failure (Unexpected × Text) :=
  match text with
  | '.' :: rest => fractionPart positive significand 0 rest
  | 'e' :: rest => exponentPart positive significand 0 rest
  | 'E' :: rest => exponentPart positive significand 0 rest
  | _ =>
    if positive then .ok (.integer significand, text)
    else if significand = 0 || decide (0x8000000000000000 < significand) then
      decimalOf false significand 0 text
    else .ok (.integer (-significand), text)

/-- A number after its sign. -/
def readNumber (positive : Bool) (text : Text) : Except Failure (Unexpected × Text) :=
  match text with
  | [] => failHere .endOfValue []
  | '0' :: rest =>
    if rest.head?.any Char.isDigit then failNext .invalidNumber rest
    else afterInteger positive 0 rest
  | c :: _ =>
    if !c.isDigit then failNext .invalidNumber text
    else
      let (significand, _, rest) := digitsWithin greatestInteger 0 0 text
      if rest.head?.any Char.isDigit then
        let more := rest.takeWhile Char.isDigit
        let after := rest.dropWhile Char.isDigit
        match after with
        | '.' :: fraction => fractionPart positive significand more.length fraction
        | _ => afterDigits positive significand more.length after
      else afterInteger positive significand rest

/-! ## Values of the wrong type -/

/-- What a value is that was not asked for. A list or an object is not read. -/
def otherValue : Text → Except Failure (Unexpected × Text)
  | 'n' :: rest => (wordRest ['u', 'l', 'l'] rest).map fun after => (.null, after)
  | 't' :: rest => (wordRest ['r', 'u', 'e'] rest).map fun after => (.boolean true, after)
  | 'f' :: rest => (wordRest ['a', 'l', 's', 'e'] rest).map fun after => (.boolean false, after)
  | '-' :: rest => readNumber false rest
  | '\"' :: rest => (stringBody rest).map fun (string, after) => (.string string, after)
  | '[' :: rest => .ok (.sequence, '[' :: rest)
  | '\x7b' :: rest => .ok (.map, '\x7b' :: rest)
  | c :: rest =>
    if c.isDigit then readNumber true (c :: rest) else failNext .expectedValue (c :: rest)
  | [] => failNext .expectedValue []

/-- The fault of a value that is not what was asked for. -/
def unexpected {α : Type} (expected : String) (text : Text) : Except Failure α :=
  match otherValue text with
  | .error failure => .error failure
  | .ok (value, rest) => failHere (.invalidType value expected) rest

theorem unexpected_ne_ok {α : Type} {expected : String} {text : Text} {value : α} :
    unexpected expected text ≠ .ok value := by
  unfold unexpected failHere
  split <;> simp

end FieldFill.Json
