import SceneCompiler.Json
import SceneCompiler.Number.Scientific
import SceneCompiler.Text.Units

/-!
Reading JSON text, strictly: no comments, no trailing commas, no byte order mark.
-/

namespace SceneCompiler.Text

/-- The text of code units. A surrogate without its partner becomes U+FFFD. -/
def ofUnits : List Nat → List Char
  | [] => []
  | high :: low :: rest =>
    if 0xD800 ≤ high && high < 0xDC00 && 0xDC00 ≤ low && low < 0xE000 then
      Char.ofNat (0x10000 + (high - 0xD800) * 0x400 + (low - 0xDC00)) :: ofUnits rest
    else if 0xD800 ≤ high && high < 0xE000 then '�' :: ofUnits (low :: rest)
    else Char.ofNat high :: ofUnits (low :: rest)
  | [unit] => [if 0xD800 ≤ unit && unit < 0xE000 then '�' else Char.ofNat unit]

end SceneCompiler.Text

namespace SceneCompiler.Json

def skipBlanks (text : List Char) : List Char :=
  text.dropWhile fun c => c == ' ' || c == '\t' || c == '\n' || c == '\r'

def hexValue? (c : Char) : Option Nat :=
  if '0' ≤ c && c ≤ '9' then some (c.toNat - '0'.toNat)
  else if 'a' ≤ c && c ≤ 'f' then some (c.toNat - 'a'.toNat + 10)
  else if 'A' ≤ c && c ≤ 'F' then some (c.toNat - 'A'.toNat + 10)
  else none

def shortEscape? : Char → Option Char
  | '"' => some '"'
  | '\\' => some '\\'
  | '/' => some '/'
  | 'b' => some '\x08'
  | 'f' => some '\x0c'
  | 'n' => some '\n'
  | 'r' => some '\r'
  | 't' => some '\t'
  | _ => none

def stringUnits : List Char → List Nat → Option (List Nat × List Char)
  | '"' :: rest, units => some (units.reverse, rest)
  | '\\' :: 'u' :: a :: b :: c :: d :: rest, units =>
    match hexValue? a, hexValue? b, hexValue? c, hexValue? d with
    | some a, some b, some c, some d =>
      stringUnits rest ((((a * 16 + b) * 16 + c) * 16 + d) :: units)
    | _, _, _, _ => none
  | '\\' :: c :: rest, units =>
    match shortEscape? c with
    | some e => stringUnits rest (e.toNat :: units)
    | none => none
  | c :: rest, units =>
    if c.toNat < 0x20 then none
    else stringUnits rest ((Text.charUnits c).reverse ++ units)
  | [], _ => none

def string? (text : List Char) : Option (String × List Char) :=
  (stringUnits text []).map fun (units, rest) => (String.ofList (Text.ofUnits units), rest)

def wholePart? : List Char → Option (List Char × List Char)
  | '0' :: rest => some (['0'], rest)
  | text =>
    let digits := text.takeWhile Char.isDigit
    if digits.isEmpty then none else some (digits, text.dropWhile Char.isDigit)

def exponentPart? : List Char → Option (Int × List Char)
  | mark :: rest =>
    if mark == 'e' || mark == 'E' then
      let (sign, unsigned) := Scientific.takeSign rest
      let digits := unsigned.takeWhile Char.isDigit
      if digits.isEmpty then none
      else
        let n : Int := Scientific.natOfDigits digits
        some (if sign == ['-'] then -n else n, unsigned.dropWhile Char.isDigit)
    else some (0, mark :: rest)
  | [] => some (0, [])

def number? (text : List Char) : Option (Number × List Char) :=
  let (negative, unsigned) :=
    match text with
    | '-' :: rest => (true, rest)
    | rest => (false, rest)
  match wholePart? unsigned with
  | none => none
  | some (whole, rest) =>
    match Scientific.takeFraction? rest with
    | none => none
    | some (fraction, rest) =>
      (exponentPart? rest).map fun (exponent, rest) =>
        let digits := Scientific.natOfDigits (whole ++ fraction)
        (Decimal.toNumber negative ⟨digits, exponent - fraction.length⟩, rest)

mutual
/-- A value at the start of a text, and the rest. Nesting is bounded by `fuel`. -/
def value? : Nat → List Char → Option (Json × List Char)
  | 0, _ => none
  | fuel + 1, text =>
    match skipBlanks text with
    | 'n' :: 'u' :: 'l' :: 'l' :: rest => some (.null, rest)
    | 't' :: 'r' :: 'u' :: 'e' :: rest => some (.bool true, rest)
    | 'f' :: 'a' :: 'l' :: 's' :: 'e' :: rest => some (.bool false, rest)
    | '"' :: rest => (string? rest).map fun (s, rest) => (.string s, rest)
    | '[' :: rest =>
      match skipBlanks rest with
      | ']' :: rest => some (.array [], rest)
      | rest => (items? fuel rest).map fun (items, rest) => (.array items, rest)
    | '\x7b' :: rest =>
      match skipBlanks rest with
      | '\x7d' :: rest => some (.object [], rest)
      | rest => (members? fuel rest).map fun (ms, rest) => (.object (arrange ms), rest)
    | rest => (number? rest).map fun (n, rest) => (.number n, rest)
def items? : Nat → List Char → Option (List Json × List Char)
  | 0, _ => none
  | fuel + 1, text =>
    match value? fuel text with
    | none => none
    | some (item, rest) =>
      match skipBlanks rest with
      | ']' :: rest => some ([item], rest)
      | ',' :: rest => (items? fuel rest).map fun (items, rest) => (item :: items, rest)
      | _ => none
def members? : Nat → List Char → Option (List (String × Json) × List Char)
  | 0, _ => none
  | fuel + 1, text =>
    match skipBlanks text with
    | '"' :: rest =>
      match string? rest with
      | none => none
      | some (key, rest) =>
        match skipBlanks rest with
        | ':' :: rest =>
          match value? fuel rest with
          | none => none
          | some (value, rest) =>
            match skipBlanks rest with
            | '\x7d' :: rest => some ([(key, value)], rest)
            | ',' :: rest =>
              (members? fuel rest).map fun (ms, rest) => ((key, value) :: ms, rest)
            | _ => none
        | _ => none
    | _ => none
end

def parse? (text : String) : Option Json :=
  let chars := text.toList
  match value? (2 * chars.length + 2) chars with
  | some (value, rest) => if (skipBlanks rest).isEmpty then some value else none
  | none => none

end SceneCompiler.Json
