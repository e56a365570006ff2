import SceneCompiler.Number.Scientific
import SceneCompiler.Text.Blank

/-!
Reading a text as a number: a decimal with or without exponent, a whole number in base 16, 8 or 2
after its mark, or infinity. Blanks around it do not count, and an empty text is zero.
-/

namespace SceneCompiler

def digitValue? (base : Nat) (c : Char) : Option Nat :=
  let value? : Option Nat :=
    if c.isDigit then some (c.toNat - '0'.toNat)
    else if 'a' ≤ c && c ≤ 'f' then some (c.toNat - 'a'.toNat + 10)
    else if 'A' ≤ c && c ≤ 'F' then some (c.toNat - 'A'.toNat + 10)
    else none
  value?.filter fun value => value < base

def natOfBase? (base : Nat) (digits : List Char) : Option Nat :=
  if digits.isEmpty then none
  else
    digits.foldlM (fun n c => (digitValue? base c).map fun value => base * n + value) 0

namespace Scientific

def takeDigits? (text : List Char) : Option (List Char × List Char × List Char) :=
  let whole := text.takeWhile Char.isDigit
  let rest := text.dropWhile Char.isDigit
  let (fraction, rest) :=
    match rest with
    | '.' :: rest => (rest.takeWhile Char.isDigit, rest.dropWhile Char.isDigit)
    | rest => ([], rest)
  if whole.isEmpty && fraction.isEmpty then none else some (whole, fraction, rest)

end Scientific

namespace Number

def ofUnsigned (negative : Bool) (text : List Char) : Number :=
  match Scientific.takeDigits? text with
  | none => .nan
  | some (whole, fraction, rest) =>
    let exponent? := if rest.isEmpty then some 0 else Scientific.exponent? rest
    match exponent? with
    | none => .nan
    | some exponent =>
      Decimal.toNumber negative
        ⟨Scientific.natOfDigits (whole ++ fraction), exponent - fraction.length⟩

def ofSigned (text : List Char) : Number :=
  let (sign, unsigned) := Scientific.takeSign text
  let negative := sign == ['-']
  if unsigned == "Infinity".toList then .infinite negative else ofUnsigned negative unsigned

def ofBase (base : Nat) (digits : List Char) : Number :=
  ((natOfBase? base digits).map ofNat).getD .nan

def ofText (text : String) : Number :=
  match Text.trim text.toList with
  | [] => 0
  | '0' :: 'x' :: digits => ofBase 16 digits
  | '0' :: 'X' :: digits => ofBase 16 digits
  | '0' :: 'o' :: digits => ofBase 8 digits
  | '0' :: 'O' :: digits => ofBase 8 digits
  | '0' :: 'b' :: digits => ofBase 2 digits
  | '0' :: 'B' :: digits => ofBase 2 digits
  | chars => ofSigned chars

end Number

end SceneCompiler
