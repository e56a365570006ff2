import SceneCompiler.Number.Text

/-!
Exponent notation: a text such as `1.5e-7`, and the same number written out without exponent.
-/

namespace SceneCompiler

structure Scientific where
  sign : List Char
  whole : List Char
  fraction : List Char
  exponent : Int
deriving DecidableEq, Repr

namespace Scientific

def natOfDigits (digits : List Char) : Nat :=
  digits.foldl (fun n c => 10 * n + (c.toNat - '0'.toNat)) 0

def takeSign : List Char → List Char × List Char
  | '+' :: rest => (['+'], rest)
  | '-' :: rest => (['-'], rest)
  | rest => ([], rest)

def takeFraction? : List Char → Option (List Char × List Char)
  | '.' :: rest =>
    let digits := rest.takeWhile Char.isDigit
    if digits.isEmpty then none else some (digits, rest.dropWhile Char.isDigit)
  | rest => some ([], rest)

def exponent? : List Char → Option Int
  | mark :: rest =>
    let (sign, digits) := takeSign rest
    if (mark == 'e' || mark == 'E') && !digits.isEmpty && digits.all Char.isDigit then
      some (if sign == ['-'] then -(natOfDigits digits : Int) else natOfDigits digits)
    else none
  | [] => none

def parse? (text : List Char) : Option Scientific :=
  let (sign, unsigned) := takeSign text
  let whole := unsigned.takeWhile Char.isDigit
  if whole.isEmpty then none
  else
    match takeFraction? (unsigned.dropWhile Char.isDigit) with
    | none => none
    | some (fraction, rest) =>
      (exponent? rest).map fun exponent => ⟨sign, whole, fraction, exponent⟩

def expand (s : Scientific) : List Char :=
  let digits := s.whole ++ s.fraction
  let point : Int := s.whole.length + s.exponent
  s.sign ++
    if point ≤ 0 then
      '0' :: '.' :: zeros (-point).toNat ++ digits
    else if digits.length ≤ point then
      digits ++ zeros (point - digits.length).toNat
    else
      digits.take point.toNat ++ '.' :: digits.drop point.toNat

end Scientific

def expandExponent (text : List Char) : List Char :=
  match Scientific.parse? text with
  | some s => s.expand
  | none => text

end SceneCompiler
