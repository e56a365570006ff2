import SceneCompiler.Number.Decimal

/-!
The text of a number: the shortest digits that read back, written positionally unless the point
lies beyond the twenty-first digit or after more than five leading zeros.
-/

namespace SceneCompiler

def zeros (count : Nat) : List Char :=
  List.replicate count '0'

/-- Digits with the point after the first `place` of them, in positional or exponent notation. -/
def positional (digits : List Char) (place : Int) : List Char :=
  let count : Int := digits.length
  if count ≤ place && place ≤ 21 then
    digits ++ zeros (place - count).toNat
  else if 0 < place && place ≤ 21 then
    digits.take place.toNat ++ '.' :: digits.drop place.toNat
  else if -6 < place && place ≤ 0 then
    '0' :: '.' :: zeros (-place).toNat ++ digits
  else
    let exponent := place - 1
    let mantissa :=
      match digits with
      | d :: e :: rest => d :: '.' :: e :: rest
      | short => short
    mantissa ++ 'e' :: (if exponent < 0 then '-' else '+') :: Nat.toDigits 10 exponent.natAbs

namespace Number

def magnitudeText (units : Nat) : List Char :=
  if units = 0 then ['0']
  else
    let d := (Decimal.shortest units).strip
    let digits := Nat.toDigits 10 d.digits
    positional digits (d.exponent + digits.length)

/-- The characters of a number's text; `signedZero` keeps the sign of a negative zero. -/
def chars (n : Number) (signedZero : Bool) : List Char :=
  match n with
  | .finite negative units _ =>
    let text := magnitudeText units
    if negative && (units != 0 || signedZero) then '-' :: text else text
  | .infinite negative =>
    if negative then "-Infinity".toList else "Infinity".toList
  | .nan => "NaN".toList

def text (n : Number) : String :=
  String.ofList (n.chars false)

def signedText (n : Number) : String :=
  String.ofList (n.chars true)

end Number

end SceneCompiler
