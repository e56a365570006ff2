import SceneCompiler.Number.Text

/-!
Hexadecimal text of a number. As sixteen is a power of two, every number has finitely many digits,
and all of them are written.
-/

namespace SceneCompiler.Number

/--
The digits after the point of `rest / one`, up to the last that is not zero. Each takes four of the
1074 bits that a fraction can have.
-/
def hexFraction : (fuel rest : Nat) → List Char
  | 0, _ => []
  | fuel + 1, rest =>
    if rest = 0 then []
    else Nat.digitChar (16 * rest / one) :: hexFraction fuel (16 * rest % one)

def hexMagnitude (units : Nat) : List Char :=
  let whole := Nat.toDigits 16 (units / one)
  match hexFraction 269 (units % one) with
  | [] => whole
  | digits => whole ++ '.' :: digits

def hexText (n : Number) : String :=
  let chars :=
    match n with
    | .finite negative units _ =>
      if negative && units != 0 then '-' :: hexMagnitude units else hexMagnitude units
    | n => n.chars false
  String.ofList (zeros (2 - chars.length) ++ chars.map Char.toUpper)

end SceneCompiler.Number
