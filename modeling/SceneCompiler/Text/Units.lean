/-!
UTF-16 code units: the units in which texts are cut and ordered.
-/

namespace SceneCompiler.Text

def charUnits (c : Char) : List Nat :=
  let n := c.toNat
  if n < 0x10000 then [n]
  else [0xD800 + (n - 0x10000) / 0x400, 0xDC00 + (n - 0x10000) % 0x400]

def units (s : String) : List Nat :=
  s.toList.flatMap charUnits

def unitsLe : List Nat → List Nat → Bool
  | [], _ => true
  | _ :: _, [] => false
  | a :: as, b :: bs => a < b || (a == b && unitsLe as bs)

def le (a b : String) : Bool :=
  unitsLe (units a) (units b)

end SceneCompiler.Text
