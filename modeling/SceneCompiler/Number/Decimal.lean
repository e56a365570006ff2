import SceneCompiler.Number

/-!
Decimals: reading one as a number, and the decimals that stand for a number, either the shortest
that reads back as it or one rounded to given places.
-/

namespace SceneCompiler

structure Decimal where
  digits : Nat
  exponent : Int
deriving DecidableEq, Repr

namespace Decimal

def digitCount (n : Nat) : Nat :=
  (Nat.toDigits 10 n).length

/--
The number nearest to a decimal. A decimal from 10^310 on is infinite and one below 10^-330 is
zero, whatever its digits, so that no large power has to be computed for them.
-/
def toNumber (negative : Bool) (d : Decimal) : Number :=
  if d.digits = 0 then Number.ofUnits negative 0
  else
    let position := d.exponent + digitCount d.digits
    if position > 310 then .infinite negative
    else if position < -330 then Number.ofUnits negative 0
    else
      match d.exponent with
      | .ofNat e => Number.ofRatio negative (d.digits * Nat.pow 10 e) 1
      | .negSucc e => Number.ofRatio negative d.digits (Nat.pow 10 (e + 1))

def scaled (units : Nat) : Int → Nat × Nat
  | .ofNat p => (units * Nat.pow 10 p, Number.one)
  | .negSucc p => (units, Number.one * Nat.pow 10 (p + 1))

/-- The place of the point: `10 ^ (place - 1) ≤ v < 10 ^ place` for the value `v` of `units`. -/
def place (units : Nat) : Int :=
  (digitCount (units * Nat.pow 10 400 / Number.one) : Int) - 400

def roundHalfUp (p q : Nat) : Nat :=
  (2 * p + q) / (2 * q)

def fixed (units places : Nat) : Decimal :=
  ⟨roundHalfUp (units * Nat.pow 10 places) Number.one, -places⟩

def rounded (units : Nat) (power : Int) : Decimal :=
  let fraction := scaled units power
  ⟨roundHalfUp fraction.1 fraction.2, -power⟩

/-- The decimal of `count` digits nearest to a magnitude, a half going away from zero. -/
def significant (units count : Nat) : Decimal :=
  rounded units (count - place units)

def readsBack (units : Nat) (d : Decimal) : Bool :=
  d.toNumber false == Number.ofUnits false units

/--
The neighbour of `p / q` steps of `10 ^ -power` that reads back as `units`, if there is one: the
nearer of the two where both read back, the even one where they are equally near.
-/
def neighbour? (units p q : Nat) (power : Int) : Option Decimal :=
  let below : Decimal := ⟨p / q, -power⟩
  let above : Decimal := ⟨p / q + 1, -power⟩
  let r := 2 * (p % q)
  let belowFirst := r < q || (r == q && (p / q) % 2 == 0)
  let first := if belowFirst then below else above
  let second := if belowFirst then above else below
  if readsBack units first then some first
  else if readsBack units second then some second
  else none

def shortestOf? (units count : Nat) : Option Decimal :=
  let power := (count : Int) - place units
  let fraction := scaled units power
  neighbour? units fraction.1 fraction.2 power

/-- The decimal with the fewest digits that reads back as a magnitude. -/
def shortest (units : Nat) : Decimal :=
  ((List.range 17).findSome? fun count => shortestOf? units (count + 1)).getD
    ⟨units * Nat.pow 5 1074, -1074⟩

def strip (d : Decimal) : Decimal :=
  let zeros := ((Nat.toDigits 10 d.digits).reverse.takeWhile (· == '0')).length
  ⟨d.digits / Nat.pow 10 zeros, d.exponent + zeros⟩

end Decimal

end SceneCompiler
