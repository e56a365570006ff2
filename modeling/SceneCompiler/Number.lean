/-!
The numbers of a scene: binary floating point numbers with 53 significant bits. A finite number is
a whole multiple of the smallest positive one, 2^-1074, so that comparing and rounding are
arithmetic on naturals.
-/

namespace SceneCompiler

/-- Whether `units` steps of 2^-1074 have 53 significant bits and lie below 2^1024. -/
def Representable (units : Nat) : Prop :=
  units < Nat.pow 2 2098 ∧ Nat.pow 2 (units.log2 - 52) ∣ units

instance (units : Nat) : Decidable (Representable units) :=
  inferInstanceAs (Decidable (_ ∧ _))

/-- A number: finite, with its sign also at zero; infinite; or not a number. -/
inductive Number where
  | finite (negative : Bool) (units : Nat) (representable : Representable units)
  | infinite (negative : Bool)
  | nan
deriving DecidableEq, Repr

namespace Number

def one : Nat := Nat.pow 2 1074

/--
The number of steps nearest to `p / q` among those with 53 significant bits; of two equally near,
the one with an even significand.
-/
def nearestUnits (p q : Nat) : Nat :=
  let shift := (p / q).log2 - 52
  let step := q * Nat.pow 2 shift
  let m := p / step
  let r := p % step
  let rounded :=
    if 2 * r < step then m else if step < 2 * r then m + 1 else m + m % 2
  rounded * Nat.pow 2 shift

def ofUnits (negative : Bool) (units : Nat) : Number :=
  if h : Representable units then .finite negative units h else .infinite negative

def ofRatio (negative : Bool) (p q : Nat) : Number :=
  ofUnits negative (nearestUnits (p * one) q)

def ofNat (n : Nat) : Number :=
  ofRatio false n 1

instance (n : Nat) : OfNat Number n := ⟨ofNat n⟩

def equals : Number → Number → Bool
  | .finite s a _, .finite t b _ => a == b && (s == t || a == 0)
  | .infinite s, .infinite t => s == t
  | _, _ => false

def le : Number → Number → Bool
  | .nan, _ => false
  | _, .nan => false
  | .infinite true, _ => true
  | _, .infinite false => true
  | .infinite false, _ => false
  | _, .infinite true => false
  | .finite false a _, .finite false b _ => a ≤ b
  | .finite true a _, .finite true b _ => b ≤ a
  | .finite true _ _, .finite false _ _ => true
  | .finite false a _, .finite true b _ => a == 0 && b == 0

def lt (a b : Number) : Bool :=
  a.le b && !a.equals b

def isInteger : Number → Bool
  | .finite _ units _ => units % one == 0
  | _ => false

def toNat? : Number → Option Nat
  | .finite negative units _ =>
    if units % one = 0 && (!negative || units == 0) then some (units / one) else none
  | _ => none

def truncate : Number → Number
  | .finite negative units _ => ofRatio negative (units / one) 1
  | n => n

def round : Number → Number
  | .finite false units _ => ofRatio false ((2 * units + one) / (2 * one)) 1
  | .finite true units _ => ofRatio true ((2 * units + one - 1) / (2 * one)) 1
  | n => n

def scale (n : Number) (k : Nat) : Number :=
  match n with
  | .finite negative units _ => ofUnits negative (nearestUnits (units * k) 1)
  | n => n

/-- A number up to what a written key tells: the zeros are one, as are all that are not finite. -/
def written : Number → Number
  | .finite negative units _ => ofUnits (negative && units != 0) units
  | _ => .nan

end Number

end SceneCompiler
