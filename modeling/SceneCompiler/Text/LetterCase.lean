/-!
Letters in two cases: runs of letters whose partners lie at a fixed distance.
-/

namespace SceneCompiler.Text

/-- Every `step`-th letter from `first` to `last`, each `shift` places before its partner. -/
structure CaseRun where
  first : Nat
  last : Nat
  step : Nat
  shift : Int
deriving DecidableEq, Repr

def CaseRun.contains (r : CaseRun) (n : Nat) : Bool :=
  r.first ≤ n && n ≤ r.last && (n - r.first) % r.step == 0

def partner? (runs : List CaseRun) (n : Nat) : Option Char :=
  (runs.find? (·.contains n)).map fun r => Char.ofNat ((n : Int) + r.shift).toNat

end SceneCompiler.Text
