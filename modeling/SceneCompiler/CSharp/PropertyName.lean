import SceneCompiler.Text.Units

/-!
Constants for property names: an identifier for each, with numbers where identifiers would clash.
-/

namespace SceneCompiler.CSharp

def isWordChar (c : Char) : Bool :=
  c.isAlphanum || c == '_'

def wordText (name : String) : String :=
  String.ofList <| name.toList.flatMap fun c =>
    if isWordChar c then [c] else (Text.charUnits c).map fun _ => '_'

def candidate (base : String) : Nat → String
  | 0 => base ++ "PropertyName"
  | k => base ++ "_" ++ toString k ++ "PropertyName"

def fresh (used : List String) (base : String) : String :=
  let candidates := (List.range (used.length + 1)).map (candidate base)
  (candidates.find? fun id => !used.contains id).getD (candidate base 0)

def addConstant (constants : List (String × String)) (name : String) : List (String × String) :=
  if (constants.map (·.1)).contains name then constants
  else constants ++ [(name, fresh (constants.map (·.2)) (wordText name))]

def propertyNameConstants (names : List String) : List (String × String) :=
  names.foldl addConstant []

end SceneCompiler.CSharp
