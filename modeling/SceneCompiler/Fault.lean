import SceneCompiler.Number.Text

/-!
Faults of a compilation. Any one of them ends it.
-/

namespace SceneCompiler

inductive FaultCode where
  | unsupportedVariant
  | missingStorage
  | duplicateFactoryCall
  | invalidReference
deriving DecidableEq, Repr

def FaultCode.name : FaultCode → String
  | .unsupportedVariant => "UnsupportedVariant"
  | .missingStorage => "MissingStorage"
  | .duplicateFactoryCall => "DuplicateFactoryCall"
  | .invalidReference => "InvalidReference"

inductive Fault where
  | unsupported (what type : String)
  | outsideGraph (type : String)
  | noGraphNode (index : Number)
  | noCanonicalNode (index : Number)
  | rootNotVisual (type : String)
  | noFactory (caller callee : String)
  | missingStorage (caller callee : String)
  | duplicateCall (caller callee : String)
deriving DecidableEq, Repr

namespace Fault

def code : Fault → FaultCode
  | .unsupported _ _ => .unsupportedVariant
  | .missingStorage _ _ => .missingStorage
  | .duplicateCall _ _ => .duplicateFactoryCall
  | _ => .invalidReference

def nodeName : Fault → Option String
  | .noFactory _ callee => some callee
  | .missingStorage _ callee => some callee
  | .duplicateCall _ callee => some callee
  | _ => none

def text : Fault → String
  | .unsupported what type => "Unsupported " ++ what ++ ": " ++ type
  | .outsideGraph type => "Object of type " ++ type ++ " is not part of the graph"
  | .noGraphNode index => "No graph node at index " ++ index.text
  | .noCanonicalNode index => "No canonical node at index " ++ index.text
  | .rootNotVisual type => "The root must be a visual, not " ++ type
  | .noFactory caller callee =>
    callee ++ " has no factory method and cannot be referenced from " ++ caller
  | .missingStorage caller callee =>
    caller ++ " reads " ++ callee ++ " from a field that is never declared"
  | .duplicateCall caller callee => caller ++ " would construct " ++ callee ++ " twice"

def withNode (text : String) : Option String → String
  | some name => if name.isEmpty then text else text ++ " (node: " ++ name ++ ")"
  | none => text

def message (f : Fault) : String :=
  withNode f.text f.nodeName

end Fault

end SceneCompiler
