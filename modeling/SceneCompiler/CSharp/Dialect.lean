/-!
The words of the code that are not fixed.
-/

namespace SceneCompiler.CSharp

structure Dialect where
  deref : String := "."
  listAdd : String := "Add"
  int64Type : String := "long"
  newOperator : String := "new"
  nullLiteral : String := "null"
  readonlyModifier : String := "readonly"
  scopeResolve : String := "."
  varKeyword : String := "var"
deriving DecidableEq, Repr

end SceneCompiler.CSharp
