/-!
Issues of a scene document, and the error that reports all of them.
-/

namespace SceneCompiler

structure Issue where
  path : String
  message : String
deriving DecidableEq, Repr

structure LoadError where
  sourcePath : String
  issues : List Issue
deriving DecidableEq, Repr

namespace LoadError

def message (e : LoadError) : String :=
  let count := toString e.issues.length
  let header := "Scene " ++ e.sourcePath ++ " is invalid (" ++ count ++ " issue(s)):"
  "\n".intercalate (header :: e.issues.map fun i => "- " ++ i.path ++ ": " ++ i.message)

end LoadError

structure Collector where
  sourcePath : String
  issues : List Issue := []
deriving DecidableEq, Repr

namespace Collector

inductive Command where
  | add (path message : String)
  | look
  | check

variable (c : Collector)

def hasIssues : Bool :=
  !c.issues.isEmpty

def check : Except LoadError Unit :=
  if c.hasIssues then .error ⟨c.sourcePath, c.issues⟩ else .ok ()

def step : Command → Except LoadError Unit × Collector
  | .add path message => (.ok (), { c with issues := c.issues ++ [⟨path, message⟩] })
  | .look => (.ok (), c)
  | .check => (c.check, c)

end Collector

end SceneCompiler
