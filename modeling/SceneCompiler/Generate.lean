import SceneCompiler.Compile
import SceneCompiler.Files.Path
import SceneCompiler.Json.Parser
import SceneCompiler.Scene

/-!
From a scene document to code, and the choice of the class name.
-/

namespace SceneCompiler

structure GenerateOptions where
  className : Option String := none
  nameSpace : Option String := none
  setComments : Bool := false
deriving DecidableEq, Repr

structure Generated where
  className : String
  code : String
deriving DecidableEq, Repr

inductive GenerateError where
  | load (error : LoadError)
  | fault (fault : Fault)
  | invalidClassName (name : String)
deriving DecidableEq, Repr

def GenerateError.message : GenerateError → String
  | .load error => error.message
  | .fault cause => cause.message
  | .invalidClassName name => "Invalid class name: " ++ name

namespace ClassName

def standard : String := "AnimatedVisualSource"

def words : List Char → List (List Char)
  | [] => [[]]
  | c :: rest =>
    if c.isAlphanum then
      match words rest with
      | first :: more => (c :: first) :: more
      | [] => [[c]]
    else [] :: words rest

def capitalize : List Char → List Char
  | [] => []
  | c :: rest => c.toUpper :: rest

/-- The class name that a path suggests: the capitalized words of its stem, after an underscore
where they begin with a digit. -/
def ofPath? (path : String) : Option String :=
  match ((words (Path.stem path).toList).map capitalize).flatten with
  | [] => none
  | c :: rest => some (String.ofList (if c.isDigit then '_' :: c :: rest else c :: rest))

end ClassName

/-- Generates the code of a scene. The caller's class name comes first, then that of the scene,
then the one that the path suggests. -/
def Scene.generate (scene : Scene) (o : GenerateOptions) (sourcePath : Option String) :
    Except GenerateError Generated := do
  if let some name := o.className then
    if !isClassName name then throw (.invalidClassName name)
  let className :=
    ((o.className <|> scene.className) <|> sourcePath.bind ClassName.ofPath?).getD
      ClassName.standard
  let options : Options :=
    { className := className
      nameSpace := o.nameSpace.getD "AnimatedVisuals"
      width := scene.width
      height := scene.height
      durationMs := scene.durationMs
      setComments := o.setComments }
  let result ← (compile scene.heap scene.root options).mapError .fault
  return ⟨className, result.code⟩

def generate (document : Option Json) (o : GenerateOptions) (sourcePath : Option String) :
    Except GenerateError Generated := do
  let scene ← (Scene.load document (sourcePath.getD "<memory>")).mapError .load
  scene.generate o sourcePath

def generateFile (path text : String) (o : GenerateOptions) : Except GenerateError Generated :=
  match Json.parse? text with
  | some document => generate (some document) o (some path)
  | none => .error (.load ⟨path, [⟨"(document)", "invalid JSON"⟩]⟩)

end SceneCompiler
