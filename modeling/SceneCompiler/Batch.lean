import SceneCompiler.Discovery
import SceneCompiler.Generate

/-!
Batches: the code of every scene of a source, each in a file of its own.
-/

namespace SceneCompiler

inductive Level where
  | log | warn | error
deriving DecidableEq, Repr

structure Session where
  files : FileTree
  messages : List (Level × String) := []
deriving Repr

def Session.say (s : Session) (level : Level) (text : String) : Session :=
  { s with messages := s.messages ++ [(level, text)] }

structure BatchOptions where
  source : String
  outputDir : String
  className : Option String := none
  nameSpace : Option String := none
  setComments : Bool := false
  verbose : Bool := false
  excludeDirs : Option (List String) := none
  extension : String := ".cs"
deriving DecidableEq, Repr

structure Output where
  className : String
  sourcePath : String
  outputPath : String
deriving DecidableEq, Repr

inductive FailureCause where
  | generate (error : GenerateError)
  | duplicate (className previous : String)
  | file (error : FileError)
deriving DecidableEq, Repr

def FailureCause.message : FailureCause → String
  | .generate error => error.message
  | .duplicate className previous =>
    "Duplicate class name " ++ className ++ " (also generated from " ++ previous ++ ")"
  | .file error => error.message

structure Failure where
  filePath : String
  cause : FailureCause
deriving DecidableEq, Repr

inductive BatchError where
  | invalidClassName (name : String)
  | file (error : FileError)
  | failures (failures : List Failure)
deriving DecidableEq, Repr

def failureReport (failures : List (String × String)) : String :=
  let header := "Generation failed for " ++ toString failures.length ++ " scene(s):"
  "\n".intercalate (header :: failures.map fun (path, message) => "- " ++ path ++ ": " ++ message)

def BatchError.message : BatchError → String
  | .invalidClassName name => "Invalid class name: " ++ name
  | .file error => error.message
  | .failures all => failureReport (all.map fun f => (f.filePath, f.cause.message))

namespace Batch

/-- The outcome so far. A class name is taken by the scene that was first generated under it. -/
structure Progress where
  session : Session
  outputs : List Output := []
  failures : List Failure := []
  taken : List (String × String) := []
deriving Repr

def readText (t : FileTree) (path : String) : Except FileError String :=
  match t.find path with
  | .ok (_, .file text) => .ok text
  | .ok (_, .directory _) => .error ⟨.isDirectory, "read", path⟩
  | .error fault => .error ⟨fault, "open", path⟩

def write (o : BatchOptions) (t : FileTree) (g : Generated) :
    Except FileError (String × FileTree) := do
  let path := Path.join o.outputDir (g.className ++ o.extension)
  let t ← t.makeDirectory (Path.directory path)
  let t ← t.writeFile path g.code
  return (path, t)

def generateOne (o : GenerateOptions) (p : Progress) (filePath : String) :
    Except FailureCause Generated := do
  let text ← (readText p.session.files filePath).mapError .file
  let generated ← (generateFile filePath text o).mapError .generate
  match p.taken.lookup generated.className with
  | some previous => throw (.duplicate generated.className previous)
  | none => return generated

def fail (p : Progress) (filePath : String) (cause : FailureCause) : Progress :=
  { p with
    session := p.session.say .error ("Failed to generate " ++ filePath ++ ": " ++ cause.message)
    failures := p.failures ++ [⟨filePath, cause⟩] }

def step (b : BatchOptions) (o : GenerateOptions) (p : Progress) (filePath : String) : Progress :=
  let p :=
    if b.verbose then { p with session := p.session.say .log ("Compiling " ++ filePath) } else p
  match generateOne o p filePath with
  | .error cause => fail p filePath cause
  | .ok generated =>
    let p := { p with taken := p.taken ++ [(generated.className, filePath)] }
    match write b p.session.files generated with
    | .error error => fail p filePath (.file error)
    | .ok (path, files) =>
      { p with
        session := { p.session with files := files }
        outputs := p.outputs ++ [⟨generated.className, filePath, path⟩] }

def chooseName (b : BatchOptions) (count : Nat) (s : Session) : Option String × Session :=
  match b.className with
  | none => (none, s)
  | some name =>
    if count ≤ 1 then (some name, s)
    else
      (none, s.say .warn ("Ignoring class name " ++ name ++ ": " ++ toString count ++
        " scenes found in " ++ b.source))

def run (b : BatchOptions) (s : Session) : Except BatchError (List Output) × Session :=
  match b.className with
  | some name => if isClassName name then discovered else (.error (.invalidClassName name), s)
  | none => discovered
where
  discovered : Except BatchError (List Output) × Session :=
    match discover s.files b.source b.excludeDirs with
    | .error error => (.error (.file error), s)
    | .ok files =>
      let (className, s) := chooseName b files.length s
      let p := files.foldl (step b ⟨className, b.nameSpace, b.setComments⟩) { session := s }
      (if p.failures.isEmpty then .ok p.outputs else .error (.failures p.failures), p.session)

end Batch

end SceneCompiler
