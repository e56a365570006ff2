import SceneCompiler.Files.Path

/-!
File trees: a directory with all that is below it. Operations name a file by a path that is seen
from a working directory, and fail as a file system does.
-/

namespace SceneCompiler

inductive Entry where
  | file (text : String)
  | directory (entries : List (String × Entry))
deriving Repr

inductive FileFault where
  | missing
  | notDirectory
  | alreadyExists
  | isDirectory
deriving DecidableEq, Repr

def FileFault.text : FileFault → String
  | .missing => "ENOENT: no such file or directory"
  | .notDirectory => "ENOTDIR: not a directory"
  | .alreadyExists => "EEXIST: file already exists"
  | .isDirectory => "EISDIR: illegal operation on a directory"

structure FileError where
  fault : FileFault
  operation : String
  path : String
deriving DecidableEq, Repr

def FileError.message (e : FileError) : String :=
  e.fault.text ++ ", " ++ e.operation ++ " '" ++ e.path ++ "'"

namespace Entry

def isDirectory : Entry → Bool
  | .directory _ => true
  | .file _ => false

def get? : Entry → List String → Option Entry
  | e, [] => some e
  | .directory entries, name :: rest =>
    match entries.lookup name with
    | some e => e.get? rest
    | none => none
  | .file _, _ :: _ => none

def setName (name : String) (e : Entry) : List (String × Entry) → List (String × Entry)
  | [] => [(name, e)]
  | (other, old) :: rest =>
    if other = name then (name, e) :: rest else (other, old) :: setName name e rest

def put : Entry → List String → Entry → Entry
  | _, [], new => new
  | .directory entries, name :: rest, new =>
    let child := (entries.lookup name).getD (.directory [])
    .directory (setName name (child.put rest new) entries)
  | .file text, _ :: _, _ => .file text

mutual
def files : Entry → List (List String × String)
  | .file text => [([], text)]
  | .directory entries => filesOf entries
def filesOf : List (String × Entry) → List (List String × String)
  | [] => []
  | (name, e) :: rest => (e.files.map fun f => (name :: f.1, f.2)) ++ filesOf rest
end

end Entry

structure FileTree where
  top : Entry := .directory []
  current : List String := []
deriving Repr

namespace FileTree

variable (t : FileTree)

def follow : (place : List String) → (parts : List String) → Except FileFault (List String)
  | place, [] => .ok place
  | place, part :: rest =>
    match t.top.get? place with
    | some (.directory _) =>
      if part == "." then follow place rest
      else if part == ".." then follow place.dropLast rest
      else if (t.top.get? (place ++ [part])).isSome then follow (place ++ [part]) rest
      else .error .missing
    | some (.file _) => .error .notDirectory
    | none => .error .missing

def start (path : String) : List String :=
  if Path.isAbsolute path then [] else t.current

def find (path : String) : Except FileFault (List String × Entry) := do
  if path.isEmpty then throw .missing
  let place ← t.follow (t.start path) (Path.parts path)
  match t.top.get? place with
  | some (.file text) =>
    if Path.endsWithSlash path then throw .notDirectory else return (place, .file text)
  | some e => return (place, e)
  | none => throw .missing

def stat (path : String) : Except FileError (List String × Entry) :=
  (t.find path).mapError fun fault => ⟨fault, "stat", path⟩

def contains (path : String) : Bool :=
  (t.find path).isOk

def makeAlong (t : FileTree) :
    (place : List String) → (parts : List String) → Except FileFault FileTree
  | _, [] => .ok t
  | place, part :: rest =>
    if part == "." then makeAlong t place rest
    else if part == ".." then makeAlong t place.dropLast rest
    else
      let place := place ++ [part]
      match t.top.get? place with
      | some (.directory _) => makeAlong t place rest
      | some (.file _) => .error (if rest.isEmpty then .alreadyExists else .notDirectory)
      | none => makeAlong { t with top := t.top.put place (.directory []) } place rest

def makeDirectory (path : String) : Except FileError FileTree :=
  (t.makeAlong (t.start path) (Path.parts path)).mapError fun fault => ⟨fault, "mkdir", path⟩

def writable (path : String) : Except FileFault (List String) := do
  let parts := Path.parts path
  let last := parts.getLast?.getD "."
  let parent ← t.follow (t.start path) parts.dropLast
  match t.top.get? parent with
  | some (.directory _) =>
    if last == "." || last == ".." || Path.endsWithSlash path then throw .isDirectory
    match t.top.get? (parent ++ [last]) with
    | some (.directory _) => throw .isDirectory
    | _ => return parent ++ [last]
  | some (.file _) => throw .notDirectory
  | none => throw .missing

def writeFile (path text : String) : Except FileError FileTree :=
  match t.writable path with
  | .ok place => .ok { t with top := t.top.put place (.file text) }
  | .error fault => .error ⟨fault, "open", path⟩

def changes (before : FileTree) : List (List String × String) :=
  t.top.files.filter fun (names, text) =>
    match before.top.get? names with
    | some (.file old) => old != text
    | _ => true

end FileTree

end SceneCompiler
