import SceneCompiler.Files.Tree
import SceneCompiler.Text.Units

/-!
Discovery of scene files: a file itself, or the scene files below a directory.
-/

namespace SceneCompiler

namespace Discovery

def standardExcludes : List String :=
  ["node_modules", "dist", ".git"]

def isSceneName (name : String) : Bool :=
  ".json".toList.isSuffixOf name.toList

mutual
def below (excludes : List String) (path : String) : Entry → List String
  | .file _ => []
  | .directory entries => belowAll excludes path entries
def belowAll (excludes : List String) (path : String) : List (String × Entry) → List String
  | [] => []
  | (name, .file _) :: rest =>
    (if isSceneName name then [Path.join path name] else []) ++ belowAll excludes path rest
  | (name, .directory entries) :: rest =>
    (if excludes.contains name then [] else belowAll excludes (Path.join path name) entries) ++
      belowAll excludes path rest
end

end Discovery

def discover (t : FileTree) (source : String) (excludes : Option (List String)) :
    Except FileError (List String) := do
  match ← t.stat source with
  | (_, .file _) => return [source]
  | (_, e) =>
    let found := Discovery.below (excludes.getD Discovery.standardExcludes) source e
    return found.mergeSort Text.le

end SceneCompiler
