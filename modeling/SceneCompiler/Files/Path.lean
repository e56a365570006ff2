/-!
Paths as text: parts between slashes, joining, and the name of the last part.
-/

namespace SceneCompiler.Path

def splitSlashes : List Char → List (List Char)
  | [] => [[]]
  | c :: rest =>
    if c = '/' then [] :: splitSlashes rest
    else
      match splitSlashes rest with
      | first :: more => (c :: first) :: more
      | [] => [[c]]

def parts (path : String) : List String :=
  ((splitSlashes path.toList).map String.ofList).filter fun part => !part.isEmpty

def isAbsolute (path : String) : Bool :=
  path.toList.head? == some '/'

def endsWithSlash (path : String) : Bool :=
  path.toList.getLast? == some '/'

def push (absolute : Bool) (reversed : List String) (part : String) : List String :=
  if part == "." then reversed
  else if part == ".." then
    match reversed with
    | [] => if absolute then [] else [".."]
    | last :: rest => if last == ".." then ".." :: last :: rest else rest
  else part :: reversed

def simplify (absolute : Bool) (parts : List String) : List String :=
  (parts.foldl (push absolute) []).reverse

def normalize (path : String) : String :=
  let body := "/".intercalate (simplify (isAbsolute path) (parts path))
  if isAbsolute path then
    if body.isEmpty then "/" else "/" ++ body ++ if endsWithSlash path then "/" else ""
  else
    (if body.isEmpty then "." else body) ++ if endsWithSlash path then "/" else ""

def join (base path : String) : String :=
  normalize ("/".intercalate ([base, path].filter fun p => !p.isEmpty))

def resolve (directory path : String) : String :=
  let absolute := if isAbsolute path then path else directory ++ "/" ++ path
  "/" ++ "/".intercalate (simplify true (parts absolute))

def directory (path : String) : String :=
  let body := "/".intercalate (parts path).dropLast
  if isAbsolute path then "/" ++ body else if body.isEmpty then "." else body

def name (path : String) : String :=
  (parts path).getLast?.getD ""

/-- The length of a name without its extension: what is from the last point on, unless that is the
first character. The name `..` has no extension. -/
def stemLength (name : List Char) : Nat :=
  let afterPoint := (name.reverse.takeWhile (· != '.')).length
  let stem := name.length - (afterPoint + 1)
  if stem = 0 || name == ['.', '.'] then name.length else stem

def stem (path : String) : String :=
  let chars := (name path).toList
  String.ofList (chars.take (stemLength chars))

end SceneCompiler.Path
