import SceneCompiler.Text.Blank

/-!
Code as lines, comments and blocks, and its layout: each block is indented by one unit.
-/

namespace SceneCompiler

inductive Code where
  | line (text : String)
  | comment (text : String)
  | block (body : List Code)
deriving Repr

structure Layout where
  indentUnit : String := "    "
  depth : Nat := 0
  lines : List String := []
deriving DecidableEq, Repr

inductive LayoutError where
  | unmatchedClose
deriving DecidableEq, Repr

def LayoutError.message : LayoutError → String
  | .unmatchedClose => "closeScope called without a matching openScope"

namespace Layout

def splitLines : List Char → List (List Char)
  | [] => [[]]
  | '\n' :: rest => [] :: splitLines rest
  | '\r' :: '\n' :: rest => [] :: splitLines rest
  | c :: rest =>
    match splitLines rest with
    | first :: more => (c :: first) :: more
    | [] => [[c]]

def commentLines (text : String) : List String :=
  if Text.isBlank text then []
  else (splitLines text.toList).map fun line => Text.trimEnd ("// " ++ String.ofList line)

def indented (unit : String) (depth : Nat) (text : String) : String :=
  if text.isEmpty then "" else String.join (List.replicate depth unit) ++ text

def writeLine (l : Layout) (text : String) : Layout :=
  { l with lines := l.lines ++ [indented l.indentUnit l.depth text] }

def writeComment (l : Layout) (text : String) : Layout :=
  (commentLines text).foldl writeLine l

def openScope (l : Layout) : Layout :=
  let l := l.writeLine "\x7b"
  { l with depth := l.depth + 1 }

def closeScope (l : Layout) (ending : String) : Except LayoutError Layout :=
  match l.depth with
  | 0 => .error .unmatchedClose
  | depth + 1 => .ok ({ l with depth := depth }.writeLine ("\x7d" ++ ending))

def text (l : Layout) : String :=
  "\n".intercalate l.lines ++ "\n"

end Layout

namespace Code

mutual
def lines (unit : String) (depth : Nat) : Code → List String
  | .line text => [Layout.indented unit depth text]
  | .comment text => (Layout.commentLines text).map (Layout.indented unit depth)
  | .block body =>
    Layout.indented unit depth "\x7b" ::
      (allLines unit (depth + 1) body ++ [Layout.indented unit depth "\x7d"])
def allLines (unit : String) (depth : Nat) : List Code → List String
  | [] => []
  | c :: rest => c.lines unit depth ++ allLines unit depth rest
end

def render (code : List Code) : String :=
  Layout.text { lines := allLines "    " 0 code }

end Code

end SceneCompiler
