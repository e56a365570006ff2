import SceneCompiler.Document.Record

/-!
Scene documents: the size and duration of a scene, and its objects by id.
-/

namespace SceneCompiler

/-- Whether a text is a class name: a letter or underscore, then letters, digits and underscores,
all of them ASCII. -/
def isClassName (text : String) : Bool :=
  match text.toList with
  | first :: rest =>
    (first.isAlpha || first == '_') && rest.all fun c => c.isAlphanum || c == '_'
  | [] => false

structure Outline where
  className : Option String
  width : Number
  height : Number
  durationMs : Number
  root : String
  objects : List (String × String × Json)
deriving Repr

structure Document where
  className : Option String
  width : Number
  height : Number
  durationMs : Number
  root : String
  records : List (String × Object String)
deriving Repr

namespace Document

open Reader

def typed : Reader (String × Json) := fun path j =>
  object (fun f => (fun type => (type, j)) <$> f.required "type" string) path j

def outline : Reader Outline :=
  object fun f =>
    Outline.mk
      <$> f.optional "className" (string |>.check isClassName "Expected a class name identifier")
      <*> f.required "width" Record.positive
      <*> f.required "height" Record.positive
      <*> f.required "durationMs" Record.nonnegative
      <*> f.required "root" Record.id
      <*> f.required "objects" (map typed)

def readRecords : List (String × String × Json) → Reading (List (String × Object String))
  | [] => pure []
  | (id, type, j) :: rest =>
    (fun o others => (id, o) :: others) <$> Record.read type ["objects", id] j <*> readRecords rest

def settle {α : Type} (r : Reading α) : Except (List Issue) α :=
  match r.value, r.issues with
  | some a, [] => .ok a
  | _, issues => .error issues

/-- Reads a document. Its records are looked at only when the document around them has no issue. -/
def read (json : Option Json) : Except (List Issue) Document := do
  let whole ← settle <|
    match json with
    | some j => outline [] j
    | none => Reading.reject [] "Required"
  let records ← settle (readRecords whole.objects)
  return ⟨whole.className, whole.width, whole.height, whole.durationMs, whole.root, records⟩

end Document

end SceneCompiler
