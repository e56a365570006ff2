import SceneCompiler.Code
import SceneCompiler.CSharp.Dialect
import SceneCompiler.CSharp.Literal
import SceneCompiler.Factory
import SceneCompiler.Resolver

/-!
Methods: the code of a factory whose requests are resolved.
-/

namespace SceneCompiler.CSharp

def durationField : String := "c_durationTicks"

def compositorField : String := "_c"

def reusableField : String := "_reusableExpressionAnimation"

def holder : Holder → String
  | .result => "result"
  | .reusable => reusableField
  | .controller 0 => "controller"
  | .controller depth => "controller" ++ toString depth

variable (d : Dialect)

def member (expression name : String) : String :=
  expression ++ d.deref ++ name

def target (t : Target) : String :=
  if t.onProperties then member d (holder t.holder) "Properties" else holder t.holder

def strokeCap (name : String) : String :=
  "CompositionStrokeCap" ++ d.scopeResolve ++ name

def lineJoin (name : String) : String :=
  "CompositionStrokeLineJoin" ++ d.scopeResolve ++ name

def operand : Operand Access → String
  | .number value => float value
  | .integer value => integer value
  | .truth => bool true
  | .text value => Text.quote value
  | .vector2 value => vector2 value
  | .vector3 value => vector3 value
  | .color value => color value
  | .cap value => strokeCap d (Named.name value)
  | .join value => lineJoin d (Named.name value)
  | .timeSpan milliseconds => timeSpan (integer (ticks milliseconds))
  | .duration => timeSpan durationField
  | .object access => access.text
  | .holder h => holder h

def itemList : ItemList → String × String × String
  | .children => ("children", "Children", "InsertAtTop")
  | .shapes => ("shapes", "Shapes", d.listAdd)
  | .strokeDashArray => ("strokeDashArray", "StrokeDashArray", d.listAdd)

def callLine (receiver method : String) (arguments : List String) : Code :=
  .line (call (member d receiver method) arguments ++ ";")

def assignLine (receiver property value : String) : Code :=
  .line (member d receiver property ++ " = " ++ value ++ ";")

def declareLine (name value : String) : Code :=
  .line (d.varKeyword ++ " " ++ name ++ " = " ++ value ++ ";")

def startLine (t : Target) (property animation : String) : Code :=
  callLine d (target d t) "StartAnimation" [property, animation]

def fetchLine (declares : Bool) (depth : Nat) (t : Target) (property : String) : Code :=
  let name := holder (.controller depth)
  let value := call (member d (target d t) "TryGetAnimationController") [property]
  if declares then declareLine d name value else .line (name ++ " = " ++ value ++ ";")

def statement : Statement Access → Code
  | .comment text => .comment text
  | .assign h property value => assignLine d (holder h) property (operand d value)
  | .openList list =>
    let (name, property, _) := itemList d list
    declareLine d name (member d "result" property)
  | .add list item =>
    let (name, _, method) := itemList d list
    callLine d name method [operand d item]
  | .openProperties => declareLine d "propertySet" (member d "result" "Properties")
  | .insertScalar name value =>
    callLine d "propertySet" "InsertScalar" [Text.quote name, float value]
  | .insertVector2 name value =>
    callLine d "propertySet" "InsertVector2" [Text.quote name, vector2 value]
  | .setParameter h name value =>
    callLine d (holder h) "SetReferenceParameter" [Text.quote name, operand d value]
  | .insertKeyFrame progress value easing =>
    callLine d "result" "InsertKeyFrame" [float progress, operand d value, easing.text]
  | .insertExpressionKeyFrame progress expression easing =>
    callLine d "result" "InsertExpressionKeyFrame"
      [float progress, Text.quote expression, easing.text]
  | .clearParameters => callLine d reusableField "ClearAllParameters" []
  | .startAnimation t property animation =>
    startLine d t (Text.quote property) (operand d animation)
  | .fetchController declares depth t property =>
    fetchLine d declares depth t (Text.quote property)
  | .pauseController depth => callLine d (holder (.controller depth)) "Pause" []

def pathCommand : PathCommand → String
  | .beginFigure start => call "BeginFigure" [vector2 start]
  | .addLine stop => call "AddLine" [vector2 stop]
  | .addCubicBezier a b stop => call "AddCubicBezier" [vector2 a, vector2 b, vector2 stop]
  | .endFigure a => call "EndFigure" [figureLoop (Named.name a)]

def createPath : String :=
  call "CanvasGeometry.CreatePath" ["builder"]

def keep (s : Site) (value : String) : String :=
  if s.stored then s.fieldName ++ " = " ++ value else value

def constructPath (source : String) : String :=
  d.newOperator ++ " " ++ call "CompositionPath" [source]

def combine (a b matrix mode : String) : String :=
  call (a ++ ".CombineWith") [b, matrix, combineMode mode]

def canvasShape (method : String) (numbers : List Number) : String :=
  call ("CanvasGeometry." ++ method) (d.nullLiteral :: numbers.map float)

def compositorCall (method : String) (arguments : List String) : String :=
  call (member d compositorField method) arguments

def creation : Creation Access → String
  | .call method arguments => compositorCall d method (arguments.map (operand d))
  | .path source => constructPath d source.text
  | .combination a b m mode =>
    combine a.text b.text (matrix m) (Named.name mode)
  | .ellipse x y rx ry => canvasShape d "CreateEllipse" [x, y, rx, ry]
  | .roundedRectangle x y w h rx ry => canvasShape d "CreateRoundedRectangle" [x, y, w, h, rx, ry]
  | .outline _ _ => createPath

def builderLine (command : String) : Code :=
  .line ("builder." ++ command ++ ";")

def regionLine (name : String) : Code :=
  builderLine (call "SetFilledRegionDetermination" [filledRegion name])

def outlineResult (s : Site) (statements : List Code) : List Code :=
  [.line (s.typeName ++ " result;"),
   .line ("using (" ++ d.varKeyword ++ " builder = " ++ d.newOperator ++ " " ++
    call "CanvasPathBuilder" [d.nullLiteral] ++ ")"),
   .block (statements ++ [.line ("result = " ++ keep s createPath ++ ";")])]

def declareResult (s : Site) (value : String) : Code :=
  declareLine d "result" (keep s value)

def createResult (s : Site) (c : Creation Access) : List Code :=
  match c with
  | .outline region commands =>
    outlineResult d s
      ((if region = .alternate then [] else [regionLine (Named.name region)]) ++
       commands.map fun command => builderLine (pathCommand command))
  | c => [declareResult d s (creation d c)]

def methodAround (s : Site) (comment : String) (body : List Code) : List Code :=
  [.comment comment, .line (s.typeName ++ " " ++ s.name ++ "()"), .block body, .line ""]

def bareBody (s : Site) (value : String) : List Code :=
  [.line ("return " ++ keep s value ++ ";")]

def returnResult : Code := .line "return result;"

def method (s : Site) (comment : String) (f : Factory Access) : List Code :=
  methodAround s comment <|
    if f.bare then bareBody s (creation d f.creation)
    else createResult d s f.creation ++ f.statements.map (statement d) ++ [returnResult]

end SceneCompiler.CSharp
