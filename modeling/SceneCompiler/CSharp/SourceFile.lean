import SceneCompiler.CSharp.Method
import SceneCompiler.CSharp.PropertyName

/-!
Source files: the class that builds a scene, around its fields and methods.
-/

namespace SceneCompiler.CSharp

structure SourceFile where
  className : String
  nameSpace : String
  size : Vector2
  durationTicks : Number
  propertyNames : List String
  usesGeometryLibrary : Bool
  root : Site
  stored : List Site
  methods : List Code
deriving Repr

def header : List String :=
  ["//------------------------------------------------------------------------------",
   "// <auto-generated>",
   "//     This code was generated by a tool.",
   "//",
   "//     Changes to this file may cause incorrect behavior and will be lost if",
   "//     the code is regenerated.",
   "// </auto-generated>",
   "//------------------------------------------------------------------------------"]

def usings (geometryLibrary : Bool) : List String :=
  (if geometryLibrary then ["using Microsoft.Graphics.Canvas.Geometry;"] else []) ++
  ["using Microsoft.UI.Xaml.Controls;",
   "using System;",
   "using System.Numerics;",
   "using Windows.UI;",
   "using Windows.UI.Composition;"]

def rootVisualField : String := "_rootVisual"

def constantLine (name id : String) : Code :=
  .line ("internal const string " ++ id ++ " = " ++ Text.quote name ++ ";")

namespace SourceFile

variable (d : Dialect) (u : SourceFile)

def constants : List Code :=
  let constants := propertyNameConstants u.propertyNames
  (constants.map fun (name, id) => constantLine name id) ++
  if constants.isEmpty then [] else [.line ""]

def entry : List Code :=
  [.line ("public IAnimatedVisual TryCreateAnimatedVisual(Compositor compositor, " ++
    "out object diagnostics)"),
   .block
    [.line ("diagnostics = " ++ d.nullLiteral ++ ";"),
     .line ("return " ++ d.newOperator ++ " AnimatedVisual(compositor);")],
   .line ""]

def readonlyType (typeName : String) : String :=
  if Text.isBlank d.readonlyModifier then typeName else d.readonlyModifier ++ " " ++ typeName

def fields : List Code :=
  [.line ("const " ++ d.int64Type ++ " " ++ durationField ++ " = " ++
    integer u.durationTicks ++ ";"),
   .line (readonlyType d "Compositor" ++ " " ++ compositorField ++ ";"),
   .line (readonlyType d "ExpressionAnimation" ++ " " ++ reusableField ++ ";")] ++
  (u.stored.map fun s => .line (s.typeName ++ " " ++ s.fieldName ++ ";")) ++
  [.line ""]

def rootField : String :=
  if u.root.stored then u.root.fieldName else rootVisualField

def ending : List Code :=
  (if u.root.stored then []
   else [.line (d.readonlyModifier ++ " Visual " ++ rootVisualField ++ ";"), .line ""]) ++
  [.line "internal AnimatedVisual(Compositor compositor)",
   .block
    [.line "_c = compositor;",
     .line (reusableField ++ " = compositor.CreateExpressionAnimation();"),
     .line ((if u.root.stored then "" else rootVisualField ++ " = ") ++ u.root.name ++ "();")],
   .line "",
   .line ("Visual IAnimatedVisual.RootVisual => " ++ u.rootField ++ ";"),
   .line ("TimeSpan IAnimatedVisual.Duration => " ++ timeSpan durationField ++ ";"),
   .line ("Vector2 IAnimatedVisual.Size => " ++ vector2 u.size ++ ";"),
   .line ("void IDisposable.Dispose() => " ++ u.rootField ++ "?.Dispose();")]

def code : List Code :=
  header.map .line ++ (usings u.usesGeometryLibrary).map .line ++
  [.line "",
   .line ("namespace " ++ u.nameSpace),
   .block
    [.line ("sealed class " ++ u.className ++ " : IAnimatedVisualSource"),
     .block
      (u.constants ++ entry d ++
       [.line "sealed class AnimatedVisual : IAnimatedVisual",
        .block (u.fields d ++ u.methods ++ u.ending d)])]]

end SourceFile

end SceneCompiler.CSharp
