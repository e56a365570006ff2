import SceneCompiler.Document.Linker
import SceneCompiler.Model.Heap

/-!
Scenes: a document with every id resolved.
-/

namespace SceneCompiler

structure Scene where
  className : Option String
  width : Number
  height : Number
  durationMs : Number
  size : Nat
  heap : Heap size
  root : Fin size

namespace Scene

def ofDocument (d : Document) : Except (List Issue) Scene :=
  let (root, linking) := (Linking.run d.records d.root).run {}
  match linking.issues.isEmpty, root.bind (Heap.place? linking.objects.length),
    Heap.ofObjects? linking.objects with
  | true, some root, some heap =>
    .ok ⟨d.className, d.width, d.height, d.durationMs, linking.objects.length, heap, root⟩
  | _, _, _ => .error linking.issues

def load (json : Option Json) (sourcePath : String) : Except LoadError Scene :=
  ((Document.read json).bind ofDocument).mapError fun issues => ⟨sourcePath, issues⟩

end Scene

end SceneCompiler
