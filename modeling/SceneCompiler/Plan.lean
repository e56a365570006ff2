import SceneCompiler.Merge
import SceneCompiler.Naming
import SceneCompiler.Resolver

/-!
Plans: which objects get a factory, their names, which are kept in fields, and which are written
where they are used.
-/

namespace SceneCompiler

variable {n : Nat}

/--
The animations bound by animators, one entry per binding. The animators of expression animations
are never started and do not count.
-/
def Merge.bound (m : Merge n) : List (Fin n) :=
  let owners := m.representatives.filter fun r => !(m.object r).isExpressionAnimation
  owners.flatMap fun r => animatorReferences (m.object r).animators

def Merge.bindings (m : Merge n) : Except Fault (List (Fin n)) :=
  m.bound.mapM fun i => do
    let _ ← m.graph.find i
    return m.representative[i]

/-- An expression animation bound exactly once is built at its binding and has no factory. -/
def Merge.isTransient (m : Merge n) (bindings : List (Fin n)) (r : Fin n) : Bool :=
  (m.object r).isExpressionAnimation && m.groupSize r == 1 && bindings.count r == 1

/-- The merged graph with the facts that decide how each object is built. -/
structure Outlook (n : Nat) where
  merge : Merge n
  index : Vector Nat n
  transient : Vector Bool n
  inbound : Vector (List (Fin n)) n

namespace Outlook

/--
The references to an object, apart from those by a transient animation that the object itself
starts: such a reference is a part of building the object.
-/
def countedReferences (m : Merge n) (transient : Vector Bool n) (r : Fin n) : List (Fin n) :=
  let started := (m.object r).animators.map (·.animation)
  (m.inReferences r).filter fun i => !(transient[i] && started.contains i)

def ofMerge (m : Merge n) : Except Fault (Outlook n) := do
  let bindings ← m.bindings
  let transient := Vector.ofFn (m.isTransient bindings)
  return {
    merge := m
    index := Vector.ofFn m.graph.index
    transient := transient
    inbound := Vector.ofFn (countedReferences m transient) }

variable (o : Outlook n)

def retained : List (Fin n) :=
  o.merge.representatives.filter fun r => !o.transient[r]

def isRoot (r : Fin n) : Bool :=
  r == o.merge.graph.root

def names (baseName : Fin n → String) : List (Fin n × String) :=
  let named := o.retained.zip (Naming.distinguish (o.retained.map baseName))
  (o.merge.graph.root, "Root") :: named

/-- An object is kept when it is referred to more than once. The entry to the root counts. -/
def stored (r : Fin n) : Bool :=
  let count := o.inbound[r].length
  if o.isRoot r then 0 < count else !o.transient[r] && 1 < count

def site (names : List (Fin n × String)) (r : Fin n) : Site where
  index := o.index[r]
  typeName := (o.merge.object r).typeName
  name := (names.lookup r).getD ""
  retained := !o.transient[r]
  stored := o.stored r

def inlineSource? (r : Fin n) : Option (Fin n) :=
  match o.merge.object r with
  | .path _ source => if o.inbound[r].length ≤ 1 then some source else none
  | _ => none

end Outlook

/-- Every decision about the objects, and the calls already made by paths written inline. -/
structure Plan (n : Nat) where
  outlook : Outlook n
  sites : Vector Site n
  calls : Calls

namespace Plan

def merge (p : Plan n) : Merge n :=
  p.outlook.merge

def site (p : Plan n) (i : Fin n) : Site :=
  p.sites[p.merge.representative[i]]

/-- Writes a path inline, if it is one that is used in at most one place. -/
def inlinePath (construct : String) (p : Plan n) (r : Fin n) : Except Fault (Plan n) :=
  match p.outlook.inlineSource? r with
  | none => .ok p
  | some source => do
    let (access, calls) ← resolve p.calls (p.site r) (p.site source)
    let text := construct ++ " CompositionPath(" ++ access.text ++ ")"
    let site := { p.sites[r] with inline := some text, stored := false }
    return { p with sites := p.sites.set r site r.isLt, calls := calls }

/-- The plan of a merged graph whose objects are named by `baseName`, before ordinals. `construct`
is the word that constructs a path. -/
def named (m : Merge n) (baseName : Fin n → String) (construct : String) :
    Except Fault (Plan n) := do
  let outlook ← Outlook.ofMerge m
  let sites := Vector.ofFn (outlook.site (outlook.names baseName))
  outlook.retained.foldlM (inlinePath construct) ⟨outlook, sites, []⟩

def ofMerge (m : Merge n) (construct : String) : Except Fault (Plan n) :=
  named m (fun r => Naming.baseName m.object (m.object r)) construct

variable (p : Plan n)

def withFactory : List (Fin n) :=
  let written := p.merge.representatives.filter fun r => p.sites[r].hasFactory
  written.mergeSort fun a b => Text.le p.sites[a].name p.sites[b].name

def withField : List (Fin n) :=
  p.withFactory.filter fun r => p.sites[r].stored

def root : Fin n :=
  p.merge.representative[p.merge.graph.root]

def nodeAt (index : Number) : Except Fault (Fin n) :=
  match p.merge.representatives.find? fun r => index.toNat? == some p.outlook.index[r] with
  | some r => .ok r
  | none => .error (.noCanonicalNode index)

end Plan

end SceneCompiler
