import SceneCompiler.Compile
import SceneCompiler.Proofs.Factory.Traversal

/-!
# The program that a compilation writes

The code of a compilation is the text of a program: the factories of the plan, each request
replaced by its reply.  Running the constructor is running the factory of the root.  A factory
obtains what its object is created from, sets the field of the object if it has one, and performs
its statements.
-/

namespace SceneCompiler

variable {n : Nat}

structure Reply (n : Nat) extends Request n where
  access : Access
deriving DecidableEq, Repr

structure Program (n : Nat) where
  plan : Plan n
  factories : List (Fin n × Factory (Reply n))

namespace Plan

variable (p : Plan n)

def reply (request : Request n) : StateT Calls (Except Fault) (Reply n) := do
  let access ← p.answer request
  return ⟨request, access⟩

def factories (s : Settings) :
    StateT Calls (Except Fault) (List (Fin n × Factory (Reply n))) :=
  p.withFactory.mapM fun r => do
    let factory ← (p.factory s r).traverse p.reply
    return (r, factory)

def program (s : Settings) : Except Fault (Program n) := do
  let (factories, _) ← (p.factories s).run p.calls
  return ⟨p, factories⟩

def inlined? (i : Fin n) : Option (Reply n) :=
  match p.merge.object i with
  | .path _ source => ((p.reply (p.request i source)).run []).toOption.map Prod.fst
  | _ => none

theorem answer_eq_map_reply (request : Request n) :
    p.answer request = Reply.access <$> p.reply request := by
  simp [reply]

theorem request_of_reply {request : Request n} {calls calls' : Calls} {reply : Reply n}
    (h : (p.reply request).run calls = .ok (reply, calls')) : reply.toRequest = request := by
  obtain ⟨access, u, _, hpure⟩ := run_bind_eq_ok.mp h
  cases run_pure_eq_ok.mp hpure
  rfl

end Plan

inductive Event (n : Nat) where
  | enter (i : Fin n)
  | assign (i : Fin n)
  | read (i : Fin n)
  | perform (i : Fin n) (position : Nat) (statement : Statement (Reply n))
  | stuck
deriving DecidableEq, Repr

namespace Program

variable (prog : Program n)

def code (o : Options) : String :=
  let methods := prog.factories.flatMap fun (r, factory) =>
    CSharp.method o.dialect prog.plan.sites[r] (prog.plan.merge.comment r)
      (factory.map Reply.access)
  Code.render ((prog.plan.sourceFile o methods).code o.dialect)

def obtain? (call : Fin n → List (Event n)) (reply : Reply n) : List (Event n) :=
  match reply.access with
  | .factoryCall _ => call reply.callee
  | .field _ => [.read reply.callee]
  | .inline _ => [.stuck]

def evaluate (call : Fin n → List (Event n)) (reply : Reply n) : List (Event n) :=
  match reply.access with
  | .inline _ =>
    match prog.plan.inlined? reply.callee with
    | some inner => obtain? call inner
    | none => [.stuck]
  | _ => obtain? call reply

def perform (call : Fin n → List (Event n)) (i : Fin n) :
    (position : Nat) → List (Statement (Reply n)) → List (Event n)
  | _, [] => []
  | position, s :: rest =>
    s.references.flatMap (prog.evaluate call) ++ .perform i position s ::
      perform call i (position + 1) rest

def run : (depth : Nat) → Fin n → List (Event n)
  | 0, _ => [.stuck]
  | depth + 1, i =>
    match prog.factories.lookup i with
    | none => [.stuck]
    | some factory =>
      .enter i :: (factory.creation.references.flatMap (prog.evaluate (run depth)) ++
        (if prog.plan.sites[i].stored then [.assign i] else []) ++
        prog.perform (run depth) i 0 factory.statements)

/-- What happens while the constructor runs.  Calls climb the construction order, so that they are
never more than `n` deep. -/
def trace : List (Event n) :=
  prog.run n prog.plan.root

end Program

theorem Plan.write_eq (p : Plan n) (o : Options) :
    p.write o (p.method o) =
      if (p.merge.object p.root).isVisual then
        (fun result => ⟨p, result.2, Program.code ⟨p, result.1⟩ o⟩) <$>
          (p.factories ⟨o.durationMs, o.setComments⟩).run p.calls
      else .error (.rootNotVisual (p.merge.object p.root).typeName) := by
  have hmethod : ∀ r, p.method o r =
      (fun entry : Fin n × Factory (Reply n) =>
        CSharp.method o.dialect p.sites[entry.1] (p.merge.comment entry.1)
          (entry.2.map Reply.access)) <$>
        (do return (r, ← (p.factory ⟨o.durationMs, o.setComments⟩ r).traverse p.reply)) := by
    intro r
    have hanswer : p.answer = fun request => Reply.access <$> p.reply request :=
      funext p.answer_eq_map_reply
    rw [Plan.method, hanswer, Factory.traverse_map]
    simp
  have hmethods : p.methods (p.method o) =
      (fun factories => factories.flatMap fun entry =>
        CSharp.method o.dialect p.sites[entry.1] (p.merge.comment entry.1)
          (entry.2.map Reply.access)) <$> p.factories ⟨o.durationMs, o.setComments⟩ := by
    rw [Plan.methods, mapM_map hmethod, factories]
    simp [List.flatMap]
  simp only [Plan.write]
  split
  · rw [hmethods, StateT.run_map]
    cases (p.factories ⟨o.durationMs, o.setComments⟩).run p.calls <;> rfl
  · rfl

end SceneCompiler
