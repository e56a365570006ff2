import SceneCompiler.Proofs.Code.Remarks
import SceneCompiler.Proofs.Compile.Faults
import SceneCompiler.Proofs.Plan.Description
import SceneCompiler.Proofs.Plan.Embedding

/-!
# Descriptions leave the code as it is

The short and long descriptions of objects are written as comments and nowhere else, and the comments
of objects are not written at all unless this is asked for.  So changing descriptions changes no line
of the code but remarks, and changing comments that are not asked for changes nothing.
-/

namespace SceneCompiler

variable {n : Nat} {ρ σ : Type}

theorem agree_iff_map_eq {ε α β γ : Type} {g : α → γ} {h : β → γ} {x : Except ε α}
    {y : Except ε β} : Agree (fun a b => g a = h b) x y ↔ g <$> x = h <$> y := by
  constructor
  · rintro (hab | e)
    · exact congrArg Except.ok hab
    · rfl
  · intro hmap
    cases x with
    | error e =>
      cases y with
      | error e' =>
        cases hmap
        exact .error e
      | ok b => cases hmap
    | ok a =>
      cases y with
      | error e => cases hmap
      | ok b => exact .ok (Except.ok.inj hmap)

/-! ## Comments in factories -/

namespace Statement

def isComment : Statement ρ → Bool
  | .comment _ => true
  | _ => false

theorem eq_comment {s : Statement ρ} (h : s.isComment = true) : ∃ text, s = .comment text := by
  cases s with
  | comment text => exact ⟨text, rfl⟩
  | _ => cases h

variable {m : Type → Type} [Monad m] [LawfulMonad m]

theorem filter_traverse (g : ρ → m σ) (ss : List (Statement ρ)) :
    List.filter (fun s => !s.isComment) <$> ss.mapM (traverse g) =
      (ss.filter fun s => !s.isComment).mapM (traverse g) := by
  induction ss with
  | nil => simp
  | cons s ss ih =>
    unfold isComment at ih ⊢
    cases s <;> simp [traverse, ← ih]

end Statement

namespace Factory

def only (keep : Statement ρ → Bool) (factory : Factory ρ) : Factory ρ :=
  { factory with statements := factory.statements.filter keep }

def uncommented (factory : Factory ρ) : Factory ρ :=
  factory.only fun s => !s.isComment

theorem only_true (factory : Factory ρ) : (factory.only fun _ => true) = factory := by
  simp [only]

theorem uncommented_traverse {m : Type → Type} [Monad m] [LawfulMonad m] (g : ρ → m σ)
    (factory : Factory ρ) :
    uncommented <$> factory.traverse g = factory.uncommented.traverse g := by
  simp only [traverse, uncommented, only, ← Statement.filter_traverse]
  simp [uncommented, only]

end Factory

/-! ## Factories under other descriptions -/

variable (f : Description → Description)

namespace Plan

variable (p : Plan n)

theorem start_describe (caller : Fin n) (owner : Option (Fin n)) (target : Target)
    (property : String) (animation : Fin n) :
    (p.describe f).start caller owner target property animation =
      p.start caller owner target property animation := by
  rw [start, start, merge_describe, Merge.object_describe]
  cases p.merge.object animation with
  | composition base variant => cases variant <;> rfl
  | _ => rfl

mutual
theorem bind_describe (caller : Fin n) (owner : Option (Fin n)) (target : Target) (depth : Nat)
    (a : Animator (Fin n)) :
    (p.describe f).bind caller owner target depth a = p.bind caller owner target depth a := by
  cases a with
  | plain property animation => rw [bind, bind, start_describe]
  | controlled property animation values onProperties onController =>
    rw [bind, bind, start_describe, bindAll_describe, bindAll_describe]
theorem bindAll_describe (caller : Fin n) (owner : Option (Fin n)) (target : Target) (depth : Nat)
    (as : List (Animator (Fin n))) :
    (p.describe f).bindAll caller owner target depth as = p.bindAll caller owner target depth as := by
  cases as with
  | nil => rw [bindAll, bindAll]
  | cons a as => rw [bindAll, bindAll, bind_describe, bindAll_describe]
end

theorem startAnimations_describe (r : Fin n) (base : Base (Fin n)) :
    (p.describe f).startAnimations r { base with description := f base.description } =
      p.startAnimations r base := by
  simp only [startAnimations, bindAll_describe]

end Plan

namespace Construction

variable (p : Plan n) (s : Settings) (r : Fin n)

theorem setUp_describe (hf : s.setComments = true → ∀ d, (f d).comment = d.comment)
    (base : Base (Fin n)) :
    setUp s { base with description := f base.description } = setUp s base := by
  simp only [setUp, comment?]
  split
  · rename_i hset
    rw [hf hset]
  · rfl

theorem variantFactory_describe (hf : s.setComments = true → ∀ d, (f d).comment = d.comment)
    {keep : Statement (Request n) → Bool}
    (hshapes : ∀ shapes, (describedShapes (p.describe f) r shapes).filter keep =
      (describedShapes p r shapes).filter keep)
    (base : Base (Fin n)) (variant : Variant (Fin n)) :
    (variantFactory (p.describe f) s r { base with description := f base.description }
        variant).only keep =
      (variantFactory p s r base variant).only keep := by
  have hset := setUp_describe f s hf base
  have hstart := p.startAnimations_describe f r base
  have hfull (method : String) (own : List (Statement (Request n))) :
      variantFactory.full (p.describe f) s r { base with description := f base.description }
          method own =
        variantFactory.full p s r base method own := by
    simp only [variantFactory.full, hset, hstart]
  cases variant with
  | shapeVisual v shapes box =>
    simp only [variantFactory, variantFactory.full, Factory.only, hset, hstart,
      List.filter_append, hshapes]
    rfl
  | pathGeometry t path =>
    simp only [variantFactory, hset, hstart]
    rfl
  | colorBrush c => simp only [variantFactory, hset, hstart]
  | linearEasing | cubicBezierEasing a b | stepEasing e => simp only [variantFactory, hset]
  | expressionAnimation q expression =>
    simp only [variantFactory, hset]
    rfl
  | _ => exact congrArg (Factory.only keep) (hfull _ _)

end Construction

namespace Plan

variable (p : Plan n)

theorem factory_describe (s : Settings) (r : Fin n)
    (hf : s.setComments = true → ∀ d, (f d).comment = d.comment)
    {keep : Statement (Request n) → Bool}
    (hshapes : ∀ shapes, (Construction.describedShapes (p.describe f) r shapes).filter keep =
      (Construction.describedShapes p r shapes).filter keep) :
    ((p.describe f).factory s r).only keep = (p.factory s r).only keep := by
  rw [factory, factory, merge_describe, Merge.object_describe]
  cases p.merge.object r with
  | composition base variant =>
    exact Construction.variantFactory_describe f p s r hf hshapes base variant
  | path description source => rfl
  | canvas description geometry => cases geometry <;> rfl

theorem uncommented_factory_describe (s : Settings) (r : Fin n)
    (hf : s.setComments = true → ∀ d, (f d).comment = d.comment) :
    ((p.describe f).factory s r).uncommented = (p.factory s r).uncommented := by
  refine p.factory_describe f s r hf fun shapes => ?_
  have hitems (q : Plan n) : ∀ is : List (Fin n),
      (is.flatMap fun i => ((q.merge.object i).description.short.toList.map Statement.comment) ++
        [.add .shapes (Construction.ask q r i)]).filter (fun s => !s.isComment) =
        is.map fun i => .add .shapes (Construction.ask q r i) := by
    intro is
    induction is with
    | nil => rfl
    | cons i is ih =>
      rw [List.flatMap_cons, List.filter_append, ih]
      cases (q.merge.object i).description.short <;> rfl
  simp only [Construction.describedShapes, Construction.fill]
  split
  · rfl
  · rw [List.filter_cons, List.filter_cons, hitems, hitems]
    rfl

theorem factory_describe_eq (s : Settings) (r : Fin n)
    (hf : s.setComments = true → ∀ d, (f d).comment = d.comment)
    (hshort : ∀ d, (f d).short = d.short) :
    (p.describe f).factory s r = p.factory s r := by
  have h : ((p.describe f).factory s r).only (fun _ => true) = (p.factory s r).only fun _ => true :=
    p.factory_describe f s r hf fun shapes => by
      simp only [Construction.describedShapes, merge_describe, Merge.object_describe,
        Object.description_describe, hshort]
      rfl
  rwa [Factory.only_true, Factory.only_true] at h

end Plan

/-! ## Code without its comments -/

namespace CSharp

theorem uncommented_statements (d : Dialect) (ss : List (Statement Access)) :
    Code.allUncommented (ss.map (statement d)) =
      Code.allUncommented ((ss.filter fun s => !s.isComment).map (statement d)) := by
  induction ss with
  | nil => rfl
  | cons s ss ih =>
    cases hs : s.isComment with
    | true =>
      obtain ⟨text, rfl⟩ := Statement.eq_comment hs
      exact ih
    | false =>
      rw [List.filter_cons, if_pos (by rw [hs]; rfl), List.map_cons, List.map_cons,
        Code.allUncommented, Code.allUncommented, ih]

theorem uncommented_method (d : Dialect) (s : Site) (comment : String) (factory : Factory Access) :
    Code.allUncommented (method d s comment factory) =
      Code.allUncommented (method d s "" factory.uncommented) := by
  have hstatements := uncommented_statements d factory.statements
  rw [method, method]
  cases hbare : factory.bare <;>
    simp [methodAround, Code.allUncommented, Code.uncommented, Factory.uncommented, Factory.only,
      hbare, hstatements]

theorem SourceFile.uncommented_code (d : Dialect) (u : SourceFile) {methods : List Code}
    (h : Code.allUncommented u.methods = Code.allUncommented methods) :
    Code.allUncommented (u.code d) = Code.allUncommented (SourceFile.code d { u with methods }) := by
  have hfields : ({ u with methods } : SourceFile).fields d = u.fields d := rfl
  have hending : SourceFile.ending d { u with methods } = u.ending d := rfl
  have hconstants : SourceFile.constants { u with methods } = u.constants := rfl
  simp [SourceFile.code, Code.allUncommented, Code.uncommented, hfields, hending, hconstants, h]

end CSharp

namespace Merge

theorem comment_describe (m : Merge n) (hshort : ∀ d, (f d).short = d.short)
    (hlong : ∀ d, (f d).long = d.long) (r : Fin n) : (m.describe f).comment r = m.comment r := by
  have hchain : ∀ fuel visited i, (m.describe f).chain fuel visited i = m.chain fuel visited i := by
    intro fuel
    induction fuel with
    | zero => exact fun _ _ => rfl
    | succ fuel ih =>
      intro visited i
      simp only [chain, soleReferencer?, inReferences_describe, object_describe,
        Object.description_describe, hshort, ih]
  simp only [comment, ancestors, hchain, object_describe, Object.description_describe, hlong]

end Merge

namespace Plan

variable (p : Plan n) (o : Options)

theorem sourceFile_describe (methods : List Code) :
    (p.describe f).sourceFile o methods = p.sourceFile o methods := by
  have hroot : (p.describe f).root = p.root := rfl
  have hfactory : (p.describe f).withFactory = p.withFactory := rfl
  have hfield : (p.describe f).withField = p.withField := rfl
  simp only [sourceFile, hroot, hfactory, hfield, merge_describe, Merge.object_describe,
    Object.values_describe, Object.kind_describe, sites_describe]

variable (hf : o.setComments = true → ∀ d, (f d).comment = d.comment)

include hf

theorem uncommented_method_describe (r : Fin n) :
    Code.allUncommented <$> (p.describe f).method o r = Code.allUncommented <$> p.method o r := by
  have hmethod (q : Plan n) : Code.allUncommented <$> q.method o r =
      (fun factory => Code.allUncommented (CSharp.method o.dialect q.sites[r] "" factory)) <$>
        (q.factory ⟨o.durationMs, o.setComments⟩ r).uncommented.traverse q.answer := by
    simp only [method, ← Factory.uncommented_traverse, bind_pure_comp, Functor.map_map]
    congr 1
    funext factory
    exact CSharp.uncommented_method o.dialect q.sites[r] (q.merge.comment r) factory
  rw [hmethod, hmethod, uncommented_factory_describe f p _ r hf]
  rfl

theorem uncommented_methods_describe :
    Code.allUncommented <$> (p.describe f).methods ((p.describe f).method o) =
      Code.allUncommented <$> p.methods (p.method o) := by
  have hflatten : ∀ methods : List (List Code),
      Code.allUncommented methods.flatten = (methods.map Code.allUncommented).flatten := by
    intro methods
    induction methods with
    | nil => rfl
    | cons method methods ih => simp [ih]
  have hmethods (q : Plan n) : Code.allUncommented <$> q.methods (q.method o) =
      List.flatten <$> q.withFactory.mapM fun r => Code.allUncommented <$> q.method o r := by
    rw [methods, mapM_map (fun r => rfl)]
    simp [hflatten]
  rw [hmethods, hmethods]
  simp only [uncommented_method_describe f p o hf]
  rfl

omit hf in
theorem agree_write_describe {R : List Code → List Code → Prop} {S : String → String → Prop}
    (hmethods : Agree (fun a b => R a.1 b.1)
      (((p.describe f).methods ((p.describe f).method o)).run p.calls)
      ((p.methods (p.method o)).run p.calls))
    (hcode : ∀ a b, R a b → S (Code.render ((p.sourceFile o a).code o.dialect))
      (Code.render ((p.sourceFile o b).code o.dialect))) :
    Agree (fun c c' => S c.code c'.code) ((p.describe f).write o ((p.describe f).method o))
      (p.write o (p.method o)) := by
  have hroot : (p.describe f).merge.object (p.describe f).root =
      (p.merge.object p.root).describe f := Merge.object_describe f p.merge p.root
  simp only [write, hroot, Object.isVisual_describe, Object.typeName_describe, calls_describe,
    sourceFile_describe]
  split
  · exact hmethods.bind fun a b hab => .ok (hcode a.1 b.1 hab)
  · exact .error _

theorem agree_keptLines_write :
    Agree (fun c c' => Code.keptLines c.code.toList = Code.keptLines c'.code.toList)
      ((p.describe f).write o ((p.describe f).method o)) (p.write o (p.method o)) := by
  have hlines (methods : List Code) :
      Code.allLines "    " 0 ((p.sourceFile o methods).code o.dialect) ≠ [] := by
    simp [CSharp.SourceFile.code, CSharp.header, Code.allLines, Code.lines]
  have hrun := congrArg (fun x => Prod.fst <$> x.run p.calls) (uncommented_methods_describe f p o hf)
  simp only [StateT.run_map, Functor.map_map] at hrun
  refine p.agree_write_describe f o
    (R := fun a b => Code.allUncommented a = Code.allUncommented b)
    (S := fun text text' => Code.keptLines text.toList = Code.keptLines text'.toList)
    (agree_iff_map_eq.mpr hrun) fun a b hab => ?_
  have hcode := CSharp.SourceFile.uncommented_code o.dialect (p.sourceFile o a) hab
  rw [Code.keptLines_render (hlines a), Code.keptLines_render (hlines b), hcode]
  rfl

theorem agree_code_write (hshort : ∀ d, (f d).short = d.short) (hlong : ∀ d, (f d).long = d.long) :
    Agree (fun c c' => c.code = c'.code) ((p.describe f).write o ((p.describe f).method o))
      (p.write o (p.method o)) := by
  have hmethod : (p.describe f).method o = p.method o := by
    funext r
    rw [method, method, factory_describe_eq f p _ r hf hshort, merge_describe,
      Merge.comment_describe f p.merge hshort hlong]
    rfl
  have hmethods : (p.describe f).methods ((p.describe f).method o) = p.methods (p.method o) := by
    rw [hmethod]
    rfl
  refine p.agree_write_describe f o (R := Eq) (S := Eq) ?_ fun a b hab => by rw [hab]
  rw [hmethods]
  exact agree_iff_map_eq.mpr rfl

end Plan

theorem agree_compile_describe (heap : Heap n) (root : Fin n) (o : Options)
    (hf : o.setComments = true → ∀ d, (f d).comment = d.comment) {S : String → String → Prop}
    (hwrite : ∀ p : Plan n, Agree (fun c c' => S c.code c'.code)
      ((p.describe f).write o ((p.describe f).method o)) (p.write o (p.method o))) :
    Agree (fun c c' => S c.code c'.code) (compile (heap.describe f) root o)
      (compile heap root o) := by
  simp only [compile, Graph.compile]
  rw [Graph.ofRoot_describe, Merge.ofGraph_describe f _ hf, Plan.ofMerge_describe]
  cases Plan.ofMerge _ o.dialect.newOperator with
  | error fault => exact .error fault
  | ok p => exact hwrite p

namespace Description

def withoutTexts (d : Description) : Description :=
  { comment := d.comment }

def withoutComment (d : Description) : Description :=
  { d with comment := none }

end Description

/-- Heaps that differ in the short and long descriptions of their objects only are compiled to code
that differs in remarks only, and heaps that differ in comments only are compiled to the same code,
unless comments are set; or both fail alike. -/
theorem code_independent_of_descriptions (heap heap' : Heap n) (root : Fin n) (o : Options) :
    (heap.describe Description.withoutTexts = heap'.describe Description.withoutTexts →
      Agree (fun c c' => Code.keptLines c.code.toList = Code.keptLines c'.code.toList)
        (compile heap root o) (compile heap' root o)) ∧
    (o.setComments = false →
      heap.describe Description.withoutComment = heap'.describe Description.withoutComment →
      Agree (fun c c' => c.code = c'.code) (compile heap root o) (compile heap' root o)) := by
  constructor
  · intro h
    have hkept (heap : Heap n) := agree_iff_map_eq.mp
      (agree_compile_describe Description.withoutTexts heap root o (fun _ _ => rfl)
        (S := fun text text' => Code.keptLines text.toList = Code.keptLines text'.toList)
        fun p => p.agree_keptLines_write _ o fun _ _ => rfl)
    exact agree_iff_map_eq.mpr ((hkept heap).symm.trans (h ▸ hkept heap'))
  · intro hset h
    have hoff : o.setComments = true → ∀ d, (Description.withoutComment d).comment = d.comment := by
      rw [hset]
      exact nofun
    have hcode (heap : Heap n) := agree_iff_map_eq.mp
      (agree_compile_describe Description.withoutComment heap root o hoff (S := Eq)
        fun p => p.agree_code_write _ o hoff (fun _ => rfl) fun _ => rfl)
    exact agree_iff_map_eq.mpr ((hcode heap).symm.trans (h ▸ hcode heap'))

def describedShape (visual shape : Description) : Heap 2 :=
  #v[.composition { description := visual } (.shapeVisual {} [1] none),
     .composition { description := shape } (.containerShape {} [])]

def shapeOptions : Options :=
  { className := "Scene", width := 100, height := 100, durationMs := 1000 }

theorem describe_describedShape (visual shape : Description) :
    (describedShape visual shape).describe f = describedShape (f visual) (f shape) := by
  simp [Heap.describe, describedShape, Object.describe]

theorem code_independent_describedShape :
    ∃ c c', compile (describedShape { short := some "a\nb", long := some "c\rd" } {}) 0
        shapeOptions = .ok c ∧
      compile (describedShape {} { short := some " // e" }) 0 shapeOptions = .ok c' ∧
      Code.keptLines c.code.toList = Code.keptLines c'.code.toList ∧
      Agree (fun c c' => c.code = c'.code)
        (compile (describedShape { comment := some "x" } {}) 0 shapeOptions)
        (compile (describedShape {} { comment := some "y" }) 0 shapeOptions) := by
  have hkinded :
      (Graph.ofRoot (describedShape { short := some "a\nb", long := some "c\rd" } {}) 0).Kinded :=
    ⟨by decide +kernel, by decide +kernel, fun _ => 0, by decide +kernel⟩
  obtain ⟨c, hc⟩ := (Graph.compile_ok_iff (Graph.ofRoot_ordered _ 0) hkinded shapeOptions).mpr
    (by decide +kernel)
  change compile _ _ _ = _ at hc
  have hkept := (code_independent_of_descriptions
    (describedShape { short := some "a\nb", long := some "c\rd" } {})
    (describedShape {} { short := some " // e" }) 0 shapeOptions).1 (by
      rw [describe_describedShape, describe_describedShape]
      rfl)
  have hsame := (code_independent_of_descriptions (describedShape { comment := some "x" } {})
    (describedShape {} { comment := some "y" }) 0 shapeOptions).2 rfl (by
      rw [describe_describedShape, describe_describedShape]
      rfl)
  generalize compile (describedShape {} { short := some " // e" }) 0 shapeOptions = result at hkept ⊢
  rw [hc] at hkept
  cases hkept with
  | ok hlines => exact ⟨c, _, hc, rfl, hlines, hsame⟩

end SceneCompiler
