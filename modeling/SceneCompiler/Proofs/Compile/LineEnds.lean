import SceneCompiler.Proofs.Compile.Names
import SceneCompiler.Proofs.Constructor.Answers
import SceneCompiler.Proofs.Factory.Literals
import SceneCompiler.Proofs.Scene.Generation

/-!
# The lines of generated code

Generated code is read line by line as it is written exactly if no text of the scene brings along an
end of a line that is neither escaped nor cut at.
-/

namespace SceneCompiler

open Text

variable {n : Nat}

/-! ## Names -/

theorem IsName.inLine {name : String} (h : IsName name) : unbroken name = true := by
  obtain ⟨c, rest, hname, hc, hrest⟩ := h
  have hfirst := isLineEnd_of_isAlphanum (IsName.isAlphanum_of_isUpper hc)
  have hunderscore : isLineEnd '_' = false := by decide
  have hall : Text.inLine rest = true := List.all_eq_true.mpr fun d hd => by
    rcases hrest d hd with hd | rfl
    · rw [isLineEnd_of_isAlphanum hd]
      rfl
    · rw [hunderscore]
      rfl
  rw [unbroken, hname, inLine_cons, hfirst, hall]
  rfl

theorem unbroken_of_isClassName {name : String} (h : isClassName name = true) :
    unbroken name = true := by
  refine List.all_eq_true.mpr fun c hc => ?_
  rcases (Bool.or_eq_true _ _).mp ((isWord_of_isClassName h).2 c hc) with hc | hc
  · rw [isLineEnd_of_isAlphanum hc]
    rfl
  · rw [eq_of_beq hc]
    rfl

namespace Site

theorem unbroken_fieldName {s : Site} (h : s.name = "" ∨ IsName s.name) :
    unbroken s.fieldName = true := by
  have hunderscore : isLineEnd '_' = false := by decide
  rcases h with h | h
  · rw [fieldName, h]
    decide
  · have hname := h.inLine
    obtain ⟨c, rest, hchars, hc, _⟩ := h
    have hletter : ∀ k < 0x80, (Char.ofNat k).isUpper = true →
        isLineEnd (Char.ofNat k).toLower = false := by decide
    have hfirst := hletter c.toNat (toNat_lt_of_isAlphanum (IsName.isAlphanum_of_isUpper hc))
    rw [Char.ofNat_toNat] at hfirst
    rw [unbroken, hchars, inLine_cons, Bool.and_eq_true] at hname
    rw [unbroken, toList_fieldName hchars hc, inLine_cons, inLine_cons, hunderscore, hfirst hc,
      hname.2]
    rfl

theorem Fits.unbroken_access {callee : Site} (h : callee.Fits) (caller : Site) (again : Bool) :
    unbroken (accessOf caller callee again).text = true := by
  have hparens : unbroken "()" = true := by decide
  unfold accessOf
  cases hinline : callee.inline with
  | some text => exact h.inline text hinline
  | none =>
    dsimp only
    split
    · simp [Access.text, factoryCall, hinline, h.name, hparens]
    · exact h.fieldName

end Site

theorem Object.unbroken_typeName {ρ : Type} (o : Object ρ) : unbroken o.typeName = true := by
  cases o with
  | composition base variant => cases variant <;> simp +decide [typeName, Variant.typeName]
  | path description source => simp +decide [typeName]
  | canvas description geometry => simp +decide [typeName]

namespace Plan

variable {m : Merge n} {baseName : Fin n → String} {construct : String}

theorem fits_inlinePath (hconstruct : unbroken construct = true) {p p' : Plan n} {r : Fin n}
    (h : inlinePath construct p r = .ok p') (hp : ∀ i : Fin n, p.sites[i].Fits) :
    ∀ i : Fin n, p'.sites[i].Fits := by
  rw [inlinePath] at h
  split at h
  · cases h
    exact hp
  · rename_i source _
    obtain ⟨⟨access, calls⟩, hresolve, h⟩ := bind_eq_ok_iff.mp h
    have haccess : unbroken access.text = true := by
      rw [Site.resolve_eq] at hresolve
      split at hresolve
      · cases hresolve
      · cases hresolve
        exact Site.Fits.unbroken_access (hp _) _ _
    cases h
    intro i
    by_cases hi : r = i
    · subst hi
      have hfits := hp r
      have hopen : unbroken " CompositionPath(" = true := by decide
      have hclose : unbroken ")" = true := by decide
      have hget (site : Site) : (p.sites.set r site r.isLt)[r] = site := by simp
      change (p.sites.set r _ r.isLt)[r].Fits
      rw [hget]
      refine ⟨hfits.typeName, hfits.name, hfits.fieldName, fun text htext => ?_⟩
      cases htext
      simp [hconstruct, haccess, hopen, hclose]
    · simpa [Fin.val_ne_of_ne hi] using hp i

theorem fits_named (hbase : ∀ r, Naming.IsBase (baseName r)) (hconstruct : unbroken construct = true)
    {p : Plan n} (h : named m baseName construct = .ok p) : ∀ i : Fin n, p.sites[i].Fits := by
  obtain ⟨outlook, houtlook, h⟩ := bind_eq_ok_iff.mp h
  have hname : ∀ i : Fin n, ((outlook.names baseName).lookup i).getD "" = "" ∨
      IsName (((outlook.names baseName).lookup i).getD "") := by
    intro i
    cases hlookup : (outlook.names baseName).lookup i with
    | none => exact .inl rfl
    | some name =>
      right
      obtain ⟨before, after, hsplit, _⟩ := List.lookup_eq_some_iff.mp hlookup
      have hmem : (i, name) ∈ outlook.names baseName := by simp [hsplit]
      rcases List.mem_cons.mp hmem with heq | hmem
      · cases heq
        exact isName_of_segment (by decide) rfl
      · obtain ⟨base, hmem, k, _, heq⟩ :=
          Naming.exists_of_mem_addOrdinals (List.of_mem_zip hmem).2
        obtain ⟨r, _, rfl⟩ := List.mem_map.mp hmem
        exact heq ▸ (hbase r).isName_tagged _ k
  have hstart : ∀ i : Fin n, (outlook.site (outlook.names baseName) i).Fits := by
    intro i
    refine ⟨Object.unbroken_typeName _, ?_, Site.unbroken_fieldName (hname i), nofun⟩
    rcases hname i with hempty | hname
    · rw [Outlook.site, hempty]
      rfl
    · exact hname.inLine
  exact foldlM_inlinePath_keeps (fun _ _ _ hstep hfits => fits_inlinePath hconstruct hstep hfits) h
    fun i => by simpa using hstart i

end Plan

/-! ## Comments -/

namespace Merge

variable (m : Merge n)

def descriptions (r : Fin n) : List String :=
  m.ancestors r ++ (present? (m.object r).description.long).toList

theorem fits_comment (r : Fin n) :
    Layout.fitsRemark (m.comment r) = (m.descriptions r).all Layout.fitsRemark := by
  have hindented : ∀ (texts : List String) (f : Nat → Nat),
      (texts.mapIdx fun depth text => String.ofList (List.replicate (f depth) ' ') ++ text).all
        Layout.fitsRemark = texts.all Layout.fitsRemark := by
    intro texts
    induction texts with
    | nil => exact fun _ => rfl
    | cons text texts ih =>
      intro f
      rw [List.mapIdx_cons, List.all_cons, List.all_cons, Layout.fitsRemark_indented]
      exact congrArg _ (ih fun depth => f (depth + 1))
  rw [comment, Layout.fitsRemark_intercalate, List.all_append, descriptions, List.all_append,
    hindented]

def literals (keep : Bool) (r : Fin n) : List String :=
  if m.transient r then (m.object r).formulas else (m.object r).literals keep

def remarks (r : Fin n) : List String :=
  if m.transient r || m.inlines r then [] else m.descriptions r ++ m.shapeRemarks r

def FitsLines (keep : Bool) : Prop :=
  ∀ r ∈ m.representatives, (m.literals keep r).all fitsLiteral = true ∧
    (m.remarks r).all Layout.fitsRemark = true

instance (keep : Bool) : Decidable (m.FitsLines keep) :=
  inferInstanceAs (Decidable (∀ r ∈ m.representatives, _ ∧ _))

end Merge

/-! ## Programs -/

namespace Program

variable (program : Program n) (o : Options)

def methods : List Code :=
  program.factories.flatMap fun (r, factory) =>
    CSharp.method o.dialect program.plan.sites[r] (program.plan.merge.comment r)
      (factory.map Reply.access)

def lines : List String :=
  Code.allLines "    " 0 ((program.plan.sourceFile o (program.methods o)).code o.dialect)

end Program

namespace Graph.Writes

variable {g : Graph n} {o : Options} {c : Compilation n} {program : Program n}
  (h : g.Writes o c program)
  (hsites : ∀ i : Fin n, program.plan.sites[i].Fits)
  (hcolors : ∀ (r : Fin n), ∀ c ∈ (g.object r).colors, Layout.fitsRemark c.name = true)

include h

theorem boundLiterals_eq {i : Fin n} (hi : i ∈ g.order) :
    program.plan.boundLiterals i =
      if (g.merged o.setComments).transient (g.merged o.setComments).representative[i] then
        (g.object i).formulas
      else [] := by
  have hmerge := h.follows.merge
  have hobject : program.plan.merge.object i = g.object i := by
    rw [hmerge]
    rfl
  have hretained : (program.plan.site i).retained =
      !(g.merged o.setComments).transient (g.merged o.setComments).representative[i] := by
    simp only [Plan.site, hmerge]
    exact h.follows.retained _
  rw [Plan.boundLiterals, hobject, hretained]
  cases htransient : (g.merged o.setComments).transient (g.merged o.setComments).representative[i] with
  | false => simp
  | true =>
    have hm := h.lawful
    have hself := Merge.eq_of_transient htransient (hm.representative_mem hi) hi rfl
    have hexpression := (Merge.transient_spec htransient).1
    rw [← hself] at hexpression
    change (g.object i).isExpressionAnimation = true at hexpression
    simp [hexpression]

include hsites hcolors

/-- A method is read as it is written exactly if the texts of its object and of the animations that it
builds can stand where they are written. -/
theorem allUnbroken_method_iff {entry : Fin n × Factory (Reply n)}
    (hentry : entry ∈ program.factories) :
    Code.allUnbroken (CSharp.method {} program.plan.sites[entry.1]
        (program.plan.merge.comment entry.1) (entry.2.map Reply.access)) = true ↔
      ((g.object entry.1).literals o.setComments).all fitsLiteral = true ∧
        (∀ i ∈ animatorReferences (g.object entry.1).started,
          (program.plan.boundLiterals i).all fitsLiteral = true) ∧
        ((g.merged o.setComments).descriptions entry.1 ++
          (g.merged o.setComments).shapeRemarks entry.1).all Layout.fitsRemark = true := by
  obtain ⟨made, hrun⟩ := h.run
  obtain ⟨hr, hsame, hanswers⟩ := Plan.factories_spec hrun entry hentry
  have hmerge := h.follows.merge
  have hobject : program.plan.merge.object entry.1 = g.object entry.1 := by
    rw [hmerge]
    rfl
  have hreferences : ∀ x ∈ (entry.2.map Reply.access).references, unbroken x.text = true := by
    intro x hx
    rw [Factory.references_map] at hx
    obtain ⟨reply, hreply, rfl⟩ := List.mem_map.mp hx
    obtain ⟨again, haccess⟩ := hanswers reply hreply
    rw [haccess]
    exact (hsites reply.callee).unbroken_access _ again
  have hcreation : (entry.2.map Reply.access).creation.fits = true := by
    rw [Factory.fits_creation_map, ← Factory.fits_creation_map Reply.toRequest, hsame]
    exact Plan.fits_creation _ _ _
  have hstatements : (entry.2.map Reply.access).statements.all Statement.fits =
      (program.plan.factory ⟨o.durationMs, o.setComments⟩ entry.1).statements.all
        Statement.fits := by
    rw [Factory.fits_statements_map, ← Factory.fits_statements_map Reply.toRequest, hsame]
  have hbare : (entry.2.map Reply.access).bare = true →
      (entry.2.map Reply.access).statements = [] := by
    intro hbare
    have hnone := Plan.statements_of_bare program.plan ⟨o.durationMs, o.setComments⟩ entry.1
    rw [← hsame] at hnone
    exact List.map_eq_nil_iff.mpr (List.map_eq_nil_iff.mp (hnone hbare))
  rw [CSharp.allUnbroken_method (hsites entry.1) _ hreferences hcreation hbare, hstatements,
    Plan.fits_factory _ _ _ (by rw [hobject]; exact hcolors entry.1), Merge.fits_comment, hobject, hmerge]
  simp only [Bool.and_eq_true, List.all_eq_true, List.all_append]
  tauto

theorem allUnbroken_methods_iff (hdialect : o.dialect = {}) :
    Code.allUnbroken (program.methods o) = true ↔
      (g.merged o.setComments).FitsLines o.setComments := by
  have hm := h.lawful
  have hentries := h.map_fst_factories
  rw [← h.plan] at hentries
  have hflat : Code.allUnbroken (program.methods o) = true ↔
      ∀ entry ∈ program.factories, Code.allUnbroken (CSharp.method {}
        program.plan.sites[entry.1] (program.plan.merge.comment entry.1)
        (entry.2.map Reply.access)) = true := by
    rw [Program.methods, hdialect, Code.allUnbroken_eq_all, List.all_flatMap, List.all_eq_true]
    simp only [Code.allUnbroken_eq_all]
  have hmethods : Code.allUnbroken (program.methods o) = true ↔
      ∀ r ∈ program.plan.withFactory, ((g.object r).literals o.setComments).all fitsLiteral = true ∧
        (∀ i ∈ animatorReferences (g.object r).started,
          (program.plan.boundLiterals i).all fitsLiteral = true) ∧
        ((g.merged o.setComments).descriptions r ++
          (g.merged o.setComments).shapeRemarks r).all Layout.fitsRemark = true := by
    rw [hflat, ← hentries, List.forall_mem_map]
    exact forall₂_congr fun entry hentry => h.allUnbroken_method_iff hsites hcolors hentry
  rw [hmethods]
  constructor
  · intro hall r hr
    have hown (htransient : (g.merged o.setComments).transient r = false)
        (hinlines : (g.merged o.setComments).inlines r = false) :=
      hall r (h.follows.mem_withFactory.mpr ⟨hr, htransient, hinlines⟩)
    cases htransient : (g.merged o.setComments).transient r with
    | true =>
      -- its texts are written by the object that starts it
      obtain ⟨w, hw⟩ := Merge.exists_binder hm h.kinded h.partsRetained hr htransient
      have hmem := h.follows.mem_withFactory_of_started hw.mem fun hnil => by
        have hstarted := hw.mem_started
        rw [hnil] at hstarted
        cases hstarted
      have hbound := (hall w hmem).2.1 r hw.mem_started
      obtain ⟨horder, hself⟩ := Merge.mem_representatives.mp hr
      rw [h.boundLiterals_eq horder, hself, htransient] at hbound
      rw [Merge.literals, Merge.remarks, htransient]
      exact ⟨hbound, rfl⟩
    | false =>
      cases hinlines : (g.merged o.setComments).inlines r with
      | true =>
        rw [Merge.literals, Merge.remarks, htransient, hinlines]
        refine ⟨?_, rfl⟩
        cases hobject : (g.merged o.setComments).object r with
        | composition base variant =>
          rw [Merge.not_inlines _ fun _ _ => by rw [hobject]; exact nofun] at hinlines
          cases hinlines
        | _ => rfl
      | false =>
        obtain ⟨hliterals, _, hremarks⟩ := hown htransient hinlines
        rw [Merge.literals, Merge.remarks, htransient, hinlines]
        exact ⟨hliterals, hremarks⟩
  · intro hfits r hr
    obtain ⟨hrep, htransient, hinlines⟩ := h.follows.mem_withFactory.mp hr
    obtain ⟨hliterals, hremarks⟩ := hfits r hrep
    rw [Merge.literals, htransient] at hliterals
    rw [Merge.remarks, htransient, hinlines] at hremarks
    refine ⟨hliterals, fun i hi => ?_, hremarks⟩
    have horder : i ∈ g.order := by
      refine h.ordered.closed r (Merge.mem_representatives.mp hrep).1 ?_
      change i ∈ (g.object r).references
      rw [Object.references_eq]
      exact List.mem_append_right _ hi
    rw [h.boundLiterals_eq horder]
    split
    · rename_i hi
      have hrepresentative := hm.representative_mem horder
      have hself := Merge.eq_of_transient hi hrepresentative horder rfl
      have hliterals := (hfits _ hrepresentative).1
      rw [Merge.literals, hi, ← hself] at hliterals
      exact hliterals
    · rfl

/-- A program is read as it is written exactly if its name space and the texts of all objects can stand
where they are written. -/
theorem sourceLines_iff (hdialect : o.dialect = {})
    (hclass : unbroken o.className = true) :
    sourceLines (program.code o).toList = (program.lines o).map String.toList ++ [[]] ↔
      unbroken o.nameSpace = true ∧ (g.merged o.setComments).FitsLines o.setComments := by
  have hlines : program.lines o ≠ [] := by
    simp [Program.lines, CSharp.SourceFile.code, CSharp.header, Code.allLines, Code.lines]
  have hcode : Code.allUnbroken ((program.plan.sourceFile o (program.methods o)).code {}) =
      (unbroken o.nameSpace &&
        (Code.allUnbroken (program.plan.sourceFile o (program.methods o)).constants &&
          Code.allUnbroken (program.methods o))) := by
    refine CSharp.SourceFile.allUnbroken_code hclass (hsites _) fun site hsite => ?_
    obtain ⟨r, _, rfl⟩ := List.mem_map.mp hsite
    exact hsites r
  have hconstants : (g.merged o.setComments).FitsLines o.setComments →
      Code.allUnbroken (program.plan.sourceFile o (program.methods o)).constants = true := by
    intro hfits
    have hroot := h.root_mem_withFactory
    obtain ⟨hrep, htransient, _⟩ := h.follows.mem_withFactory.mp hroot
    have hliterals := (hfits g.root hrep).1
    rw [Merge.literals, htransient] at hliterals
    have hobject : program.plan.merge.object program.plan.root = g.object g.root := by
      rw [h.plan_root, h.follows.merge]
      rfl
    refine CSharp.SourceFile.allUnbroken_constants ?_
    change (program.plan.merge.object program.plan.root).values.names.all fitsLiteral = true
    rw [hobject]
    change ((g.object g.root).literals o.setComments).all fitsLiteral = true at hliterals
    cases hroot : g.object g.root with
    | composition base variant =>
      rw [hroot, Object.literals, List.all_append, List.all_append, List.all_append] at hliterals
      simp only [Bool.and_eq_true] at hliterals
      exact hliterals.1.1.2
    | _ => rfl
  have hmethods := h.allUnbroken_methods_iff hsites hcolors hdialect
  rw [Program.lines] at hlines ⊢
  change sourceLines (Code.render
    ((program.plan.sourceFile o (program.methods o)).code o.dialect)).toList = _ ↔ _
  rw [Code.sourceLines_render_iff hlines, hdialect, hcode, Bool.and_eq_true, Bool.and_eq_true, hmethods]
  tauto

end Graph.Writes

/-- Generated code is read line by line as it is written exactly if no text of the scene, and not the
name space, brings along an end of a line: a literal holds none but line feeds and carriage returns, which
are escaped, and a comment none but line feeds, at which it is cut, and blanks that are trimmed. -/
theorem generated_lines_iff {document : Option Json} {o : GenerateOptions} {path : Option String}
    {generated : Generated} (h : generate document o path = .ok generated) :
    ∃ scene, Scene.load document (path.getD "<memory>") = .ok scene ∧
      ∃ c, compile scene.heap scene.root (scene.options o path) = .ok c ∧
        ∃ program, c.plan.program ⟨scene.durationMs, o.setComments⟩ = .ok program ∧
          generated.code = Layout.text { lines := program.lines (scene.options o path) } ∧
          (sourceLines generated.code.toList =
              (program.lines (scene.options o path)).map String.toList ++ [[]] ↔
            unbroken (scene.options o path).nameSpace = true ∧
              ((Graph.ofRoot scene.heap scene.root).merged o.setComments).FitsLines
                o.setComments) := by
  obtain ⟨scene, hload, hgenerate⟩ := generate_eq_ok_iff.mp h
  obtain ⟨hname, c, hcompile, rfl⟩ := (scene.generate_eq_ok_iff o path).mp hgenerate
  have hbase (r : Fin scene.size) : Naming.IsBase (Naming.baseName _ _) :=
    Naming.isBase_baseName (Scene.isSegment_color hload r) (Scene.isSegment_color hload)
  have hclass := unbroken_of_isClassName (Scene.isClassName_options hload hname path)
  obtain ⟨program, hwrites⟩ := Scene.exists_writes hload hcompile
  have hsites : ∀ i : Fin scene.size, program.plan.sites[i].Fits := by
    have hcompiled := hcompile
    simp only [compile, Graph.compile, bind_eq_ok_iff] at hcompiled
    obtain ⟨p, hp, hwrite⟩ := hcompiled
    rw [hwrites.plan, Plan.plan_of_write hwrite]
    exact Plan.fits_named hbase (by decide : unbroken "new" = true) hp
  have hcolors : ∀ r, ∀ color ∈ ((Graph.ofRoot scene.heap scene.root).object r).colors,
      Layout.fitsRemark color.name = true := fun r color hcolor =>
    Layout.fitsRemark_of_unbroken
      (inLine_of_isAlphanum (Scene.isSegment_color hload r color hcolor).2)
  refine ⟨scene, hload, c, hcompile, program, hwrites.answered, hwrites.code, ?_⟩
  rw [hwrites.code]
  exact hwrites.sourceLines_iff hsites hcolors rfl hclass

/-- A visual whose description goes on after a line separator. -/
def separatedDocument : Option Json :=
  Scene.documentOf [("root", .object [("type", .string "ContainerVisual"),
    ("longDescription", .string "note\u2028throw null;")])]

theorem generated_lines_separated :
    ∃ generated, generate separatedDocument {} none = .ok generated ∧
      ∃ scene, Scene.load separatedDocument "<memory>" = .ok scene ∧
        ∃ c, compile scene.heap scene.root (scene.options {} none) = .ok c ∧
          ∃ program, c.plan.program ⟨scene.durationMs, false⟩ = .ok program ∧
            sourceLines generated.code.toList ≠
              (program.lines (scene.options {} none)).map String.toList ++ [[]] := by
  obtain ⟨scene, hload, ⟨generated, hgenerate⟩, hfits⟩ :
      ∃ scene, Scene.load separatedDocument "<memory>" = .ok scene ∧
        (∃ generated, generate separatedDocument {} none = .ok generated) ∧
        ¬((Graph.ofRoot scene.heap scene.root).merged false).FitsLines false :=
    exists_generates separatedDocument {} none nofun (by decide +kernel)
  obtain ⟨scene', hload', c, hcompile, program, hprogram, _, hiff⟩ := generated_lines_iff hgenerate
  cases hload.symm.trans hload'
  exact ⟨generated, hgenerate, scene, hload, c, hcompile, program, hprogram,
    fun hlines => hfits (hiff.mp hlines).2⟩

end SceneCompiler
