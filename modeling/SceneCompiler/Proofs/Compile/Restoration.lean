import SceneCompiler.Proofs.Compile.InlinePaths
import SceneCompiler.Proofs.Constructor.Answers
import SceneCompiler.Proofs.Factory.NewObjects

/-!
# Restored properties

Every retained composition object has a factory.  The factory has the compositor create the object and
assigns the properties whose values differ from what it was created with, so that the object ends up
with all its properties.
-/

namespace SceneCompiler

variable {n : Nat}

namespace Plan

theorem map_fst_of_run {p : Plan n} {s : Settings} {made made' : Calls}
    {factories : List (Fin n × Factory (Reply n))}
    (h : (p.factories s).run made = .ok (factories, made')) :
    factories.map Prod.fst = p.withFactory := by
  refine map_of_mapM (fun r calls entry calls' hrun => ?_) h
  obtain ⟨factory, _, _, hpure⟩ := run_bind_eq_ok.mp hrun
  cases run_pure_eq_ok.mp hpure
  rfl

theorem mem_withFactory_of_composition {m : Merge n} {construct : String} {p : Plan n}
    (h : ofMerge m construct = .ok p) {r : Fin n} (hr : r ∈ p.merge.representatives)
    (hretained : p.sites[r].retained = true) {base : Base (Fin n)} {variant : Variant (Fin n)}
    (hobject : p.merge.object r = .composition base variant) : r ∈ p.withFactory := by
  have houtlook := (named_eq_ok h).1
  have hinline : p.sites[r].inline = none := by
    refine inline_of_named h ?_
    rw [← houtlook, Outlook.inlineSource?, show p.outlook.merge.object r = _ from hobject]
  rw [withFactory, List.mem_mergeSort, List.mem_filter]
  refine ⟨hr, ?_⟩
  rw [Site.hasFactory, hretained, hinline]
  rfl

end Plan

/-- The factory of every retained composition object of a compilation makes the object.  It has the
compositor create an object of the variant, and from there assigns each settable property at most once,
with the text of its value, and exactly if it differs from that of the new object; the object then has
all its settable properties, lists included, as they are written.  This is so whatever stands for the
objects that are referred to. -/
theorem properties_restored {heap : Heap n} {root : Fin n} {o : Options} {c : Compilation n}
    (hcompile : compile heap root o = .ok c) :
    ∃ program, c.plan.program ⟨o.durationMs, o.setComments⟩ = .ok program ∧
      c.code = program.code o ∧
      ∀ r ∈ c.plan.merge.representatives, c.plan.sites[r].retained = true →
        ∀ base variant, c.plan.merge.object r = .composition base variant →
        ∃ factory, program.factories.lookup r = some factory ∧ ∀ stand : Fin n → Datum,
          factory.Makes ⟨o.durationMs, o.setComments⟩ (fun reply => stand reply.callee)
            (variant.newObject fun i => stand c.plan.merge.representative[i])
            ((Object.composition base variant).settable ⟨o.durationMs, o.setComments⟩
              fun i => stand c.plan.merge.representative[i]) := by
  obtain ⟨p, hplan, hwrite⟩ := bind_eq_ok_iff.mp hcompile
  obtain ⟨factories, made, hrun, rfl⟩ := Plan.exists_factories_of_write hwrite
  refine ⟨⟨p, factories⟩, ?_, rfl, fun r hr hretained base variant hobject => ?_⟩
  · rw [Plan.program, hrun]
    rfl
  have hmem := Plan.mem_withFactory_of_composition hplan hr hretained hobject
  rw [← Plan.map_fst_of_run hrun] at hmem
  obtain ⟨factory, hlookup⟩ := Option.ne_none_iff_exists'.mp
    (mt lookup_eq_none_iff_key.mp (not_not.mpr hmem))
  refine ⟨factory, hlookup, fun stand => ?_⟩
  have hfactory : factory.map Reply.toRequest = p.factory ⟨o.durationMs, o.setComments⟩ r :=
    (Plan.factories_spec hrun _ (mem_of_lookup hlookup)).2.1
  have hmakes := p.makes_factory ⟨o.durationMs, o.setComments⟩ (fun request => stand request.callee)
    hobject
  rw [← hfactory] at hmakes
  exact hmakes.of_map

/-- A stroke whose dashes start at the zero with a sign. -/
def strokedDocument : Option Json :=
  Scene.documentOf [
    ("root", .object [("type", .string "ShapeVisual"), ("shapes", .array [.string "s"])]),
    ("s", .object [("type", .string "CompositionSpriteShape"),
      ("strokeDashOffset", .number (.ofRatio true 0 1)), ("strokeThickness", .number 2)])]

def Object.sprite? {ρ : Type} : Object ρ → Option (Sprite ρ)
  | .composition _ (.spriteShape _ sprite) => some sprite
  | _ => none

theorem Object.exists_spriteShape {ρ : Type} {o : Object ρ} {sprite : Sprite ρ}
    (h : o.sprite? = some sprite) : ∃ base q, o = .composition base (.spriteShape q sprite) := by
  cases o with
  | composition base variant =>
    cases variant with
    | spriteShape q sprite' =>
      cases h
      exact ⟨base, q, rfl⟩
    | _ => cases h
  | path description source => cases h
  | canvas description geometry => cases h

def Plan.strokes (p : Plan n) : List (Number × Number) :=
  (p.merge.representatives.filter fun r => p.sites[r].retained).filterMap fun r =>
    (p.merge.object r).sprite?.map fun sprite => (sprite.strokeDashOffset, sprite.strokeThickness)

theorem properties_restored_stroked :
    ∃ scene, Scene.load strokedDocument "scene.json" = .ok scene ∧
      ∃ c, compile scene.heap scene.root
          { className := "Scene", width := 100, height := 100, durationMs := 1000 } = .ok c ∧
        ∃ program, c.plan.program ⟨1000, false⟩ = .ok program ∧
          ∃ r factory, program.factories.lookup r = some factory ∧
            assignedTo "strokeDashOffset" factory.statements = [] ∧
            (assignedTo "strokeThickness" factory.statements).length = 1 := by
  refine Scene.exists_compiles (by decide +kernel) fun scene hload c hcompile
    (hplan : ((Plan.ofMerge ((Graph.ofRoot scene.heap scene.root).merged false) "new").toOption.any
      fun p => decide (p.strokes = [(.ofRatio true 0 1, 2)])) = true) => ?_
  have hstrokes : c.plan.strokes = [(.ofRatio true 0 1, 2)] := by
    have hdrawn := ofMerge_of_compile hcompile
    dsimp only at hdrawn
    rw [hdrawn] at hplan
    exact of_decide_eq_true hplan
  obtain ⟨program, hprogram, _, hmakes⟩ := properties_restored hcompile
  refine ⟨program, hprogram, ?_⟩
  have hmem : (.ofRatio true 0 1, 2) ∈ c.plan.strokes := by
    rw [hstrokes]
    exact List.mem_cons_self
  obtain ⟨r, hr, hsprite⟩ := List.mem_filterMap.mp hmem
  obtain ⟨hr, hretained⟩ := List.mem_filter.mp hr
  obtain ⟨sprite, hsprite, hstroke⟩ := Option.map_eq_some_iff.mp hsprite
  obtain ⟨base, q, hobject⟩ := Object.exists_spriteShape hsprite
  obtain ⟨factory, hlookup, hmakes⟩ := hmakes r hr hretained base _ hobject
  have hrestored := (hmakes fun _ => .absent).restored
  have hfresh := precedes_newObject (fun _ => .absent) base (.spriteShape q sprite)
  have hown {key : String} {v : Datum} (hadmits : Settings.admits ⟨1000, false⟩ (key, v) = true)
      (hmem : (key, v) ∈ sprite.fields fun _ => .absent) :
      ((Object.composition base (.spriteShape q sprite)).settable ⟨1000, false⟩
        fun _ => .absent).lookup key = some v := by
    refine hfresh.lookup_settable_iff.mpr ⟨?_, hadmits⟩
    simp [Object.fields, Variant.fields, hmem]
  have hnew {key : String} {v : Datum}
      (hmem : (key, v) ∈ ({} : Sprite (Fin scene.size)).fields fun _ => .absent) :
      ((Variant.spriteShape q sprite).newObject fun _ => .absent).lookup key = some v := by
    refine (lookup_eq_some_iff_mem hfresh.nodup).mpr ?_
    simp [Variant.newObject, Variant.newFields, hmem]
  obtain ⟨hoffset, hthickness⟩ := Prod.mk.inj hstroke
  refine ⟨r, factory, hlookup, ?_, ?_⟩
  · by_contra hassigned
    obtain ⟨v, hv, hdiffers⟩ := (hrestored.assigned_iff "strokeDashOffset"
      (by rintro ⟨_⟩ <;> simp [ItemList.field])).mp hassigned
    rw [hown (v := .number sprite.strokeDashOffset) (by simp [Settings.admits, fixedFields])
      (by simp [Sprite.fields])] at hv
    cases hv
    refine hdiffers (.number 0) (hnew (by simp [Sprite.fields])) (.number ?_)
    rw [hoffset]
    decide +kernel
  · refine Nat.le_antisymm (hrestored.once _) (List.length_pos_iff.mpr ?_)
    refine (hrestored.assigned_iff "strokeThickness"
      (by rintro ⟨_⟩ <;> simp [ItemList.field])).mpr ⟨.number sprite.strokeThickness,
        hown (by simp [Settings.admits, fixedFields]) (by simp [Sprite.fields]), ?_⟩
    rw [hnew (v := .number 1) (by simp [Sprite.fields])]
    rintro standard ⟨⟩ hsame
    rw [hthickness, Datum.same_number_iff (by decide +kernel)] at hsame
    revert hsame
    decide +kernel

end SceneCompiler
