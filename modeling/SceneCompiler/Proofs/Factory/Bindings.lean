import SceneCompiler.Proofs.Factory.Requests

/-!
# The order of the bindings

The statements of a factory bind the animations that its object starts, one after another: an
animation is started as it is, or built on the reusable one and started then.  Between the bindings
nothing starts an animation or touches the reusable one.
-/

namespace SceneCompiler

variable {n : Nat}

def Statement.isStart {ρ : Type} : Statement ρ → Bool
  | .startAnimation _ _ _ => true
  | _ => false

theorem Statement.isStart_eq_false {ρ : Type} {s : Statement ρ} (h : s.isBinding = false) :
    s.isStart = false := by
  cases s with
  | startAnimation target property animation => cases h
  | _ => rfl

namespace Plan

/-- The statements bind the animations in order, on behalf of an object. -/
inductive Binds (p : Plan n) (r : Fin n) : List (Fin n) → List (Statement (Request n)) → Prop where
  | done : Binds p r [] []
  | pass {s : Statement (Request n)} {as : List (Fin n)} {ss : List (Statement (Request n))} :
      s.isBinding = false → Binds p r as ss → Binds p r as (s :: ss)
  | retained {target : Target} {property : String} {q : Request n} {a : Fin n} {as : List (Fin n)}
      {ss : List (Statement (Request n))} :
      ((p.merge.object a).isExpressionAnimation = true → (p.site a).retained = true) →
        Binds p r as ss →
        Binds p r (a :: as) (.startAnimation target property (.object q) :: ss)
  | transient {top : Bool} {target : Target} {property : String} {a : Fin n} {base : Base (Fin n)}
      {q : Parameters (Fin n)} {expression : String} {as : List (Fin n)}
      {ss : List (Statement (Request n))} :
      p.merge.object a = .composition base (.expressionAnimation q expression) →
        (p.site a).retained = false → Binds p r as ss →
        Binds p r (a :: as)
          (p.startTransient (ownerOf r top) target property a q expression ++ ss)

theorem countP_startTransient (p : Plan n) (owner : Option (Fin n)) (target : Target)
    (property : String) (animation : Fin n) (q : Parameters (Fin n)) (expression : String) :
    (p.startTransient owner target property animation q expression).countP Statement.isStart =
      1 := by
  simp [startTransient, Statement.isStart, List.countP_append, List.countP_map, Function.comp_def,
    List.countP_cons]

namespace Binds

variable {p : Plan n} {r : Fin n} {as bs : List (Fin n)} {ss ts : List (Statement (Request n))}

theorem append (h : p.Binds r as ss) (ht : p.Binds r bs ts) :
    p.Binds r (as ++ bs) (ss ++ ts) := by
  induction h with
  | done => exact ht
  | pass hs _ ih => exact .pass hs ih
  | retained hretained _ ih => exact .retained hretained ih
  | transient hobject hsite _ ih =>
    rw [List.append_assoc]
    exact .transient hobject hsite ih

theorem of_not_isBinding (h : ss.any Statement.isBinding = false) : p.Binds r [] ss := by
  induction ss with
  | nil => exact .done
  | cons s ss ih =>
    obtain ⟨hs, hss⟩ := Bool.or_eq_false_iff.mp h
    exact .pass hs (ih hss)

theorem countP_isStart (h : p.Binds r as ss) : ss.countP Statement.isStart = as.length := by
  induction h with
  | done => rfl
  | pass hs _ ih =>
    rw [List.countP_cons_of_neg (by simp [Statement.isStart_eq_false hs]), ih]
  | retained _ _ ih => rw [List.countP_cons_of_pos rfl, ih, List.length_cons]
  | transient _ _ _ ih =>
    rw [List.countP_append, ih, List.length_cons, countP_startTransient]
    omega

theorem exists_transient {front back : List (Fin n)} {a : Fin n} {base : Base (Fin n)}
    {q : Parameters (Fin n)} {expression : String} (h : p.Binds r (front ++ a :: back) ss)
    (hobject : p.merge.object a = .composition base (.expressionAnimation q expression))
    (hsite : (p.site a).retained = false) :
    ∃ before top target property after, p.Binds r front before ∧
      ss = before ++ (p.startTransient (ownerOf r top) target property a q expression ++ after) := by
  generalize has : front ++ a :: back = as at h
  induction h generalizing front with
  | done => simp at has
  | pass hs _ ih =>
    obtain ⟨before, top, target, property, after, hbefore, rfl⟩ := ih has
    exact ⟨_ :: before, top, target, property, after, .pass hs hbefore, rfl⟩
  | retained hretained _ ih =>
    cases front with
    | nil =>
      obtain ⟨rfl, rfl⟩ := List.cons.inj has
      rw [hretained (by rw [hobject]; rfl)] at hsite
      cases hsite
    | cons first front =>
      obtain ⟨rfl, rfl⟩ := List.cons.inj has
      obtain ⟨before, top, target, property, after, hbefore, rfl⟩ := ih rfl
      exact ⟨_ :: before, top, target, property, after, .retained hretained hbefore, rfl⟩
  | transient hobject' hsite' _ ih =>
    cases front with
    | nil =>
      obtain ⟨rfl, rfl⟩ := List.cons.inj has
      rw [hobject] at hobject'
      cases hobject'
      exact ⟨[], _, _, _, _, .done, rfl⟩
    | cons first front =>
      obtain ⟨rfl, rfl⟩ := List.cons.inj has
      obtain ⟨before, top, target, property, after, hbefore, rfl⟩ := ih rfl
      exact ⟨_, top, target, property, after, .transient hobject' hsite' hbefore,
        (List.append_assoc _ _ _).symm⟩

end Binds

variable (p : Plan n) (s : Settings) (r : Fin n)

theorem binds_start (top : Bool) (target : Target) (property : String) (animation : Fin n) :
    p.Binds r [animation] (p.start r (ownerOf r top) target property animation) := by
  unfold start
  dsimp only
  split
  · rename_i base q expression hobject
    split
    · rename_i hretained
      exact .retained (fun _ => hretained) .done
    · rename_i hretained
      rw [← List.append_nil (p.startTransient _ _ _ _ _ _)]
      exact .transient hobject (Bool.eq_false_iff.mpr hretained) .done
  · rename_i hobject
    refine .retained (fun hexpression => ?_) .done
    obtain ⟨base, q, expression, heq⟩ := Object.exists_expression hexpression
    exact absurd heq (hobject base q expression)

mutual
theorem binds_bind (top : Bool) (target : Target) (depth : Nat) (a : Animator (Fin n)) :
    p.Binds r a.references (p.bind r (ownerOf r top) target depth a) := by
  cases a with
  | plain property animation =>
    rw [bind]
    exact p.binds_start r top target property animation
  | controlled property animation values onProperties onController =>
    have hproperties := binds_bindAll false ⟨.controller depth, true⟩ (depth + 1) onProperties
    have hcontroller := binds_bindAll false ⟨.controller depth, false⟩ (depth + 1) onController
    have hfetch : p.Binds r [] [.fetchController false depth target property,
        .pauseController depth] := .of_not_isBinding rfl
    rw [bind]
    exact (((p.binds_start r top target property animation).append hfetch).append
      hproperties).append hcontroller
theorem binds_bindAll (top : Bool) (target : Target) (depth : Nat) (as : List (Animator (Fin n))) :
    p.Binds r (animatorReferences as) (p.bindAll r (ownerOf r top) target depth as) := by
  cases as with
  | nil =>
    rw [bindAll]
    exact .done
  | cons a as =>
    rw [bindAll]
    exact (binds_bind top target depth a).append (binds_bindAll top target depth as)
end

theorem declareControllers_cons {σ : Type} {statement : Statement σ}
    (h : statement.isBinding = true) (declared : List Nat) (rest : List (Statement σ)) :
    declareControllers declared (statement :: rest) =
      statement :: declareControllers declared rest := by
  cases statement with
  | fetchController declares depth target property => cases h
  | _ => rfl

theorem declareControllers_append {σ : Type} {block : List (Statement σ)}
    (h : block.all Statement.isBinding = true) (declared : List Nat) (rest : List (Statement σ)) :
    declareControllers declared (block ++ rest) = block ++ declareControllers declared rest := by
  induction block with
  | nil => rfl
  | cons statement block ih =>
    obtain ⟨hstatement, hblock⟩ := Bool.and_eq_true_iff.mp h
    rw [List.cons_append, declareControllers_cons hstatement, ih hblock]
    rfl

theorem isBinding_startTransient (owner : Option (Fin n)) (target : Target) (property : String)
    (animation : Fin n) (q : Parameters (Fin n)) (expression : String) :
    (p.startTransient owner target property animation q expression).all Statement.isBinding =
      true := by
  simp [startTransient, Statement.isBinding]

theorem Binds.declareControllers {p : Plan n} {r : Fin n} {as : List (Fin n)}
    {ss : List (Statement (Request n))} (h : p.Binds r as ss) (declared : List Nat) :
    p.Binds r as (declareControllers declared ss) := by
  induction h generalizing declared with
  | done => exact .done
  | pass hs _ ih =>
    rename_i s as ss _
    cases s with
    | fetchController declares depth target property => exact .pass rfl (ih _)
    | _ => exact .pass hs (ih declared)
  | retained hretained _ ih => exact .retained hretained (ih declared)
  | transient hobject hsite _ ih =>
    rw [declareControllers_append (p.isBinding_startTransient ..)]
    exact .transient hobject hsite (ih declared)

theorem binds_factory :
    p.Binds r (animatorReferences (p.merge.object r).started) (p.factory s r).statements := by
  obtain ⟨own, hstatements, _, hown⟩ := p.factory_statements s r
  have hstarts : p.Binds r (animatorReferences (p.merge.object r).started) (p.starts r) := by
    unfold starts
    cases p.merge.object r with
    | composition base variant =>
      simp only [Object.started]
      split
      · rw [Base.animators, animatorReferences_append]
        exact ((p.binds_bindAll r true _ 0 base.onProperties).append
          (p.binds_bindAll r true _ 0 base.onObject)).declareControllers []
      · exact .done
    | path description source => exact .done
    | canvas description geometry => exact .done
  rw [hstatements]
  exact (Binds.of_not_isBinding hown).append hstarts

end Plan

end SceneCompiler
