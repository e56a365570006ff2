import SceneCompiler.Proofs.Document.Linking

/-!
# The mentions that linking looks at

Linking does not look at every place at which an id is mentioned.  It looks at the collections of the
records that can be created, and at a controller only if the animation that is controlled is found.
-/

namespace SceneCompiler

namespace Linking

/-- The mentions of a document: its root, the fields of its records, and the collections of
`created` records, with the controllers of `entered` animations. -/
inductive Mentioned (records : Records) (root : String) (created entered : String → Prop) :
    Mention → Prop
  | root : Mentioned records root created entered ⟨"root", root, .visual⟩
  | field {id : String} {o : Object String} {m : Mention} :
      records.lookup id = some o → o.FieldMention (placeOf id) m →
      Mentioned records root created entered m
  | content {id : String} {o : Object String} {c : Content String} {m : Mention} :
      records.lookup id = some o → created id → c ∈ o.contents →
      c.Mentions entered (placeOf id) m → Mentioned records root created entered m

/-- An object can be created from a record if those that it is made from can be created, and are of
the kinds that it asks for. -/
inductive Creatable (records : Records) : String → Prop
  | intro {id : String} {o : Object String} :
      records.lookup id = some o → (∀ part ∈ o.parts.take o.arity, Holds records part) →
      (∀ part ∈ o.parts.take o.arity, Creatable records part.2) → Creatable records id

def Found (records : Records) (part : Demand × String) : Prop :=
  Holds records part ∧ Creatable records part.2

def Entered (records : Records) (id : String) : Prop :=
  Found records (.animation, id)

variable {records : Records}

theorem creatable_iff {id : String} {o : Object String} (ho : records.lookup id = some o) :
    Creatable records id ↔ ∀ part ∈ o.parts.take o.arity, Found records part := by
  constructor
  · intro h part hpart
    cases h with
    | intro ho' hholds hcreatable =>
      cases ho.symm.trans ho'
      exact ⟨hholds part hpart, hcreatable part hpart⟩
  · exact fun h => .intro ho (fun part hpart => (h part hpart).1) fun part hpart => (h part hpart).2

/-! ## Records that are needed to create themselves -/

theorem mem_mentions_shell_of_mem_take {o : Object String} {part : Demand × String}
    (h : part ∈ o.parts.take o.arity) : part ∈ o.shell.mentions := by
  cases o with
  | composition base variant =>
    cases variant <;>
      simp_all [Object.mentions, Object.parts, Variant.parts, Object.arity, Variant.arity,
        Object.shell, Variant.shell]
  | path description source => exact List.mem_append_left _ (List.mem_of_mem_take h)
  | canvas description geometry => exact List.mem_append_left _ (List.mem_of_mem_take h)

theorem demand_of_mem_mentions_shell {o : Object String} {part : Demand × String}
    (h : part ∈ o.shell.mentions) :
    part.1 ≠ .visual ∧ part.1 ≠ .shape ∧ part.1 ≠ .compositionObject := by
  obtain ⟨m, hm, rfl⟩ := (o.mem_mentions_shell_iff "" part).mp h
  cases hm <;> simp

theorem mem_take_of_mem_singles {o o' : Object String} {d : Demand} {id r : String}
    (h : (d, id) ∈ o'.shell.mentions) (hadmits : d.admits o = true) (hr : r ∈ o.singles) :
    ∃ d', (d', r) ∈ o.parts.take o.arity := by
  obtain ⟨hvisual, hshape, hobject⟩ := demand_of_mem_mentions_shell h
  cases o with
  | composition base variant =>
    cases variant <;>
      simp_all [Demand.admits, Demand.ofVariant, Object.singles, Object.parts, Variant.parts,
        Object.arity, Variant.arity]
  | path description source => simp_all [Object.singles, Object.parts, Object.arity]
  | canvas description geometry =>
    cases geometry with
    | combination a b matrix mode =>
      simp only [Object.singles, List.mem_cons, List.not_mem_nil, or_false] at hr
      rcases hr with rfl | rfl <;> exact ⟨.canvasGeometry, by simp [Object.parts, Object.arity]⟩
    | _ => cases hr

theorem Creatable.not_requires {id : String} (h : Creatable records id) {d : Demand}
    {o' : Object String} (hmem : (d, id) ∈ o'.shell.mentions) (hholds : Holds records (d, id)) :
    ¬Relation.TransGen (Requires records) id id := by
  induction h generalizing d o' with
  | @intro id o ho hparts _ ih =>
    intro hcycle
    obtain ⟨r, hrequires, hback⟩ := Relation.TransGen.head'_iff.mp hcycle
    have ⟨_, ho', hsingle⟩ := hrequires
    obtain ⟨_, ho'', hadmits⟩ := hholds
    cases ho.symm.trans ho'
    cases ho.symm.trans ho''
    obtain ⟨d', hd'⟩ := mem_take_of_mem_singles hmem hadmits hsingle
    exact ih _ hd' (mem_mentions_shell_of_mem_take hd') (hparts _ hd') (.tail' hback hrequires)

end Linking

end SceneCompiler
