import Mathlib.Data.Fintype.Card
import Mathlib.Order.WellFounded
import Mathlib.Order.RelClasses
import SceneCompiler.Proofs.Merge.Alike
import SceneCompiler.Proofs.Number.ReadBack

/-!
# Completeness of merging

A number is known by its text, so objects that are alike have the same atoms.  Where no object that
may be merged is part of itself, every label is a group, and there is one group for each key.
Objects are therefore merged exactly if they are structurally equal.
-/

namespace SceneCompiler

namespace Number

theorem number?_json (a : Number) :
    Json.number? a.json.toList = if a.isFinite then some (a.written, []) else none := by
  have hnull : Json.number? "null".toList = none := rfl
  cases a with
  | finite negative units h =>
    rw [json, text, String.toList_ofList]
    exact number?_chars negative h
  | infinite negative => exact hnull
  | nan => exact hnull

theorem written_of_not_finite {a : Number} (h : a.isFinite = false) : a.written = .nan := by
  cases a with
  | finite negative units hunits => cases h
  | infinite negative => rfl
  | nan => rfl

theorem written_eq_of_json {a b : Number} (h : a.json = b.json) : a.written = b.written := by
  have hread : (if a.isFinite then some (a.written, ([] : List Char)) else none) =
      if b.isFinite then some (b.written, []) else none := by
    rw [← number?_json, ← number?_json, h]
  cases ha : a.isFinite <;> cases hb : b.isFinite <;> simp only [ha, hb] at hread
  · rw [written_of_not_finite ha, written_of_not_finite hb]
  · cases hread
  · cases hread
  · exact (Prod.mk.inj (Option.some.inj hread)).1

theorem alike_iff_json {a b : Number} : a.Alike b ↔ a.json = b.json :=
  ⟨fun h => h.1, fun h => alike_of_written (written_eq_of_json h)⟩

end Number

namespace Atom

def Respects {α : Type} (atoms : α → List Atom) (R : α → α → Prop) : Prop :=
  ∀ ⦃a b : α⦄, R a b → atoms a = atoms b

theorem ofNumber_eq {a b : Number} (h : a.Alike b) : ofNumber a = ofNumber b :=
  congrArg Atom.number (Number.written_eq_of_json (Number.alike_iff_json.mp h))

theorem respects_number : Respects (fun a => [ofNumber a]) Number.Alike :=
  fun _ _ h => congrArg (fun a => [a]) (ofNumber_eq h)

theorem respects_vector2 : Respects ofVector2 Vector2.Alike := by
  rintro u v ⟨hx, hy⟩
  rw [ofVector2, ofVector2, ofNumber_eq hx, ofNumber_eq hy]

theorem respects_vector3 : Respects ofVector3 Vector3.Alike := by
  rintro u v ⟨hx, hy, hz⟩
  rw [ofVector3, ofVector3, ofNumber_eq hx, ofNumber_eq hy, ofNumber_eq hz]

theorem respects_color : Respects ofColor Color.Alike :=
  fun _ _ h => congrArg (fun hex => [Atom.text hex]) h

theorem respects_trim : Respects ofTrim Trim.Alike := by
  rintro t u ⟨hstart, hstop, hoffset⟩
  simp only [ofTrim, List.map_cons, List.map_nil, ofNumber_eq hstart, ofNumber_eq hstop,
    ofNumber_eq hoffset]

theorem respects_matrix : Respects ofMatrix Matrix3x2.Alike := by
  rintro a b ⟨h11, h12, h21, h22, h31, h32⟩
  simp only [ofMatrix, List.map_cons, List.map_nil, ofNumber_eq h11, ofNumber_eq h12,
    ofNumber_eq h21, ofNumber_eq h22, ofNumber_eq h31, ofNumber_eq h32]

theorem respects_command : Respects ofCommand PathCommand.Alike := by
  intro a b h
  cases h with
  | beginFigure hp => rw [ofCommand, ofCommand, respects_vector2 hp]
  | addLine hp => rw [ofCommand, ofCommand, respects_vector2 hp]
  | addCubicBezier ha hb hp =>
    rw [ofCommand, ofCommand, respects_vector2 ha, respects_vector2 hb, respects_vector2 hp]
  | endFigure figureLoop => rfl

theorem Respects.flatMap {α : Type} {atoms : α → List Atom} {R : α → α → Prop}
    (hatoms : Respects atoms R) {as bs : List α} (h : List.Forall₂ R as bs) :
    as.flatMap atoms = bs.flatMap atoms := by
  induction h with
  | nil => rfl
  | cons hab _ ih => rw [List.flatMap_cons, List.flatMap_cons, hatoms hab, ih]

variable {ρ : Type}

theorem respects_parameters : Respects (ofParameters (ρ := ρ)) Parameters.Alike := by
  rintro p q ⟨htarget, hnames⟩
  have hlength : p.references.length = q.references.length := by
    simpa using congrArg List.length hnames
  have htexts := congrArg (List.map Atom.text) hnames
  rw [List.map_map, List.map_map] at htexts
  rw [ofParameters, ofParameters, htarget, hlength]
  exact congrArg (fun texts => Atom.text _ :: Atom.size _ :: texts) htexts

theorem respects_keyFrame {α : Type} {value : α → List Atom} {R : α → α → Prop}
    (hvalue : Respects value R) : Respects (ofKeyFrame (ρ := ρ) value) (KeyFrame.Alike R) := by
  rintro ⟨progress, content, easing⟩ ⟨progress', content', easing'⟩ ⟨hprogress, hcontent⟩
  rw [ofKeyFrame, ofKeyFrame, ofNumber_eq hprogress]
  cases hcontent with
  | value hab => simp only [hvalue hab]
  | expression text => rfl

theorem respects_frames {α : Type} {value : α → List Atom} {R : α → α → Prop}
    (hvalue : Respects value R) : Respects (ofFrames (ρ := ρ) value) (Frames.Alike R) := by
  rintro f g ⟨hduration, hframes⟩
  have hatoms := (respects_keyFrame hvalue).flatMap hframes
  rw [ofFrames, ofFrames, ofNumber_eq hduration, hframes.length_eq]
  exact congrArg (fun atoms => ofNumber _ :: Atom.size _ :: atoms) hatoms

end Atom

open Atom

variable {ρ : Type}

theorem Variant.atoms?_eq_of_alike {v w : Variant ρ} (h : v.Alike w) :
    v.typeName = w.typeName ∧ ∃ fields, v.atoms? = some fields ∧ w.atoms? = some fields := by
  cases h with
  | linearEasing => exact ⟨rfl, _, rfl, rfl⟩
  | cubicBezierEasing ha hb =>
    refine ⟨rfl, _, rfl, ?_⟩
    rw [atoms?, respects_vector2 ha, respects_vector2 hb]
  | stepEasing hs =>
    obtain ⟨hfinal, hinitial, hfinalFrame, hinitialFrame, hcount⟩ := hs
    refine ⟨rfl, _, rfl, ?_⟩
    rw [atoms?, ofNumber_eq hfinal, ofNumber_eq hinitial, ofNumber_eq hcount, hfinalFrame,
      hinitialFrame]
  | colorBrush hc =>
    refine ⟨rfl, _, rfl, ?_⟩
    rw [atoms?, respects_color hc]
  | ellipseGeometry ht hcenter hradius =>
    refine ⟨rfl, _, rfl, ?_⟩
    rw [atoms?, respects_trim ht, respects_vector2 hcenter, respects_vector2 hradius]
  | rectangleGeometry ht hsize =>
    refine ⟨rfl, _, rfl, ?_⟩
    rw [atoms?, respects_trim ht, respects_vector2 hsize]
  | roundedRectangleGeometry ht hsize hradius =>
    refine ⟨rfl, _, rfl, ?_⟩
    rw [atoms?, respects_trim ht, respects_vector2 hsize, respects_vector2 hradius]
  | pathGeometry path path' ht =>
    refine ⟨rfl, _, rfl, ?_⟩
    rw [atoms?, respects_trim ht]
  | expressionAnimation expression hp =>
    refine ⟨rfl, _, rfl, ?_⟩
    rw [atoms?, respects_parameters hp]
  | colorAnimation hp hf =>
    refine ⟨rfl, _, rfl, ?_⟩
    rw [atoms?, respects_parameters hp, respects_frames respects_color hf]
  | scalarAnimation hp hf =>
    refine ⟨rfl, _, rfl, ?_⟩
    rw [atoms?, respects_parameters hp, respects_frames respects_number hf]
  | vector2Animation hp hf =>
    refine ⟨rfl, _, rfl, ?_⟩
    rw [atoms?, respects_parameters hp, respects_frames respects_vector2 hf]
  | vector3Animation hp hf =>
    refine ⟨rfl, _, rfl, ?_⟩
    rw [atoms?, respects_parameters hp, respects_frames respects_vector3 hf]
  | pathAnimation hp hf =>
    have hvalue : Respects (fun _ : ρ => []) fun _ _ => True := fun _ _ _ => rfl
    refine ⟨rfl, _, rfl, ?_⟩
    rw [atoms?, respects_parameters hp, respects_frames hvalue hf]

theorem CanvasGeometry.atoms_eq_of_alike {a b : CanvasGeometry ρ} (h : a.Alike b) :
    a.atoms = b.atoms := by
  cases h with
  | combination c d c' d' mode hmatrix => rw [atoms, atoms, respects_matrix hmatrix]
  | ellipse hx hy hrx hry =>
    simp only [atoms, List.map_cons, List.map_nil, ofNumber_eq hx, ofNumber_eq hy,
      ofNumber_eq hrx, ofNumber_eq hry]
  | path region hcommands =>
    rw [atoms, atoms, hcommands.length_eq, respects_command.flatMap hcommands]
  | roundedRectangle hx hy hw hh hrx hry =>
    simp only [atoms, List.map_cons, List.map_nil, ofNumber_eq hx, ofNumber_eq hy,
      ofNumber_eq hw, ofNumber_eq hh, ofNumber_eq hrx, ofNumber_eq hry]

theorem Object.atoms?_eq_of_alike {keep : Bool} {a b : Object ρ} (h : a.Alike keep b) :
    ∃ fields, a.atoms? keep = some fields ∧ b.atoms? keep = some fields := by
  cases h with
  | @composition base base' variant variant' hanimators hanimators' hvalues hvalues' hcomment
      hvariant =>
      obtain ⟨htype, fields, hv, hw⟩ := Variant.atoms?_eq_of_alike hvariant
      have hcomments :
          (if keep then [Atom.text (base.description.comment.getD "")] else []) =
            if keep then [Atom.text (base'.description.comment.getD "")] else [] := by
        cases keep with
        | false => rfl
        | true => rw [hcomment rfl]
      refine ⟨Atom.text variant.typeName :: fields ++
        if keep then [.text (base.description.comment.getD "")] else [], ?_, ?_⟩
      · rw [atoms?, hanimators, hvalues, hv]
        rfl
      · rw [atoms?, hanimators', hvalues', hw, hcomments, htype]
        rfl
  | path description description' source source' => exact ⟨_, rfl, rfl⟩
  | canvas description description' hgeometry =>
    refine ⟨_, rfl, ?_⟩
    rw [atoms?, CanvasGeometry.atoms_eq_of_alike hgeometry]

variable {n : Nat}

namespace Graph

variable (g : Graph n) (keep : Bool)

def HasPart (i r : Fin n) : Prop :=
  i ∈ g.order ∧ (g.atoms keep i).isSome = true ∧ r ∈ g.outReferences i

/-- The least relation that relates every object to itself, and objects that are alike if what they
refer to is related one by one. -/
inductive StructurallyEqual : Fin n → Fin n → Prop
  | refl (i : Fin n) : StructurallyEqual i i
  | alike {i j : Fin n} :
      (g.object i).Alike keep (g.object j) →
      (g.outReferences i).length = (g.outReferences j).length →
      (∀ pair ∈ (g.outReferences i).zip (g.outReferences j),
        StructurallyEqual pair.1 pair.2) →
      StructurallyEqual i j

variable {g keep}

theorem wellFounded_hasPart (hacyclic : ∀ i, ¬Relation.TransGen (g.HasPart keep) i i) :
    WellFounded (flip (g.HasPart keep)) := by
  have htrans : IsTrans (Fin n) (Relation.TransGen (flip (g.HasPart keep))) :=
    ⟨fun _ _ _ => Relation.TransGen.trans⟩
  have hirrefl : Std.Irrefl (Relation.TransGen (flip (g.HasPart keep))) :=
    ⟨fun i hi => hacyclic i (Relation.transGen_swap.mp hi)⟩
  exact Subrelation.wf (fun h => Relation.TransGen.single h)
    (Finite.wellFounded_of_trans_of_irrefl (Relation.TransGen (flip (g.HasPart keep))))

variable (g keep) in
def Within (P : List Atom → Prop) (i : Fin n) : Prop :=
  ∀ fields, g.atoms keep i = some fields → P fields

variable (g keep) in
/-- Objects with atoms that `P` holds of have no others for parts, and none is part of itself. -/
structure Founded (P : List Atom → Prop) : Prop where
  closed : ∀ i r, g.HasPart keep i r → g.Within keep P i → g.Within keep P r
  acyclic : ∀ i, g.Within keep P i → ¬Relation.TransGen (g.HasPart keep) i i

theorem founded_true (hacyclic : ∀ i, ¬Relation.TransGen (g.HasPart keep) i i) :
    g.Founded keep fun _ => True :=
  ⟨fun _ _ _ _ _ _ => trivial, fun i _ => hacyclic i⟩

end Graph

namespace Grouping

/-- No two groups have one key, and keys with atoms that `P` holds of have groups only. -/
structure Settled (P : List Atom → Prop) (s : Grouping n) : Prop where
  nodup : s.keys.Nodup
  finished : ∀ fields labels, Key.shared fields labels ∈ s.keys → P fields →
    ∀ l ∈ labels, ∃ k, l = .group k

variable {P : List Atom → Prop}

theorem insert_settled {s : Grouping n} (hs : s.Settled P) (i : Fin n) {key : Key n}
    (hkey : ∀ fields labels, key = .shared fields labels → P fields →
      ∀ l ∈ labels, ∃ k, l = .group k) :
    (s.insert i key).2.Settled P := by
  obtain ⟨_, k, hlabel, _, hget⟩ := insert_spec s i key
  refine ⟨nodup_keys_insert hs.nodup i key, fun fields labels hmem => ?_⟩
  obtain ⟨a, ha⟩ := List.mem_iff_getElem?.mp hmem
  rcases getElem?_keys_insert ha with hold | hnew
  · exact hs.finished fields labels (List.mem_of_getElem? hold)
  · rw [hlabel] at hnew
    cases hnew
    exact hkey fields labels (Option.some.inj (hget.symm.trans ha))

theorem labels_finished {Q : Fin n → Prop} {find : Grouping n → Fin n → Label n × Grouping n}
    {is : List (Fin n)}
    (hfind : ∀ (s : Grouping n) (i : Fin n), i ∈ is → s.Settled P →
      (find s i).2.Settled P ∧ (Q i → ∃ k, (find s i).1 = .group k))
    {s : Grouping n} (hs : s.Settled P) :
    (labels find s is).2.Settled P ∧
      ((∀ i ∈ is, Q i) → ∀ l ∈ (labels find s is).1, ∃ k, l = .group k) := by
  induction is generalizing s with
  | nil => exact ⟨hs, fun _ l hl => absurd hl List.not_mem_nil⟩
  | cons i rest ih =>
    obtain ⟨hfirst, hgroup⟩ := hfind s i List.mem_cons_self hs
    obtain ⟨hsettled, hlabels⟩ :=
      ih (fun t j hj => hfind t j (List.mem_cons_of_mem _ hj)) hfirst
    refine ⟨hsettled, fun hQ l hl => ?_⟩
    obtain ⟨hi, hrest⟩ := List.forall_mem_cons.mp hQ
    rcases List.mem_cons.mp hl with rfl | hl
    · exact hgroup hi
    · exact hlabels hrest l hl

variable {g : Graph n} {keep : Bool} (hg : g.Ordered) (hfounded : g.Founded keep P)

include hg hfounded

/-- The objects whose keys are being computed have `i` as a part, so `i` is none of them where it is
not part of itself.  As they are distinct, the fuel suffices. -/
theorem label_finds (fuel : Nat) (active : List (Fin n)) {s : Grouping n} {i : Fin n}
    (hs : s.Settled P) (hi : i ∈ g.order) (hnodup : active.Nodup)
    (hfuel : n < fuel + active.length)
    (hactive : ∀ a ∈ active, g.Within keep P a → Relation.TransGen (g.HasPart keep) a i) :
    (label g.heap (g.atoms keep) fuel active s i).2.Settled P ∧
      (g.Within keep P i → ∃ k, (label g.heap (g.atoms keep) fuel active s i).1 = .group k) := by
  induction fuel generalizing active s i with
  | zero =>
    have hcard := hnodup.length_le_card
    rw [Fintype.card_fin] at hcard
    omega
  | succ fuel ih =>
    rw [label]
    split
    · rename_i k hk
      exact ⟨hs, fun _ => ⟨k, rfl⟩⟩
    · by_cases hmem : i ∈ active
      · rw [if_pos (by simpa using hmem)]
        exact ⟨hs, fun hwithin => absurd (hactive i hmem hwithin) (hfounded.acyclic i hwithin)⟩
      · rw [if_neg (by simpa using hmem)]
        have hgroup (t : Grouping n) (key : Key n) : ∃ k, (t.insert i key).1 = .group k := by
          obtain ⟨_, k, hlabel, _⟩ := insert_spec t i key
          exact ⟨k, hlabel⟩
        split
        · refine ⟨insert_settled hs i fun _ _ h => ?_, fun _ => hgroup _ _⟩
          cases h
        · rename_i fields hatoms
          have hpart : ∀ r ∈ g.outReferences i, g.HasPart keep i r :=
            fun r hr => ⟨hi, by rw [hatoms]; rfl, hr⟩
          have hfind : ∀ (t : Grouping n) (r : Fin n), r ∈ g.heap[i].references →
              t.Settled P → (label g.heap (g.atoms keep) fuel (i :: active) t r).2.Settled P ∧
                (g.Within keep P r →
                  ∃ k, (label g.heap (g.atoms keep) fuel (i :: active) t r).1 = .group k) := by
            intro t r hr ht
            refine ih (i :: active) ht (hg.closed i hi hr) (List.nodup_cons.mpr ⟨hmem, hnodup⟩)
              (by rw [List.length_cons]; omega) fun a ha hwithin => ?_
            rcases List.mem_cons.mp ha with rfl | ha
            · exact .single (hpart r hr)
            · exact (hactive a ha hwithin).tail (hpart r hr)
          obtain ⟨hsettled, hlabels⟩ := labels_finished hfind hs
          refine ⟨insert_settled hsettled i fun fields' labels' h hP => ?_, fun _ => hgroup _ _⟩
          cases h
          refine hlabels fun r hr => hfounded.closed i r (hpart r hr) fun fields' hfields' => ?_
          rw [hatoms] at hfields'
          cases hfields'
          exact hP

theorem ofGraph_settled : (ofGraph g (g.atoms keep)).Settled P := by
  have hfold : ∀ (is : List (Fin n)) (s : Grouping n), is ⊆ g.order → s.Settled P →
      (is.foldl (fun s i => (label g.heap (g.atoms keep) (n + 1) [] s i).2) s).Settled P := by
    intro is
    induction is with
    | nil => exact fun s _ hs => hs
    | cons i rest ih =>
      intro s his hs
      obtain ⟨hi, hrest⟩ := List.cons_subset.mp his
      have hfinds := label_finds hg hfounded (n + 1) [] hs hi List.nodup_nil
        (by rw [List.length_nil]; omega) fun a ha => absurd ha List.not_mem_nil
      exact ih _ hrest hfinds.1
  exact hfold g.order {} (List.Subset.refl _)
    ⟨List.nodup_nil, fun _ _ h => absurd h List.not_mem_nil⟩

theorem exists_key_ofGraph {i : Fin n} {k : Nat} {fields : List Atom}
    (hk : (ofGraph g (g.atoms keep)).groups.lookup i = some k)
    (hfields : g.atoms keep i = some fields) (hP : P fields) :
    ∃ labels, (ofGraph g (g.atoms keep)).keys[k]? = some (.shared fields labels) ∧
      labels.map some =
        ((g.outReferences i).map (Merge.groupOf g (g.atoms keep))).map (Option.map .group) := by
  obtain ⟨key, hkey, hdescribes⟩ := ofGraph_sound (g.atoms keep) g i k hk
  cases key with
  | alone j =>
    rw [hdescribes.2] at hfields
    cases hfields
  | shared fields' labels =>
    obtain ⟨hfields', hlabels⟩ := hdescribes
    rw [hfields] at hfields'
    cases hfields'
    have hfinished := (ofGraph_settled hg hfounded).finished fields labels
      (List.mem_of_getElem? hkey) hP
    refine ⟨labels, hkey, List.forall₂_eq_eq_eq ▸ ?_⟩
    rw [List.map_map, List.forall₂_map_left_iff, List.forall₂_map_right_iff]
    refine List.forall₂_iff_zip.mpr ⟨hlabels.length_eq, fun {l r} hmem => ?_⟩
    obtain ⟨k', rfl⟩ := hfinished l (List.of_mem_zip hmem).1
    rcases (List.forall₂_iff_zip.mp hlabels).2 hmem with hnone | ⟨k'', hlabel, hr⟩
    · cases hnone
    · cases hlabel
      exact congrArg (Option.map Label.group) hr.symm

end Grouping

namespace Merge

variable {g : Graph n} {keep : Bool} (hg : g.Ordered)

include hg

theorem groupOf_eq_of_references {P : List Atom → Prop} (hfounded : g.Founded keep P) {i j : Fin n}
    (hi : i ∈ g.order) (hj : j ∈ g.order) {fields : List Atom}
    (hfields : g.atoms keep i = some fields) (hfields' : g.atoms keep j = some fields)
    (hP : P fields)
    (hgroups : (g.outReferences i).map (groupOf g (g.atoms keep)) =
      (g.outReferences j).map (groupOf g (g.atoms keep))) :
    groupOf g (g.atoms keep) i = groupOf g (g.atoms keep) j := by
  obtain ⟨k, hk⟩ := Grouping.ofGraph_grouped (g.atoms keep) g hi
  obtain ⟨k', hk'⟩ := Grouping.ofGraph_grouped (g.atoms keep) g hj
  obtain ⟨labels, hkey, hlabels⟩ := Grouping.exists_key_ofGraph hg hfounded hk hfields hP
  obtain ⟨labels', hkey', hlabels'⟩ := Grouping.exists_key_ofGraph hg hfounded hk' hfields' hP
  rw [hgroups, ← hlabels'] at hlabels
  have hsame : labels = labels' := List.map_injective_iff.mpr (Option.some_injective _) hlabels
  subst hsame
  have hkeys : k = k' :=
    (List.getElem?_inj (List.getElem?_eq_some_iff.mp hkey).1
      (Grouping.ofGraph_settled hg hfounded).nodup).mp (hkey.trans hkey'.symm)
  rw [groupOf, groupOf, hk, hk', hkeys]

variable (hacyclic : ∀ i, ¬Relation.TransGen (g.HasPart keep) i i)

include hacyclic

theorem groupOf_eq_of_structurallyEqual {i j : Fin n} (h : g.StructurallyEqual keep i j)
    (hi : i ∈ g.order) (hj : j ∈ g.order) :
    groupOf g (g.atoms keep) i = groupOf g (g.atoms keep) j := by
  induction h with
  | refl i => rfl
  | @alike i j halike hlength _ ih =>
    obtain ⟨fields, hfields, hfields'⟩ := Object.atoms?_eq_of_alike halike
    refine groupOf_eq_of_references hg (Graph.founded_true hacyclic) hi hj hfields hfields'
      trivial (List.forall₂_eq_eq_eq ▸ ?_)
    rw [List.forall₂_map_left_iff, List.forall₂_map_right_iff]
    refine List.forall₂_iff_zip.mpr ⟨hlength, fun {a b} hmem => ?_⟩
    obtain ⟨ha, hb⟩ := List.of_mem_zip hmem
    exact ih (a, b) hmem (hg.closed i hi ha) (hg.closed j hj hb)

/-- The induction is on parts: objects with one representative are the same, or alike with parts
that have one representative each. -/
theorem structurallyEqual_of_representative {i j : Fin n} (hi : i ∈ g.order) (hj : j ∈ g.order)
    (h : (ofGraph g (g.atoms keep)).representative[i] =
      (ofGraph g (g.atoms keep)).representative[j]) : g.StructurallyEqual keep i j := by
  have hm := ofGraph_lawful g (g.atoms keep) hg
  induction i using (Graph.wellFounded_hasPart hacyclic).induction generalizing j with
  | _ i ih =>
    rcases hm.alike i hi j hj h with rfl | ⟨fields, hfields, hfields', htargets⟩
    · exact .refl i
    · have hsame : List.Forall₂ Eq ((ofGraph g (g.atoms keep)).targets i)
          ((ofGraph g (g.atoms keep)).targets j) :=
        htargets ▸ List.forall₂_same.mpr fun _ _ => rfl
      rw [targets, targets, List.forall₂_map_left_iff, List.forall₂_map_right_iff] at hsame
      obtain ⟨hlength, hpairs⟩ := List.forall₂_iff_zip.mp hsame
      refine .alike (Object.alike_of_atoms? hfields hfields') hlength fun pair hmem => ?_
      obtain ⟨ha, hb⟩ := List.of_mem_zip hmem
      have hpart : g.HasPart keep i pair.1 := ⟨hi, by rw [hfields]; rfl, ha⟩
      exact ih pair.1 hpart (hg.closed i hi ha) (hg.closed j hj hb) (hpairs hmem)

end Merge

/-- Where no object that may be merged is part of itself, two objects of a graph have one representative
exactly if they are structurally equal, and it is the one with the lowest index of those that are. -/
theorem same_representative_iff (heap : Heap n) (root : Fin n) (keep : Bool)
    (hacyclic : ∀ i, ¬Relation.TransGen ((Graph.ofRoot heap root).HasPart keep) i i) :
    let g := Graph.ofRoot heap root
    let m := Merge.ofGraph g (g.atoms keep)
    ∀ i ∈ g.order,
      (∀ j ∈ g.order, m.representative[i] = m.representative[j] ↔ g.StructurallyEqual keep i j) ∧
        m.representative[i] ∈ g.order ∧ g.StructurallyEqual keep i m.representative[i] ∧
        ∀ j ∈ g.order, g.StructurallyEqual keep i j → g.index m.representative[i] ≤ g.index j := by
  intro g m i hi
  have hg : g.Ordered := Graph.ofRoot_ordered heap root
  have hm : m.Lawful (g.atoms keep) := Merge.ofGraph_lawful g (g.atoms keep) hg
  have hiff : ∀ j ∈ g.order,
      m.representative[i] = m.representative[j] ↔ g.StructurallyEqual keep i j := by
    intro j hj
    refine ⟨Merge.structurallyEqual_of_representative hg hacyclic hi hj, fun h => ?_⟩
    exact (Merge.representative_eq_iff g (g.atoms keep) hi hj).mpr
      (Merge.groupOf_eq_of_structurallyEqual hg hacyclic h hi hj)
  have hmem := hm.mem_order i hi
  refine ⟨hiff, hmem, (hiff _ hmem).mp (hm.idem i hi).symm, fun j hj hequal => ?_⟩
  rw [(hiff j hj).mpr hequal]
  exact hm.index_le j hj

theorem same_representative_signedZero :
    (∀ i, ¬Relation.TransGen ((Graph.ofRoot signedZeroHeap 0).HasPart true) i i) ∧
      (Graph.ofRoot signedZeroHeap 0).StructurallyEqual true 1 2 ∧
      ¬(Graph.ofRoot signedZeroHeap 0).StructurallyEqual true 1 3 := by
  -- an animation ranks above the easing functions and the root
  have hrank : ∀ i r : Fin 5, (Graph.ofRoot signedZeroHeap 0).HasPart true i r →
      #v[0, 1, 1, 0, 0][r] < #v[0, 1, 1, 0, 0][i] := by
    simp only [Graph.HasPart]
    decide +kernel
  have hdescends : ∀ i r : Fin 5,
      Relation.TransGen ((Graph.ofRoot signedZeroHeap 0).HasPart true) i r →
      #v[0, 1, 1, 0, 0][r] < #v[0, 1, 1, 0, 0][i] := by
    intro i r h
    induction h with
    | single h => exact hrank _ _ h
    | tail _ h ih => exact lt_trans (hrank _ _ h) ih
  have hacyclic : ∀ i, ¬Relation.TransGen ((Graph.ofRoot signedZeroHeap 0).HasPart true) i i :=
    fun i h => lt_irrefl _ (hdescends i i h)
  obtain ⟨hiff, _⟩ :=
    same_representative_iff signedZeroHeap 0 true hacyclic 1 (by decide +kernel)
  exact ⟨hacyclic, (hiff 2 (by decide +kernel)).mp (by decide +kernel),
    fun h => absurd ((hiff 3 (by decide +kernel)).mpr h) (by decide +kernel)⟩

end SceneCompiler
