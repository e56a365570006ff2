import Mathlib.Data.List.Nodup
import SceneCompiler.Proofs.Compile.Construction
import SceneCompiler.Proofs.Naming.Distinct
import SceneCompiler.Proofs.Scene.Faithfulness
import SceneCompiler.Proofs.Text.Order

/-!
# The names in a plan

The retained objects of a plan have names of their own, and only that of the root is `Root`.  Fields
are named for the objects, so their names differ too, and differ from those of the fields that every
source file has.  Methods come in the order of the names.
-/

namespace SceneCompiler

/-! ## Letters -/

theorem toLower_inj {c d : Char} (hc : c.isUpper = true) (hd : d.isUpper = true)
    (h : c.toLower = d.toLower) : c = d := by
  unfold Char.isUpper at hc hd
  unfold Char.toLower at h
  rw [dif_pos (of_decide_eq_true hc), dif_pos (of_decide_eq_true hd)] at h
  simpa [Char.ext_iff] using h

namespace IsName

theorem isAlphanum_of_isUpper {c : Char} (h : c.isUpper = true) : c.isAlphanum = true := by
  unfold Char.isAlphanum Char.isAlpha
  simp [h]

end IsName

theorem Site.toList_fieldName {s : Site} {c : Char} {rest : List Char}
    (hname : s.name.toList = c :: rest) (hc : c.isUpper = true) :
    s.fieldName.toList = '_' :: c.toLower :: rest := by
  have hlower : Text.lowerChar c = [c.toLower] := by
    rw [Text.lowerChar, if_pos (toNat_lt_of_isAlphanum (IsName.isAlphanum_of_isUpper hc))]
  rw [fieldName, hname]
  simp [hlower]

theorem Site.eq_of_fieldName {s t : Site} (hs : IsName s.name) (ht : IsName t.name)
    (h : s.fieldName = t.fieldName) : s.name = t.name := by
  obtain ⟨c, rest, hname, hc, _⟩ := hs
  obtain ⟨d, rest', hname', hd, _⟩ := ht
  have htext := congrArg String.toList h
  rw [toList_fieldName hname hc, toList_fieldName hname' hd, List.cons.injEq,
    List.cons.injEq] at htext
  obtain rfl := toLower_inj hc hd htext.2.1
  rw [← String.toList_inj, hname, hname', htext.2.2]

/-! ## Plans -/

namespace Plan

variable {n : Nat} {m : Merge n} {baseName : Fin n → String} {construct : String} {p : Plan n}

theorem inlinePath_eq_ok {p p' : Plan n} {r : Fin n} (h : inlinePath construct p r = .ok p') :
    p'.outlook = p.outlook ∧ ∀ i : Fin n, p'.sites[i].name = p.sites[i].name := by
  rw [inlinePath] at h
  split at h
  · cases h
    exact ⟨rfl, fun _ => rfl⟩
  · obtain ⟨⟨access, calls⟩, _, h⟩ := bind_eq_ok_iff.mp h
    cases h
    refine ⟨rfl, fun i => ?_⟩
    by_cases hi : r = i
    · subst hi
      simp
    · simp [Fin.val_ne_of_ne hi]

theorem inline_inlinePath {p p' : Plan n} {r i : Fin n} (h : inlinePath construct p r = .ok p')
    (hi : p.outlook.inlineSource? i = none) : p'.sites[i].inline = p.sites[i].inline := by
  rw [inlinePath] at h
  split at h
  · cases h
    rfl
  · rename_i source hsource
    obtain ⟨⟨access, calls⟩, _, h⟩ := bind_eq_ok_iff.mp h
    cases h
    have hne : r ≠ i := by
      rintro rfl
      rw [hi] at hsource
      cases hsource
    simp [Fin.val_ne_of_ne hne]

theorem foldlM_inlinePath_keeps {P : Plan n → Prop}
    (hstep : ∀ p r p', inlinePath construct p r = .ok p' → P p → P p') {rs : List (Fin n)}
    {p p' : Plan n} (h : rs.foldlM (inlinePath construct) p = .ok p') (hp : P p) : P p' := by
  induction rs generalizing p with
  | nil =>
    cases h
    exact hp
  | cons r rs ih =>
    rw [List.foldlM_cons] at h
    obtain ⟨p₁, hp₁, h⟩ := bind_eq_ok_iff.mp h
    exact ih h (hstep p r p₁ hp₁ hp)

theorem foldlM_inlinePath_eq_ok {rs : List (Fin n)} {p p' : Plan n}
    (h : rs.foldlM (inlinePath construct) p = .ok p') :
    p'.outlook = p.outlook ∧ (∀ i : Fin n, p'.sites[i].name = p.sites[i].name) ∧
      ∀ i : Fin n, p.outlook.inlineSource? i = none → p'.sites[i].inline = p.sites[i].inline := by
  refine foldlM_inlinePath_keeps (P := fun q => q.outlook = p.outlook ∧
    (∀ i : Fin n, q.sites[i].name = p.sites[i].name) ∧ ∀ i : Fin n,
      p.outlook.inlineSource? i = none → q.sites[i].inline = p.sites[i].inline)
    (fun q r q' hq hkept => ?_) h ⟨rfl, fun _ => rfl, fun _ _ => rfl⟩
  obtain ⟨houtlook, hname⟩ := inlinePath_eq_ok hq
  obtain ⟨hsame, hnames, hinlines⟩ := hkept
  refine ⟨houtlook.trans hsame, fun i => (hname i).trans (hnames i), fun i hi => ?_⟩
  rw [inline_inlinePath hq (hsame ▸ hi), hinlines i hi]

theorem bound_of_named (h : named m baseName construct = .ok p) :
    ∀ i ∈ m.bound, i ∈ m.graph.order := by
  by_contra hout
  simp only [not_forall] at hout
  obtain ⟨i, hi, hout⟩ := hout
  obtain ⟨type, herror⟩ := named_error baseName construct ⟨i, hi, hout⟩
  rw [h] at herror
  cases herror

theorem named_eq_ok (h : named m baseName construct = .ok p) :
    p.outlook = m.outlook ∧ (∀ i ∈ m.bound, i ∈ m.graph.order) ∧
      ∀ r : Fin n, p.sites[r].name = ((m.outlook.names baseName).lookup r).getD "" := by
  have hfound := bound_of_named h
  rw [named, Merge.ofMerge_eq_outlook m hfound] at h
  obtain ⟨houtlook, hname, _⟩ := foldlM_inlinePath_eq_ok h
  refine ⟨houtlook, hfound, fun r => ?_⟩
  rw [hname]
  simp [Outlook.site]

theorem inline_of_named (h : named m baseName construct = .ok p) {i : Fin n}
    (hi : m.outlook.inlineSource? i = none) : p.sites[i].inline = none := by
  rw [named, Merge.ofMerge_eq_outlook m (bound_of_named h)] at h
  rw [(foldlM_inlinePath_eq_ok h).2.2 i hi]
  simp [Outlook.site]

theorem exists_factories_of_write {o : Options} {c : Compilation n}
    (h : p.write o (p.method o) = .ok c) :
    ∃ factories made,
      (p.factories ⟨o.durationMs, o.setComments⟩).run p.calls = .ok (factories, made) ∧
        c = ⟨p, made, Program.code ⟨p, factories⟩ o⟩ := by
  rw [write_eq] at h
  split at h
  · cases hrun : (p.factories ⟨o.durationMs, o.setComments⟩).run p.calls with
    | error fault =>
      rw [hrun] at h
      cases h
    | ok result =>
      rw [hrun] at h
      cases h
      exact ⟨_, _, rfl, rfl⟩
  · cases h

theorem plan_of_write {o : Options} {c : Compilation n} (h : p.write o (p.method o) = .ok c) :
    c.plan = p := by
  obtain ⟨_, _, _, rfl⟩ := exists_factories_of_write h
  rfl

end Plan

/-! ## The names of an outlook -/

theorem exists_lookup_zip {α β : Type} [BEq α] [LawfulBEq α] {as : List α} {bs : List β}
    (hlength : as.length = bs.length) {a : α} (ha : a ∈ as) :
    ∃ (k : Nat) (b : β), as[k]? = some a ∧ bs[k]? = some b ∧ (as.zip bs).lookup a = some b := by
  induction as generalizing bs with
  | nil => cases ha
  | cons first as ih =>
    cases bs with
    | nil => cases hlength
    | cons b bs =>
      by_cases hfirst : a = first
      · exact ⟨0, b, by simp [hfirst], by simp, by simp [hfirst]⟩
      · obtain ⟨k, b', hk, hb, hlookup⟩ :=
          ih (Nat.succ.inj hlength) (List.mem_of_ne_of_mem hfirst ha)
        refine ⟨k + 1, b', by simpa using hk, by simpa using hb, ?_⟩
        have hne : (a == first) = false := by simpa using hfirst
        rw [List.zip_cons_cons, List.lookup_cons, hne]
        exact hlookup

namespace Outlook

variable {n : Nat} (o : Outlook n) {baseName : Fin n → String}

def nameOf (baseName : Fin n → String) (r : Fin n) : String :=
  ((o.names baseName).lookup r).getD ""

theorem nameOf_root : o.nameOf baseName o.merge.graph.root = "Root" := by
  simp [nameOf, names]

theorem exists_nameOf (baseName : Fin n → String) {r : Fin n} (hr : r ∈ o.retained)
    (hroot : r ≠ o.merge.graph.root) :
    ∃ k : Nat, o.retained[k]? = some r ∧
      (Naming.distinguish (o.retained.map baseName))[k]? = some (o.nameOf baseName r) := by
  have hlength : o.retained.length = (Naming.distinguish (o.retained.map baseName)).length := by
    simp [Naming.distinguish, Naming.length_addOrdinals]
  obtain ⟨k, name, hk, hname, hlookup⟩ := exists_lookup_zip hlength hr
  have hne : (r == o.merge.graph.root) = false := by simpa using hroot
  refine ⟨k, hk, ?_⟩
  rw [hname, nameOf, names, List.lookup_cons, hne, hlookup]
  rfl

variable (hbase : ∀ r, Naming.IsBase (baseName r))

include hbase

theorem exists_tagged {r : Fin n} (hr : r ∈ o.retained) (hroot : r ≠ o.merge.graph.root) :
    ∃ base, Naming.IsBase base ∧ ∃ all k, o.nameOf baseName r = Naming.tagged all base k := by
  obtain ⟨k, _, hname⟩ := o.exists_nameOf baseName hr hroot
  obtain ⟨base, hmem, ordinal, _, heq⟩ :=
    Naming.exists_of_mem_addOrdinals (List.mem_of_getElem? hname)
  obtain ⟨r', _, rfl⟩ := List.mem_map.mp hmem
  exact ⟨_, hbase r', _, ordinal, heq⟩

theorem isName_nameOf {r : Fin n} (hr : r ∈ o.retained) : IsName (o.nameOf baseName r) := by
  by_cases hroot : r = o.merge.graph.root
  · rw [hroot, nameOf_root]
    exact isName_of_segment (by decide) rfl
  · obtain ⟨base, h, all, k, heq⟩ := o.exists_tagged hbase hr hroot
    rw [heq]
    exact h.isName_tagged all k

theorem nameOf_ne {r : Fin n} (hr : r ∈ o.retained) {word : String} (hword : IsSegment word.toList)
    (hnot : word ∉ Naming.words ++ Naming.describedWords)
    (hroot : r = o.merge.graph.root → word ≠ "Root") : o.nameOf baseName r ≠ word := by
  by_cases h : r = o.merge.graph.root
  · rw [h, nameOf_root]
    exact (hroot h).symm
  · obtain ⟨base, hbase, all, k, heq⟩ := o.exists_tagged hbase hr h
    rw [heq]
    exact hbase.tagged_ne all k hword hnot

theorem nameOf_eq_root_iff {r : Fin n} (hr : r ∈ o.retained) :
    o.nameOf baseName r = "Root" ↔ r = o.merge.graph.root := by
  constructor
  · intro h
    by_contra hroot
    exact o.nameOf_ne hbase hr (by decide) (by decide) (fun h => absurd h hroot) h
  · rintro rfl
    exact o.nameOf_root

theorem nameOf_inj {r s : Fin n} (hr : r ∈ o.retained) (hs : s ∈ o.retained)
    (h : o.nameOf baseName r = o.nameOf baseName s) : r = s := by
  by_cases hroot : r = o.merge.graph.root
  · rw [hroot, nameOf_root] at h
    rw [hroot, (o.nameOf_eq_root_iff hbase hs).mp h.symm]
  · have hroot' : s ≠ o.merge.graph.root := by
      rintro rfl
      rw [nameOf_root] at h
      exact hroot ((o.nameOf_eq_root_iff hbase hr).mp h)
    obtain ⟨j, hj, hname⟩ := o.exists_nameOf baseName hr hroot
    obtain ⟨k, hk, hname'⟩ := o.exists_nameOf baseName hs hroot'
    have hnodup : (Naming.distinguish (o.retained.map baseName)).Nodup := by
      refine Naming.nodup_addOrdinals (fun name hmem => ?_) (by simp)
      obtain ⟨r, _, rfl⟩ := List.mem_map.mp hmem
      exact hbase r
    obtain rfl := (List.getElem?_inj (List.getElem?_eq_some_iff.mp hname).1 hnodup).mp
      (hname.trans (h ▸ hname'.symm))
    exact Option.some.inj (hj.symm.trans hk)

end Outlook

/-! ## The names in a plan -/

namespace Plan

def commonFields : List String :=
  [CSharp.compositorField, CSharp.reusableField, CSharp.rootVisualField]

structure WellNamed {n : Nat} (p : Plan n) : Prop where
  legal : ∀ r ∈ p.outlook.retained, IsName p.sites[r].name
  distinct : ∀ r ∈ p.outlook.retained, ∀ s ∈ p.outlook.retained,
    p.sites[r].name = p.sites[s].name → r = s
  root_retained : p.root ∈ p.outlook.retained
  root : ∀ r ∈ p.outlook.retained, p.sites[r].name = "Root" ↔ r = p.root
  fields_distinct : ∀ r ∈ p.outlook.retained, ∀ s ∈ p.outlook.retained,
    p.sites[r].fieldName = p.sites[s].fieldName → r = s
  fields_free : ∀ r ∈ p.outlook.retained, p.sites[r].fieldName ∉ commonFields
  declared : (p.withField.map fun r => p.sites[r].fieldName).Nodup
  factories_retained : p.withFactory ⊆ p.outlook.retained
  ascending : p.withFactory.Pairwise fun r s =>
    List.Lex (· < ·) (Text.units p.sites[r].name) (Text.units p.sites[s].name)

variable {n : Nat} {m : Merge n} {p : Plan n} {baseName : Fin n → String} {construct : String}

def reservedWords : List String :=
  ["C", "ReusableExpressionAnimation", "RootVisual"]

theorem reserved_spec {word : String} (h : word ∈ reservedWords) :
    IsSegment word.toList ∧ IsName word ∧ word ∉ Naming.words ++ Naming.describedWords ∧
      word ≠ "Root" := by
  have hwords : ∀ word ∈ reservedWords, IsSegment word.toList ∧
      (word.toList.headD 'a').isUpper = true ∧ word ∉ Naming.words ++ Naming.describedWords ∧
      word ≠ "Root" := by decide
  obtain ⟨hsegment, hupper, hnot, hroot⟩ := hwords word h
  exact ⟨hsegment, isName_of_segment hsegment hupper, hnot, hroot⟩

theorem fieldName_not_common {s : Site} (h : IsName s.name)
    (hnot : ∀ word ∈ reservedWords, s.name ≠ word) : s.fieldName ∉ commonFields := by
  have hcommon : ∀ field ∈ commonFields, ∃ word ∈ reservedWords,
      field = Site.fieldName ⟨0, "", word, true, false, none⟩ := by decide
  intro hmem
  obtain ⟨word, hword, hfield⟩ := hcommon _ hmem
  exact hnot word hword (Site.eq_of_fieldName h (reserved_spec hword).2.1 hfield)

theorem pairwise_withFactory (hnodup : p.merge.representatives.Nodup)
    (hdistinct : ∀ r ∈ p.withFactory, ∀ s ∈ p.withFactory,
      p.sites[r].name = p.sites[s].name → r = s) :
    p.withFactory.Pairwise fun r s =>
      List.Lex (· < ·) (Text.units p.sites[r].name) (Text.units p.sites[s].name) := by
  have hle : p.withFactory.Pairwise fun r s =>
      Text.le p.sites[r].name p.sites[s].name = true := by
    apply List.pairwise_mergeSort
    · exact fun _ _ _ => Text.unitsLe_trans
    · exact fun _ _ => Text.unitsLe_total _ _
  have hne : p.withFactory.Pairwise (· ≠ ·) :=
    (List.mergeSort_perm _ _).nodup_iff.mpr (hnodup.filter _)
  refine (hle.and hne).imp_of_mem fun hr hs ⟨hle, hne⟩ => Text.lex_of_unitsLe hle fun hunits => ?_
  exact hne (hdistinct _ hr _ hs (Text.units_injective hunits))

theorem wellNamed {keep : Bool} (hm : m.Lawful (m.graph.atoms keep)) (hk : m.graph.Kinded)
    (hbase : ∀ r, Naming.IsBase (baseName r)) (h : named m baseName construct = .ok p) :
    p.WellNamed := by
  obtain ⟨houtlook, hfound, hnames⟩ := named_eq_ok h
  obtain ⟨p', hp', hfollows⟩ := named_follows hm hk baseName construct hfound
  cases h.symm.trans hp'
  have hmerge := hfollows.merge
  have hroot : p.root = m.graph.root := by
    simp only [Plan.root, hmerge]
    exact Merge.representative_root hm hk
  have hretained (r : Fin n) :
      r ∈ m.outlook.retained ↔ r ∈ m.representatives ∧ m.transient r = false := by
    simp [Outlook.retained, Merge.outlook]
  have hname (r : Fin n) : p.sites[r].name = m.outlook.nameOf baseName r := hnames r
  have hlegal : ∀ r ∈ m.outlook.retained, IsName p.sites[r].name := fun r hr =>
    hname r ▸ m.outlook.isName_nameOf hbase hr
  have hdistinct : ∀ r ∈ m.outlook.retained, ∀ s ∈ m.outlook.retained,
      p.sites[r].name = p.sites[s].name → r = s := fun r hr s hs heq =>
    m.outlook.nameOf_inj hbase hr hs (by rwa [hname, hname] at heq)
  have hfields : ∀ r ∈ m.outlook.retained, ∀ s ∈ m.outlook.retained,
      p.sites[r].fieldName = p.sites[s].fieldName → r = s := fun r hr s hs heq =>
    hdistinct r hr s hs (Site.eq_of_fieldName (hlegal r hr) (hlegal s hs) heq)
  have hfactories : p.withFactory ⊆ m.outlook.retained := fun r hr => by
    obtain ⟨hrep, htransient, _⟩ := hfollows.mem_withFactory.mp hr
    exact (hretained r).mpr ⟨hrep, htransient⟩
  have hascending := pairwise_withFactory (p := p) (hmerge ▸ hm.nodup_representatives)
    (fun r hr s hs => hdistinct r (hfactories hr) s (hfactories hs))
  refine ⟨houtlook ▸ hlegal, houtlook ▸ hdistinct, ?_, fun r hr => ?_, houtlook ▸ hfields,
    fun r hr => ?_, ?_, houtlook ▸ hfactories, hascending⟩
  · rw [houtlook, hroot]
    refine (hretained _).mpr ⟨Merge.root_mem_representatives hm hk, ?_⟩
    cases htransient : m.transient m.graph.root with
    | false => rfl
    | true => exact absurd rfl (Merge.not_expression_root hk (Merge.transient_spec htransient).1)
  · rw [houtlook] at hr
    rw [hname, hroot]
    exact m.outlook.nameOf_eq_root_iff hbase hr
  · rw [houtlook] at hr
    refine fieldName_not_common (hlegal r hr) fun word hword => ?_
    obtain ⟨hsegment, _, hnot, hne⟩ := reserved_spec hword
    exact hname r ▸ m.outlook.nameOf_ne hbase hr hsegment hnot fun _ => hne
  · have hnodup : p.withFactory.Nodup := by
      rw [withFactory, (List.mergeSort_perm _ _).nodup_iff, hmerge]
      exact hm.nodup_representatives.filter _
    refine (hnodup.filter _).map_on fun r hr s hs heq => ?_
    exact hfields r (hfactories (List.mem_of_mem_filter hr)) s
      (hfactories (List.mem_of_mem_filter hs)) heq

end Plan

/-! ## Colors of a loaded scene -/

theorem Object.colors_map {ρ σ : Type} (φ : ρ → σ) (o : Object ρ) :
    (o.map φ).colors = o.colors := by
  cases o with
  | composition base variant =>
    cases variant <;> simp [Object.map, Variant.map, Object.colors, Frames.map, KeyFrame.map,
      List.filterMap_map]
  | path description r => rfl
  | canvas description geometry => rfl

theorem exists_color {ms : Members} {o : Object String} (h : DescribesObject ms o) {c : Color}
    (hc : c ∈ o.colors) : ∃ j, Format.color j c := by
  obtain ⟨_, h⟩ := h
  cases o with
  | path description r => cases hc
  | canvas description geometry => cases hc
  | composition base variant =>
    cases variant with
    | colorBrush color =>
      obtain ⟨j, _, hj⟩ := h.2
      cases List.mem_singleton.mp hc
      exact ⟨j, hj⟩
    | colorAnimation parameters frames =>
      obtain ⟨frame, hframe, hvalue⟩ := List.mem_filterMap.mp hc
      rcases h.2.2.keyFrames with ⟨j, _, items, rfl, hitems⟩ | ⟨_, hnone⟩
      · obtain ⟨item, _, ms, _, _, hframe, _⟩ := exists_of_forall₂ hitems hframe
        cases hv : frame.value with
        | value v =>
          rw [hv] at hframe hvalue
          obtain ⟨⟨j, _, hj⟩, _⟩ := hframe
          cases hvalue
          exact ⟨j, hj⟩
        | expression text =>
          rw [hv] at hvalue
          cases hvalue
      · rw [hnone] at hframe
        cases hframe
    | _ => cases hc

namespace Scene

variable {json : Option Json} {path : String} {scene : Scene}

theorem isSegment_color (hload : Scene.load json path = .ok scene) (i : Fin scene.size) :
    ∀ c ∈ scene.heap[i].colors, IsSegment c.name.toList := by
  intro c hc
  obtain ⟨d, place, hread, hrealizes, _⟩ := exists_document hload
  obtain ⟨ms, entries, _, hd⟩ := Document.read_eq_ok_iff.mp hread
  obtain ⟨id, o, ho, _, hobject⟩ := hrealizes.exists_record i
  rw [hobject, Object.colors_map] at hc
  obtain ⟨entry, _, _, fields, _, hfields⟩ :=
    exists_of_forall₂ hd.records (mem_of_lookup ho)
  obtain ⟨j, hj⟩ := exists_color hfields hc
  exact Color.isSegment_name hj

end Scene

/--
In every plan that is drawn for a loaded scene the names are well formed: they are identifiers, they
tell the retained objects and the fields apart, and only the root is named `Root`.  A compilation
follows that plan and writes its factories in strictly ascending order of their names.
-/
theorem plan_wellNamed {json : Option Json} {path : String} {scene : Scene}
    (hload : Scene.load json path = .ok scene) {o : Options} {p : Plan scene.size}
    (hplan : Plan.ofMerge ((Graph.ofRoot scene.heap scene.root).merged o.setComments)
      o.dialect.newOperator = .ok p) :
    p.WellNamed ∧ ∀ c, compile scene.heap scene.root o = .ok c →
      c.plan = p ∧ ∃ program, p.program ⟨o.durationMs, o.setComments⟩ = .ok program ∧
        c.code = program.code o ∧ program.factories.map Prod.fst = p.withFactory := by
  have hg := Graph.ofRoot_ordered scene.heap scene.root
  have hk := Scene.load_kinded hload
  have hm := Merge.merged_lawful hg o.setComments
  refine ⟨Plan.wellNamed hm hk (fun r => ?_) hplan, fun c hc => ?_⟩
  · exact Naming.isBase_baseName (Scene.isSegment_color hload r) (Scene.isSegment_color hload)
  · obtain ⟨program, h⟩ := Graph.exists_writes hg hk hc
    have hcompiled := hc
    simp only [compile, Graph.compile, bind_eq_ok_iff] at hcompiled
    obtain ⟨q, hq, hwrite⟩ := hcompiled
    cases hplan.symm.trans hq
    obtain rfl := Plan.plan_of_write hwrite
    exact ⟨rfl, program, h.answered, h.code, h.map_fst_factories⟩

/-- Two shapes that would have one name, a brush that is kept, and numbers with a sign, with a point and
with many digits. -/
def crowdedDocument : Option Json :=
  Scene.documentOf [
    ("root", .object [("type", .string "ShapeVisual"),
      ("shapes", .array [.string "s", .string "t"])]),
    ("s", .object [("type", .string "CompositionSpriteShape"), ("fillBrush", .string "b"),
      ("geometry", .string "r")]),
    ("t", .object [("type", .string "CompositionSpriteShape"), ("fillBrush", .string "b"),
      ("strokeBrush", .string "c"), ("geometry", .string "e")]),
    ("b", .object [("type", .string "CompositionColorBrush"), ("color", .string "#FF000000")]),
    ("c", .object [("type", .string "CompositionColorBrush"), ("color", .string "#80102030")]),
    ("r", .object [("type", .string "CompositionRectangleGeometry"),
      ("size", .object [("x", .number (Number.ofRatio true 5 2)), ("y", .number 3)])]),
    ("e", .object [("type", .string "CompositionEllipseGeometry"),
      ("radius", .object [("x", .number (Number.ofNat (Nat.pow 10 22))), ("y", .number 1)])])]

theorem plan_wellNamed_crowded :
    ∃ scene, Scene.load crowdedDocument "scene.json" = .ok scene ∧
      ∃ p, Plan.ofMerge ((Graph.ofRoot scene.heap scene.root).merged false) "new" = .ok p ∧
        (p.outlook.retained.map fun r => (p.sites[r].name, p.sites[r].stored)) =
          [("Root", false), ("SpriteShape_000", false), ("ColorBrush_Black", true),
           ("Rectangle_m2p5x3", false), ("SpriteShape_001", false),
           ("Ellipse_10000000000000000000000x1", false), ("ColorBrush_80102030", false)] ∧
        p.WellNamed := by
  obtain ⟨scene, hload, hscene⟩ :
      ∃ scene, Scene.load crowdedDocument "scene.json" = .ok scene ∧
        (Plan.ofMerge ((Graph.ofRoot scene.heap scene.root).merged false) "new").toOption.map
          (fun p => p.outlook.retained.map fun r => (p.sites[r].name, p.sites[r].stored)) =
          some [("Root", false), ("SpriteShape_000", false), ("ColorBrush_Black", true),
            ("Rectangle_m2p5x3", false), ("SpriteShape_001", false),
            ("Ellipse_10000000000000000000000x1", false), ("ColorBrush_80102030", false)] :=
    Scene.exists_of_load (by decide +kernel)
  cases hplan : Plan.ofMerge ((Graph.ofRoot scene.heap scene.root).merged false) "new" with
  | error fault =>
    rw [hplan] at hscene
    cases hscene
  | ok p =>
    rw [hplan] at hscene
    let o : Options := { className := "Scene", width := 100, height := 100, durationMs := 1000 }
    exact ⟨scene, hload, p, hplan, Option.some.inj hscene,
      (plan_wellNamed (o := o) hload hplan).1⟩

end SceneCompiler
