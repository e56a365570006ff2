import Mathlib.Data.List.Perm.Subperm
import SceneCompiler.Proofs.Document.Resolution
import SceneCompiler.Proofs.Model.Lookup

/-!
# Linking

Linking reports nothing exactly when every id that a record mentions names a record of the kind asked
for, and no record is needed to create itself.  Then every record has one object, which is the record
with each id replaced by the address of its object.
-/

namespace SceneCompiler

namespace Linking

variable {records : Records} {creating : List String} {current : List Fill}

/-! ## Looking up a record -/

theorem admits_foldl_add {ρ : Type} (d : Demand) (o : Object ρ) (contents : List (Content ρ)) :
    d.admits (contents.foldl Object.add o) = d.admits o := by
  induction contents generalizing o with
  | nil => rfl
  | cons c rest ih => simp [ih]

theorem Clean.exists_object {s : Linking} (hs : Clean records current s) {id : String} {k : Nat}
    (h : (id, some k) ∈ s.created) :
    ∃ o object, records.lookup id = some o ∧ s.objects[k]? = some object ∧
      ∀ d : Demand, d.admits object = d.admits o := by
  obtain ⟨_, o, _, ho⟩ := hs.found h
  obtain ⟨done, _, _, _, _, hobject⟩ := hs.built id k o h ho
  exact ⟨o, _, ho, hobject _ s.agrees_addresses, by simp [admits_foldl_add]⟩

theorem demand_missing (mention : Mention) {k : Nat} {s : Linking} (h : s.objects[k]? = none) :
    demand mention (some k) s = (none, s) := by
  simp only [demand, bind_apply, get_apply, h, pure_apply]

theorem demand_admitted {mention : Mention} {k : Nat} {s : Linking} {o : Object Nat}
    (h : s.objects[k]? = some o) (hadmits : mention.demand.admits o = true) :
    demand mention (some k) s = (some k, s) := by
  simp only [demand, bind_apply, get_apply, h, hadmits, if_true, pure_apply]

theorem demand_refused {mention : Mention} {k : Nat} {s : Linking} {o : Object Nat}
    (h : s.objects[k]? = some o) (hadmits : mention.demand.admits o ≠ true) :
    ∃ message, demand mention (some k) s =
      (none, (report mention.path ("Expected " ++ message) s).2) := by
  simp only [demand, bind_apply, get_apply, h, hadmits, String.append_assoc]
  exact ⟨_, rfl⟩

theorem demand_spec (mention : Mention) (found : Option Nat) {s : Linking}
    (hs : Tidy records current s)
    (hfound : s.issues = [] → ∃ k, found = some k ∧ (mention.id, some k) ∈ s.created) :
    Step records creating current s (demand mention found s).2 ∧
      ((demand mention found s).2.issues = [] →
        Reached records (demand mention found s).2 (mention.demand, mention.id) ∧
        ∀ A, (demand mention found s).2.Agrees A →
          (demand mention found s).1 = some (A mention.id)) ∧
      (Holds records (mention.demand, mention.id) → s.issues = [] →
        (demand mention found s).2.issues = []) := by
  cases found with
  | none =>
    refine ⟨.refl s, fun hissues => ?_, fun _ hissues => hissues⟩
    obtain ⟨k, hk, _⟩ := hfound hissues
    cases hk
  | some k =>
    have hobject (hissues : s.issues = []) : (mention.id, some k) ∈ s.created ∧
        ∃ o object, records.lookup mention.id = some o ∧ s.objects[k]? = some object ∧
          ∀ d : Demand, d.admits object = d.admits o := by
      obtain ⟨k', hk', hmem⟩ := hfound hissues
      cases hk'
      exact ⟨hmem, (hs hissues).exists_object hmem⟩
    cases hget : s.objects[k]? with
    | none =>
      rw [demand_missing mention hget]
      refine ⟨.refl s, fun hissues => ?_, fun _ hissues => hissues⟩
      obtain ⟨_, _, _, _, hsome, _⟩ := hobject hissues
      rw [hget] at hsome
      cases hsome
    | some object =>
      have hkind (hissues : s.issues = []) : (mention.id, some k) ∈ s.created ∧
          ∃ o, records.lookup mention.id = some o ∧
            mention.demand.admits object = mention.demand.admits o := by
        obtain ⟨hmem, o, object', ho, hobject', hadmits⟩ := hobject hissues
        rw [hget, Option.some.injEq] at hobject'
        exact ⟨hmem, o, ho, hobject' ▸ hadmits _⟩
      by_cases hadmits : mention.demand.admits object = true
      · rw [demand_admitted hget hadmits]
        refine ⟨.refl s, fun hissues => ?_, fun _ hissues => hissues⟩
        obtain ⟨hmem, o, ho, heq⟩ := hkind hissues
        refine ⟨⟨⟨o, ho, heq.symm.trans hadmits⟩, List.mem_map_of_mem hmem⟩, fun A hA => ?_⟩
        rw [hA _ _ ((hs hissues).lookup hmem)]
      · obtain ⟨message, hrefused⟩ := demand_refused hget hadmits
        rw [hrefused]
        refine ⟨step_report s _ _, fun hissues => ?_, fun hholds hissues => ?_⟩
        · exact absurd hissues (issues_report_ne s _ _)
        · obtain ⟨_, o, ho, heq⟩ := hkind hissues
          obtain ⟨o', ho', hadmits'⟩ := hholds
          rw [ho, Option.some.injEq] at ho'
          rw [heq, ho'] at hadmits
          exact absurd hadmits' hadmits

theorem uncreated_cons (r : String × Object String) (rest : Records)
    (created : List (String × Option Nat)) :
    uncreated (r :: rest) created =
      (if (created.lookup r.1).isNone then r.2.contents.length else 0) +
        uncreated rest created := by
  simp only [uncreated, List.filter_cons]
  split <;> simp

theorem uncreated_append_le (created more : List (String × Option Nat)) :
    uncreated records (created ++ more) ≤ uncreated records created := by
  induction records with
  | nil => exact Nat.le_refl _
  | cons r rest ih =>
    rw [uncreated_cons, uncreated_cons, List.lookup_append]
    cases created.lookup r.1 with
    | none =>
      cases more.lookup r.1 <;> simp <;> omega
    | some b => simpa using ih

theorem uncreated_create {created : List (String × Option Nat)} {id : String} {o : Object String}
    (found : Option Nat) (hnew : created.lookup id = none) (ho : records.lookup id = some o) :
    uncreated records (created ++ [(id, found)]) + o.contents.length ≤
      uncreated records created := by
  induction records with
  | nil => simp at ho
  | cons r rest ih =>
    rw [List.lookup_cons] at ho
    rw [uncreated_cons, uncreated_cons, List.lookup_append]
    by_cases hid : id = r.1
    · subst hid
      simp only [beq_self_eq_true, Option.some.injEq] at ho
      subst ho
      have hle : uncreated rest (created ++ [(r.1, found)]) ≤ uncreated rest created :=
        uncreated_append_le created [(r.1, found)]
      simp only [hnew, List.lookup_cons_self, Option.none_or, Option.isNone_some,
        Bool.false_eq_true, if_false, Option.isNone_none, if_true]
      omega
    · rw [beq_false_of_ne hid] at ho
      have hrest := ih ho
      have hother : [(id, found)].lookup r.1 = none := by
        simp [List.lookup_cons, beq_false_of_ne (Ne.symm hid)]
      rw [hother, Option.or_none]
      omega

theorem split_concat {α : Type} {xs before after : List α} {x y : α}
    (h : xs ++ [x] = before ++ y :: after) :
    (xs = before ∧ x = y) ∨ ∃ after', xs = before ++ y :: after' := by
  rcases List.eq_nil_or_concat after with rfl | ⟨init, last, rfl⟩
  · left
    simpa using List.append_inj' h rfl
  · right
    have hconcat : xs ++ [x] = (before ++ y :: init) ++ [last] := by simpa using h
    exact ⟨init, (List.append_inj' hconcat rfl).1⟩

theorem Clean.address_lt {s : Linking} (hs : Clean records current s) {id : String} {k : Nat}
    (h : (id, some k) ∈ s.created) : k < s.objects.length := by
  obtain ⟨before, after, hsplit⟩ := List.append_of_mem h
  obtain ⟨hk, _⟩ := hs.placed before id (some k) after hsplit
  rw [hs.size, hsplit, Option.some.inj hk]
  simp

theorem filter_target_map (path : String) (k n : Nat) (contents : List (Content String)) :
    ((contents.map (Fill.mk path n)).filter fun f => f.target == k) =
      if n = k then contents.map (Fill.mk path n) else [] := by
  split
  next h => simp [List.filter_eq_self, h]
  next h => simp [List.filter_eq_nil_iff, h]

def allocated (s : Linking) (id : String) (o : Object String) (object : Object Nat) : Linking :=
  { s with
    created := s.created ++ [(id, some s.objects.length)]
    objects := s.objects ++ [object]
    pending := s.pending ++ o.contents.map (Fill.mk (placeOf id) s.objects.length) }

theorem Clean.allocated {s : Linking} (hs : Clean records current s) {id : String}
    {o : Object String} {object : Object Nat} (hnew : s.created.lookup id = none)
    (ho : records.lookup id = some o)
    (hreached : ∀ part ∈ o.shell.mentions, Reached records s part)
    (hobject : ∀ A, s.Agrees A → object = o.shell.map A) :
    Clean records current (s.allocated id o object) := by
  have hkey : id ∉ s.created.map Prod.fst := by
    intro hmem
    obtain ⟨e, he, rfl⟩ := List.mem_map.mp hmem
    simpa using List.lookup_eq_none_iff.mp hnew e he
  have hold (A : String → Nat) (hA : (s.allocated id o object).Agrees A) : s.Agrees A :=
    fun a k hk => hA a k (by simp [Linking.allocated, List.lookup_append, hk])
  constructor
  · simp only [Linking.allocated, List.map_append, List.map_cons, List.map_nil]
    refine List.nodup_append.mpr ⟨hs.nodup, by simp, fun a ha b hb => ?_⟩
    rw [List.mem_singleton.mp hb]
    exact fun h => hkey (h ▸ ha)
  · intro before a found after hsplit
    rcases split_concat hsplit with ⟨rfl, hlast⟩ | ⟨after', hbefore⟩
    · cases hlast
      refine ⟨by rw [hs.size], o, ho, fun r hr => ?_⟩
      rw [← o.map_snd_mentions_shell] at hr
      obtain ⟨part, hpart, rfl⟩ := List.mem_map.mp hr
      exact (hreached part hpart).2
    · exact hs.placed before a found after' hbefore
  · simp [Linking.allocated, hs.size]
  · intro f hf
    simp only [Linking.allocated, List.length_append, List.length_singleton, ← List.append_assoc,
      List.mem_append (t := o.contents.map _)] at hf ⊢
    rcases hf with hf | hf
    · have hlt := hs.targets f hf
      omega
    · obtain ⟨c, _, rfl⟩ := List.mem_map.mp hf
      exact Nat.lt_succ_self _
  · intro a k o' hk ho'
    simp only [Linking.allocated, List.mem_append, List.mem_singleton, Prod.mk.injEq,
      Option.some.injEq] at hk
    simp only [Linking.allocated, ← List.append_assoc]
    rw [List.filter_append, filter_target_map]
    rcases hk with hk | ⟨rfl, rfl⟩
    · have hlt := hs.address_lt hk
      obtain ⟨done, rest, hcontents, hpending, hholds, hbuilt⟩ := hs.built a k o' hk ho'
      refine ⟨done, rest, hcontents, ?_, hholds, fun A hA => ?_⟩
      · rw [hpending, if_neg (by omega), List.append_nil]
      · rw [List.getElem?_append_left hlt]
        exact hbuilt A (hold A hA)
    · rw [ho, Option.some.injEq] at ho'
      subst ho'
      refine ⟨[], o.contents, rfl, ?_, ?_, fun A hA => ?_⟩
      · rw [if_pos rfl, List.filter_eq_nil_iff.mpr, List.nil_append]
        intro f hf
        have hlt := hs.targets f hf
        simp only [beq_iff_eq]
        omega
      · simpa using fun part hpart => (hreached part hpart).1
      · simpa using hobject A (hold A hA)

theorem weight_allocated {s : Linking} {id : String} {o : Object String} (object : Object Nat)
    (hnew : s.created.lookup id = none) (ho : records.lookup id = some o) :
    (s.allocated id o object).weight records ≤ s.weight records := by
  have hle := uncreated_create (some s.objects.length) hnew ho
  simp only [Linking.allocated, weight, List.length_append, List.length_map]
  omega

theorem lookup_concat_of_ne {β : Type} {created : List (String × β)} {id a : String} {b : β}
    (hne : a ≠ id) : (created ++ [(id, b)]).lookup a = created.lookup a := by
  rw [List.lookup_append, List.lookup_cons, beq_false_of_ne hne]
  simp

theorem allocate_spec {s : Linking} {id : String} {o : Object String}
    {object : Option (Object Nat)} (hnew : s.created.lookup id = none)
    (ho : records.lookup id = some o) (hid : id ∉ creating) (hs : Tidy records current s)
    (hobject : s.issues = [] → (∀ part ∈ o.shell.mentions, Reached records s part) ∧
      ∀ A, s.Agrees A → object = some (o.shell.map A)) :
    Step records creating current s (allocate id o object s).2 ∧
      (allocate id o object s).2.issues = s.issues ∧
      (s.issues = [] → ∃ k, (allocate id o object s).1 = some k ∧
        (id, some k) ∈ (allocate id o object s).2.created) := by
  have hother (found : Option Nat) : ∀ a ∈ creating,
      (s.created ++ [(id, found)]).lookup a = s.created.lookup a :=
    fun a ha => lookup_concat_of_ne fun h => hid (h ▸ ha)
  cases object with
  | none =>
    have hreported : s.issues ≠ [] := by
      intro hissues
      have hnone := (hobject hissues).2 _ s.agrees_addresses
      cases hnone
    refine ⟨⟨fun h => h, List.prefix_append _ _, hother none, ?_, ?_⟩, rfl, ?_⟩
    · exact Nat.add_le_add_left (uncreated_append_le _ _) _
    · exact fun _ hissues => absurd hissues hreported
    · exact fun hissues => absurd hissues hreported
  | some object =>
    have happly : allocate id o (some object) s =
        (some s.objects.length, s.allocated id o object) := rfl
    rw [happly]
    refine ⟨⟨fun h => h, List.prefix_append _ _, hother _, weight_allocated object hnew ho, ?_⟩,
      rfl, ?_⟩
    · intro _ hissues
      obtain ⟨hreached, hvalue⟩ := hobject hissues
      exact (hs hissues).allocated hnew ho hreached fun A hA => Option.some.inj (hvalue A hA)
    · exact fun _ => ⟨_, rfl, List.mem_append_right _ (List.mem_singleton_self _)⟩

variable (records creating current) in
def LooksUp (good : Prop) (x : Link (Option Nat)) (id : String) : Prop :=
  ∀ s, Tidy records current s →
    Step records creating current s (x s).2 ∧
      ((x s).2.issues = [] → ∃ k, (x s).1 = some k ∧ (id, some k) ∈ (x s).2.created) ∧
      (good → s.issues = [] → (x s).2.issues = [])

theorem LooksUp.resolves {quiet : Prop} {good : Demand × String → Prop} {x : Link (Option Nat)}
    {mention : Mention} (hx : LooksUp records creating current quiet x mention.id)
    (hgood : good (mention.demand, mention.id) →
      quiet ∧ Holds records (mention.demand, mention.id)) :
    Resolves records creating current good (do demand mention (← x)) (Looking.look mention) := by
  intro s hs
  obtain ⟨hstep, hfound, hquiet⟩ := hx s hs
  obtain ⟨hdemand, hholds, hfits⟩ := demand_spec mention (x s).1 (hstep.tidy hs) hfound
  rw [bind_apply]
  refine ⟨hstep.trans hdemand, fun A hA => ⟨fun hissues => ?_, fun hall hissues => ?_⟩⟩
  · obtain ⟨hreached, hvalue⟩ := hholds hissues
    exact ⟨by simpa [Looking.complete_look] using hreached, hvalue A hA⟩
  · obtain ⟨hq, hpart⟩ := hgood (hall _ (List.mem_singleton_self _))
    exact hfits hpart (hquiet hq hissues)

/-- What keeps a look-up quiet while the records of `creating` are being created. -/
structure Sound (records : Records) (creating : List String) (id : String) : Prop where
  linked : Linked records
  exists_record : ∃ o, records.lookup id = some o
  required : ∀ c ∈ creating, Relation.TransGen (Requires records) c id

section Equations

variable (fuel : Nat) {id : String} (path : String) {s : Linking}

theorem lookUp_found {found : Option Nat} (h : s.created.lookup id = some found) :
    lookUp records (fuel + 1) creating id path s = (found, s) := by
  simp only [lookUp, bind_apply, get_apply, h, pure_apply]

theorem lookUp_unknown (hnew : s.created.lookup id = none) (ho : records.lookup id = none) :
    lookUp records (fuel + 1) creating id path s =
      (none, (report path ("Unknown object id \"" ++ id ++ "\"") s).2) := by
  simp only [lookUp, bind_apply, get_apply, hnew, ho, pure_apply]

theorem lookUp_cycle {o : Object String} (hnew : s.created.lookup id = none)
    (ho : records.lookup id = some o) (hid : id ∈ creating) :
    lookUp records (fuel + 1) creating id path s =
      (none, (report path
        ("Reference cycle: " ++ " -> ".intercalate (cycle id creating)) s).2) := by
  simp only [lookUp, bind_apply, get_apply, hnew, ho, List.contains_iff_mem.mpr hid, if_true,
    pure_apply]

variable (records creating) in
def lookInside (mention : Mention) : Link (Option Nat) := do
  demand mention (← lookUp records fuel creating mention.id mention.path)

theorem lookUp_create {o : Object String} (hnew : s.created.lookup id = none)
    (ho : records.lookup id = some o) (hid : id ∉ creating) :
    lookUp records (fuel + 1) creating id path s =
      (do allocate id o (← o.create (lookInside records (id :: creating) fuel) (placeOf id)) :
        Link (Option Nat)) s := by
  have hcontains : creating.contains id = false := by simpa using hid
  simp only [lookUp, bind_apply, get_apply, hnew, ho, hcontains, Bool.false_eq_true, if_false]
  rfl

end Equations

theorem required_cons {id : String}
    (h : ∀ c ∈ creating, Relation.TransGen (Requires records) c id) {o : Object String}
    (ho : records.lookup id = some o) {part : Demand × String} (hpart : part ∈ o.shell.mentions) :
    ∀ c ∈ id :: creating, Relation.TransGen (Requires records) c part.2 := by
  have hrequires : Requires records id part.2 :=
    ⟨o, ho, o.map_snd_mentions_shell ▸ List.mem_map_of_mem hpart⟩
  intro c hc
  rcases List.mem_cons.mp hc with rfl | hc
  · exact .single hrequires
  · exact (h c hc).tail hrequires

theorem Sound.mention {id : String} (h : Sound records creating id) {o : Object String}
    (ho : records.lookup id = some o) {part : Demand × String} (hpart : part ∈ o.shell.mentions) :
    Sound records (id :: creating) part.2 ∧ Holds records part := by
  have hholds : Holds records part :=
    h.linked.mentions id o ho part (Object.mem_mentions_iff.mpr (.inl hpart))
  exact ⟨⟨h.linked, ⟨_, hholds.choose_spec.1⟩, required_cons h.required ho hpart⟩, hholds⟩

/--
A look-up is a step that finds what it looks for or reports.  The records being created are distinct,
so the fuel lasts.
-/
theorem lookUp_spec (fuel : Nat) (creating : List String) (id path : String)
    (hfuel : records.length + 1 ≤ fuel + creating.length) (hnodup : creating.Nodup)
    (hsub : creating ⊆ records.map Prod.fst) :
    LooksUp records creating current (Sound records creating id)
      (lookUp records fuel creating id path) id := by
  induction fuel generalizing creating id path with
  | zero =>
    have hle := (List.subperm_of_subset hnodup hsub).length_le
    rw [List.length_map] at hle
    omega
  | succ fuel ih =>
    intro s hs
    cases hnew : s.created.lookup id with
    | some found =>
      rw [lookUp_found fuel path hnew]
      refine ⟨.refl s, fun hissues => ?_, fun _ hissues => hissues⟩
      have hmem := mem_of_lookup hnew
      obtain ⟨k, _, hk, _⟩ := (hs hissues).found hmem
      exact ⟨k, hk, hk ▸ hmem⟩
    | none =>
      cases ho : records.lookup id with
      | none =>
        rw [lookUp_unknown fuel path hnew ho]
        refine ⟨step_report s path _, fun h => ?_, fun hsound => ?_⟩
        · exact absurd h (issues_report_ne s path _)
        · obtain ⟨o, ho'⟩ := hsound.exists_record
          rw [ho] at ho'
          cases ho'
      | some o =>
        by_cases hid : id ∈ creating
        · rw [lookUp_cycle fuel path hnew ho hid]
          refine ⟨step_report s path _, fun h => ?_, fun hsound => ?_⟩
          · exact absurd h (issues_report_ne s path _)
          · exact absurd (hsound.required id hid) (hsound.linked.acyclic id)
        · rw [lookUp_create fuel path hnew ho hid, bind_apply]
          have hrecord : id ∈ records.map Prod.fst :=
            List.mem_map_of_mem (mem_of_lookup ho)
          have hinside : Finds records (id :: creating) current
              (fun part => Sound records (id :: creating) part.2 ∧ Holds records part)
              (lookInside records (id :: creating) fuel) := by
            intro mention
            have hlook := ih (id :: creating) mention.id mention.path
              (by simp only [List.length_cons]; omega) (List.nodup_cons.mpr ⟨hid, hnodup⟩)
              (List.cons_subset.mpr ⟨hrecord, hsub⟩)
            exact hlook.resolves fun h => h
          obtain ⟨hcreate, hmade, hquiet⟩ :=
            (resolves_create hinside (placeOf id) o).parts
              (fun A => Looking.complete_create A (placeOf id) o) hs
          have hnew' := (hcreate.creating id List.mem_cons_self).trans hnew
          obtain ⟨hallocate, hsame, hfound⟩ :=
            allocate_spec hnew' ho hid (hcreate.tidy hs) hmade
          refine ⟨(hcreate.mono (List.subset_cons_self _ _)).trans hallocate, ?_, ?_⟩
          · exact fun hissues => hfound (hsame ▸ hissues)
          · intro hsound hissues
            rw [hsame]
            exact hquiet (fun part hpart => hsound.mention ho hpart) hissues

theorem finds_follow : Finds records [] current
    (fun part => Linked records ∧ Holds records part) (follow records) := by
  intro mention
  have hlook := @lookUp_spec records current (records.length + 1) [] mention.id mention.path
    (by simp) List.nodup_nil (List.nil_subset _)
  refine hlook.resolves fun ⟨hlinked, hholds⟩ => ⟨⟨hlinked, ?_, by simp⟩, hholds⟩
  exact ⟨_, hholds.choose_spec.1⟩

/-! ## Filling in collections -/

theorem Clean.added {s : Linking} {f : Fill} (hs : Clean records [f] s) {content : Content Nat}
    (hholds : ∀ part ∈ f.content.mentions, Holds records part)
    (hcontent : ∀ A, s.Agrees A → content = f.content.map A) :
    Clean records [] { s with objects := s.objects.modify f.target (·.add content) } := by
  refine ⟨hs.nodup, hs.placed, by simpa using hs.size, fun g hg => ?_, fun id k o hk ho => ?_⟩
  · simpa using hs.targets g (List.mem_append_right _ hg)
  · obtain ⟨done, rest, hcontents, hqueue, hparts, hbuilt⟩ := hs.built id k o hk ho
    rw [List.filter_append, List.filter_singleton] at hqueue
    by_cases htarget : f.target = k
    · simp only [htarget, beq_self_eq_true, cond_true, List.singleton_append] at hqueue
      cases rest with
      | nil => cases hqueue
      | cons c rest =>
        rw [List.map_cons, List.cons.injEq] at hqueue
        obtain ⟨rfl, hrest⟩ := hqueue
        refine ⟨done ++ [c], rest, by simpa using hcontents, hrest, ?_, fun A hA => ?_⟩
        · intro part hpart
          simp only [List.flatMap_append, List.flatMap_singleton, ← List.append_assoc,
            List.mem_append (t := c.mentions)] at hpart
          exact hpart.elim (hparts part) (hholds part)
        · simp [hbuilt A hA, hcontent A hA, Object.map_add]
    · simp only [beq_false_of_ne htarget, cond_false, List.nil_append] at hqueue
      refine ⟨done, rest, hcontents, hqueue, hparts, fun A hA => ?_⟩
      simpa [List.getElem?_modify, htarget] using hbuilt A hA

theorem Clean.exists_content {s : Linking} {f : Fill} (hs : Clean records [f] s) :
    ∃ id o, records.lookup id = some o ∧ f.content ∈ o.contents := by
  have hlt := hs.targets f (by simp)
  rw [hs.size] at hlt
  obtain ⟨before, ⟨id, found⟩, after, hsplit, hlength⟩ :
      ∃ before e after, s.created = before ++ e :: after ∧ before.length = f.target :=
    ⟨s.created.take f.target, s.created[f.target], s.created.drop (f.target + 1),
      by simp, by simp; omega⟩
  obtain ⟨rfl, o, ho, _⟩ := hs.placed before id found after hsplit
  obtain ⟨done, rest, hcontents, hqueue, _⟩ :=
    hs.built id before.length o (by simp [hsplit]) ho
  have hmem : f ∈ rest.map (Fill.mk (placeOf id) before.length) := by
    rw [← hqueue]
    simp [hlength]
  obtain ⟨c, hc, rfl⟩ := List.mem_map.mp hmem
  exact ⟨id, o, ho, hcontents ▸ List.mem_append_right _ hc⟩

theorem fill_spec {s : Linking} (f : Fill) (hs : Tidy records [f] s) :
    ∃ t, Step records [] [f] s t ∧ (fill records f s).2.issues = t.issues ∧
      (fill records f s).2.created = t.created ∧ (fill records f s).2.pending = t.pending ∧
      Tidy records [] (fill records f s).2 ∧
      (Linked records → s.issues = [] → t.issues = []) := by
  obtain ⟨hstep, hfound, hquiet⟩ := 
    (resolves_content finds_follow f.path f.content).parts
      (fun A => Looking.complete_content A f.path f.content) hs
  refine ⟨_, hstep, rfl, rfl, rfl, fun hissues => ?_, fun hlinked hissues => ?_⟩
  · obtain ⟨hreached, hcontent⟩ := hfound hissues
    exact (hstep.tidy hs hissues).added (fun part hpart => (hreached part hpart).1) hcontent
  · refine hquiet (fun part hpart => ⟨hlinked, ?_⟩) hissues
    obtain ⟨id, o, ho, hmem⟩ := (hs hissues).exists_content
    refine hlinked.mentions id o ho part (Object.mem_mentions_iff.mpr (.inr ?_))
    exact ⟨f.content, hmem, hpart⟩

/-- What linking does between two states in which no collection is being filled in. -/
structure Round (records : Records) (s t : Linking) : Prop extends Step records [] [] s t where
  quiet : Linked records → s.issues = [] → t.issues = []

theorem Round.trans {s t u : Linking} (h : Round records s t) (k : Round records t u) :
    Round records s u :=
  ⟨h.toStep.trans k.toStep, fun hlinked hissues => k.quiet hlinked (h.quiet hlinked hissues)⟩

theorem Tidy.take {s : Linking} {f : Fill} {rest : List Fill} (hs : Tidy records [] s)
    (hpending : s.pending = f :: rest) : Tidy records [f] { s with pending := rest } := by
  intro hissues
  obtain ⟨hnodup, hplaced, hsize, htargets, hbuilt⟩ := hs hissues
  rw [hpending] at htargets hbuilt
  exact ⟨hnodup, hplaced, hsize, htargets, hbuilt⟩

theorem round_fill {s : Linking} {f : Fill} {rest : List Fill} (hs : Tidy records [] s)
    (hpending : s.pending = f :: rest) :
    Round records s (fill records f { s with pending := rest }).2 ∧
      (fill records f { s with pending := rest }).2.weight records + 1 ≤ s.weight records := by
  obtain ⟨t, hstep, hissues, hcreated, hqueue, htidy, hquiet⟩ := fill_spec f (hs.take hpending)
  have hlighter : t.weight records + 1 ≤ s.weight records := by
    have hle := hstep.weight
    simp only [weight, hpending, List.length_cons] at hle ⊢
    omega
  have hweight : (fill records f { s with pending := rest }).2.weight records = t.weight records := by
    simp only [weight, hcreated, hqueue]
  rw [hweight]
  refine ⟨⟨⟨?_, ?_, by simp, by omega, fun _ => htidy⟩, ?_⟩, hlighter⟩
  · exact fun h => hstep.issues (hissues ▸ h)
  · exact hcreated ▸ hstep.created
  · exact fun hlinked h => hissues ▸ hquiet hlinked h

theorem drain_of_nil {fuel : Nat} {s : Linking} (hpending : s.pending = []) :
    drain records (fuel + 1) s = ((), s) := by
  simp only [drain, bind_apply, get_apply, hpending, pure_apply]

theorem drain_of_cons {fuel : Nat} {s : Linking} {f : Fill} {rest : List Fill}
    (hpending : s.pending = f :: rest) :
    drain records (fuel + 1) s =
      drain records fuel (fill records f { s with pending := rest }).2 := by
  simp only [drain, bind_apply, get_apply, hpending, modify_apply]

/-- A drain with fuel for every collection that may come up fills in all of them. -/
theorem drain_spec (fuel : Nat) (s : Linking) (hfuel : s.weight records ≤ fuel)
    (hs : Tidy records [] s) :
    Round records s (drain records fuel s).2 ∧ (drain records fuel s).2.pending = [] := by
  induction fuel generalizing s with
  | zero =>
    refine ⟨⟨.refl s, fun _ h => h⟩, List.length_eq_zero_iff.mp ?_⟩
    simp only [weight] at hfuel
    change s.pending.length = 0
    omega
  | succ fuel ih =>
    cases hpending : s.pending with
    | nil =>
      rw [drain_of_nil hpending]
      exact ⟨⟨.refl s, fun _ h => h⟩, hpending⟩
    | cons f rest =>
      rw [drain_of_cons hpending]
      obtain ⟨hround, hlighter⟩ := round_fill hs hpending
      obtain ⟨hdrain, hempty⟩ := ih _ (by omega) (hround.tidy hs)
      exact ⟨hround.trans hdrain, hempty⟩

theorem settle_spec (s : Linking) (hweight : s.weight records ≤ uncreated records [])
    (hs : Tidy records [] s) :
    Round records s (settle records s).2 ∧ (settle records s).2.pending = [] := by
  apply drain_spec _ s _ hs
  simpa [uncreated] using hweight

theorem round_lookUp {id path : String} (hrecord : ∃ o, records.lookup id = some o) {s : Linking}
    (hs : Tidy records [] s) :
    Round records s (lookUp records (records.length + 1) [] id path s).2 ∧
      ((lookUp records (records.length + 1) [] id path s).2.issues = [] →
        ∃ k, (id, some k) ∈ (lookUp records (records.length + 1) [] id path s).2.created) := by
  obtain ⟨hstep, hfound, hquiet⟩ := lookUp_spec (records.length + 1) [] id path (by simp)
    List.nodup_nil (List.nil_subset _) s hs
  refine ⟨⟨hstep, fun hlinked => hquiet ⟨hlinked, hrecord, by simp⟩⟩, fun hissues => ?_⟩
  obtain ⟨k, _, hk⟩ := hfound hissues
  exact ⟨k, hk⟩

theorem linkAll_spec (rs : Records) (hrecords : ∀ r ∈ rs, ∃ o, records.lookup r.1 = some o)
    (s : Linking) (hweight : s.weight records ≤ uncreated records []) (hpending : s.pending = [])
    (hs : Tidy records [] s) :
    Round records s (linkAll records rs s).2 ∧ (linkAll records rs s).2.pending = [] ∧
      ((linkAll records rs s).2.issues = [] →
        ∀ r ∈ rs, ∃ k, (r.1, some k) ∈ (linkAll records rs s).2.created) := by
  induction rs generalizing s with
  | nil => exact ⟨⟨.refl s, fun _ h => h⟩, hpending, fun _ r hr => absurd hr List.not_mem_nil⟩
  | cons r rest ih =>
    rw [linkAll, bind_apply, bind_apply]
    obtain ⟨hlook, hfound⟩ :=
      @round_lookUp records r.1 (placeOf r.1) (hrecords r List.mem_cons_self) s hs
    obtain ⟨hsettle, hempty⟩ :=
      settle_spec _ (Nat.le_trans hlook.weight hweight) (hlook.tidy hs)
    have hfirst := hlook.trans hsettle
    obtain ⟨hrest, hpending', hall⟩ := ih (fun q hq => hrecords q (List.mem_cons_of_mem _ hq)) _
      (Nat.le_trans hfirst.weight hweight) hempty (hfirst.tidy hs)
    refine ⟨hfirst.trans hrest, hpending', fun hissues q hq => ?_⟩
    rcases List.mem_cons.mp hq with rfl | hq
    · obtain ⟨k, hk⟩ := hfound (hsettle.issues (hrest.issues hissues))
      exact ⟨k, hrest.created.subset (hsettle.created.subset hk)⟩
    · exact hall hissues q hq

/-! ## What linking gives -/

variable (records) in
/--
Every record has one object, the record with each id replaced by an address.  Addresses follow the
order of creation, so what a record requires has a lower one.
-/
structure Placed (objects : List (Object Nat)) (A : String → Nat) : Prop where
  object : ∀ id o, records.lookup id = some o → objects[A id]? = some (o.map A)
  injective : ∀ id o id' o', records.lookup id = some o → records.lookup id' = some o' →
    A id = A id' → id = id'
  surjective : ∀ k < objects.length, ∃ id o, records.lookup id = some o ∧ A id = k
  lower : ∀ id o, records.lookup id = some o → ∀ r ∈ o.singles, A r < A id

section Complete

variable {s : Linking} (hs : Clean records [] s) (hpending : s.pending = [])
include hs hpending

theorem Clean.complete {id : String} {k : Nat} {o : Object String}
    (hk : (id, some k) ∈ s.created) (ho : records.lookup id = some o) :
    (∀ part ∈ o.mentions, Holds records part) ∧ s.objects[k]? = some (o.map s.addresses) := by
  obtain ⟨done, rest, hcontents, hqueue, hparts, hobject⟩ := hs.built id k o hk ho
  rw [hpending] at hqueue
  have hrest : rest = [] := by simpa using hqueue.symm
  rw [hrest, List.append_nil] at hcontents
  subst hcontents
  constructor
  · intro part hpart
    apply hparts part
    rw [List.mem_append, List.mem_flatMap]
    exact Object.mem_mentions_iff.mp hpart
  · rw [hobject _ s.agrees_addresses, o.foldl_add_shell]

theorem Clean.placement
    (hall : ∀ id o, records.lookup id = some o → ∃ k, (id, some k) ∈ s.created) :
    Placed records s.objects s.addresses := by
  have hplace : ∀ id o, records.lookup id = some o → ∃ before after,
      s.created = before ++ (id, some (s.addresses id)) :: after ∧
        s.addresses id = before.length ∧ ∀ r ∈ o.singles, r ∈ before.map Prod.fst := by
    intro id o ho
    obtain ⟨k, hk⟩ := hall id o ho
    rw [hs.addresses_eq hk]
    obtain ⟨before, after, hsplit⟩ := List.append_of_mem hk
    obtain ⟨hbefore, o', ho', hsingles⟩ := hs.placed before id (some k) after hsplit
    rw [ho, Option.some.injEq] at ho'
    exact ⟨before, after, hsplit, Option.some.inj hbefore, ho' ▸ hsingles⟩
  constructor
  · intro id o ho
    obtain ⟨k, hk⟩ := hall id o ho
    rw [hs.addresses_eq hk]
    exact (hs.complete hpending hk ho).2
  · intro id o id' o' ho ho' heq
    obtain ⟨before, after, hsplit, hlength, _⟩ := hplace id o ho
    obtain ⟨before', after', hsplit', hlength', _⟩ := hplace id' o' ho'
    rw [hsplit] at hsplit'
    have hcons := (List.append_inj hsplit' (by omega)).2
    simpa using congrArg (fun entries => entries.head?.map Prod.fst) hcons
  · intro k hk
    rw [hs.size] at hk
    obtain ⟨before, ⟨id, found⟩, after, hsplit, hlength⟩ :
        ∃ before e after, s.created = before ++ e :: after ∧ before.length = k :=
      ⟨s.created.take k, s.created[k], s.created.drop (k + 1), by simp, by simp; omega⟩
    obtain ⟨rfl, o, ho, _⟩ := hs.placed before id found after hsplit
    refine ⟨id, o, ho, ?_⟩
    rw [hs.addresses_eq (k := before.length) (by simp [hsplit]), hlength]
  · intro id o ho r hr
    obtain ⟨before, after, hsplit, hlength, hsingles⟩ := hplace id o ho
    obtain ⟨⟨a, found⟩, hmem, rfl⟩ := List.mem_map.mp (hsingles r hr)
    obtain ⟨before', after', hbefore⟩ := List.append_of_mem hmem
    have hsplit' : s.created =
        before' ++ (a, found) :: (after' ++ (id, some (s.addresses id)) :: after) := by
      rw [hsplit, hbefore]
      simp
    obtain ⟨rfl, _⟩ := hs.placed before' a found _ hsplit'
    rw [hs.addresses_eq (k := before'.length) (by simp [hsplit']), hlength, hbefore]
    simp

end Complete

theorem Placed.not_requires {objects : List (Object Nat)} {A : String → Nat}
    (h : Placed records objects A) (id : String) : ¬Relation.TransGen (Requires records) id id := by
  have hlower : ∀ a b, Relation.TransGen (Requires records) a b → A b < A a := by
    intro a b hab
    induction hab with
    | single hrequires =>
      obtain ⟨o, ho, hmem⟩ := hrequires
      exact h.lower _ o ho _ hmem
    | tail _ hrequires ih =>
      obtain ⟨o, ho, hmem⟩ := hrequires
      exact Nat.lt_trans (h.lower _ o ho _ hmem) ih
  exact fun hcycle => Nat.lt_irrefl _ (hlower id id hcycle)

theorem tidy_empty : Tidy records [] {} :=
  fun _ => ⟨by simp, by simp, rfl, by simp, by simp⟩

theorem exists_lookup_of_mem {r : String × Object String} (hr : r ∈ records) :
    ∃ o, records.lookup r.1 = some o := by
  apply Option.isSome_iff_exists.mp
  rw [List.lookup_isSome_iff]
  exact ⟨r, hr, by simp⟩

structure Success (records : Records) (root : String) (found : Option Nat) (s : Linking) : Prop where
  visual : Holds records (.visual, root)
  linked : Linked records
  placed : Placed records s.objects s.addresses
  root_found : found = some (s.addresses root)

theorem Clean.success {root : String} {found : Option Nat} {s : Linking}
    (hs : Clean records [] s) (hpending : s.pending = [])
    (hall : ∀ r ∈ records, ∃ k, (r.1, some k) ∈ s.created)
    (hroot : Holds records (.visual, root) ∧ found = some (s.addresses root)) :
    Success records root found s := by
  have hcreated (id : String) (o : Object String) (ho : records.lookup id = some o) :
      ∃ k, (id, some k) ∈ s.created :=
    hall (id, o) (mem_of_lookup ho)
  have hplaced := hs.placement hpending hcreated
  refine ⟨hroot.1, ⟨fun id o ho => ?_, hplaced.not_requires⟩, hplaced, hroot.2⟩
  obtain ⟨k, hk⟩ := hcreated id o ho
  exact (hs.complete hpending hk ho).1

theorem run_spec (records : Records) (root : String) :
    ((run records root {}).2.issues = [] →
      Success records root (run records root {}).1 (run records root {}).2) ∧
      (Holds records (.visual, root) → Linked records → (run records root {}).2.issues = []) := by
  have hweight : ({} : Linking).weight records ≤ uncreated records [] := by simp [weight]
  obtain ⟨hfollow, hfound, hquiet⟩ :=
    (@finds_follow records [] ⟨"root", root, .visual⟩).parts
      (fun A => Looking.complete_look A _) tidy_empty
  obtain ⟨hsettle, hempty⟩ :=
    settle_spec _ (Nat.le_trans hfollow.weight hweight) (hfollow.tidy tidy_empty)
  have hfirst := hfollow.trans hsettle.toStep
  obtain ⟨hrest, hpending, hall⟩ := linkAll_spec records (fun r => exists_lookup_of_mem) _
    (Nat.le_trans hfirst.weight hweight) hempty (hfirst.tidy tidy_empty)
  simp only [run, bind_apply, pure_apply]
  refine ⟨fun hissues => ?_, fun hroot hlinked => ?_⟩
  · have hclean := hrest.tidy (hfirst.tidy tidy_empty) hissues
    obtain ⟨hreached, hvalue⟩ := hfound (hsettle.issues (hrest.issues hissues))
    have hagrees := hsettle.agrees (hrest.agrees (agrees_addresses _))
    exact hclean.success hpending (hall hissues)
      ⟨(hreached _ (List.mem_singleton_self _)).1, hvalue _ hagrees⟩
  · refine hrest.quiet hlinked (hsettle.quiet hlinked (hquiet (fun part hpart => ?_) rfl))
    rw [List.mem_singleton.mp hpart]
    exact ⟨hlinked, hroot⟩

end Linking

end SceneCompiler
