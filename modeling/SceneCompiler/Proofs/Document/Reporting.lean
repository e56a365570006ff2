import SceneCompiler.Proofs.Document.Accounting
import SceneCompiler.Proofs.Scene.Faithfulness

/-!
# Reports of unknown ids

Linking accounts for what is due in each of its operations: looking up a record, creating it, and
filling in its collections.  A scene that does not load because of unknown ids names each of them at
the places that linking looks at, and at no others.
-/

namespace SceneCompiler

namespace Linking

variable {records : Records} {place lost : String} {creating : List String} {current : List Fill}

/-! ## Reporting -/

theorem names_at {path id : String} :
    Names place lost (fun m => m.path = path ∧ m.id = id) ↔ path = place ∧ id = lost := by
  constructor
  · rintro ⟨m, ⟨rfl, rfl⟩, hm⟩
    exact hm
  · rintro ⟨rfl, rfl⟩
    exact ⟨⟨path, id, .visual⟩, ⟨rfl, rfl⟩, rfl, rfl⟩

theorem names_eq {mention : Mention} :
    Names place lost (fun m => m = mention) ↔ mention.path = place ∧ mention.id = lost := by
  simp only [Names, exists_eq_left]

theorem unknown_inj {a b : String} :
    "Unknown object id \"" ++ a ++ "\"" = "Unknown object id \"" ++ b ++ "\"" ↔ a = b := by
  refine ⟨fun h => ?_, fun h => by rw [h]⟩
  have hlist := congrArg String.toList h
  simp only [String.toList_append, List.append_cancel_right_eq, List.append_cancel_left_eq] at hlist
  exact String.toList_inj.mp hlist

theorem told_report {s : Linking} {path message : String} :
    Told place lost (report path message s).2 ↔
      Told place lost s ∨ path = place ∧ message = "Unknown object id \"" ++ lost ++ "\"" := by
  simp only [Told, report_apply, List.mem_append, List.mem_singleton, Issue.mk.injEq]
  exact or_congr_right (and_congr eq_comm eq_comm)

theorem accounts_report {s : Linking} {path message : String} {P : Mention → Prop}
    (hP : Names place lost P ↔
      path = place ∧ message = "Unknown object id \"" ++ lost ++ "\"") :
    Accounts records place lost P s (report path message s).2 := by
  have htold : Told place lost (report path message s).2 ↔
      Told place lost s ∨ Names place lost P := by rw [told_report, hP]
  refine ⟨fun h => htold.mpr (.inl h), fun h => htold.mpr (.inr h), fun h => ?_, fun h => ?_⟩
  · cases h with
    | told h => exact .told (htold.mpr (.inl h))
    | pending hf hnames => exact .pending hf hnames
    | upcoming ho hnew hnames => exact .upcoming ho hnew hnames
  · cases h with
    | told h => exact (htold.mp h).imp_left .told
    | pending hf hnames => exact .inl (.pending hf hnames)
    | upcoming ho hnew hnames => exact .inl (.upcoming ho hnew hnames)

theorem Faithful.report {s : Linking} (h : Faithful records s) (path message : String) :
    Faithful records (report path message s).2 :=
  ⟨h.known, h.failed, h.stands⟩

theorem accounts_expected (s : Linking) (path message : String) :
    Accounts records place lost (fun _ => False) s (report path ("Expected " ++ message) s).2 := by
  refine accounts_report (iff_of_false not_names_false fun h => ?_)
  simpa using congrArg (fun text => text.toList.head?) h.2

theorem accounts_cycle (s : Linking) {id path message : String} (hid : id ≠ lost) :
    Accounts records place lost (fun m => m.path = path ∧ m.id = id) s
      (report path ("Reference cycle: " ++ message) s).2 := by
  refine accounts_report (iff_of_false (fun h => hid (names_at.mp h).2) fun h => ?_)
  simpa using congrArg (fun text => text.toList.head?) h.2

theorem accounts_unknown (s : Linking) {id path : String} :
    Accounts records place lost (fun m => m.path = path ∧ m.id = id) s
      (report path ("Unknown object id \"" ++ id ++ "\"") s).2 := by
  apply accounts_report
  rw [unknown_inj, names_at]

theorem accounts_demand (mention : Mention) (found : Option Nat) {s : Linking}
    (hs : Faithful records s) (hfound : ∀ k, found = some k → Stands records s mention.id k) :
    Faithful records (demand mention found s).2 ∧
      Accounts records place lost (fun _ => False) s (demand mention found s).2 ∧
      ((demand mention found s).1.isSome = true ↔
        found.isSome = true ∧ Holds records (mention.demand, mention.id)) := by
  cases found with
  | none => exact ⟨hs, .refl s, by simp [demand, pure_apply]⟩
  | some k =>
    obtain ⟨_, o, object, ho, hobject, hkind⟩ := hfound k rfl
    have hholds : Holds records (mention.demand, mention.id) ↔
        mention.demand.admits object = true := by
      simp [Holds, ho, hkind]
    by_cases hadmits : mention.demand.admits object = true
    · rw [demand_admitted hobject hadmits]
      exact ⟨hs, .refl s, by simp [hholds, hadmits]⟩
    · obtain ⟨message, hrefused⟩ := demand_refused hobject hadmits
      rw [hrefused]
      exact ⟨hs.report _ _, accounts_expected s _ _, by simp [hholds, hadmits]⟩

/-! ## Creating a record -/

theorem Stands.mono {s t : Linking} (hobjects : s.objects <+: t.objects) {id : String} {k : Nat}
    (h : Stands records s id k) : Stands records t id k := by
  obtain ⟨hcreatable, o, object, ho, hobject, hkind⟩ := h
  obtain ⟨more, hmore⟩ := hobjects
  have hlt := (List.getElem?_eq_some_iff.mp hobject).1
  exact ⟨hcreatable, o, object, ho, by rw [← hmore, List.getElem?_append_left hlt, hobject], hkind⟩

section Creation

variable {s t : Linking} {id : String} {o : Object String} {found : Option Nat}

theorem Faithful.concat (hs : Faithful records s) (ho : records.lookup id = some o)
    (hnew : s.created.lookup id = none) (hcreated : t.created = s.created ++ [(id, found)])
    (hobjects : s.objects <+: t.objects) (hfailed : found = none → ¬Creatable records id)
    (hstands : ∀ k, found = some k → Stands records t id k) : Faithful records t := by
  have hlookup (a : String) (b : Option Nat) (h : t.created.lookup a = some b) :
      (a = id ∧ b = found) ∨ s.created.lookup a = some b := by
    by_cases ha : a = id
    · subst ha
      simp only [hcreated, List.lookup_append, hnew, List.lookup_cons_self, Option.none_or,
        Option.some.injEq] at h
      exact .inl ⟨rfl, h.symm⟩
    · rw [hcreated, lookup_concat_of_ne ha] at h
      exact .inr h
  refine ⟨fun a b h => ?_, fun a h => ?_, fun a k h => ?_⟩
  · rcases hlookup a b h with ⟨rfl, _⟩ | h
    · exact ⟨o, ho⟩
    · exact hs.known a b h
  · rcases hlookup a none h with ⟨rfl, hfound⟩ | h
    · exact hfailed hfound.symm
    · exact hs.failed a h
  · rcases hlookup a (some k) h with ⟨rfl, hfound⟩ | h
    · exact hstands k hfound.symm
    · exact (hs.stands a k h).mono hobjects

theorem accounts_concat {k : Nat} (ho : records.lookup id = some o)
    (hnew : s.created.lookup id = none) (hissues : t.issues = s.issues)
    (hcreated : t.created = s.created ++ [(id, found)])
    (hpending : ∀ f, f ∈ t.pending ↔
      f ∈ s.pending ∨ Creatable records id ∧ f ∈ o.contents.map (Fill.mk (placeOf id) k))
    (hfields : Names place lost (o.FieldMention (placeOf id)) → Told place lost s) :
    Accounts records place lost (fun _ => False) s t := by
  have htold : Told place lost t ↔ Told place lost s := by simp only [Told, hissues]
  refine ⟨htold.mpr, fun h => absurd h not_names_false, fun h => ?_, fun h => .inl ?_⟩
  · cases h with
    | told h => exact .told (htold.mpr h)
    | pending hf hnames => exact .pending ((hpending _).mpr (.inl hf)) hnames
    | @upcoming a _ ha hfresh hnames =>
      by_cases hid : a = id
      · subst hid
        cases ho.symm.trans ha
        rcases names_or.mp hnames with hnames | ⟨m, ⟨hcreatable, c, hc, hm⟩, hplace⟩
        · exact .told (htold.mpr (hfields hnames))
        · exact .pending ((hpending _).mpr (.inr ⟨hcreatable, List.mem_map_of_mem hc⟩))
            ⟨m, hm, hplace⟩
      · exact .upcoming ha (by rw [hcreated, lookup_concat_of_ne hid, hfresh]) hnames
  · cases h with
    | told h => exact .told (htold.mp h)
    | pending hf hnames =>
      rcases (hpending _).mp hf with hf | ⟨hcreatable, hf⟩
      · exact .pending hf hnames
      · obtain ⟨c, hc, rfl⟩ := List.mem_map.mp hf
        exact .upcoming ho hnew (hnames.mono fun m hm => .inr ⟨hcreatable, c, hc, hm⟩)
    | upcoming ha hfresh hnames =>
      rw [hcreated, List.lookup_append, Option.or_eq_none_iff] at hfresh
      exact .upcoming ha hfresh.1 hnames

theorem accounts_allocate {made : Option (Object Nat)} (hs : Faithful records s)
    (ho : records.lookup id = some o) (hnew : s.created.lookup id = none)
    (hmade : Made records o made)
    (hfields : Names place lost (o.FieldMention (placeOf id)) → Told place lost s) :
    Faithful records (allocate id o made s).2 ∧
      Accounts records place lost (fun _ => False) s (allocate id o made s).2 ∧
      (allocate id o made s).2.created.lookup id = some (allocate id o made s).1 := by
  obtain ⟨hmade, hkind⟩ := hmade
  rw [← creatable_iff ho] at hmade
  cases made with
  | none =>
    have happly : allocate id o none s =
        (none, { s with created := s.created ++ [(id, none)] }) := rfl
    have hfailed : ¬Creatable records id := by simpa using hmade
    rw [happly]
    refine ⟨hs.concat ho hnew rfl List.prefix_rfl (fun _ => hfailed) (by simp), ?_,
      by simp [List.lookup_append, hnew]⟩
    exact accounts_concat (k := 0) ho hnew rfl rfl (fun f => by simp [hfailed]) hfields
  | some object =>
    have happly : allocate id o (some object) s =
        (some s.objects.length, s.allocated id o object) := rfl
    have hcreatable : Creatable records id := by simpa using hmade
    rw [happly]
    refine ⟨hs.concat ho hnew rfl (List.prefix_append _ _) (by simp) fun k hk => ?_,
      accounts_concat (k := s.objects.length) ho hnew rfl rfl (fun f => ?_) hfields, ?_⟩
    · cases hk
      exact ⟨hcreatable, o, object, ho, by simp [Linking.allocated], hkind object rfl⟩
    · simp only [Linking.allocated, List.mem_append, hcreatable, true_and]
    · simp [Linking.allocated, List.lookup_append, hnew]

end Creation

/-! ## Looking up a record -/

structure Recalls (records : Records) (creating : List String) (id : String)
    (result : Option Nat × Linking) : Prop where
  found : ∀ k, result.1 = some k → result.2.created.lookup id = some (some k)
  created : ∀ o, records.lookup id = some o → id ∉ creating →
    result.2.created.lookup id = some result.1

theorem Recalls.isSome_iff {id : String} {result : Option Nat × Linking}
    (h : Recalls records creating id result) (hs : Faithful records result.2)
    (hfree : Creatable records id → id ∉ creating) :
    result.1.isSome = true ↔ Creatable records id := by
  constructor
  · intro hsome
    obtain ⟨k, hk⟩ := Option.isSome_iff_exists.mp hsome
    exact (hs.stands id k (h.found k hk)).1
  · intro hcreatable
    have hrecord : ∃ o, records.lookup id = some o := by
      cases hcreatable with
      | intro ho _ _ => exact ⟨_, ho⟩
    obtain ⟨o, ho⟩ := hrecord
    have hrecall := h.created o ho (hfree hcreatable)
    cases hresult : result.1 with
    | none => exact absurd hcreatable (hs.failed id (hresult ▸ hrecall))
    | some k => rfl

variable (records place lost creating current) in
def Recounts (x : Link (Option Nat)) (id path : String) : Prop :=
  ∀ s, Tidy records current s → Faithful records s →
    Faithful records (x s).2 ∧
      Accounts records place lost (fun m => m.path = path ∧ m.id = id) s (x s).2 ∧
      Recalls records creating id (x s)

theorem demand_result (mention : Mention) (found : Option Nat) (s : Linking) :
    (demand mention found s).2.created = s.created ∧
      ∀ k, (demand mention found s).1 = some k → found = some k := by
  cases found with
  | none => exact ⟨rfl, fun _ h => h⟩
  | some k =>
    cases hobject : s.objects[k]? with
    | none => simp [demand_missing mention hobject]
    | some object =>
      by_cases hadmits : mention.demand.admits object = true
      · simp [demand_admitted hobject hadmits]
      · obtain ⟨message, hrefused⟩ := demand_refused hobject hadmits
        simp [hrefused, report_apply]

theorem Recounts.reports {fuel : Nat} {good : Prop} {mention : Mention}
    (hlook : LooksUp records creating current good
      (lookUp records fuel creating mention.id mention.path) mention.id)
    (hx : Recounts records place lost creating current
      (lookUp records fuel creating mention.id mention.path) mention.id mention.path)
    (hfree : Found records (mention.demand, mention.id) → mention.id ∉ creating) :
    Reports records place lost creating current (lookInside records creating fuel mention)
      (Looking.look mention) := by
  intro s hs hfaithful
  have hresolves := @LooksUp.resolves records creating current good (fun _ => False) _ mention hlook
    False.elim
  obtain ⟨hfaithful', haccounts, hrecalls⟩ := hx s hs hfaithful
  have hstands (k : Nat) (hk : _ = some k) := hfaithful'.stands _ k (hrecalls.found k hk)
  obtain ⟨hfaithful'', haccounts', hsome⟩ :=
    @accounts_demand records place lost mention _ _ hfaithful' hstands
  obtain ⟨hcreated, hresult⟩ := demand_result mention
    (lookUp records fuel creating mention.id mention.path s).1
    (lookUp records fuel creating mention.id mention.path s).2
  have hfound : (lookInside records creating fuel mention s).1.isSome = true ↔
      Found records (mention.demand, mention.id) := by
    refine (hsome.trans and_comm).trans (and_congr_right fun hholds => ?_)
    exact hrecalls.isSome_iff hfaithful' fun hcreatable => hfree ⟨hholds, hcreatable⟩
  refine ⟨(hresolves s hs).1, hfaithful'', fun answers hanswers => ?_⟩
  rw [Looking.look_apply]
  refine ⟨(haccounts.andThen haccounts').congr ?_, ?_⟩
  · simp only [List.mem_singleton, names_at, names_eq]
  · rw [← hanswers.found] at hfound
    cases hleft : (lookInside records creating fuel mention s).1 with
    | none =>
      rw [hleft] at hfound
      exact (Option.not_isSome_iff_eq_none.mp fun h => by simpa using hfound.mpr h).symm
    | some k =>
      obtain ⟨k', hk'⟩ := Option.isSome_iff_exists.mp (hfound.mp (by rw [hleft]; rfl))
      have hmem := hrecalls.found k (hresult k hleft)
      rw [hk', hanswers.created _ k' k hk' (hcreated ▸ hmem)]

section

variable (hlost : records.lookup lost = none)
include hlost

theorem ne_lost {id : String} {o : Object String} (ho : records.lookup id = some o) :
    id ≠ lost := by
  rintro rfl
  simp [hlost] at ho

theorem lookUp_recounts (fuel : Nat) (creating : List String) (id path : String)
    (hfuel : records.length + 1 ≤ fuel + creating.length) (hnodup : creating.Nodup)
    (hsub : creating ⊆ records.map Prod.fst)
    (hchain : ∀ c ∈ creating, Relation.TransGen (Requires records) c id) :
    Recounts records place lost creating current (lookUp records fuel creating id path)
      id path := by
  induction fuel generalizing creating id path with
  | zero =>
    have hle := (List.subperm_of_subset hnodup hsub).length_le
    rw [List.length_map] at hle
    omega
  | succ fuel ih =>
    intro s hs hfaithful
    cases hnew : s.created.lookup id with
    | some found =>
      rw [lookUp_found fuel path hnew]
      obtain ⟨o, ho⟩ := hfaithful.known id found hnew
      refine ⟨hfaithful, (Accounts.refl s).congr ?_, ?_⟩
      · rw [names_at]
        exact iff_of_false (fun h => ne_lost hlost ho h.2) not_names_false
      · exact ⟨fun k hk => hk ▸ hnew, fun _ _ _ => hnew⟩
    | none =>
      cases ho : records.lookup id with
      | none =>
        rw [lookUp_unknown fuel path hnew ho]
        exact ⟨hfaithful.report _ _, accounts_unknown s, ⟨by simp, by simp [ho]⟩⟩
      | some o =>
        by_cases hid : id ∈ creating
        · rw [lookUp_cycle fuel path hnew ho hid]
          refine ⟨hfaithful.report _ _, accounts_cycle s (ne_lost hlost ho), ?_⟩
          exact ⟨by simp, by simp [hid]⟩
        · rw [lookUp_create fuel path hnew ho hid, bind_apply]
          have hrecord : id ∈ records.map Prod.fst :=
            List.mem_map_of_mem (mem_of_lookup ho)
          -- what a field finds is not being created, or it would be needed to create itself
          have hinside (m : Mention) (hm : o.FieldMention (placeOf id) m) :
              Reports records place lost (id :: creating) current
                (lookInside records (id :: creating) fuel m) (Looking.look m) := by
            have hmem := (o.mem_mentions_shell_iff _ _).mpr ⟨m, hm, rfl⟩
            have hrequired := required_cons hchain ho hmem
            have hfuel' : records.length + 1 ≤ fuel + (id :: creating).length := by
              simp only [List.length_cons]
              omega
            have hnodup' : (id :: creating).Nodup := List.nodup_cons.mpr ⟨hid, hnodup⟩
            have hsub' : id :: creating ⊆ records.map Prod.fst :=
              List.cons_subset.mpr ⟨hrecord, hsub⟩
            exact Recounts.reports (lookUp_spec fuel _ m.id m.path hfuel' hnodup' hsub')
              (ih _ m.id m.path hfuel' hnodup' hsub' hrequired) fun hfound hcycle =>
                hfound.2.not_requires hmem hfound.1 (hrequired m.id hcycle)
          obtain ⟨hstep, hfaithful', hcreate, hmade⟩ := create_accounts hinside hs hfaithful
          have hnew' := (hstep.creating id List.mem_cons_self).trans hnew
          obtain ⟨hfaithful'', hallocate, hrecall⟩ :=
            accounts_allocate hfaithful' ho hnew' hmade hcreate.looked
          -- the record was not created before, so what its fields mention was due
          have hboth := hcreate.andThen hallocate
          refine ⟨hfaithful'', ⟨hboth.told, ?_, hboth.due, fun hdue => .inl ?_⟩, ?_⟩
          · exact fun hnames => absurd (names_at.mp hnames).2 (ne_lost hlost ho)
          · refine (hboth.source hdue).elim (fun h => h) fun hnames => ?_
            exact .upcoming ho hnew (hnames.mono fun m hm => .inl hm)
          · exact ⟨fun k hk => by rw [hrecall, hk], fun _ _ _ => hrecall⟩

theorem reports_follow (mention : Mention) :
    Reports records place lost [] current (follow records mention) (Looking.look mention) := by
  have hlook := @lookUp_spec records current (records.length + 1) [] mention.id mention.path
    (by simp) List.nodup_nil (List.nil_subset _)
  have hrecounts := @lookUp_recounts records place lost current hlost (records.length + 1) []
    mention.id mention.path (by simp) List.nodup_nil (List.nil_subset _) (by simp)
  exact Recounts.reports hlook hrecounts fun _ => List.not_mem_nil

/-! ## Filling in collections -/

omit hlost in
theorem Faithful.added {s : Linking} (hs : Faithful records s) (target : Nat)
    (content : Content Nat) :
    Faithful records { s with objects := s.objects.modify target (·.add content) } := by
  refine ⟨hs.known, hs.failed, fun id k h => ?_⟩
  obtain ⟨hcreatable, o, object, ho, hobject, hkind⟩ := hs.stands id k h
  refine ⟨hcreatable, o, if target = k then object.add content else object, ho, ?_, fun d => ?_⟩
  · simp only [List.getElem?_modify, hobject]
    split <;> rfl
  · rw [← hkind d]
    split
    next => exact d.admits_add object content
    next => rfl

omit hlost in
theorem due_objects {s : Linking} {objects : List (Object Nat)} :
    Due records place lost { s with objects } ↔ Due records place lost s := by
  constructor <;>
    · intro h
      cases h with
      | told h => exact .told h
      | pending hf hnames => exact .pending hf hnames
      | upcoming ho hnew hnames => exact .upcoming ho hnew hnames

omit hlost in
theorem due_cons {s : Linking} {f : Fill} {rest : List Fill} (hpending : s.pending = f :: rest) :
    Due records place lost s ↔ Due records place lost { s with pending := rest } ∨
      Names place lost (f.content.Mentions (Entered records) f.path) := by
  constructor
  · intro h
    cases h with
    | told h => exact .inl (.told h)
    | pending hg hnames =>
      rw [hpending, List.mem_cons] at hg
      rcases hg with rfl | hg
      · exact .inr hnames
      · exact .inl (.pending hg hnames)
    | upcoming ho hnew hnames => exact .inl (.upcoming ho hnew hnames)
  · rintro (h | hnames)
    · cases h with
      | told h => exact .told h
      | pending hg hnames => exact .pending (hpending ▸ List.mem_cons_of_mem f hg) hnames
      | upcoming ho hnew hnames => exact .upcoming ho hnew hnames
    · exact .pending (hpending ▸ List.mem_cons_self) hnames

theorem accounts_fill {s : Linking} {f : Fill} {rest : List Fill} (hs : Tidy records [] s)
    (hfaithful : Faithful records s) (hpending : s.pending = f :: rest) :
    Faithful records (fill records f { s with pending := rest }).2 ∧
      Accounts records place lost (fun _ => False) s
        (fill records f { s with pending := rest }).2 := by
  obtain ⟨hfaithful', haccounts⟩ := content_accounts (@reports_follow records place lost _ hlost) f.path
    f.content (hs.take hpending) ⟨hfaithful.known, hfaithful.failed, hfaithful.stands⟩
  refine ⟨hfaithful'.added _ _, ⟨haccounts.told, ?_, fun h => ?_, fun h => .inl ?_⟩⟩
  · exact fun hnames => absurd hnames not_names_false
  · refine due_objects.mpr (((due_cons hpending).mp h).elim haccounts.due fun hnames => ?_)
    exact .told (haccounts.looked hnames)
  · exact (due_cons hpending).mpr (haccounts.source (due_objects.mp h))

theorem accounts_drain (fuel : Nat) (s : Linking) (hs : Tidy records [] s)
    (hfaithful : Faithful records s) :
    Faithful records (drain records fuel s).2 ∧
      Accounts records place lost (fun _ => False) s (drain records fuel s).2 := by
  induction fuel generalizing s with
  | zero => exact ⟨hfaithful, .refl s⟩
  | succ fuel ih =>
    cases hpending : s.pending with
    | nil =>
      rw [drain_of_nil hpending]
      exact ⟨hfaithful, .refl s⟩
    | cons f rest =>
      rw [drain_of_cons hpending]
      obtain ⟨hfaithful', hfill⟩ := accounts_fill hlost hs hfaithful hpending
      obtain ⟨hfaithful'', hdrain⟩ := ih _ ((round_fill hs hpending).1.tidy hs) hfaithful'
      exact ⟨hfaithful'', hfill.andThen hdrain⟩

theorem accounts_linkAll (rs : Records) (hrecords : ∀ r ∈ rs, ∃ o, records.lookup r.1 = some o)
    (s : Linking) (hweight : s.weight records ≤ uncreated records []) (hs : Tidy records [] s)
    (hfaithful : Faithful records s) :
    Accounts records place lost (fun _ => False) s (linkAll records rs s).2 ∧
      ∀ r ∈ rs, r.1 ∈ (linkAll records rs s).2.created.map Prod.fst := by
  induction rs generalizing s with
  | nil => exact ⟨.refl s, by simp⟩
  | cons r rest ih =>
    rw [linkAll, bind_apply, bind_apply]
    obtain ⟨o, ho⟩ := hrecords r List.mem_cons_self
    obtain ⟨hlook, _⟩ := @round_lookUp records r.1 (placeOf r.1) ⟨o, ho⟩ s hs
    obtain ⟨hfaithful', hrecounts, hrecalls⟩ :=
      @lookUp_recounts records place lost [] hlost (records.length + 1) [] r.1 (placeOf r.1)
        (by simp) List.nodup_nil (List.nil_subset _) (by simp) s hs hfaithful
    obtain ⟨hsettle, hempty⟩ :=
      settle_spec _ (Nat.le_trans hlook.weight hweight) (hlook.tidy hs)
    obtain ⟨hfaithful'', hdrain⟩ := accounts_drain hlost _ _ (hlook.tidy hs) hfaithful'
    have hfirst := hlook.trans hsettle
    have hrest (q : String × Object String) (hq : q ∈ rest) :=
      hrecords q (List.mem_cons_of_mem r hq)
    have hweight' := Nat.le_trans hfirst.weight hweight
    obtain ⟨hothers, hall⟩ := ih hrest _ hweight' (hfirst.tidy hs) hfaithful''
    have hknown : Accounts records place lost (fun _ => False) s _ :=
      hrecounts.congr (iff_of_false not_names_false fun h => ne_lost hlost ho (names_at.mp h).2)
    refine ⟨(hknown.andThen hdrain).andThen hothers, fun q hq => ?_⟩
    rcases List.mem_cons.mp hq with rfl | hq
    · have hcreated := mem_of_lookup (hrecalls.created o ho List.not_mem_nil)
      have hround := (linkAll_spec rest hrest _ hweight' hempty (hfirst.tidy hs)).1
      exact List.mem_map_of_mem (hround.created.subset (hsettle.created.subset hcreated))
    · exact hall q hq

/-! ## What linking reports -/

omit hlost in
theorem faithful_empty : Faithful records {} :=
  ⟨by simp, by simp, by simp⟩

omit hlost in
theorem names_mentioned {root : String} :
    Names place lost (Mentioned records root (Creatable records) (Entered records)) ↔
      Due records place lost {} ∨ Names place lost fun m => m = ⟨"root", root, .visual⟩ := by
  constructor
  · rintro ⟨m, hm, hplace⟩
    cases hm with
    | root => exact .inr ⟨_, rfl, hplace⟩
    | field ho hfield => exact .inl (.upcoming ho rfl ⟨m, .inl hfield, hplace⟩)
    | content ho hcreatable hc hmentions =>
      exact .inl (.upcoming ho rfl ⟨m, .inr ⟨hcreatable, _, hc, hmentions⟩, hplace⟩)
  · rintro (hdue | ⟨m, rfl, hplace⟩)
    · cases hdue with
      | told h => cases h
      | pending h _ => cases h
      | upcoming ho _ hnames =>
        obtain ⟨m, hfield | ⟨hcreatable, c, hc, hmentions⟩, hplace⟩ := hnames
        · exact ⟨m, .field ho hfield, hplace⟩
        · exact ⟨m, .content ho hcreatable hc hmentions, hplace⟩
    · exact ⟨_, .root, hplace⟩

theorem told_run_iff (root : String) :
    Told place lost (run records root {}).2 ↔
      Names place lost (Mentioned records root (Creatable records) (Entered records)) := by
  have hweight : ({} : Linking).weight records ≤ uncreated records [] := by simp [weight]
  obtain ⟨hfollow, hfaithful, hanswered⟩ :=
    @reports_follow records place lost [] hlost ⟨"root", root, .visual⟩ {} tidy_empty faithful_empty
  obtain ⟨answers, hanswers⟩ := exists_answered records
    (follow records ⟨"root", root, .visual⟩ {}).2
  have hroot := (hanswered answers hanswers).1
  simp only [Looking.look_apply, List.mem_singleton] at hroot
  have htidy := hfollow.tidy tidy_empty
  obtain ⟨hsettle, hempty⟩ := settle_spec _ (Nat.le_trans hfollow.weight hweight) htidy
  obtain ⟨hfaithful', hdrain⟩ := accounts_drain hlost _ _ htidy hfaithful
  have hweight' := Nat.le_trans (hfollow.trans hsettle.toStep).weight hweight
  obtain ⟨hothers, hall⟩ := accounts_linkAll hlost records (fun r => exists_lookup_of_mem) _
    hweight' (hsettle.tidy htidy) hfaithful'
  obtain ⟨_, hpending, _⟩ := linkAll_spec records (fun r => exists_lookup_of_mem) _ hweight' hempty
    (hsettle.tidy htidy)
  have haccounts := (hroot.andThen hdrain).andThen hothers
  rw [names_mentioned]
  constructor
  · exact fun htold => haccounts.source (.told htold)
  · rintro (hdue | hnames)
    · cases haccounts.due hdue with
      | told htold => exact htold
      | pending hf _ =>
        rw [show (linkAll records records _).2.pending = [] from hpending] at hf
        cases hf
      | @upcoming id o ho hnew _ =>
        obtain ⟨e, he, heq⟩ := List.mem_map.mp (hall (id, o) (mem_of_lookup ho))
        have hne := List.lookup_eq_none_iff.mp hnew e he
        simp [heq] at hne
    · exact haccounts.looked hnames

end

end Linking

namespace Scene

open Linking

theorem not_linked_of_mentioned {d : Document} {m : Mention}
    (hm : Mentioned d.records d.root (fun _ => True) (fun _ => True) m)
    (hlost : d.records.lookup m.id = none) :
    ¬(Holds d.records (.visual, d.root) ∧ Linked d.records) := by
  rintro ⟨hroot, hlinked⟩
  have hplace {id : String} {o : Object String} (ho : d.records.lookup id = some o)
      (hmention : o.FieldMention (placeOf id) m ∨
        ∃ c ∈ o.contents, c.Mentions (fun _ => True) (placeOf id) m) :
      Holds d.records (m.demand, m.id) :=
    hlinked.mentions id o ho _
      ((o.mem_mentions_iff_place (placeOf id) _).mpr ⟨m, hmention, rfl⟩)
  have hholds : Holds d.records (m.demand, m.id) := by
    cases hm with
    | root => exact hroot
    | field ho hfield => exact hplace ho (.inl hfield)
    | content ho _ hc hmentions => exact hplace ho (.inr ⟨_, hc, hmentions⟩)
  obtain ⟨o, ho, _⟩ := hholds
  rw [hlost] at ho
  cases ho

/--
A document that mentions an unknown id anywhere does not load.  The id is reported at that place
exactly if it is the root, in a field of a record, or in a collection of a record that can be
created and there in no controller of an animation that is not found.
-/
theorem load_reports_unknown_iff {json : Option Json} {d : Document} (hd : Describes json d)
    (path : String) {m : Mention}
    (hm : Mentioned d.records d.root (fun _ => True) (fun _ => True) m)
    (hlost : d.records.lookup m.id = none) :
    ∃ e, Scene.load json path = .error e ∧
      ((⟨m.path, "Unknown object id \"" ++ m.id ++ "\""⟩ : Issue) ∈ e.issues ↔
        ∃ m', Mentioned d.records d.root (Creatable d.records) (Entered d.records) m' ∧
          m'.path = m.path ∧ m'.id = m.id) := by
  have hissues : (Linking.run d.records d.root {}).2.issues ≠ [] := by
    intro hissues
    have hsuccess := (Linking.run_spec d.records d.root).1 hissues
    exact not_linked_of_mentioned hm hlost ⟨hsuccess.visual, hsuccess.linked⟩
  have herror : ofDocument d = .error (Linking.run d.records d.root {}).2.issues :=
    ofDocument_eq_error rfl hissues
  refine ⟨⟨path, _⟩, ?_, told_run_iff hlost d.root⟩
  simp only [load, Document.read_eq_ok_iff.mpr hd, Except.bind, herror, Except.mapError]

/-- A path geometry whose path is unknown, and an animator whose animation is unknown, each with
another unknown id behind it. -/
def hiddenMentions : Option Json :=
  documentOf [
    ("root", .object [("type", .string "ContainerVisual"),
      ("animators", .array [.object [("property", .string "Scale"), ("animation", .string "x"),
        ("controller", .object [("animators", .array [
          .object [("property", .string "Progress"), ("animation", .string "y")]])])]])]),
    ("g", .object [("type", .string "CompositionPathGeometry"), ("path", .string "p"),
      ("animators", .array [
        .object [("property", .string "TrimEnd"), ("animation", .string "z")]])])]

theorem load_reports_unknown_hidden :
    ∃ d e, Describes hiddenMentions d ∧ Scene.load hiddenMentions "" = .error e ∧
      e.issues = [⟨"objects.root.animators.0.animation", "Unknown object id \"x\""⟩,
        ⟨"objects.g.path", "Unknown object id \"p\""⟩] ∧
      ∀ lost ∈ ["y", "z"], d.records.lookup lost = none ∧
        ∃ m, Mentioned d.records d.root (fun _ => True) (fun _ => True) m ∧ m.id = lost ∧
          ¬∃ m', Mentioned d.records d.root (Creatable d.records) (Entered d.records) m' ∧
            m'.path = m.path ∧ m'.id = m.id := by
  obtain ⟨d, hread, hlost⟩ : ∃ d, Document.read hiddenMentions = .ok d ∧
      ∀ r ∈ [("root", "y"), ("g", "z")], (d.records.lookup r.2).isNone = true ∧
        (.animation, r.2) ∈ (d.records.lookup r.1).elim [] Object.mentions :=
    exists_of_toOption (by decide +kernel)
  have hissues : (((Scene.load hiddenMentions "").map fun _ => []).tryCatch fun e =>
      .ok e.issues).toOption = some [
        ⟨"objects.root.animators.0.animation", "Unknown object id \"x\""⟩,
        ⟨"objects.g.path", "Unknown object id \"p\""⟩] := by
    decide +kernel
  have hd : Describes hiddenMentions d := Document.read_eq_ok_iff.mp hread
  cases hload : Scene.load hiddenMentions "" with
  | ok scene =>
    rw [hload] at hissues
    cases hissues
  | error e =>
    rw [hload] at hissues
    have hissues := Option.some.inj hissues
    refine ⟨d, e, hd, rfl, hissues, fun lost hmem => ?_⟩
    obtain ⟨r, hr, rfl⟩ : ∃ r ∈ [("root", "y"), ("g", "z")], r.2 = lost := List.mem_map.mp hmem
    obtain ⟨hnone, hpart⟩ := hlost r hr
    have hlost := Option.isNone_iff_eq_none.mp hnone
    obtain ⟨o, ho⟩ : ∃ o, d.records.lookup r.1 = some o := by
      cases ho : d.records.lookup r.1 with
      | none => simp [ho] at hpart
      | some o => exact ⟨o, rfl⟩
    rw [ho] at hpart
    obtain ⟨m, hm, heq⟩ := (o.mem_mentions_iff_place (placeOf r.1) _).mp hpart
    have hid : m.id = r.2 := congrArg Prod.snd heq
    have hmentioned : Mentioned d.records d.root (fun _ => True) (fun _ => True) m := by
      rcases hm with hm | ⟨c, hc, hm⟩
      · exact .field ho hm
      · exact .content ho trivial hc hm
    obtain ⟨e', he', hiff⟩ := load_reports_unknown_iff hd "" hmentioned (hid ▸ hlost)
    refine ⟨hlost, m, hmentioned, hid, fun hvisible => ?_⟩
    cases hload.symm.trans he'
    have hissue := hiff.mpr hvisible
    rw [hissues, hid] at hissue
    rcases List.mem_pair.mp hr with rfl | rfl <;> simp at hissue

end Scene

end SceneCompiler
