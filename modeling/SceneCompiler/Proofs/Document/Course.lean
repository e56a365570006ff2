import Mathlib.Data.List.Chain
import SceneCompiler.Proofs.Document.Linking

/-!
# The course of linking

Linking is followed here with one state that holds the records in creation, and with a record of
the creations begun and the collections filled in.  It ends, creates each record once, and fills in
each collection that was put off once, in that order, with no creation going on.  A cycle is
reported only where single-valued references lead round.
-/

namespace SceneCompiler

namespace Linking

/-! ## Linking with its course -/

structure Course where
  linking : Linking := {}
  creating : List String := []
  creations : List String := []
  fills : List (Fill × List String) := []

/-- Runs that are followed.  One that would need more fuel than it has ends in nothing. -/
abbrev Followed := StateT Course Option

namespace Course

def begin (c : Course) (id : String) : Course :=
  { c with creating := id :: c.creating, creations := c.creations ++ [id] }

def finish (c : Course) : Course :=
  { c with creating := c.creating.tail }

def take (c : Course) (f : Fill) (rest : List Fill) : Course :=
  { c with
    linking := { c.linking with pending := rest }
    fills := c.fills ++ [(f, c.creating)] }

def within {α : Type} (x : Link α) : Followed α :=
  fun c => some ((x c.linking).1, { c with linking := (x c.linking).2 })

def lookUp (records : Records) : (fuel : Nat) → (id path : String) → Followed (Option Nat)
  | 0, _, _ => failure
  | fuel + 1, id, path => do
    let c ← get
    match c.linking.created.lookup id with
    | some found => return found
    | none =>
      match records.lookup id with
      | none =>
        within (report path ("Unknown object id \"" ++ id ++ "\""))
        return none
      | some o =>
        if c.creating.contains id then
          within (report path ("Reference cycle: " ++ " -> ".intercalate (cycle id c.creating)))
          return none
        else
          set (c.begin id)
          let object ← o.create
            (fun mention => do
              let found ← lookUp records fuel mention.id mention.path
              within (demand mention found))
            (placeOf id)
          modify finish
          within (allocate id o object)

def follow (records : Records) (mention : Mention) : Followed (Option Nat) := do
  let found ← lookUp records (records.length + 1) mention.id mention.path
  within (demand mention found)

def fill (records : Records) (f : Fill) : Followed Unit := do
  let content ← f.content.resolve (follow records) f.path
  within (modify fun s => { s with objects := s.objects.modify f.target (·.add content) })

def drain (records : Records) : (fuel : Nat) → Followed Unit
  | 0 => do if (← get).linking.pending.isEmpty then return () else failure
  | fuel + 1 => do
    let c ← get
    match c.linking.pending with
    | [] => return
    | f :: rest =>
      set (c.take f rest)
      fill records f
      drain records fuel

def settle (records : Records) : Followed Unit :=
  drain records (records.flatMap fun r => r.2.contents).length

def linkAll (records : Records) : Records → Followed Unit
  | [] => return
  | r :: rest => do
    let _ ← lookUp records (records.length + 1) r.1 (placeOf r.1)
    settle records
    linkAll records rest

def run (records : Records) (root : String) : Followed (Option Nat) := do
  let found ← follow records ⟨"root", root, .visual⟩
  settle records
  linkAll records records
  return found

end Course

/-! ## What holds along the course -/

def deferred (records : Records) (entry : String × Option Nat) : List Fill :=
  match entry.2, records.lookup entry.1 with
  | some k, some o => o.contents.map (Fill.mk (placeOf entry.1) k)
  | _, _ => []

/-- Ids that lead from a record along single-valued references back to it. -/
def IsCycle (records : Records) (ids : List String) : Prop :=
  ∃ id inner, ids = id :: inner ++ [id] ∧ (id :: inner).Nodup ∧ ids.IsChain (Requires records)

def Genuine (records : Records) (issue : Issue) : Prop :=
  "Reference cycle".toList <+: issue.message.toList →
    ∃ ids, issue.message = "Reference cycle: " ++ " -> ".intercalate ids ∧ IsCycle records ids

namespace Course

structure Valid (records : Records) (c : Course) : Prop where
  creations : c.creations.Perm (c.linking.created.map Prod.fst ++ c.creating)
  nodup : c.creations.Nodup
  known : c.creations ⊆ records.map Prod.fst
  queue : c.fills.map Prod.fst ++ c.linking.pending = c.linking.created.flatMap (deferred records)
  idle : ∀ f ∈ c.fills, f.2 = []
  weight : c.fills.length + c.linking.weight records ≤ uncreated records []
  issues : ∀ issue ∈ c.linking.issues, Genuine records issue

structure Keeps (records : Records) (c d : Course) : Prop where
  valid : d.Valid records
  creating : d.creating = c.creating
  creations : c.creations ⊆ d.creations
  fills : d.fills = c.fills

variable {records : Records} {c d e : Course} {creating : List String} {id : String}
  {o : Object String}

theorem valid_empty (records : Records) : Valid records {} :=
  ⟨.nil, List.nodup_nil, List.nil_subset _, rfl, by simp, by simp [weight], by simp⟩

theorem Keeps.refl (h : c.Valid records) : Keeps records c c :=
  ⟨h, rfl, List.Subset.refl _, rfl⟩

theorem Keeps.trans (h : Keeps records c d) (k : Keeps records d e) : Keeps records c e :=
  ⟨k.valid, k.creating.trans h.creating, List.Subset.trans h.creations k.creations,
    k.fills.trans h.fills⟩

theorem Valid.nodup_parts (h : c.Valid records) :
    (c.linking.created.map Prod.fst ++ c.creating).Nodup :=
  h.creations.nodup_iff.mp h.nodup

theorem Valid.lookup_creating (h : c.Valid records) (hid : id ∈ c.creating) :
    c.linking.created.lookup id = none :=
  lookup_eq_none_iff_key.mpr fun hmem => (List.nodup_append.mp h.nodup_parts).2.2 id hmem id hid rfl

theorem Valid.begin (h : c.Valid records) (ho : records.lookup id = some o)
    (hnew : c.linking.created.lookup id = none) (hid : id ∉ c.creating) :
    (c.begin id).Valid records := by
  have hcreations : id ∉ c.creations := by
    rw [h.creations.mem_iff, List.mem_append, not_or]
    exact ⟨lookup_eq_none_iff_key.mp hnew, hid⟩
  refine ⟨?_, ?_, ?_, h.queue, h.idle, h.weight, h.issues⟩
  · exact (List.perm_append_singleton id _).trans
      ((h.creations.cons id).trans List.perm_middle.symm)
  · exact List.nodup_append.mpr ⟨h.nodup, List.nodup_singleton id,
      fun a ha b hb hab => hcreations (List.mem_singleton.mp hb ▸ hab ▸ ha)⟩
  · refine List.append_subset.mpr ⟨h.known, List.cons_subset.mpr ⟨?_, List.nil_subset _⟩⟩
    exact List.mem_map_of_mem (mem_of_lookup ho)

theorem Valid.report (h : c.Valid records) {path message : String}
    (hissue : Genuine records ⟨path, message⟩) :
    Valid records { c with linking := (Linking.report path message c.linking).2 } := by
  refine ⟨h.creations, h.nodup, h.known, h.queue, h.idle, h.weight, fun issue hmem => ?_⟩
  rcases List.mem_append.mp hmem with hmem | hmem
  · exact h.issues issue hmem
  · exact List.mem_singleton.mp hmem ▸ hissue

theorem Keeps.report (h : c.Valid records) {path message : String}
    (hissue : Genuine records ⟨path, message⟩) :
    Keeps records c { c with linking := (Linking.report path message c.linking).2 } :=
  ⟨h.report hissue, rfl, List.Subset.refl _, rfl⟩

theorem genuine_of_head {path message : String} (h : message.toList.head? ≠ some 'R') :
    Genuine records ⟨path, message⟩ := by
  rintro ⟨rest, hmessage⟩
  exact absurd (congrArg List.head? hmessage.symm) h

theorem allocate_effect {s : Linking} (object : Option (Object Nat))
    (hnew : s.created.lookup id = none) (ho : records.lookup id = some o) :
    ∃ found, (Linking.allocate id o object s).2.created = s.created ++ [(id, found)] ∧
      (Linking.allocate id o object s).2.pending = s.pending ++ deferred records (id, found) ∧
      (Linking.allocate id o object s).2.issues = s.issues ∧
      (Linking.allocate id o object s).2.weight records ≤ s.weight records := by
  cases object with
  | none =>
    exact ⟨none, rfl, (List.append_nil _).symm, rfl,
      Nat.add_le_add_left (uncreated_append_le _ _) _⟩
  | some object =>
    exact ⟨some s.objects.length, rfl, by simp only [deferred, ho]; rfl, rfl,
      weight_allocated object hnew ho⟩

theorem Valid.allocate (h : c.Valid records) (hcreating : c.creating = id :: creating)
    (ho : records.lookup id = some o) (object : Option (Object Nat)) :
    Valid records { c.finish with linking := (Linking.allocate id o object c.linking).2 } := by
  have hnew : c.linking.created.lookup id = none :=
    h.lookup_creating (hcreating ▸ List.mem_cons_self)
  obtain ⟨found, hcreated, hpending, hissues, hweight⟩ := allocate_effect object hnew ho
  refine ⟨?_, h.nodup, h.known, ?_, h.idle, ?_, ?_⟩
  · simpa [hcreated, finish, hcreating] using h.creations
  · rw [hcreated, hpending, List.flatMap_append, ← h.queue, List.flatMap_singleton,
      ← List.append_assoc]
    rfl
  · exact Nat.le_trans (Nat.add_le_add_left hweight _) h.weight
  · rw [hissues]
    exact h.issues

/-! ## Following look-ups -/

theorem bind_some {α β : Type} {x : Followed α} {f : α → Followed β} {a : α}
    (h : x c = some (a, d)) : (x >>= f) c = f a d := by
  change Option.bind (x c) _ = _
  rw [h]
  rfl

variable (records creating) in
/-- While the records of `creating` are being created, a run that is followed ends, gives what the
plain run gives, and keeps the course valid. -/
def following : RunRelation Followed Link where
  Rel x y := ∀ c, c.Valid records → c.creating = creating → ∃ a d,
    x c = some (a, d) ∧ y c.linking = (a, d.linking) ∧ Keeps records c d
  done a c h _ := ⟨a, c, rfl, rfl, .refl h⟩
  next {α β x y f g} hx hf c h hcreating := by
    obtain ⟨a, d, hrun, hplain, hkeeps⟩ := hx c h hcreating
    obtain ⟨b, e, hrun', hplain', hkeeps'⟩ :=
      hf a d hkeeps.valid (hkeeps.creating.trans hcreating)
    refine ⟨b, e, (bind_some hrun).trans hrun', ?_, hkeeps.trans hkeeps'⟩
    rw [bind_apply, hplain]
    exact hplain'

theorem follows_within {α : Type} {x : Link α}
    (h : ∀ c : Course, c.Valid records → c.creating = creating →
      Valid records { c with linking := (x c.linking).2 }) :
    (following records creating).Rel (within x) x := by
  intro c hc hcreating
  exact ⟨_, _, rfl, rfl, h c hc hcreating, rfl, List.Subset.refl _, rfl⟩

theorem follows_demand (mention : Mention) (found : Option Nat) :
    (following records creating).Rel (within (demand mention found)) (demand mention found) := by
  refine follows_within fun c hc _ => ?_
  cases found with
  | none => exact hc
  | some k =>
    cases hobject : c.linking.objects[k]? with
    | none => rwa [demand_missing mention hobject]
    | some object =>
      by_cases hadmits : mention.demand.admits object = true
      · rwa [demand_admitted hobject hadmits]
      · obtain ⟨message, hrefused⟩ := demand_refused hobject hadmits
        rw [hrefused]
        exact hc.report (genuine_of_head (by simp))

def Needs (records : Records) (creating : List String) (id : String) : Prop :=
  (id :: creating).IsChain fun inner outer => Requires records outer inner

theorem isCycle_of_mem (hneeds : Needs records creating id) (hid : id ∈ creating)
    (hnodup : creating.Nodup) : IsCycle records (cycle id creating) := by
  obtain ⟨inner, outer, rfl, hinner⟩ := List.eq_append_cons_of_mem hid
  have hcycle : cycle id (inner ++ id :: outer) = id :: inner.reverse ++ [id] := by
    have hne : ∀ a ∈ inner, (a != id) = true :=
      fun a ha => bne_iff_ne.mpr fun h => hinner (h ▸ ha)
    simp [cycle, List.takeWhile_append_of_pos hne]
  refine ⟨id, inner.reverse, hcycle, ?_, ?_⟩
  · simpa using ⟨hinner, (List.nodup_append.mp hnodup).1⟩
  · have hround : ((id :: inner ++ [id]) ++ outer).IsChain fun a b => Requires records b a := by
      simpa [Needs] using hneeds
    have hback : (id :: inner ++ [id]).reverse = cycle id (inner ++ id :: outer) := by
      rw [hcycle]
      simp
    rw [← hback, List.isChain_reverse]
    exact hround.left_of_append

theorem length_creating_le (hc : c.Valid records) : c.creating.length ≤ records.length := by
  have hsub : c.creating ⊆ records.map Prod.fst := fun id hid =>
    hc.known (hc.creations.mem_iff.mpr (List.mem_append_right _ hid))
  have hnodup := (List.nodup_append.mp hc.nodup_parts).2.1
  simpa using (List.subperm_of_subset hnodup hsub).length_le

theorem follows_lookUp (fuel : Nat) (creating : List String) (id path : String)
    (hfuel : records.length + 1 ≤ fuel + creating.length) (hneeds : Needs records creating id) :
    (following records creating).Rel (lookUp records fuel id path)
      (Linking.lookUp records fuel creating id path) := by
  induction fuel generalizing creating id path with
  | zero =>
    intro c hc hcreating
    have hle := length_creating_le hc
    rw [hcreating] at hle
    omega
  | succ fuel ih =>
    rintro c hc rfl
    rw [lookUp, bind_some rfl]
    cases hnew : c.linking.created.lookup id with
    | some found =>
      rw [lookUp_found fuel path hnew]
      exact ⟨found, c, rfl, rfl, .refl hc⟩
    | none =>
      cases ho : records.lookup id with
      | none =>
        rw [lookUp_unknown fuel path hnew ho]
        exact ⟨none, _, rfl, rfl, .report hc (genuine_of_head (by simp))⟩
      | some o =>
        by_cases hid : id ∈ c.creating
        · rw [lookUp_cycle fuel path hnew ho hid]
          simp only [List.contains_iff_mem.mpr hid, if_true]
          have hcycle := isCycle_of_mem hneeds hid (List.nodup_append.mp hc.nodup_parts).2.1
          exact ⟨none, _, rfl, rfl, .report hc fun _ => ⟨_, rfl, hcycle⟩⟩
        · rw [lookUp_create fuel path hnew ho hid]
          simp only [List.contains_iff_mem, hid, if_false]
          have hfind (mention : Mention) (hmention : o.FieldMention (placeOf id) mention) :
              (following records (id :: c.creating)).Rel
                (do
                  let found ← lookUp records fuel mention.id mention.path
                  within (demand mention found))
                (lookInside records (id :: c.creating) fuel mention) := by
            have hsingle : mention.id ∈ o.singles :=
              o.map_snd_mentions_shell ▸
                List.mem_map_of_mem ((o.mem_mentions_shell_iff _ _).mpr ⟨mention, hmention, rfl⟩)
            have hinner : Needs records (id :: c.creating) mention.id :=
              List.isChain_cons_cons.mpr ⟨⟨o, ho, hsingle⟩, hneeds⟩
            exact (following records _).next
              (ih _ _ _ (by rw [List.length_cons]; omega) hinner)
              fun found => follows_demand mention found
          obtain ⟨object, d, hrun, hplain, hkeeps⟩ :=
            (following records (id :: c.creating)).create hfind (c.begin id)
              (hc.begin ho hnew hid) rfl
          change o.create (lookInside records (id :: c.creating) fuel) (placeOf id)
            c.linking = _ at hplain
          have hvalid := hkeeps.valid.allocate hkeeps.creating ho object
          rw [bind_some rfl, bind_some hrun, bind_apply, hplain]
          refine ⟨_, _, rfl, rfl, hvalid, ?_, ?_, hkeeps.fills⟩
          · change d.creating.tail = _
            rw [hkeeps.creating]
            rfl
          · exact fun a ha => hkeeps.creations (List.mem_append_left _ ha)

theorem follows_follow (mention : Mention) :
    (following records []).Rel (follow records mention) (Linking.follow records mention) :=
  (following records []).next
    (follows_lookUp _ [] mention.id mention.path (Nat.le_add_right _ _) (List.isChain_singleton _))
    fun found => follows_demand mention found

theorem follows_fill (f : Fill) :
    (following records []).Rel (fill records f) (Linking.fill records f) :=
  (following records []).next ((following records []).content follows_follow f.path f.content)
    fun _ => follows_within fun _ hc _ =>
      ⟨hc.creations, hc.nodup, hc.known, hc.queue, hc.idle, hc.weight, hc.issues⟩

/-! ## Following the queue -/

theorem Valid.take (h : c.Valid records) (hcreating : c.creating = []) {f : Fill} {rest : List Fill}
    (hpending : c.linking.pending = f :: rest) : (c.take f rest).Valid records := by
  refine ⟨h.creations, h.nodup, h.known, ?_, ?_, ?_, h.issues⟩
  · have hqueue := h.queue
    rw [hpending] at hqueue
    simpa [Course.take] using hqueue
  · intro g hg
    rcases List.mem_append.mp hg with hg | hg
    · exact h.idle g hg
    · rw [List.mem_singleton.mp hg]
      exact hcreating
  · have hweight := h.weight
    simp only [Course.take, Linking.weight, hpending, List.length_append, List.length_cons,
      List.length_nil] at hweight ⊢
    omega

structure Rests (records : Records) (c d : Course) : Prop where
  valid : d.Valid records
  creating : d.creating = []
  pending : d.linking.pending = []
  creations : c.creations ⊆ d.creations

theorem drain_spec (fuel : Nat) (hc : c.Valid records) (hcreating : c.creating = [])
    (hfuel : uncreated records [] ≤ fuel + c.fills.length) :
    ∃ d, drain records fuel c = some ((), d) ∧
      Linking.drain records fuel c.linking = ((), d.linking) ∧ Rests records c d := by
  induction fuel generalizing c with
  | zero =>
    have hempty : c.linking.pending = [] := by
      have hweight := hc.weight
      simp only [weight] at hweight
      exact List.length_eq_zero_iff.mp (by omega)
    refine ⟨c, ?_, rfl, hc, hcreating, hempty, List.Subset.refl _⟩
    rw [drain, bind_some rfl]
    simp only [hempty, List.isEmpty_nil, if_true]
    rfl
  | succ fuel ih =>
    rw [drain, bind_some rfl]
    cases hpending : c.linking.pending with
    | nil =>
      exact ⟨c, rfl, drain_of_nil hpending, hc, hcreating, hpending, List.Subset.refl _⟩
    | cons f rest =>
      obtain ⟨_, d, hrun, hplain, hkeeps⟩ :=
        follows_fill f (c.take f rest) (hc.take hcreating hpending) hcreating
      have hfills : d.fills.length = c.fills.length + 1 := by
        rw [hkeeps.fills]
        simp [Course.take]
      obtain ⟨e, hdrain, hdrained, hrests⟩ :=
        ih hkeeps.valid (hkeeps.creating.trans hcreating) (by omega)
      refine ⟨e, ?_, ?_, { hrests with
        creations := List.Subset.trans hkeeps.creations hrests.creations }⟩
      · dsimp only
        rw [bind_some rfl, bind_some hrun]
        exact hdrain
      · change Linking.fill records f { c.linking with pending := rest } = _ at hplain
        rw [drain_of_cons hpending, hplain]
        exact hdrained

theorem settle_spec (hc : c.Valid records) (hcreating : c.creating = []) :
    ∃ d, settle records c = some ((), d) ∧
      Linking.settle records c.linking = ((), d.linking) ∧ Rests records c d :=
  drain_spec _ hc hcreating (by simp [uncreated])

theorem mem_created_lookUp (ho : records.lookup id = some o) (fuel : Nat) (path : String)
    (s : Linking) :
    id ∈ (Linking.lookUp records (fuel + 1) [] id path s).2.created.map Prod.fst := by
  cases hnew : s.created.lookup id with
  | some found =>
    rw [lookUp_found fuel path hnew]
    exact List.mem_map_of_mem (mem_of_lookup hnew)
  | none =>
    rw [lookUp_create fuel path hnew ho List.not_mem_nil, bind_apply]
    cases (o.create (lookInside records [id] fuel) (placeOf id) s).1 <;>
      exact List.mem_map_of_mem (List.mem_append_right _ (List.mem_singleton_self _))

theorem linkAll_spec {rs : Records} (hrs : rs ⊆ records) (hc : c.Valid records)
    (hcreating : c.creating = []) (hpending : c.linking.pending = []) :
    ∃ d, linkAll records rs c = some ((), d) ∧
      Linking.linkAll records rs c.linking = ((), d.linking) ∧ Rests records c d ∧
      rs.map Prod.fst ⊆ d.creations := by
  induction rs generalizing c with
  | nil =>
    exact ⟨c, rfl, rfl, ⟨hc, hcreating, hpending, List.Subset.refl _⟩, List.nil_subset _⟩
  | cons r rest ih =>
    obtain ⟨hr, hrest⟩ := List.cons_subset.mp hrs
    obtain ⟨found, d, hlook, hlooked, hkeeps⟩ := follows_lookUp (records.length + 1) [] r.1
      (placeOf r.1) (Nat.le_add_right _ _) (List.isChain_singleton _) c hc hcreating
    obtain ⟨e, hsettle, hsettled, hidle⟩ :=
      settle_spec hkeeps.valid (hkeeps.creating.trans hcreating)
    obtain ⟨f, hlink, hlinked, hrests, hall⟩ :=
      ih hrest hidle.valid hidle.creating hidle.pending
    have hgrow : d.creations ⊆ f.creations :=
      List.Subset.trans hidle.creations hrests.creations
    refine ⟨f, ?_, ?_, { hrests with
      creations := List.Subset.trans hkeeps.creations hgrow }, ?_⟩
    · rw [linkAll, bind_some hlook, bind_some hsettle]
      exact hlink
    · rw [Linking.linkAll, bind_apply, bind_apply, hlooked, hsettled]
      exact hlinked
    · refine List.cons_subset.mpr ⟨hgrow ?_, hall⟩
      obtain ⟨o, ho⟩ := exists_lookup_of_mem hr
      have hcreated := mem_created_lookUp ho records.length (placeOf r.1) c.linking
      rw [hlooked] at hcreated
      exact hkeeps.valid.creations.mem_iff.mpr (List.mem_append_left _ hcreated)

end Course

/-- Linking ends.  It begins the creation of each record once, and of nothing else, and ends each.  It
fills in each collection that a creation puts off once, in the order in which they were put off, with
no creation going on.  Every issue about a cycle lists ids that lead along single-valued references
from a record back to it. -/
theorem records_created_once (records : Records) (root : String) :
    ∃ found c, Course.run records root {} = some (found, c) ∧
      run records root {} = (found, c.linking) ∧
      (c.creations.Nodup ∧ ∀ id, id ∈ c.creations ↔ id ∈ records.map Prod.fst) ∧
      (c.creating = [] ∧ c.creations.Perm (c.linking.created.map Prod.fst)) ∧
      c.fills.map Prod.fst = c.linking.created.flatMap (deferred records) ∧
      (∀ f ∈ c.fills, f.2 = []) ∧
      ∀ issue ∈ c.linking.issues, "Reference cycle".toList <+: issue.message.toList →
        ∃ ids, issue.message = "Reference cycle: " ++ " -> ".intercalate ids ∧
          IsCycle records ids := by
  obtain ⟨found, a, hroot, hrooted, hkeeps⟩ :=
    Course.follows_follow ⟨"root", root, .visual⟩ {} (Course.valid_empty records) rfl
  obtain ⟨b, hsettle, hsettled, hidle⟩ := Course.settle_spec hkeeps.valid hkeeps.creating
  obtain ⟨c, hlink, hlinked, hrests, hall⟩ := Course.linkAll_spec (List.Subset.refl records)
    hidle.valid hidle.creating hidle.pending
  have hqueue := hrests.valid.queue
  have hperm := hrests.valid.creations
  rw [hrests.pending, List.append_nil] at hqueue
  rw [hrests.creating, List.append_nil] at hperm
  refine ⟨found, c, ?_, ?_, ⟨hrests.valid.nodup, fun id => ⟨fun h => hrests.valid.known h,
    fun h => hall h⟩⟩, ⟨hrests.creating, hperm⟩, hqueue, hrests.valid.idle, hrests.valid.issues⟩
  · rw [Course.run, Course.bind_some hroot, Course.bind_some hsettle, Course.bind_some hlink]
    rfl
  · change Linking.follow records _ ({} : Linking) = _ at hrooted
    rw [run, bind_apply, bind_apply, bind_apply, hrooted, hsettled, hlinked]
    rfl

end Linking

end SceneCompiler
