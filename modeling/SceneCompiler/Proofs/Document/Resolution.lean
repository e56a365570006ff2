import Mathlib.Logic.Relation
import SceneCompiler.Proofs.Document.Places

/-!
# Resolution of mentions

Linking is a loop over a queue around a recursion, so what each operation does to the state is said
once, by `Step`.  What it finds is said by `Resolves`, which relates it to the run that looks at the
same mentions and finds them all.
-/

namespace SceneCompiler

namespace Linking

variable (records : Records)

def Holds (part : Demand × String) : Prop :=
  ∃ o, records.lookup part.2 = some o ∧ part.1.admits o = true

def Requires (a b : String) : Prop :=
  ∃ o, records.lookup a = some o ∧ b ∈ o.singles

structure Linked : Prop where
  mentions : ∀ id o, records.lookup id = some o → ∀ part ∈ o.mentions, Holds records part
  acyclic : ∀ id, ¬Relation.TransGen (Requires records) id id

def uncreated (created : List (String × Option Nat)) : Nat :=
  ((records.filter fun r => (created.lookup r.1).isNone).flatMap fun r => r.2.contents).length

def weight (s : Linking) : Nat :=
  s.pending.length + uncreated records s.created

def Agrees (s : Linking) (A : String → Nat) : Prop :=
  ∀ id k, s.created.lookup id = some (some k) → A id = k

/--
A state that nothing was reported for.  Records are created at one address after another, each after
those it requires.  An object has the collections of its record that were filled in, in order; the
others are pending or `current`.
-/
structure Clean (current : List Fill) (s : Linking) : Prop where
  nodup : (s.created.map Prod.fst).Nodup
  placed : ∀ before id found after, s.created = before ++ (id, found) :: after →
    found = some before.length ∧
      ∃ o, records.lookup id = some o ∧ ∀ r ∈ o.singles, r ∈ before.map Prod.fst
  size : s.objects.length = s.created.length
  targets : ∀ f ∈ current ++ s.pending, f.target < s.objects.length
  built : ∀ id k o, (id, some k) ∈ s.created → records.lookup id = some o →
    ∃ done rest, o.contents = done ++ rest ∧
      ((current ++ s.pending).filter fun f => f.target == k) =
        rest.map (Fill.mk (placeOf id) k) ∧
      (∀ part ∈ o.shell.mentions ++ done.flatMap Content.mentions, Holds records part) ∧
      ∀ A, s.Agrees A → s.objects[k]? = some ((done.foldl Object.add o.shell).map A)

def Tidy (current : List Fill) (s : Linking) : Prop :=
  s.issues = [] → Clean records current s

/-- What an operation may do to the state while the records of `creating` are being created. -/
structure Step (creating : List String) (current : List Fill) (s t : Linking) : Prop where
  issues : t.issues = [] → s.issues = []
  created : s.created <+: t.created
  creating : ∀ id ∈ creating, t.created.lookup id = s.created.lookup id
  weight : t.weight records ≤ s.weight records
  tidy : Tidy records current s → Tidy records current t

variable {records} {creating : List String} {current : List Fill}

theorem Step.refl (s : Linking) : Step records creating current s s :=
  ⟨id, List.prefix_rfl, fun _ _ => rfl, Nat.le_refl _, id⟩

theorem Step.trans {s t u : Linking} (h : Step records creating current s t)
    (k : Step records creating current t u) : Step records creating current s u :=
  ⟨fun hu => h.issues (k.issues hu), h.created.trans k.created,
    fun id hid => (k.creating id hid).trans (h.creating id hid),
    Nat.le_trans k.weight h.weight, fun hs => k.tidy (h.tidy hs)⟩

theorem Step.mono {creating' : List String} (hsub : creating' ⊆ creating) {s t : Linking}
    (h : Step records creating current s t) : Step records creating' current s t :=
  { h with creating := fun id hid => h.creating id (hsub hid) }

theorem Step.agrees {s t : Linking} (h : Step records creating current s t) {A : String → Nat}
    (hA : t.Agrees A) : s.Agrees A := by
  obtain ⟨more, hmore⟩ := h.created
  intro id k hk
  exact hA id k (by rw [← hmore, List.lookup_append, hk, Option.some_or])

def Reached (records : Records) (s : Linking) (part : Demand × String) : Prop :=
  Holds records part ∧ part.2 ∈ s.created.map Prod.fst

theorem Step.reached {s t : Linking} (h : Step records creating current s t)
    {part : Demand × String} (hpart : Reached records s part) : Reached records t part :=
  ⟨hpart.1, List.map_subset Prod.fst h.created.subset hpart.2⟩

def addresses (s : Linking) (id : String) : Nat :=
  (s.created.lookup id).join.getD 0

theorem Clean.lookup {s : Linking} (hs : Clean records current s) {id : String}
    {found : Option Nat} (h : (id, found) ∈ s.created) : s.created.lookup id = some found := by
  obtain ⟨before, after, hsplit⟩ := List.append_of_mem h
  refine List.lookup_eq_some_iff.mpr ⟨before, after, hsplit, fun e he => ?_⟩
  have hnodup := hs.nodup
  rw [hsplit, List.map_append, List.nodup_append] at hnodup
  simpa using (hnodup.2.2 e.1 (List.mem_map_of_mem he) id (by simp)).symm

theorem agrees_addresses (s : Linking) : s.Agrees s.addresses := by
  intro id k hk
  simp [addresses, hk]

theorem Clean.addresses_eq {s : Linking} (hs : Clean records current s) {id : String} {k : Nat}
    (h : (id, some k) ∈ s.created) : s.addresses id = k :=
  s.agrees_addresses id k (hs.lookup h)

theorem Clean.found {s : Linking} (hs : Clean records current s) {id : String}
    {found : Option Nat} (h : (id, found) ∈ s.created) :
    ∃ k o, found = some k ∧ records.lookup id = some o := by
  obtain ⟨before, after, hsplit⟩ := List.append_of_mem h
  obtain ⟨hfound, o, ho, _⟩ := hs.placed before id found after hsplit
  exact ⟨_, o, hfound, ho⟩

/-! ## The rules of resolution -/

theorem bind_apply {α β : Type} (x : Link α) (f : α → Link β) (s : Linking) :
    (x >>= f) s = f (x s).1 (x s).2 :=
  rfl

theorem pure_apply {α : Type} (a : α) (s : Linking) : (pure a : Link α) s = (a, s) :=
  rfl

theorem get_apply (s : Linking) : (get : Link Linking) s = (s, s) :=
  rfl

theorem modify_apply (f : Linking → Linking) (s : Linking) : (modify f : Link Unit) s = ((), f s) :=
  rfl

theorem report_apply (path message : String) (s : Linking) :
    report path message s = ((), { s with issues := s.issues ++ [⟨path, message⟩] }) :=
  rfl

theorem step_report (s : Linking) (path message : String) :
    Step records creating current s (report path message s).2 := by
  refine ⟨fun h => ?_, List.prefix_rfl, fun _ _ => rfl, Nat.le_refl _, fun _ h => ?_⟩ <;>
    simp [report_apply] at h

theorem issues_report_ne (s : Linking) (path message : String) :
    (report path message s).2.issues ≠ [] := by
  simp [report_apply]

variable (records creating current) in
/--
An operation that looks up what a run looks at.  If nothing is reported, then all of it is reached,
and the result is that of the run with the addresses found.  If all of it is `good`, then nothing is
reported.
-/
def Resolves (good : Demand × String → Prop) {α : Type} (x : Link α) (y : Looking Nat α) : Prop :=
  ∀ s, Tidy records current s →
    Step records creating current s (x s).2 ∧ ∀ A, (x s).2.Agrees A →
      ((x s).2.issues = [] →
        (∀ part ∈ (y.complete A).1, Reached records (x s).2 part) ∧ (x s).1 = (y.complete A).2) ∧
      ((∀ part ∈ (y.complete A).1, good part) → s.issues = [] → (x s).2.issues = [])

section Rules

variable {good : Demand × String → Prop} {α β : Type}

theorem resolves_pure (a : α) : Resolves records creating current good (pure a) (pure a) :=
  fun s _ => ⟨.refl s, fun _ _ => ⟨fun _ => ⟨by simp [Looking.complete_pure], rfl⟩, fun _ h => h⟩⟩

theorem Resolves.bind {x : Link α} {y : Looking Nat α} {f : α → Link β} {g : α → Looking Nat β}
    (hx : Resolves records creating current good x y)
    (hf : ∀ a, Resolves records creating current good (f a) (g a)) :
    Resolves records creating current good (x >>= f) (y >>= g) := by
  intro s hs
  obtain ⟨hstep, hfirst⟩ := hx s hs
  obtain ⟨hstep', hsecond⟩ := hf (x s).1 (x s).2 (hstep.tidy hs)
  rw [bind_apply]
  refine ⟨hstep.trans hstep', fun A hA => ?_⟩
  obtain ⟨hfound, hquiet⟩ := hfirst A (hstep'.agrees hA)
  obtain ⟨hfound', hquiet'⟩ := hsecond A hA
  rw [Looking.complete_bind]
  constructor
  · intro hissues
    obtain ⟨hreached, hvalue⟩ := hfound (hstep'.issues hissues)
    obtain ⟨hreached', hvalue'⟩ := hfound' hissues
    rw [← hvalue]
    exact ⟨fun part hpart => (List.mem_append.mp hpart).elim
      (fun hpart => hstep'.reached (hreached part hpart)) (hreached' part), hvalue'⟩
  · intro hgood hissues
    have hmiddle := hquiet (fun part hpart => hgood part (List.mem_append_left _ hpart)) hissues
    obtain ⟨_, hvalue⟩ := hfound hmiddle
    rw [← hvalue] at hgood
    exact hquiet' (fun part hpart => hgood part (List.mem_append_right _ hpart)) hmiddle

variable (records creating current good) in
def resolving : RunRelation Link (Looking Nat) where
  Rel := Resolves records creating current good
  done := resolves_pure
  next := Resolves.bind

theorem Resolves.parts {x : Link α} {y : Looking Nat α}
    (hx : Resolves records creating current good x y) {parts : List (Demand × String)}
    {value : (String → Nat) → α} (hy : ∀ A, y.complete A = (parts, value A)) {s : Linking}
    (hs : Tidy records current s) :
    Step records creating current s (x s).2 ∧
      ((x s).2.issues = [] → (∀ part ∈ parts, Reached records (x s).2 part) ∧
        ∀ A, (x s).2.Agrees A → (x s).1 = value A) ∧
      ((∀ part ∈ parts, good part) → s.issues = [] → (x s).2.issues = []) := by
  obtain ⟨hstep, hx⟩ := hx s hs
  simp only [hy] at hx
  have hsome := hx _ (agrees_addresses _)
  exact ⟨hstep, fun hissues => ⟨(hsome.1 hissues).1, fun A hA => ((hx A hA).1 hissues).2⟩, hsome.2⟩

end Rules

/-! ## What a record looks up -/

section Find

variable (records creating current) in
def Finds (good : Demand × String → Prop) (find : Mention → Link (Option Nat)) : Prop :=
  ∀ mention, Resolves records creating current good (find mention) (Looking.look mention)

variable {good : Demand × String → Prop} {find : Mention → Link (Option Nat)}

theorem resolves_create (hfind : Finds records creating current good find)
    (path : String) (o : Object String) :
    Resolves records creating current good (o.create find path) (o.create Looking.look path) :=
  (resolving records creating current good).create fun mention _ => hfind mention

theorem resolves_content (hfind : Finds records creating current good find)
    (path : String) (c : Content String) :
    Resolves records creating current good (c.resolve find path) (c.resolve Looking.look path) :=
  (resolving records creating current good).content hfind path c

end Find

end Linking

end SceneCompiler
