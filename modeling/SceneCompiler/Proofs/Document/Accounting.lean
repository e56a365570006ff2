import SceneCompiler.Proofs.Document.Mentions

/-!
# Reports of unknown ids

An id that names no record is reported at exactly the places that linking looks at.

The proof follows one such id at one place.  It is due in a state if it has been reported there, if
a collection that is still to be filled in mentions it, or if a record that is not created yet will.
An operation of linking keeps what is due, and adds only what it looks up itself, which it reports.
At the end nothing is pending and every record is created, so what is due has been reported.
-/

namespace SceneCompiler

namespace Linking

def Names (place lost : String) (P : Mention → Prop) : Prop :=
  ∃ m, P m ∧ m.path = place ∧ m.id = lost

def Told (place lost : String) (s : Linking) : Prop :=
  (⟨place, "Unknown object id \"" ++ lost ++ "\""⟩ : Issue) ∈ s.issues

/-- What a record mentions that is not created yet: its fields, and if it can be created, its
collections. -/
def Upcoming (records : Records) (id : String) (o : Object String) (m : Mention) : Prop :=
  o.FieldMention (placeOf id) m ∨
    Creatable records id ∧ ∃ c ∈ o.contents, c.Mentions (Entered records) (placeOf id) m

inductive Due (records : Records) (place lost : String) (s : Linking) : Prop
  | told : Told place lost s → Due records place lost s
  | pending {f : Fill} :
      f ∈ s.pending → Names place lost (f.content.Mentions (Entered records) f.path) →
      Due records place lost s
  | upcoming {id : String} {o : Object String} :
      records.lookup id = some o → s.created.lookup id = none →
      Names place lost (Upcoming records id o) → Due records place lost s

def Stands (records : Records) (s : Linking) (id : String) (k : Nat) : Prop :=
  Creatable records id ∧ ∃ o object, records.lookup id = some o ∧ s.objects[k]? = some object ∧
    ∀ d : Demand, d.admits object = d.admits o

structure Faithful (records : Records) (s : Linking) : Prop where
  known : ∀ id found, s.created.lookup id = some found → ∃ o, records.lookup id = some o
  failed : ∀ id, s.created.lookup id = some none → ¬Creatable records id
  stands : ∀ id k, s.created.lookup id = some (some k) → Stands records s id k

/-- How what is due changes from a state to another, between which the mentions of `P` are looked
up. -/
structure Accounts (records : Records) (place lost : String) (P : Mention → Prop)
    (s t : Linking) : Prop where
  told : Told place lost s → Told place lost t
  looked : Names place lost P → Told place lost t
  due : Due records place lost s → Due records place lost t
  source : Due records place lost t → Due records place lost s ∨ Names place lost P

variable {records : Records} {place lost : String} {creating : List String} {current : List Fill}

theorem Names.mono {P Q : Mention → Prop} (h : ∀ m, P m → Q m) (hP : Names place lost P) :
    Names place lost Q := by
  obtain ⟨m, hm, hplace⟩ := hP
  exact ⟨m, h m hm, hplace⟩

theorem names_or {P Q : Mention → Prop} :
    Names place lost (fun m => P m ∨ Q m) ↔ Names place lost P ∨ Names place lost Q := by
  simp only [Names, or_and_right, exists_or]

theorem not_names_false : ¬Names place lost fun _ => False :=
  fun ⟨_, h, _⟩ => h

theorem Accounts.refl (s : Linking) : Accounts records place lost (fun _ => False) s s :=
  ⟨fun h => h, fun h => absurd h not_names_false, fun h => h, fun h => .inl h⟩

theorem Accounts.trans {P Q : Mention → Prop} {s t u : Linking}
    (h : Accounts records place lost P s t) (k : Accounts records place lost Q t u) :
    Accounts records place lost (fun m => P m ∨ Q m) s u := by
  refine ⟨fun hs => k.told (h.told hs), fun hnames => ?_, fun hs => k.due (h.due hs), fun hu => ?_⟩
  · rcases names_or.mp hnames with hP | hQ
    · exact k.told (h.looked hP)
    · exact k.looked hQ
  · rw [names_or, ← or_assoc]
    exact (k.source hu).imp_left h.source

theorem Accounts.congr {P Q : Mention → Prop} {s t : Linking}
    (h : Accounts records place lost P s t) (hiff : Names place lost Q ↔ Names place lost P) :
    Accounts records place lost Q s t :=
  ⟨h.told, fun hQ => h.looked (hiff.mp hQ), h.due, fun ht => (h.source ht).imp_right hiff.mpr⟩

theorem Accounts.andThen {P : Mention → Prop} {s t u : Linking}
    (h : Accounts records place lost P s t)
    (k : Accounts records place lost (fun _ => False) t u) : Accounts records place lost P s u :=
  (h.trans k).congr (by rw [names_or, or_iff_left not_names_false])

/-! ## The rules of reports -/

/-- Answers that find what can be created, at the addresses given so far. -/
structure Answered (records : Records) (s : Linking) (answers : Demand × String → Option Nat) :
    Prop where
  found : ∀ part, (answers part).isSome = true ↔ Found records part
  created : ∀ part k k', answers part = some k → s.created.lookup part.2 = some (some k') → k = k'

theorem exists_answered (records : Records) (s : Linking) : ∃ answers, Answered records s answers := by
  classical
  refine ⟨fun part => if Found records part then some (s.addresses part.2) else none, ?_, ?_⟩
  · intro part
    by_cases h : Found records part <;> simp [h]
  · intro part k k' hanswer hcreated
    rw [← Option.some.inj (Option.ite_none_right_eq_some.mp hanswer).2]
    exact s.agrees_addresses part.2 k' hcreated

theorem Answered.before {s t : Linking} {answers : Demand × String → Option Nat}
    (h : Answered records t answers) (hstep : Step records creating current s t) :
    Answered records s answers := by
  obtain ⟨more, hmore⟩ := hstep.created
  refine ⟨h.found, fun part k k' hanswer hcreated => h.created part k k' hanswer ?_⟩
  rw [← hmore, List.lookup_append, hcreated, Option.some_or]

variable (records place lost creating current) in
/-- An operation that looks up what a run looks at, with the result of the run where what can be
created is found. -/
def Reports {α : Type} (x : Link α) (y : Looking Nat α) : Prop :=
  ∀ s, Tidy records current s → Faithful records s →
    Step records creating current s (x s).2 ∧ Faithful records (x s).2 ∧
      ∀ answers, Answered records (x s).2 answers →
        Accounts records place lost (fun m => m ∈ (y answers).1) s (x s).2 ∧
          (x s).1 = (y answers).2

theorem reports_pure {α : Type} (a : α) :
    Reports records place lost creating current (pure a) (pure a) := by
  refine fun s _ hf => ⟨.refl s, hf, fun answers _ => ⟨(Accounts.refl s).congr ?_, rfl⟩⟩
  simp [Names, Looking.pure_apply]

theorem Reports.bind {α β : Type} {x : Link α} {y : Looking Nat α} {f : α → Link β}
    {g : α → Looking Nat β} (hx : Reports records place lost creating current x y)
    (hf : ∀ a, Reports records place lost creating current (f a) (g a)) :
    Reports records place lost creating current (x >>= f) (y >>= g) := by
  intro s hs hfaithful
  obtain ⟨hstep, hfaithful', hfirst⟩ := hx s hs hfaithful
  obtain ⟨hstep', hfaithful'', hsecond⟩ := hf (x s).1 (x s).2 (hstep.tidy hs) hfaithful'
  refine ⟨hstep.trans hstep', hfaithful'', fun answers hanswers => ?_⟩
  obtain ⟨haccounts, hvalue⟩ := hfirst answers (hanswers.before hstep')
  obtain ⟨haccounts', hvalue'⟩ := hsecond answers hanswers
  rw [Looking.bind_apply, ← hvalue]
  exact ⟨(haccounts.trans haccounts').congr (by simp only [List.mem_append]), hvalue'⟩

variable (records place lost creating current) in
def reporting : RunRelation Link (Looking Nat) where
  Rel := Reports records place lost creating current
  done := reports_pure
  next := Reports.bind

/-! ## What a record looks up -/

section Find

variable {find : Mention → Link (Option Nat)}

def Made (records : Records) (o : Object String) (made : Option (Object Nat)) : Prop :=
  (made.isSome = true ↔ ∀ part ∈ o.parts.take o.arity, Found records part) ∧
    ∀ object, made = some object → ∀ d : Demand, d.admits object = d.admits o

theorem create_accounts {path : String} {o : Object String}
    (hfind : ∀ m, o.FieldMention path m →
      Reports records place lost creating current (find m) (Looking.look m))
    {s : Linking} (hs : Tidy records current s) (hfaithful : Faithful records s) :
    Step records creating current s (o.create find path s).2 ∧
      Faithful records (o.create find path s).2 ∧
      Accounts records place lost (o.FieldMention path) s (o.create find path s).2 ∧
      Made records o (o.create find path s).1 := by
  obtain ⟨hstep, hfaithful', hcreate⟩ :=
    (reporting records place lost creating current).create hfind s hs hfaithful
  obtain ⟨answers, hanswers⟩ := exists_answered records (o.create find path s).2
  obtain ⟨haccounts, hmade⟩ := hcreate answers hanswers
  refine ⟨hstep, hfaithful', by simpa only [Looking.mem_create] using haccounts, ?_, ?_⟩
  · simp only [hmade, Looking.isSome_create, hanswers.found]
  · exact fun object hobject => Looking.admits_create (hmade ▸ hobject)

theorem content_accounts
    (hfind : ∀ m, Reports records place lost creating current (find m) (Looking.look m))
    (path : String) (c : Content String) {s : Linking} (hs : Tidy records current s)
    (hfaithful : Faithful records s) :
    Faithful records (c.resolve find path s).2 ∧
      Accounts records place lost (c.Mentions (Entered records) path) s
        (c.resolve find path s).2 := by
  obtain ⟨_, hfaithful', hcontent⟩ :=
    (reporting records place lost creating current).content hfind path c s hs hfaithful
  obtain ⟨answers, hanswers⟩ := exists_answered records (c.resolve find path s).2
  have haccounts := (hcontent answers hanswers).1
  simp only [Looking.mem_content, hanswers.found] at haccounts
  exact ⟨hfaithful', haccounts⟩

end Find

end Linking

end SceneCompiler
