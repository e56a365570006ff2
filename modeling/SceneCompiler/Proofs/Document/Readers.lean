import SceneCompiler.Proofs.Document.Format

/-!
# Readers of the document format

A reading gives a value if it has that value and no issue.  What a reader gives is what the format
says, for each way of putting readers together.
-/

namespace SceneCompiler

open Members

namespace Reading

variable {α β : Type}

def Gives (r : Reading α) (a : α) : Prop :=
  r.value = some a ∧ r.issues = []

theorem exists_gives {r : Reading α} (h : r.issues = []) : ∃ a, r.Gives a := by
  cases hvalue : r.value with
  | none => exact absurd h (r.reported hvalue)
  | some a => exact ⟨a, hvalue, h⟩

@[simp] theorem gives_found {a b : α} {issues : List Issue} :
    (found a issues).Gives b ↔ a = b ∧ issues = [] := by
  simp [Gives, found]

@[simp] theorem gives_pure {a b : α} : (pure a : Reading α).Gives b ↔ a = b := by
  simp [pure]

@[simp] theorem not_gives_reject {path : KeyPath} {message : String} {a : α} :
    ¬(reject path message).Gives a := by
  simp [Gives, reject]

@[simp] theorem not_gives_wrongType {path : KeyPath} {expected : String} {j : Json} {a : α} :
    ¬(wrongType path expected j).Gives a :=
  not_gives_reject

@[simp] theorem gives_map {f : α → β} {r : Reading α} {b : β} :
    (f <$> r).Gives b ↔ ∃ a, r.Gives a ∧ f a = b := by
  simp only [Gives, Functor.map, Option.map_eq_some_iff]
  grind

@[simp] theorem gives_seq {f : Reading (α → β)} {r : Reading α} {b : β} :
    (f <*> r).Gives b ↔ ∃ g, f.Gives g ∧ ∃ a, r.Gives a ∧ g a = b := by
  simp only [Gives, Seq.seq, Option.bind_eq_some_iff, Option.map_eq_some_iff,
    List.append_eq_nil_iff]
  grind

theorem gives_pair {γ : Type} {k : α → β → γ} {r : Reading α} {s : Reading β} {c : γ} :
    (k <$> r <*> s).Gives c ↔ ∃ a b, c = k a b ∧ r.Gives a ∧ s.Gives b := by
  simp only [gives_seq, gives_map]
  constructor
  · rintro ⟨_, ⟨a, ha, rfl⟩, b, hb, rfl⟩
    exact ⟨a, b, rfl, ha, hb⟩
  · rintro ⟨a, b, rfl, ha, hb⟩
    exact ⟨k a, ⟨a, ha, rfl⟩, b, hb, rfl⟩

@[simp] theorem gives_andThen {r : Reading α} {f : α → Reading β} {b : β} :
    (r.andThen f).Gives b ↔ ∃ a, r.Gives a ∧ (f a).Gives b := by
  cases hvalue : r.value with
  | none => simp [Gives, andThen, hvalue]
  | some a =>
    simp only [Gives, andThen, hvalue, later, Option.bind_some, List.append_eq_nil_iff,
      Option.some.injEq]
    grind

@[simp] theorem gives_check {test : α → Bool} {path : KeyPath} {message : String} {r : Reading α}
    {a : α} : (r.check test path message).Gives a ↔ r.Gives a ∧ test a = true := by
  simp only [check, gives_andThen]
  constructor
  · rintro ⟨b, hb, h⟩
    split at h <;> simp_all
  · rintro ⟨ha, htest⟩
    exact ⟨a, ha, by simp [htest]⟩

end Reading

namespace Reader

variable {α : Type} {path : KeyPath} {j : Json}

@[simp] theorem gives_string {s : String} : (string path j).Gives s ↔ Format.string j s := by
  cases j <;> simp [string, Format.string]

@[simp] theorem gives_number (path : KeyPath) (j : Json) (n : Number) :
    (number path j).Gives n ↔ Format.number j n := by
  cases j <;> simp [number, Format.number]

@[simp] theorem gives_bool {b : Bool} : (bool path j).Gives b ↔ Format.bool j b := by
  cases j <;> simp [bool, Format.bool]

@[simp] theorem gives_check {test : α → Bool} {message : String} {r : Reader α} {a : α} :
    (r.check test message path j).Gives a ↔ (r path j).Gives a ∧ test a = true :=
  Reading.gives_check

theorem gives_listFrom {r : Reader α} {F : Format α} {items : List Json}
    (h : ∀ j ∈ items, ∀ path a, (r path j).Gives a ↔ F j a) (i : Nat) (as : List α) :
    (listFrom r path i items).Gives as ↔ List.Forall₂ F items as := by
  induction items generalizing i as with
  | nil => cases as <;> simp [listFrom]
  | cons item rest ih =>
    have hrest := ih fun j hj => h j (List.mem_cons_of_mem _ hj)
    cases as <;> simp [listFrom, h item List.mem_cons_self, hrest]

section Lists

variable {r : Reader α} {F : Format α} (h : ∀ path j a, (r path j).Gives a ↔ F j a)
include h

theorem gives_list {as : List α} : (list r path j).Gives as ↔ Format.list F j as := by
  cases j <;> simp [list, Format.list, gives_listFrom fun j _ path a => h path j a]

theorem gives_membersOf (ms : Members) (entries : List (String × α)) :
    (membersOf r path ms).Gives entries ↔ List.Forall₂ (Format.entry F) ms entries := by
  induction ms generalizing entries with
  | nil => cases entries <;> simp [membersOf]
  | cons m rest ih =>
    rcases m with ⟨key, j⟩
    cases entries with
    | nil => simp [membersOf]
    | cons e es =>
      rcases e with ⟨key', a⟩
      simp [membersOf, h, ih, Format.entry]
      tauto

theorem gives_map {entries : List (String × α)} :
    (map r path j).Gives entries ↔ Format.map F j entries := by
  cases j <;> simp [map, Format.map, gives_membersOf h, eq_comm]

end Lists

end Reader

namespace Fields

variable {α : Type} {f : Fields} {key : String} {r : Reader α}

@[simp] theorem gives_required {a : α} :
    (f.required key r).Gives a ↔
      Required f.members key (fun j a => (r (f.path ++ [key]) j).Gives a) a := by
  cases h : f.members.lookup key <;> simp [required, Required, h]

@[simp] theorem gives_optional {a : Option α} :
    (f.optional key r).Gives a ↔
      Optional f.members key (fun j a => (r (f.path ++ [key]) j).Gives a) a := by
  cases h : f.members.lookup key <;> cases a <;> simp [optional, Optional, Required, h]

@[simp] theorem gives_withDefault {default a : α} :
    (f.withDefault key default r).Gives a ↔
      Defaulted f.members key default (fun j a => (r (f.path ++ [key]) j).Gives a) a := by
  simp only [withDefault, Reading.gives_map, gives_optional, Defaulted]
  cases h : f.members.lookup key with
  | none => simp [Required, Optional, h, Option.exists, eq_comm]
  | some j => simp [Required, Optional, h, Option.exists]

end Fields

namespace Reader

variable {α : Type} {path : KeyPath} {j : Json}

@[simp] theorem gives_object {r : Fields → Reading α} {a : α} :
    (object r path j).Gives a ↔ ∃ ms, j = .object ms ∧ (r ⟨path, ms⟩).Gives a := by
  cases j <;> simp [object]

/--
If each option of a table gives only what is described under its tag, and whatever is described has
its option, then the table gives what is described.
-/
theorem gives_option_iff {options : List (String × (Fields → Reading α))} {f : Fields}
    {tagOf : α → String} {D : α → Prop}
    (hsound : ∀ option ∈ options, ∀ a, (option.2 f).Gives a → tagOf a = option.1 ∧ D a)
    (hcomplete : ∀ a, D a → ∃ r, options.lookup (tagOf a) = some r ∧ (r f).Gives a)
    {tag : String} {a : α} :
    (∃ r, options.lookup tag = some r ∧ (r f).Gives a) ↔ tag = tagOf a ∧ D a := by
  constructor
  · rintro ⟨r, hr, ha⟩
    obtain ⟨before, after, hsplit, _⟩ := List.lookup_eq_some_iff.mp hr
    obtain ⟨htag, hD⟩ := hsound (tag, r) (by simp [hsplit]) a ha
    exact ⟨htag.symm, hD⟩
  · rintro ⟨rfl, hD⟩
    exact hcomplete a hD

theorem gives_tagged {key : String} {options : List (String × (Fields → Reading α))} {a : α} :
    (tagged key options path j).Gives a ↔
      ∃ ms tag, j = .object ms ∧ ms.lookup key = some (.string tag) ∧
        ∃ r, options.lookup tag = some r ∧ (r ⟨path, ms⟩).Gives a := by
  simp only [tagged, gives_object]
  constructor
  · rintro ⟨ms, rfl, hgives⟩
    split at hgives
    next r htag =>
      split at htag
      next tag hkey => exact ⟨ms, tag, rfl, hkey, r, htag, hgives⟩
      next => cases htag
    next => exact absurd hgives Reading.not_gives_reject
  · rintro ⟨ms, tag, rfl, hkey, r, hr, hgives⟩
    exact ⟨ms, rfl, by simpa only [hkey, hr] using hgives⟩

class LawfulNamed (α : Type) [Named α] : Prop where
  mem_members : ∀ a : α, a ∈ Named.members (α := α)
  name_injective : ∀ a b : α, Named.name a = Named.name b → a = b

theorem find?_eq_some_iff [Named α] [LawfulNamed α] {s : String} {a : α} :
    Named.find? s = some a ↔ s = Named.name a := by
  constructor
  · intro h
    have hname : Named.name a = s := by simpa using List.find?_some h
    exact hname.symm
  · rintro rfl
    cases hfind : Named.find? (α := α) (Named.name a) with
    | none =>
      have hnone := List.find?_eq_none.mp hfind a (LawfulNamed.mem_members a)
      simp at hnone
    | some b =>
      have hname : Named.name b = Named.name a := by simpa using List.find?_some hfind
      rw [LawfulNamed.name_injective b a hname]

@[simp] theorem gives_named [Named α] [LawfulNamed α] {a : α} :
    (named path j).Gives a ↔ Format.named j a := by
  cases j with
  | string s =>
    simp only [named, Format.named, Json.string.injEq, ← find?_eq_some_iff]
    cases Named.find? (α := α) s <;> simp
  | _ => simp [named, Format.named]

instance : LawfulNamed StrokeCap :=
  ⟨fun a => by cases a <;> decide, fun a b => by cases a <;> cases b <;> decide⟩

instance : LawfulNamed LineJoin :=
  ⟨fun a => by cases a <;> decide, fun a b => by cases a <;> cases b <;> decide⟩

instance : LawfulNamed CombineMode :=
  ⟨fun a => by cases a <;> decide, fun a b => by cases a <;> cases b <;> decide⟩

instance : LawfulNamed FilledRegion :=
  ⟨fun a => by cases a <;> decide, fun a b => by cases a <;> cases b <;> decide⟩

instance : LawfulNamed FigureLoop :=
  ⟨fun a => by cases a <;> decide, fun a b => by cases a <;> cases b <;> decide⟩

end Reader

end SceneCompiler
