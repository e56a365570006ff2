import SceneCompiler.Discovery
import SceneCompiler.Proofs.Files.Path

/-!
# File trees that grow

Making directories and writing files lets a tree grow: directories stay, and discovery finds the same
scene files in them as long as nothing is written under the name of a scene file.
-/

namespace SceneCompiler

open Discovery

theorem Discovery.belowAll_cons (excludes : List String) (path name : String) (e : Entry)
    (entries : List (String × Entry)) :
    belowAll excludes path ((name, e) :: entries) =
      belowAll excludes path [(name, e)] ++ belowAll excludes path entries := by
  cases e <;> simp [belowAll]

theorem Discovery.belowAll_file {name : String} (h : isSceneName name = false)
    (excludes : List String) (path text : String) :
    belowAll excludes path [(name, .file text)] = [] := by
  simp [belowAll, h]

namespace Entry

theorem lookup_setName (name other : String) (e : Entry) (entries : List (String × Entry)) :
    (setName name e entries).lookup other =
      if other = name then some e else entries.lookup other := by
  induction entries with
  | nil =>
    rw [setName, List.lookup_cons]
    split <;> simp_all
  | cons entry entries ih =>
    obtain ⟨first, old⟩ := entry
    rw [setName]
    split
    · rename_i heq
      subst heq
      rw [List.lookup_cons, List.lookup_cons]
      split <;> simp_all
    · rename_i hne
      rw [List.lookup_cons, List.lookup_cons, ih]
      split <;> simp_all

theorem belowAll_setName {excludes : List String} {path name : String} {new : Entry}
    {entries : List (String × Entry)}
    (hsome : ∀ old, entries.lookup name = some old →
      belowAll excludes path [(name, new)] = belowAll excludes path [(name, old)])
    (hnone : entries.lookup name = none → belowAll excludes path [(name, new)] = []) :
    belowAll excludes path (setName name new entries) = belowAll excludes path entries := by
  induction entries with
  | nil =>
    rw [setName, hnone rfl, belowAll]
  | cons entry entries ih =>
    obtain ⟨first, old⟩ := entry
    rw [setName]
    split
    · rename_i heq
      subst heq
      rw [belowAll_cons, belowAll_cons _ _ _ old, hsome old (by simp)]
    · rename_i hne
      have hlookup : ((first, old) :: entries).lookup name = entries.lookup name := by
        rw [List.lookup_cons, beq_false_of_ne (Ne.symm hne)]
      rw [hlookup] at hsome hnone
      rw [belowAll_cons, belowAll_cons _ _ _ old entries, ih hsome hnone]

theorem get?_append (e : Entry) (names more : List String) :
    e.get? (names ++ more) = (e.get? names).bind fun e => e.get? more := by
  induction names generalizing e with
  | nil => rfl
  | cons name names ih =>
    cases e with
    | file text => rfl
    | directory entries =>
      simp only [List.cons_append, get?]
      cases entries.lookup name with
      | none => rfl
      | some e => exact ih e

theorem get?_directory_cons (entries : List (String × Entry)) (name : String) (rest : List String) :
    (directory entries).get? (name :: rest) = (entries.lookup name).bind fun e => e.get? rest := by
  simp only [get?]
  cases entries.lookup name <;> rfl

theorem get?_put_concat {e : Entry} {names : List String} {entries : List (String × Entry)}
    (h : e.get? names = some (.directory entries)) (name other : String) (new : Entry) :
    (e.put (names ++ [name]) new).get? (names ++ [other]) =
      if other = name then some new else e.get? (names ++ [other]) := by
  induction names generalizing e with
  | nil =>
    cases h
    by_cases hsame : other = name <;>
      simp [put, get?_directory_cons, lookup_setName, get?, hsame]
  | cons first names ih =>
    cases e with
    | file text => cases h
    | directory es =>
      rw [get?_directory_cons] at h
      cases hfirst : es.lookup first with
      | none =>
        rw [hfirst] at h
        cases h
      | some child =>
        rw [hfirst] at h
        simp only [List.cons_append, put, hfirst, Option.getD_some, get?_directory_cons,
          lookup_setName, if_true]
        exact ih h

theorem get?_put {e : Entry} {names : List String} {entries : List (String × Entry)}
    (h : e.get? names = some (.directory entries)) (name : String) (new : Entry) :
    (e.put (names ++ [name]) new).get? (names ++ [name]) = some new := by
  rw [get?_put_concat h, if_pos rfl]

theorem get?_put_of_ne {e : Entry} {names : List String} {entries : List (String × Entry)}
    (h : e.get? names = some (.directory entries)) {name other : String} (hne : other ≠ name)
    (new : Entry) :
    (e.put (names ++ [name]) new).get? (names ++ [other]) = e.get? (names ++ [other]) := by
  rw [get?_put_concat h, if_neg hne]

/-! ## Growth -/

/-- What may become of the entry at a place when only texts in `W` are written there. -/
inductive Becomes (W : String → Prop) : Option Entry → Option Entry → Prop where
  | same (e : Option Entry) : Becomes W e e
  | directory {entries entries' : List (String × Entry)}
      (h : ∀ excludes path, belowAll excludes path entries' = belowAll excludes path entries) :
      Becomes W (some (.directory entries)) (some (.directory entries'))
  | made {entries : List (String × Entry)}
      (h : ∀ excludes path, belowAll excludes path entries = []) :
      Becomes W none (some (.directory entries))
  | written {old : Option Entry} {text : String} (hold : ∀ entries, old ≠ some (.directory entries))
      (h : W text) : Becomes W old (some (.file text))

theorem Becomes.trans {W : String → Prop} {a b c : Option Entry} (hab : Becomes W a b)
    (hbc : Becomes W b c) : Becomes W a c := by
  cases hab with
  | same => exact hbc
  | directory h =>
    cases hbc with
    | same => exact .directory h
    | directory h' => exact .directory fun excludes path => (h' excludes path).trans (h excludes path)
    | written hold => exact absurd rfl (hold _)
  | made h =>
    cases hbc with
    | same => exact .made h
    | directory h' => exact .made fun excludes path => (h' excludes path).trans (h excludes path)
    | written hold => exact absurd rfl (hold _)
  | written hold h =>
    cases hbc with
    | same => exact .written hold h
    | written _ h' => exact .written hold h'

def Grows (W : List String → String → Prop) (e e' : Entry) : Prop :=
  ∀ place, Becomes (W place) (e.get? place) (e'.get? place)

variable {W : List String → String → Prop}

theorem Grows.refl (e : Entry) : Grows W e e :=
  fun _ => .same _

theorem Grows.trans {a b c : Entry} (hab : Grows W a b) (hbc : Grows W b c) : Grows W a c :=
  fun place => (hab place).trans (hbc place)

theorem Becomes.of_empty {W : String → Prop} {new : Option Entry}
    (h : Becomes W (some (.directory [])) new) : Becomes W none new := by
  have hempty (excludes : List String) (path : String) : belowAll excludes path [] = [] := by
    rw [belowAll]
  cases h with
  | same => exact .made hempty
  | directory h => exact .made fun excludes path => (h excludes path).trans (hempty excludes path)
  | written hold => exact absurd rfl (hold [])

theorem Becomes.belowAll_eq {W : String → Prop} {old new : Entry} (h : Becomes W (some old) (some new))
    (excludes : List String) (path name : String) :
    belowAll excludes path [(name, new)] = belowAll excludes path [(name, old)] := by
  cases h with
  | same => rfl
  | directory h => simp [belowAll, h]
  | written hold =>
    cases old with
    | file text => simp [belowAll]
    | directory entries => exact absurd rfl (hold entries)

/-- What may be put under a name: an empty directory or a file whose name is not that of a scene. -/
inductive Puts (name : String) : Option Entry → Entry → Prop where
  | directory : Puts name none (.directory [])
  | file {old : Option Entry} {text : String} (hold : ∀ entries, old ≠ some (.directory entries))
      (hname : isSceneName name = false) : Puts name old (.file text)

theorem Puts.belowAll_eq_nil {name : String} {old : Option Entry} {new : Entry} (h : Puts name old new)
    (excludes : List String) (path : String) : belowAll excludes path [(name, new)] = [] := by
  cases h with
  | directory => simp [belowAll]
  | file hold hname => exact belowAll_file hname excludes path _

theorem Puts.becomes {W : String → Prop} {name : String} {old : Option Entry} {new : Entry}
    (h : Puts name old new) (hW : ∀ text, new = .file text → W text) : Becomes W old (some new) := by
  cases h with
  | directory => exact .made fun excludes path => by rw [belowAll]
  | file hold _ => exact .written hold (hW _ rfl)

theorem Puts.get?_eq_none {name : String} {old : Option Entry} {new : Entry} (h : Puts name old new)
    (next : String) (rest : List String) :
    new.get? (next :: rest) = none ∧ (old.bind fun e => e.get? (next :: rest)) = none := by
  cases h with
  | directory => exact ⟨rfl, rfl⟩
  | file hold _ =>
    cases old with
    | none => exact ⟨rfl, rfl⟩
    | some old =>
      cases old with
      | file text => exact ⟨rfl, rfl⟩
      | directory entries => exact absurd rfl (hold entries)

theorem grows_setName {entries : List (String × Entry)} {name : String} {new : Entry}
    (hnew : ∀ place, Becomes (W (name :: place)) ((directory entries).get? (name :: place))
      (new.get? place))
    (hbelow : ∀ excludes path,
      belowAll excludes path (setName name new entries) = belowAll excludes path entries) :
    Grows W (directory entries) (directory (setName name new entries)) := by
  intro place
  cases place with
  | nil => exact .directory hbelow
  | cons first place =>
    rw [get?_directory_cons (setName name new entries), lookup_setName]
    split
    · rename_i heq
      subst heq
      exact hnew place
    · rw [get?_directory_cons]
      exact .same _

theorem grows_put {e new : Entry} {names : List String} {name : String}
    (hputs : Puts name (e.get? (names ++ [name])) new)
    (hW : ∀ text, new = .file text → W (names ++ [name]) text) :
    Grows W e (e.put (names ++ [name]) new) := by
  induction names generalizing e W with
  | nil =>
    cases e with
    | file text => exact .refl _
    | directory entries =>
      refine grows_setName (fun place => ?_) fun excludes path => ?_
      · cases place with
        | nil => exact hputs.becomes hW
        | cons next rest =>
          obtain ⟨hnew, hold⟩ := hputs.get?_eq_none next rest
          rw [show name :: next :: rest = ([] ++ [name]) ++ next :: rest from rfl, get?_append, hold]
          change Becomes _ none (new.get? (next :: rest))
          rw [hnew]
          exact .same none
      · refine belowAll_setName (fun old hlookup => ?_) fun _ => hputs.belowAll_eq_nil excludes path
        have hold : (directory entries).get? ([] ++ [name]) = some old := by
          rw [List.nil_append, get?_directory_cons, hlookup]
          rfl
        rw [hold] at hputs
        exact (hputs.becomes hW).belowAll_eq excludes path name
  | cons first names ih =>
    cases e with
    | file text => exact .refl _
    | directory entries =>
      have hchild : ∀ next rest, (directory entries).get? (first :: next :: rest) =
          ((entries.lookup first).getD (directory [])).get? (next :: rest) := by
        intro next rest
        rw [get?_directory_cons]
        cases entries.lookup first <;> rfl
      have hgrows : Grows (fun place => W (first :: place))
          ((entries.lookup first).getD (directory []))
          (((entries.lookup first).getD (directory [])).put (names ++ [name]) new) := by
        refine ih ?_ hW
        obtain ⟨next, rest, hrest⟩ := List.exists_cons_of_ne_nil
          (List.append_ne_nil_of_right_ne_nil names (List.cons_ne_nil name []))
        rwa [List.cons_append, hrest, hchild, ← hrest] at hputs
      refine grows_setName (fun place => ?_) fun excludes path => ?_
      · cases hlookup : entries.lookup first with
        | some child =>
          rw [get?_directory_cons, hlookup]
          rw [hlookup] at hgrows
          exact hgrows place
        | none =>
          rw [hlookup] at hgrows
          cases place with
          | nil =>
            rw [get?_directory_cons, hlookup]
            exact (hgrows []).of_empty
          | cons next rest =>
            rw [hchild, hlookup]
            exact hgrows (next :: rest)
      · have hroot := hgrows []
        refine belowAll_setName (fun old hlookup => ?_) fun hlookup => ?_
        · rw [hlookup] at hroot ⊢
          exact hroot.belowAll_eq excludes path first
        · rw [hlookup] at hroot ⊢
          exact (hroot.belowAll_eq excludes path first).trans
            (Puts.directory.belowAll_eq_nil excludes path)

end Entry

namespace FileTree

variable {t t' : FileTree}

theorem follow_eq_ok_iff {names : List String} (hdown : ∀ name ∈ names, Path.IsDown name)
    {place found : List String} :
    t.follow place names = .ok found ↔
      found = place ++ names ∧ (names = [] ∨ (t.top.get? (place ++ names)).isSome = true) := by
  induction names generalizing place with
  | nil =>
    rw [follow, List.append_nil]
    exact ⟨fun h => ⟨(Except.ok.inj h).symm, .inl rfl⟩, fun h => h.1 ▸ rfl⟩
  | cons name names ih =>
    obtain ⟨⟨hdot, hdots⟩, hnames⟩ := List.forall_mem_cons.mp hdown
    have hget := t.top.get?_append place (name :: names)
    have hnext := t.top.get?_append (place ++ [name]) names
    have hsplit : place ++ name :: names = place ++ [name] ++ names := by simp
    rw [follow]
    cases hplace : t.top.get? place with
    | none => simp [hget, hplace]
    | some e =>
      cases e with
      | file text => simp [hget, hplace, Entry.get?]
      | directory entries =>
        simp only [beq_iff_eq, hdot, hdots, if_false]
        split
        · rename_i hsome
          rw [ih hnames, hsplit]
          cases names with
          | nil => simp [hsome]
          | cons next names => simp
        · rename_i hnone
          rw [hsplit, hnext]
          simp only [Bool.not_eq_true, Option.isSome_eq_false_iff, Option.isNone_iff_eq_none] at hnone
          simp [hnone]

theorem start_of_isAbsolute {path : String} (h : Path.isAbsolute path = true) : t.start path = [] := by
  simp [start, h]

theorem find_eq_ok {path : String} {place : List String} {e : Entry} :
    t.find path = .ok (place, e) ↔ path ≠ "" ∧
      t.follow (t.start path) (Path.parts path) = .ok place ∧ t.top.get? place = some e ∧
      (e.isDirectory = true ∨ Path.endsWithSlash path = false) := by
  unfold find
  by_cases hempty : path = ""
  · subst hempty
    exact iff_of_false nofun fun h => h.1 rfl
  · rw [if_neg (by simpa using hempty)]
    simp only [hempty, ne_eq, not_false_eq_true, true_and]
    cases hfollow : t.follow (t.start path) (Path.parts path) with
    | error fault =>
      refine iff_of_false nofun fun h => ?_
      cases h.1
    | ok found =>
      simp only [bind, Except.bind]
      cases hget : t.top.get? found with
      | none =>
        refine iff_of_false nofun fun h => ?_
        cases h.1
        cases hget.symm.trans h.2.1
      | some e' =>
        cases e' with
        | file text =>
          cases hslash : Path.endsWithSlash path with
          | true =>
            refine iff_of_false nofun ?_
            rintro ⟨hfound, hfile, hdirectory | hslash⟩
            · cases hfound
              cases hget.symm.trans hfile
              cases hdirectory
            · cases hslash
          | false =>
            constructor
            · rintro ⟨rfl, rfl⟩
              exact ⟨rfl, hget, .inr rfl⟩
            · rintro ⟨hfound, hfile, _⟩
              cases hfound
              cases hget.symm.trans hfile
              rfl
        | directory entries =>
          constructor
          · rintro ⟨rfl, rfl⟩
            exact ⟨rfl, hget, .inl rfl⟩
          · rintro ⟨hfound, hdirectory, _⟩
            cases hfound
            cases hget.symm.trans hdirectory
            rfl

theorem find_eq_ok_iff {path : String} (h : Path.Plain path) {place : List String} {e : Entry} :
    t.find path = .ok (place, e) ↔ place = Path.parts path ∧ t.top.get? (Path.parts path) = some e ∧
      (e.isDirectory = true ∨ Path.endsWithSlash path = false) := by
  have hne : path ≠ "" := String.isEmpty_eq_false_iff.mp (Path.isEmpty_of_isAbsolute h.isAbsolute)
  rw [find_eq_ok, start_of_isAbsolute h.isAbsolute, follow_eq_ok_iff h.isDown, List.nil_append]
  constructor
  · rintro ⟨_, ⟨rfl, _⟩, hget, hslash⟩
    exact ⟨rfl, hget, hslash⟩
  · rintro ⟨rfl, hget, hslash⟩
    exact ⟨hne, ⟨rfl, .inr (by rw [hget]; rfl)⟩, hget, hslash⟩

def scenes (source : String) (excludes : Option (List String)) : Entry → List String
  | .file _ => [source]
  | .directory entries =>
    (belowAll (excludes.getD standardExcludes) source entries).mergeSort Text.le

theorem discover_of_find {source : String} {place : List String} {e : Entry}
    (h : t.find source = .ok (place, e)) (excludes : Option (List String)) :
    discover t source excludes = .ok (scenes source excludes e) := by
  rw [discover, stat, h]
  cases e <;> rfl

theorem discover_eq_ok_iff {source : String} (h : Path.Plain source) {excludes : Option (List String)}
    {files : List String} :
    discover t source excludes = .ok files ↔ ∃ e, t.top.get? (Path.parts source) = some e ∧
      (e.isDirectory = true ∨ Path.endsWithSlash source = false) ∧
      files = scenes source excludes e := by
  cases hfind : t.find source with
  | error fault =>
    have hdiscover : discover t source excludes = .error ⟨fault, "stat", source⟩ := by
      rw [discover, stat, hfind]
      rfl
    rw [hdiscover]
    refine iff_of_false nofun ?_
    rintro ⟨e, hget, hslash, _⟩
    rw [(find_eq_ok_iff h).mpr ⟨rfl, hget, hslash⟩] at hfind
    cases hfind
  | ok result =>
    obtain ⟨place, e⟩ := result
    obtain ⟨rfl, hget, hslash⟩ := (find_eq_ok_iff h).mp hfind
    rw [discover_of_find hfind]
    constructor
    · rintro ⟨⟩
      exact ⟨e, hget, hslash, rfl⟩
    · rintro ⟨e', hget', _, rfl⟩
      cases hget.symm.trans hget'
      rfl

theorem plain_of_mem_belowAll (excludes : List String) (path : String)
    (entries : List (String × Entry)) (h : Path.Plain path) :
    ∀ found ∈ belowAll excludes path entries, Path.Plain found := by
  intro found hfound
  fun_induction belowAll excludes path entries generalizing found with
  | case1 => cases hfound
  | case2 path name _ rest ih =>
    rcases List.mem_append.mp hfound with hfound | hfound
    · split at hfound
      · rw [List.mem_singleton.mp hfound]
        exact Path.plain_join h name
      · cases hfound
    · exact ih h found hfound
  | case3 path name entries rest ihEntries ihRest =>
    rcases List.mem_append.mp hfound with hfound | hfound
    · split at hfound
      · cases hfound
      · exact ihEntries (Path.plain_join h name) found hfound
    · exact ihRest h found hfound

theorem plain_of_mem_discover {source : String} (h : Path.Plain source)
    {excludes : Option (List String)} {files : List String}
    (hfiles : discover t source excludes = .ok files) : ∀ path ∈ files, Path.Plain path := by
  obtain ⟨e, _, _, rfl⟩ := (discover_eq_ok_iff h).mp hfiles
  cases e with
  | file text => exact List.forall_mem_singleton.mpr h
  | directory entries =>
    exact fun path hpath => plain_of_mem_belowAll _ source entries h path (List.mem_mergeSort.mp hpath)

section Growth

variable {W : List String → String → Prop} {source : String} {excludes : Option (List String)}
  {files : List String}

theorem discover_of_grows (hgrows : Entry.Grows W t.top t'.top) (hplain : Path.Plain source)
    (h : discover t source excludes = .ok files) : discover t' source excludes = .ok files := by
  obtain ⟨e, hget, hslash, rfl⟩ := (discover_eq_ok_iff hplain).mp h
  rw [discover_eq_ok_iff hplain]
  have hbecomes := hgrows (Path.parts source)
  rw [hget] at hbecomes
  generalize t'.top.get? (Path.parts source) = new at hbecomes ⊢
  cases hbecomes with
  | same => exact ⟨e, rfl, hslash, rfl⟩
  | directory hbelow => exact ⟨_, rfl, .inl rfl, by simp only [scenes, hbelow]⟩
  | written hold =>
    cases e with
    | file text => exact ⟨_, rfl, hslash, rfl⟩
    | directory entries => exact absurd rfl (hold entries)

/-- What discovery finds when the tree has grown it found before, but for a file that was written. -/
theorem discover_cases (hgrows : Entry.Grows W t.top t'.top) (hplain : Path.Plain source)
    (h : discover t' source excludes = .ok files) :
    discover t source excludes = .ok files ∨ files = [] ∨
      ∃ text, files = [source] ∧ t'.top.get? (Path.parts source) = some (.file text) ∧
        W (Path.parts source) text := by
  obtain ⟨e', hget', hslash, rfl⟩ := (discover_eq_ok_iff hplain).mp h
  rw [discover_eq_ok_iff hplain]
  have hbecomes := hgrows (Path.parts source)
  rw [hget'] at hbecomes ⊢
  generalize t.top.get? (Path.parts source) = old at hbecomes ⊢
  cases hbecomes with
  | same => exact .inl ⟨e', rfl, hslash, rfl⟩
  | directory hbelow => exact .inl ⟨_, rfl, .inl rfl, by simp only [scenes, hbelow]⟩
  | made hbelow => exact .inr (.inl (by simp [scenes, hbelow]))
  | written _ hW => exact .inr (.inr ⟨_, rfl, rfl, hW⟩)

end Growth

theorem grows_makeAlong {W : List String → String → Prop} {names place : List String}
    (h : t.makeAlong place names = .ok t') : Entry.Grows W t.top t'.top := by
  induction names generalizing t place with
  | nil =>
    cases h
    exact .refl _
  | cons name names ih =>
    rw [makeAlong] at h
    split at h
    · exact ih h
    · split at h
      · exact ih h
      · dsimp only at h
        split at h
        · exact ih h
        · cases h
        · rename_i hnone
          refine .trans (Entry.grows_put ?_ fun _ hfile => Entry.noConfusion hfile) (ih h)
          rw [hnone]
          exact .directory

section Writing

variable {path : String} (hplain : Path.Plain path) {names : List String} {name : String}

include hplain

theorem isDown_of_concat (hparts : Path.parts path = names ++ [name]) :
    (∀ part ∈ names, Path.IsDown part) ∧ Path.IsDown name :=
  List.forall_mem_append.mp (hparts ▸ hplain.isDown) |>.imp_right List.forall_mem_singleton.mp

theorem writable_spec {place : List String} (h : t.writable path = .ok place) :
    place = Path.parts path ∧ Path.endsWithSlash path = false ∧
      ∃ names name entries, place = names ++ [name] ∧ t.top.get? names = some (.directory entries) ∧
        ∀ entries, t.top.get? place ≠ some (.directory entries) := by
  rw [writable, start_of_isAbsolute hplain.isAbsolute] at h
  obtain hparts | ⟨names, name, hparts⟩ := (Path.parts path).eq_nil_or_concat'
  · rw [hparts] at h
    simp only [List.dropLast_nil, follow, bind, Except.bind, List.getLast?_nil, Option.getD_none] at h
    split at h <;> cases h
  · obtain ⟨hdown, _⟩ := isDown_of_concat hplain hparts
    rw [hparts, List.dropLast_concat, List.getLast?_concat, Option.getD_some] at h
    cases hfollow : t.follow [] names with
    | error fault =>
      rw [hfollow] at h
      cases h
    | ok parent =>
      obtain rfl : parent = names := ((follow_eq_ok_iff hdown).mp hfollow).1
      simp only [hfollow, bind, Except.bind] at h
      split at h
      · rename_i entries hparent
        split at h
        · cases h
        · rename_i hopen
          simp only [Bool.or_eq_true, not_or, Bool.not_eq_true] at hopen
          split at h
          · cases h
          · rename_i hplace
            cases h
            exact ⟨hparts.symm, hopen.2, parent, name, entries, rfl, hparent, hplace⟩
      · cases h
      · cases h

theorem writeFile_eq_ok {entries : List (String × Entry)} (hparts : Path.parts path = names ++ [name])
    (hslash : Path.endsWithSlash path = false) (hparent : t.top.get? names = some (.directory entries))
    (hplace : ∀ entries, t.top.get? (names ++ [name]) ≠ some (.directory entries)) (text : String) :
    t.writeFile path text = .ok { t with top := t.top.put (names ++ [name]) (.file text) } := by
  obtain ⟨hdown, hdot, hdots⟩ := isDown_of_concat hplain hparts
  have hfollow : t.follow [] names = .ok names :=
    (follow_eq_ok_iff hdown).mpr ⟨rfl, .inr (by rw [List.nil_append, hparent]; rfl)⟩
  have hwritable : t.writable path = .ok (names ++ [name]) := by
    rw [writable, start_of_isAbsolute hplain.isAbsolute, hparts, List.dropLast_concat,
      List.getLast?_concat, Option.getD_some]
    simp only [hfollow, bind, Except.bind, hparent, hslash, beq_eq_false_iff_ne.mpr hdot,
      beq_eq_false_iff_ne.mpr hdots, Bool.or_self, Bool.false_eq_true, if_false]
    rfl
  rw [writeFile, hwritable]

end Writing

end FileTree

end SceneCompiler
