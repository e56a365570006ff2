import Mathlib.Data.List.Forall2
import SceneCompiler.Proofs.Files.Search
import SceneCompiler.Proofs.Text.Order

/-!
# Listings

A directory lists its entries in some order.  Discovery finds the scene files below a directory by the
names that lead to them, and gives their paths in order, so the order of the listings does not matter.
-/

namespace SceneCompiler

namespace Entry

/-- The same tree with its entries listed in another order, in a directory or in those below. -/
inductive Relists : Entry → Entry → Prop
  | refl (e : Entry) : Relists e e
  | listed {entries entries' : List (String × Entry)} :
      entries.Perm entries' → Relists (.directory entries) (.directory entries')
  | inside {before after : List (String × Entry)} {name : String} {e e' : Entry} :
      Relists e e' → Relists (.directory (before ++ (name, e) :: after))
        (.directory (before ++ (name, e') :: after))
  | trans {a b c : Entry} : Relists a b → Relists b c → Relists a c

namespace Relists

theorem proper {e e' : Entry} (h : Relists e e') (hproper : e.Proper) : e'.Proper := by
  induction h with
  | refl e => exact hproper
  | @listed entries entries' hperm =>
    rw [Proper, properAll_iff] at hproper ⊢
    exact ⟨(hperm.map Prod.fst).nodup_iff.mp hproper.1,
      fun entry hentry => hproper.2 entry (hperm.mem_iff.mpr hentry)⟩
  | @inside before after name e e' _ ih =>
    rw [Proper, properAll_iff] at hproper ⊢
    refine ⟨by simpa using hproper.1, fun entry hentry => ?_⟩
    have hold := hproper.2
    rw [List.forall_mem_append, List.forall_mem_cons] at hold
    rcases List.mem_append.mp hentry with hentry | hentry
    · exact hold.1 entry hentry
    · rcases List.mem_cons.mp hentry with rfl | hentry
      · exact ⟨hold.2.1.1, hold.2.1.2.1, ih hold.2.1.2.2⟩
      · exact hold.2.2 entry hentry
  | trans _ _ ih ih' => exact ih' (ih hproper)

theorem cases_kind {e e' : Entry} (h : Relists e e') :
    (∃ text, e = .file text ∧ e' = .file text) ∨
      ∃ entries entries', e = .directory entries ∧ e' = .directory entries' := by
  induction h with
  | refl e =>
    cases e with
    | file text => exact .inl ⟨text, rfl, rfl⟩
    | directory entries => exact .inr ⟨entries, entries, rfl, rfl⟩
  | listed _ => exact .inr ⟨_, _, rfl, rfl⟩
  | inside _ _ => exact .inr ⟨_, _, rfl, rfl⟩
  | trans _ _ ih ih' =>
    rcases ih with ⟨text, rfl, rfl⟩ | ⟨entries, middle, rfl, rfl⟩
    · exact ih'
    · rcases ih' with ⟨text, hfile, _⟩ | ⟨_, entries', _, rfl⟩
      · cases hfile
      · exact .inr ⟨entries, entries', rfl, rfl⟩

end Relists

def LeadsAlike (e e' : Entry) : Prop :=
  ∀ names, Option.Rel Relists (e.get? names) (e'.get? names)

theorem LeadsAlike.refl (e : Entry) : LeadsAlike e e := by
  intro names
  cases e.get? names with
  | none => exact .none
  | some found => exact .some (.refl found)

theorem LeadsAlike.trans {a b c : Entry} (hab : LeadsAlike a b) (hbc : LeadsAlike b c) :
    LeadsAlike a c := by
  intro names
  have hfirst := hab names
  have hsecond := hbc names
  generalize a.get? names = x at hfirst ⊢
  generalize b.get? names = y at hfirst hsecond
  generalize c.get? names = z at hsecond ⊢
  cases hfirst with
  | none =>
    cases hsecond
    exact .none
  | some hxy =>
    cases hsecond with
    | some hyz => exact .some (hxy.trans hyz)

theorem LeadsAlike.file_iff {e e' : Entry} (h : LeadsAlike e e') {names : List String} {text : String} :
    e.get? names = some (.file text) ↔ e'.get? names = some (.file text) := by
  have hnames := h names
  generalize e.get? names = found at hnames ⊢
  generalize e'.get? names = found' at hnames ⊢
  cases hnames with
  | none => rfl
  | some hfound =>
    rcases hfound.cases_kind with ⟨text, rfl, rfl⟩ | ⟨entries, entries', rfl, rfl⟩
    · rfl
    · simp

theorem Relists.leadsAlike {e e' : Entry} (h : Relists e e') (hproper : e.Proper) :
    LeadsAlike e e' := by
  induction h with
  | refl e => exact .refl e
  | @listed entries entries' hperm =>
    intro names
    cases names with
    | nil => exact .some (.listed hperm)
    | cons name names =>
      rw [Proper] at hproper
      have hnodup' := (hperm.map Prod.fst).nodup_iff.mp hproper.1
      have hlookup : entries.lookup name = entries'.lookup name := Option.ext fun e => by
        rw [lookup_eq_some_iff_mem hproper.1, lookup_eq_some_iff_mem hnodup', hperm.mem_iff]
      have hrefl := LeadsAlike.refl (directory entries') (name :: names)
      rw [get?_directory_cons] at hrefl
      rwa [get?_directory_cons, get?_directory_cons, hlookup]
  | @inside before after name e e' hinside ih =>
    intro names
    cases names with
    | nil => exact .some (.inside hinside)
    | cons first names =>
      have he : e.Proper := by
        rw [Proper, properAll_iff] at hproper
        exact (hproper.2 (name, e) (List.mem_append_right _ List.mem_cons_self)).2.2
      have hsame (entries : List (String × Entry)) : List.Forall₂ (fun entry entry' =>
          entry.1 = entry'.1 ∧ LeadsAlike entry.2 entry'.2) entries entries :=
        List.forall₂_same.mpr fun entry _ => ⟨rfl, .refl entry.2⟩
      have hall : List.Forall₂ (fun entry entry' =>
          entry.1 = entry'.1 ∧ LeadsAlike entry.2 entry'.2)
          (before ++ (name, e) :: after) (before ++ (name, e') :: after) :=
        List.rel_append (hsame before) (.cons ⟨rfl, ih he⟩ (hsame after))
      have hlookup := rel_lookup hall first
      rw [get?_directory_cons, get?_directory_cons]
      generalize List.lookup first (before ++ (name, e) :: after) = found at hlookup ⊢
      generalize List.lookup first (before ++ (name, e') :: after) = found' at hlookup ⊢
      cases hlookup with
      | none => exact .none
      | some hfound => exact hfound names
  | trans hab _ ih ih' => exact (ih hproper).trans (ih' (hab.proper hproper))

end Entry

/-! ## Finding -/

namespace FileTree

variable {t t' : FileTree}

section Relisted

variable (hproper : t.top.Proper) (h : t.top.Relists t'.top)

include hproper h

theorem follow_of_relists (place parts : List String) :
    t'.follow place parts = t.follow place parts := by
  have halike := h.leadsAlike hproper
  induction parts generalizing place with
  | nil => rfl
  | cons part parts ih =>
    have hsome (names : List String) : (t'.top.get? names).isSome = (t.top.get? names).isSome := by
      have hnames := halike names
      generalize t.top.get? names = found at hnames ⊢
      generalize t'.top.get? names = found' at hnames ⊢
      cases hnames <;> rfl
    have hplace := halike place
    rw [follow, follow, hsome]
    generalize t.top.get? place = found at hplace ⊢
    generalize t'.top.get? place = found' at hplace ⊢
    cases hplace with
    | none => rfl
    | some hfound =>
      rcases hfound.cases_kind with ⟨text, rfl, rfl⟩ | ⟨entries, entries', rfl, rfl⟩
      · rfl
      · simp only [ih]

theorem find_of_relists (hcurrent : t'.current = t.current) {path : String} {place : List String}
    {e : Entry} (hfind : t.find path = .ok (place, e)) :
    ∃ e', t'.find path = .ok (place, e') ∧ e.Relists e' := by
  obtain ⟨hne, hfollow, hget, hslash⟩ := find_eq_ok.mp hfind
  have hplace := h.leadsAlike hproper place
  rw [hget] at hplace
  obtain ⟨e', hget', hrelists⟩ : ∃ e', t'.top.get? place = some e' ∧ e.Relists e' := by
    generalize t'.top.get? place = found at hplace
    cases hplace with
    | some hrelists => exact ⟨_, rfl, hrelists⟩
  have hstart : t'.start path = t.start path := by rw [start, start, hcurrent]
  have hkind : e'.isDirectory = e.isDirectory := by
    rcases hrelists.cases_kind with ⟨text, rfl, rfl⟩ | ⟨entries, entries', rfl, rfl⟩ <;> rfl
  refine ⟨e', find_eq_ok.mpr ⟨hne, ?_, hget', hkind ▸ hslash⟩, hrelists⟩
  rw [follow_of_relists hproper h, hstart, hfollow]

end Relisted

end FileTree

/-! ## Scene files -/

namespace Discovery

variable {excludes : List String}

/-- Names that lead to a scene file below a directory, through no directory that is left out. -/
inductive Finds (excludes : List String) : List (String × Entry) → List String → Prop
  | file {entries : List (String × Entry)} {name text : String} :
      (name, .file text) ∈ entries → isSceneName name = true → Finds excludes entries [name]
  | inside {entries inner : List (String × Entry)} {name : String} {names : List String} :
      (name, .directory inner) ∈ entries → name ∉ excludes → Finds excludes inner names →
      Finds excludes entries (name :: names)

theorem Finds.mono {entries entries' : List (String × Entry)} {names : List String}
    (h : Finds excludes entries names) (hsub : entries ⊆ entries') : Finds excludes entries' names := by
  cases h with
  | file hmem hscene => exact .file (hsub hmem) hscene
  | inside hmem hnot hfinds => exact .inside (hsub hmem) hnot hfinds

theorem finds_file_cons {name text : String} {rest : List (String × Entry)} {names : List String} :
    Finds excludes ((name, .file text) :: rest) names ↔
      isSceneName name = true ∧ names = [name] ∨ Finds excludes rest names := by
  constructor
  · intro h
    cases h with
    | file hmem hscene =>
      rcases List.mem_cons.mp hmem with heq | hmem
      · cases heq
        exact .inl ⟨hscene, rfl⟩
      · exact .inr (.file hmem hscene)
    | inside hmem hnot hfinds =>
      rcases List.mem_cons.mp hmem with heq | hmem
      · cases heq
      · exact .inr (.inside hmem hnot hfinds)
  · rintro (⟨hscene, rfl⟩ | h)
    · exact .file List.mem_cons_self hscene
    · exact h.mono (List.subset_cons_self _ _)

theorem finds_directory_cons {name : String} {inner rest : List (String × Entry)}
    {names : List String} :
    Finds excludes ((name, .directory inner) :: rest) names ↔
      (name ∉ excludes ∧ ∃ more, names = name :: more ∧ Finds excludes inner more) ∨
        Finds excludes rest names := by
  constructor
  · intro h
    cases h with
    | file hmem hscene =>
      rcases List.mem_cons.mp hmem with heq | hmem
      · cases heq
      · exact .inr (.file hmem hscene)
    | inside hmem hnot hfinds =>
      rcases List.mem_cons.mp hmem with heq | hmem
      · cases heq
        exact .inl ⟨hnot, _, rfl, hfinds⟩
      · exact .inr (.inside hmem hnot hfinds)
  · rintro (⟨hnot, more, rfl, hfinds⟩ | h)
    · exact .inside List.mem_cons_self hnot hfinds
    · exact h.mono (List.subset_cons_self _ _)

theorem mem_belowAll_iff (excludes : List String) (base : String) (entries : List (String × Entry))
    (path : String) :
    path ∈ belowAll excludes base entries ↔
      ∃ names, Finds excludes entries names ∧ path = names.foldl Path.join base := by
  fun_induction belowAll excludes base entries with
  | case1 base =>
    refine iff_of_false List.not_mem_nil ?_
    rintro ⟨names, hfinds, _⟩
    cases hfinds with
    | file hmem => cases hmem
    | inside hmem => cases hmem
  | case2 base name text rest ih =>
    simp only [List.mem_append, ih, finds_file_cons, or_and_right, exists_or]
    refine or_congr_left ?_
    split
    · rename_i hscene
      simp [hscene]
    · rename_i hscene
      simp [hscene]
  | case3 base name entries rest ihEntries ihRest =>
    simp only [List.mem_append, ihRest, finds_directory_cons, or_and_right, exists_or]
    refine or_congr_left ?_
    split
    · rename_i hexcluded
      simp [List.contains_iff_mem.mp hexcluded]
    · rename_i hexcluded
      have hnot : name ∉ excludes := fun hmem => hexcluded (List.contains_iff_mem.mpr hmem)
      rw [ihEntries]
      constructor
      · rintro ⟨names, hfinds, rfl⟩
        exact ⟨name :: names, ⟨hnot, names, rfl, hfinds⟩, rfl⟩
      · rintro ⟨_, ⟨_, names, rfl, hfinds⟩, rfl⟩
        exact ⟨names, hfinds, rfl⟩

theorem finds_iff {entries : List (String × Entry)} (hproper : (Entry.directory entries).Proper)
    {names : List String} :
    Finds excludes entries names ↔ ∃ folders name text, names = folders ++ [name] ∧
      (Entry.directory entries).get? names = some (.file text) ∧ isSceneName name = true ∧
      ∀ folder ∈ folders, folder ∉ excludes := by
  constructor
  · intro h
    induction h with
    | @file entries name text hmem hscene =>
      rw [Entry.Proper] at hproper
      refine ⟨[], name, text, rfl, ?_, hscene, by simp⟩
      rw [Entry.get?_directory_cons, lookup_of_mem_nodup hproper.1 hmem]
      rfl
    | @inside entries inner name names hmem hnot _ ih =>
      rw [Entry.Proper] at hproper
      obtain ⟨folders, last, text, rfl, hget, hscene, hfolders⟩ := ih (hproper.2.of_mem hmem).2.2
      refine ⟨name :: folders, last, text, rfl, ?_, hscene, ?_⟩
      · rw [Entry.get?_directory_cons, lookup_of_mem_nodup hproper.1 hmem]
        exact hget
      · exact List.forall_mem_cons.mpr ⟨hnot, hfolders⟩
  · rintro ⟨folders, name, text, rfl, hget, hscene, hfolders⟩
    induction folders generalizing entries with
    | nil =>
      rw [List.nil_append, Entry.get?_directory_cons] at hget
      obtain ⟨e, hlookup, hfile⟩ := Option.bind_eq_some_iff.mp hget
      cases hfile
      exact .file (mem_of_lookup hlookup) hscene
    | cons folder folders ih =>
      rw [List.cons_append, Entry.get?_directory_cons] at hget
      obtain ⟨e, hlookup, hrest⟩ := Option.bind_eq_some_iff.mp hget
      obtain ⟨hfolder, hfolders⟩ := List.forall_mem_cons.mp hfolders
      have hmem := mem_of_lookup hlookup
      cases e with
      | file text => cases folders <;> cases hrest
      | directory inner =>
        rw [Entry.Proper] at hproper
        exact .inside hmem hfolder (ih (hproper.2.of_mem hmem).2.2 hrest hfolders)

theorem finds_of_relists {entries entries' : List (String × Entry)}
    (hproper : (Entry.directory entries).Proper)
    (h : (Entry.directory entries).Relists (.directory entries')) {names : List String} :
    Finds excludes entries names ↔ Finds excludes entries' names := by
  rw [finds_iff hproper, finds_iff (h.proper hproper)]
  simp only [(h.leadsAlike hproper).file_iff]

end Discovery

namespace FileTree

open Discovery Entry

variable {t : FileTree} {base : String} {place : List String} {entries : List (String × Entry)}

theorem Lists.find_names (h : t.Lists base place entries) {name : String} {names : List String}
    {text : String} (hget : (Entry.directory entries).get? (name :: names) = some (.file text)) :
    t.find ((name :: names).foldl Path.join base) = .ok (place ++ name :: names, .file text) ∧
      ∀ n ∈ name :: names, Path.IsPart n ∧ Path.IsDown n := by
  induction names generalizing base place entries name with
  | nil =>
    rw [get?_directory_cons] at hget
    obtain ⟨e, hlookup, hfile⟩ := Option.bind_eq_some_iff.mp hget
    cases hfile
    have hmem := mem_of_lookup hlookup
    obtain ⟨hpart, hdown, _⟩ := h.proper.of_mem hmem
    exact ⟨h.find_join hmem, List.forall_mem_singleton.mpr ⟨hpart, hdown⟩⟩
  | cons next names ih =>
    rw [get?_directory_cons] at hget
    obtain ⟨e, hlookup, hrest⟩ := Option.bind_eq_some_iff.mp hget
    have hmem := mem_of_lookup hlookup
    cases e with
    | file text => cases hrest
    | directory inner =>
      obtain ⟨hpart, hdown, _⟩ := h.proper.of_mem hmem
      obtain ⟨hfind, hnames⟩ := ih (h.below hmem) hrest
      rw [List.append_assoc, List.singleton_append] at hfind
      rw [List.foldl_cons, hfind]
      exact ⟨rfl, List.forall_mem_cons.mpr ⟨⟨hpart, hdown⟩, hnames⟩⟩

theorem Lists.find_join_names (h : t.Lists base place entries) {names : List String} {text : String}
    (hget : (Entry.directory entries).get? names = some (.file text)) :
    names.foldl Path.join base = Path.join base ("/".intercalate names) ∧
      t.find (Path.join base ("/".intercalate names)) = .ok (place ++ names, .file text) := by
  cases names with
  | nil => cases hget
  | cons name names =>
    obtain ⟨hfind, hnames⟩ := h.find_names hget
    have hjoin := Path.foldl_join base (fun n hn => (hnames n hn).1) fun n hn => (hnames n hn).2
    rw [hjoin] at hfind
    exact ⟨hjoin, hfind⟩

end FileTree

/-- Discovery on a directory gives the paths of the scene files below it that are in no directory left
out.  Each of these paths leads to its file, and they are in strict order of their code units; listing
the entries of directories in another order makes no difference. -/
theorem discover_directory {t : FileTree} (hproper : t.top.Proper) {source : String}
    {place : List String} {entries : List (String × Entry)}
    (hsource : t.find source = .ok (place, .directory entries)) (excludes : Option (List String)) :
    ∃ files, discover t source excludes = .ok files ∧
      (∀ path, path ∈ files ↔ ∃ folders name text,
        (Entry.directory entries).get? (folders ++ [name]) = some (.file text) ∧
        ".json".toList <:+ name.toList ∧
        (∀ folder ∈ folders, folder ∉ excludes.getD Discovery.standardExcludes) ∧
        path = Path.join source ("/".intercalate (folders ++ [name]))) ∧
      (∀ names text, (Entry.directory entries).get? names = some (.file text) →
        t.find (Path.join source ("/".intercalate names)) = .ok (place ++ names, .file text)) ∧
      (files.Pairwise fun a b => List.Lex (· < ·) (Text.units a) (Text.units b)) ∧
      ∀ t' : FileTree, t.top.Relists t'.top → t'.current = t.current →
        discover t' source excludes = .ok files := by
  have hlists := FileTree.lists_of_find hproper hsource
  have hentries := hproper.of_get? (FileTree.find_eq_ok.mp hsource).2.2.1
  have hnodup := FileTree.nodup_belowAll (excludes.getD Discovery.standardExcludes) source entries hlists
  refine ⟨_, FileTree.discover_of_find hsource excludes, fun path => ?_,
    fun names text hget => (hlists.find_join_names hget).2, Text.mergeSort_ascends hnodup,
    fun t' hrelists hcurrent => ?_⟩
  · rw [FileTree.scenes, List.mem_mergeSort, Discovery.mem_belowAll_iff]
    simp only [Discovery.finds_iff hentries]
    constructor
    · rintro ⟨_, ⟨folders, name, text, rfl, hget, hscene, hfolders⟩, rfl⟩
      exact ⟨folders, name, text, hget, List.isSuffixOf_iff_suffix.mp hscene, hfolders,
        (hlists.find_join_names hget).1⟩
    · rintro ⟨folders, name, text, hget, hscene, hfolders, rfl⟩
      exact ⟨_, ⟨folders, name, text, rfl, hget, List.isSuffixOf_iff_suffix.mpr hscene, hfolders⟩,
        (hlists.find_join_names hget).1.symm⟩
  · obtain ⟨e', hfind', hbelow⟩ := FileTree.find_of_relists hproper hrelists hcurrent hsource
    obtain ⟨entries', rfl⟩ : ∃ entries', e' = .directory entries' := by
      rcases hbelow.cases_kind with ⟨text, hfile, _⟩ | ⟨_, entries', _, rfl⟩
      · cases hfile
      · exact ⟨entries', rfl⟩
    have hlists' := FileTree.lists_of_find (hrelists.proper hproper) hfind'
    have hnodup' := FileTree.nodup_belowAll (excludes.getD Discovery.standardExcludes) source entries'
      hlists'
    rw [FileTree.discover_of_find hfind' excludes, FileTree.scenes, FileTree.scenes]
    refine congrArg _ (Text.mergeSort_eq_of_perm ((List.perm_ext_iff_of_nodup hnodup' hnodup).mpr ?_))
    intro path
    rw [Discovery.mem_belowAll_iff, Discovery.mem_belowAll_iff]
    simp only [Discovery.finds_of_relists hentries hbelow]

/-- A directory with two scenes, one of them in a directory, and another that is left out. -/
def mixedEntries : List (String × Entry) :=
  [("b.json", .file ""), ("dist", .directory [("c.json", .file "")]),
    ("a", .directory [("x.json", .file "")])]

def mixedTree : FileTree where
  top := .directory [("s", .directory mixedEntries)]

def relistedTree : FileTree where
  top := .directory [("s", .directory mixedEntries.reverse)]

theorem discover_directory_mixed :
    ∃ files, discover mixedTree "s" none = .ok files ∧ "s/b.json" ∈ files ∧ "s/a/x.json" ∈ files ∧
      "s/dist/c.json" ∉ files ∧ discover relistedTree "s" none = .ok files := by
  have hproper : mixedTree.top.Proper := by
    simp only [mixedTree, mixedEntries, Entry.Proper, Entry.ProperAll, Path.IsPart, Path.IsDown]
    decide +kernel
  have hparts : Path.parts "s" = ["s"] := by decide +kernel
  have hsource : mixedTree.find "s" = .ok (["s"], .directory mixedEntries) := by
    refine FileTree.find_eq_ok.mpr ⟨by decide, ?_, rfl, .inl rfl⟩
    rw [hparts, show mixedTree.start "s" = [] by decide +kernel]
    rfl
  have hrelists : mixedTree.top.Relists relistedTree.top :=
    @Entry.Relists.inside [] [] "s" _ _ (.listed (List.reverse_perm mixedEntries).symm)
  obtain ⟨files, hfiles, hmem, hfind, _, horder⟩ := discover_directory hproper hsource none
  refine ⟨files, hfiles,
    (hmem _).mpr ⟨[], "b.json", "", rfl, by decide, by decide, by decide +kernel⟩,
    (hmem _).mpr ⟨["a"], "x.json", "", rfl, by decide, by decide, by decide +kernel⟩,
    fun hleft => ?_, horder relistedTree hrelists rfl⟩
  -- only the names through the directory that is left out lead to the third scene
  obtain ⟨folders, name, text, hget, _, hfolders, hpath⟩ := (hmem _).mp hleft
  have hfound := hfind _ _ hget
  have hthird := hfind ["dist", "c.json"] "" rfl
  rw [← hpath] at hfound
  rw [show Path.join "s" ("/".intercalate ["dist", "c.json"]) = "s/dist/c.json" by decide +kernel,
    hfound] at hthird
  have hnames : folders ++ [name] = ["dist"] ++ ["c.json"] :=
    List.append_cancel_left (Prod.mk.inj (Except.ok.inj hthird)).1
  obtain ⟨rfl, _⟩ := List.append_inj' hnames rfl
  exact hfolders "dist" List.mem_cons_self (by decide)

end SceneCompiler
