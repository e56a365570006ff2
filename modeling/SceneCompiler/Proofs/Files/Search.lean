import SceneCompiler.Proofs.Files.Tree
import SceneCompiler.Proofs.Model.Lookup

/-!
# Paths that are followed

A path need not lead straight down.  It leads where its simplified parts lead, and what it leads to in
a tree it leads to when the tree has grown.  So discovery gives paths of files, each of them once.
-/

namespace SceneCompiler

namespace FileTree

variable {t t' : FileTree}

theorem follow_append (place parts more : List String) :
    t.follow place (parts ++ more) =
      t.follow place parts >>= fun found => t.follow found more := by
  induction parts generalizing place with
  | nil => rfl
  | cons part parts ih =>
    rw [List.cons_append, follow, follow]
    split
    · split
      · exact ih place
      · split
        · exact ih place.dropLast
        · split
          · exact ih (place ++ [part])
          · rfl
    · rfl
    · rfl

theorem follow_append_eq_ok_iff {place parts more found : List String} :
    t.follow place (parts ++ more) = .ok found ↔
      ∃ middle, t.follow place parts = .ok middle ∧ t.follow middle more = .ok found := by
  rw [follow_append]
  cases hparts : t.follow place parts with
  | error fault => simp [bind, Except.bind]
  | ok middle => simp [bind, Except.bind]

theorem follow_singleton {place found : List String} {part : String}
    (h : t.follow place [part] = .ok found) :
    part = "." ∧ found = place ∨ part = ".." ∧ found = place.dropLast ∨
      Path.IsDown part ∧ found = place ++ [part] := by
  rw [follow] at h
  split at h
  · split at h
    · rename_i hdot
      exact .inl ⟨beq_iff_eq.mp hdot, (Except.ok.inj h).symm⟩
    · rename_i hdot
      split at h
      · rename_i hdots
        exact .inr (.inl ⟨beq_iff_eq.mp hdots, (Except.ok.inj h).symm⟩)
      · rename_i hdots
        split at h
        · refine .inr (.inr ⟨⟨?_, ?_⟩, (Except.ok.inj h).symm⟩)
          · exact fun hpart => hdot (beq_iff_eq.mpr hpart)
          · exact fun hpart => hdots (beq_iff_eq.mpr hpart)
        · cases h
  · cases h
  · cases h

theorem follow_down {place : List String} {name : String} {entries : List (String × Entry)}
    (hplace : t.top.get? place = some (.directory entries)) (hdown : Path.IsDown name)
    (hname : (t.top.get? (place ++ [name])).isSome = true) :
    t.follow place [name] = .ok (place ++ [name]) := by
  simp only [follow, hplace, beq_iff_eq, hdown.1, hdown.2, if_false, hname, if_true]

theorem follow_push {absolute : Bool} {start reversed found found' : List String} {part : String}
    (hstart : absolute = true → start = []) (hdot : "." ∉ reversed)
    (h : t.follow start reversed.reverse = .ok found) (hpart : t.follow found [part] = .ok found') :
    "." ∉ Path.push absolute reversed part ∧
      t.follow start (Path.push absolute reversed part).reverse = .ok found' := by
  rcases follow_singleton hpart with ⟨rfl, rfl⟩ | ⟨rfl, rfl⟩ | ⟨hdown, rfl⟩
  · exact ⟨hdot, h⟩
  · rw [Path.push.eq_def, if_neg (by decide), if_pos (by decide)]
    cases reversed with
    | nil =>
      obtain rfl : found = start := (Except.ok.inj h).symm
      cases absolute with
      | true =>
        rw [hstart rfl]
        exact ⟨List.not_mem_nil, rfl⟩
      | false => exact ⟨by decide, hpart⟩
    | cons last rest =>
      dsimp only
      split
      · refine ⟨List.not_mem_cons_of_ne_of_not_mem (by decide) hdot, ?_⟩
        rw [List.reverse_cons]
        exact follow_append_eq_ok_iff.mpr ⟨found, h, hpart⟩
      · rename_i hlast
        rw [List.mem_cons, not_or] at hdot
        rw [List.reverse_cons] at h
        obtain ⟨middle, hmiddle, hdown⟩ := follow_append_eq_ok_iff.mp h
        refine ⟨hdot.2, ?_⟩
        rcases follow_singleton hdown with ⟨rfl, _⟩ | ⟨rfl, _⟩ | ⟨_, rfl⟩
        · exact absurd rfl hdot.1
        · exact absurd rfl hlast
        · rwa [List.dropLast_concat]
  · rw [Path.push_of_isDown hdown]
    refine ⟨List.not_mem_cons_of_ne_of_not_mem (Ne.symm hdown.1) hdot, ?_⟩
    rw [List.reverse_cons]
    exact follow_append_eq_ok_iff.mpr ⟨found, h, hpart⟩

theorem follow_simplify {absolute : Bool} {start parts found : List String}
    (hstart : absolute = true → start = []) (h : t.follow start parts = .ok found) :
    t.follow start (Path.simplify absolute parts) = .ok found := by
  have hfold : ∀ (parts reversed middle : List String), "." ∉ reversed →
      t.follow start reversed.reverse = .ok middle → t.follow middle parts = .ok found →
      t.follow start (parts.foldl (Path.push absolute) reversed).reverse = .ok found := by
    intro parts
    induction parts with
    | nil =>
      intro reversed middle _ hreversed hfound
      cases hfound
      exact hreversed
    | cons part parts ih =>
      intro reversed middle hdot hreversed hfound
      rw [← List.singleton_append] at hfound
      obtain ⟨next, hpart, hrest⟩ := follow_append_eq_ok_iff.mp hfound
      obtain ⟨hdot', hnext⟩ := follow_push hstart hdot hreversed hpart
      exact ih _ next hdot' hnext hrest
  exact hfold parts [] start List.not_mem_nil rfl h

/-! ## Growth -/

section Growth

variable {W : List String → String → Prop} (hgrows : Entry.Grows W t.top t'.top)

include hgrows

theorem directory_of_grows {place : List String} {entries : List (String × Entry)}
    (h : t.top.get? place = some (.directory entries)) :
    ∃ entries', t'.top.get? place = some (.directory entries') := by
  have hbecomes := hgrows place
  rw [h] at hbecomes
  generalize t'.top.get? place = new at hbecomes ⊢
  cases hbecomes with
  | same => exact ⟨entries, rfl⟩
  | directory _ => exact ⟨_, rfl⟩
  | written hold => exact absurd rfl (hold entries)

theorem isSome_of_grows {place : List String} (h : (t.top.get? place).isSome = true) :
    (t'.top.get? place).isSome = true := by
  have hbecomes := hgrows place
  generalize t.top.get? place = old at hbecomes h
  generalize t'.top.get? place = new at hbecomes ⊢
  cases hbecomes with
  | same => exact h
  | directory _ => rfl
  | made _ => rfl
  | written _ _ => rfl

theorem follow_of_grows {place parts found : List String}
    (h : t.follow place parts = .ok found) : t'.follow place parts = .ok found := by
  induction parts generalizing place with
  | nil => exact h
  | cons part parts ih =>
    rw [follow] at h ⊢
    split at h
    · rename_i entries hplace
      obtain ⟨entries', hplace'⟩ := directory_of_grows hgrows hplace
      simp only [hplace']
      split at h
      · rename_i hdot
        rw [if_pos hdot]
        exact ih h
      · rename_i hdot
        rw [if_neg hdot]
        split at h
        · rename_i hdots
          rw [if_pos hdots]
          exact ih h
        · rename_i hdots
          rw [if_neg hdots]
          split at h
          · rename_i hsome
            rw [if_pos (isSome_of_grows hgrows hsome)]
            exact ih h
          · cases h
    · cases h
    · cases h

theorem find_of_grows (hcurrent : t'.current = t.current) {path text : String} {place : List String}
    (h : t.find path = .ok (place, .file text)) (hnot : ∀ text', ¬W place text') :
    t'.find path = .ok (place, .file text) := by
  obtain ⟨hne, hfollow, hget, hslash⟩ := find_eq_ok.mp h
  have hstart : t'.start path = t.start path := by rw [start, start, hcurrent]
  refine find_eq_ok.mpr ⟨hne, hstart ▸ follow_of_grows hgrows hfollow, ?_, hslash⟩
  have hbecomes := hgrows place
  rw [hget] at hbecomes
  generalize t'.top.get? place = new at hbecomes ⊢
  cases hbecomes with
  | same => rfl
  | written _ hW => exact absurd hW (hnot _)

end Growth

theorem current_makeAlong {place parts : List String} (h : t.makeAlong place parts = .ok t') :
    t'.current = t.current := by
  induction parts generalizing t place with
  | nil =>
    cases h
    rfl
  | cons part parts ih =>
    rw [makeAlong] at h
    split at h
    · exact ih h
    · split at h
      · exact ih h
      · dsimp only at h
        split at h
        · exact ih h
        · cases h
        · exact (ih h :)

theorem makeAlong_of_follow {place parts found : List String} {entries : List (String × Entry)}
    (h : t.follow place parts = .ok found) (hfound : t.top.get? found = some (.directory entries)) :
    t.makeAlong place parts = .ok t := by
  induction parts generalizing place with
  | nil => rfl
  | cons part parts ih =>
    rw [follow] at h
    rw [makeAlong]
    split at h
    · split at h
      · rename_i hdot
        rw [if_pos hdot]
        exact ih h
      · rename_i hdot
        rw [if_neg hdot]
        split at h
        · rename_i hdots
          rw [if_pos hdots]
          exact ih h
        · rename_i hdots
          rw [if_neg hdots]
          split at h
          · rename_i hsome
            -- there is a directory, at the end or on the way
            have hdirectory : ∃ es, t.top.get? (place ++ [part]) = some (.directory es) := by
              cases parts with
              | nil =>
                cases h
                exact ⟨entries, hfound⟩
              | cons next parts =>
                rw [follow] at h
                split at h
                · rename_i es hes
                  exact ⟨es, hes⟩
                · cases h
                · cases h
            obtain ⟨es, hes⟩ := hdirectory
            simp only [hes]
            exact ih h
          · cases h
    · cases h
    · cases h

theorem writable_eq_ok_iff {path name : String} {names place : List String}
    (hparts : Path.parts path = names ++ [name]) (hdown : Path.IsDown name)
    (hslash : Path.endsWithSlash path = false) :
    t.writable path = .ok place ↔ ∃ parent entries, t.follow (t.start path) names = .ok parent ∧
      t.top.get? parent = some (.directory entries) ∧
      (∀ es, t.top.get? (parent ++ [name]) ≠ some (.directory es)) ∧ place = parent ++ [name] := by
  have hlast : (name == "." || name == ".." || false) = false := by
    rw [beq_false_of_ne hdown.1, beq_false_of_ne hdown.2]
    rfl
  rw [writable, hparts, List.dropLast_concat, List.getLast?_concat, Option.getD_some, hslash]
  cases hfollow : t.follow (t.start path) names with
  | error fault => simp [bind, Except.bind]
  | ok parent =>
    simp only [bind, Except.bind, hlast, Bool.false_eq_true, if_false, Except.ok.injEq]
    constructor
    · intro h
      split at h
      · rename_i entries hparent
        split at h
        · cases h
        · rename_i hplace
          cases h
          exact ⟨parent, entries, rfl, hparent, hplace, rfl⟩
      · cases h
      · cases h
    · rintro ⟨_, entries, rfl, hparent, hplace, rfl⟩
      simp only [hparent]
      rfl

end FileTree

/-! ## Discovery -/

namespace Entry

mutual
/-- Names as a file system has them: parts that lead down, in a directory each of them once. -/
def Proper : Entry → Prop
  | .file _ => True
  | .directory entries => (entries.map Prod.fst).Nodup ∧ ProperAll entries
def ProperAll : List (String × Entry) → Prop
  | [] => True
  | (name, e) :: rest => (Path.IsPart name ∧ Path.IsDown name ∧ e.Proper) ∧ ProperAll rest
end

theorem properAll_iff {entries : List (String × Entry)} :
    ProperAll entries ↔
      ∀ entry ∈ entries, Path.IsPart entry.1 ∧ Path.IsDown entry.1 ∧ entry.2.Proper := by
  induction entries with
  | nil => simp [ProperAll]
  | cons entry entries ih =>
    obtain ⟨name, e⟩ := entry
    rw [ProperAll, ih, List.forall_mem_cons]

theorem ProperAll.of_mem {entries : List (String × Entry)} (h : ProperAll entries) {name : String}
    {e : Entry} (hmem : (name, e) ∈ entries) : Path.IsPart name ∧ Path.IsDown name ∧ e.Proper :=
  properAll_iff.mp h (name, e) hmem

theorem Proper.of_get? {e found : Entry} {place : List String} (h : e.Proper)
    (hget : e.get? place = some found) : found.Proper := by
  induction place generalizing e with
  | nil =>
    cases hget
    exact h
  | cons name place ih =>
    cases e with
    | file text => cases hget
    | directory entries =>
      rw [get?_directory_cons] at hget
      obtain ⟨child, hchild, hfound⟩ := Option.bind_eq_some_iff.mp hget
      obtain ⟨before, after, rfl, _⟩ := List.lookup_eq_some_iff.mp hchild
      rw [Proper] at h
      exact ih (h.2.of_mem (List.mem_append_right before List.mem_cons_self)).2.2 hfound

end Entry

namespace FileTree

open Discovery Entry

variable {t : FileTree} {place : List String}

structure Lists (t : FileTree) (base : String) (place : List String)
    (entries : List (String × Entry)) : Prop where
  follow : t.follow (t.start base) (Path.parts base) = .ok place
  directory : ∃ all, t.top.get? place = some (.directory all)
  get : ∀ name e, (name, e) ∈ entries → t.top.get? (place ++ [name]) = some e
  proper : ProperAll entries
  nodup : (entries.map Prod.fst).Nodup

theorem Lists.sublist {base : String} {entries entries' : List (String × Entry)}
    (h : t.Lists base place entries) (hsub : entries'.Sublist entries) :
    t.Lists base place entries' where
  follow := h.follow
  directory := h.directory
  get name e hmem := h.get name e (hsub.subset hmem)
  proper := properAll_iff.mpr fun entry hmem => properAll_iff.mp h.proper entry (hsub.subset hmem)
  nodup := (hsub.map Prod.fst).nodup h.nodup

theorem lists_of_find (hproper : t.top.Proper) {source : String} {entries : List (String × Entry)}
    (h : t.find source = .ok (place, .directory entries)) : t.Lists source place entries := by
  obtain ⟨_, hfollow, hget, _⟩ := find_eq_ok.mp h
  have hentries := hproper.of_get? hget
  rw [Proper] at hentries
  refine ⟨hfollow, ⟨entries, hget⟩, fun name e hmem => ?_, hentries.2, hentries.1⟩
  rw [get?_append, hget]
  change (Entry.directory entries).get? [name] = some e
  rw [get?_directory_cons, lookup_of_mem_nodup hentries.1 hmem]
  rfl

section Below

variable {base name : String} {entries rest : List (String × Entry)} {e : Entry}

theorem Lists.follow_join (h : t.Lists base place entries) (hmem : (name, e) ∈ entries) :
    t.follow (t.start (Path.join base name)) (Path.parts (Path.join base name)) =
      .ok (place ++ [name]) := by
  obtain ⟨hpart, hdown, _⟩ := h.proper.of_mem hmem
  obtain ⟨habsolute, hparts, _⟩ := Path.join_name base hpart hdown
  have hstart : t.start (Path.join base name) = t.start base := by rw [start, start, habsolute]
  obtain ⟨all, hall⟩ := h.directory
  rw [hstart, hparts]
  refine follow_append_eq_ok_iff.mpr ⟨place, follow_simplify (fun habs => ?_) h.follow,
    follow_down hall hdown ?_⟩
  · exact start_of_isAbsolute habs
  · rw [h.get name e hmem]
    rfl

theorem Lists.below (h : t.Lists base place entries)
    {inner : List (String × Entry)} (hmem : (name, .directory inner) ∈ entries) :
    t.Lists (Path.join base name) (place ++ [name]) inner := by
  obtain ⟨_, _, hproper⟩ := h.proper.of_mem hmem
  rw [Proper] at hproper
  refine ⟨h.follow_join hmem, ⟨inner, h.get _ _ hmem⟩, fun other e he => ?_, hproper.2, hproper.1⟩
  rw [get?_append, h.get _ _ hmem]
  change (Entry.directory inner).get? [other] = some e
  rw [get?_directory_cons, lookup_of_mem_nodup hproper.1 he]
  rfl

theorem Lists.find_join (h : t.Lists base place entries) {text : String}
    (hmem : (name, .file text) ∈ entries) :
    t.find (Path.join base name) = .ok (place ++ [name], .file text) := by
  obtain ⟨hpart, hdown, _⟩ := h.proper.of_mem hmem
  exact find_eq_ok.mpr ⟨Path.join_ne_empty base hpart hdown, h.follow_join hmem, h.get _ _ hmem,
    .inr (Path.join_name base hpart hdown).2.2⟩

end Below

def IsScene (t : FileTree) (path : String) (place : List String) : Prop :=
  ∃ text, t.find path = .ok (place, .file text) ∧ ∃ name, place.getLast? = some name ∧
    isSceneName name = true

theorem isScene_of_mem_belowAll (excludes : List String) (base : String)
    (entries : List (String × Entry)) (h : t.Lists base place entries) :
    ∀ path ∈ belowAll excludes base entries, ∃ name ∈ entries.map Prod.fst, ∃ more,
      t.IsScene path (place ++ name :: more) := by
  intro path hpath
  fun_induction belowAll excludes base entries generalizing place path with
  | case1 => cases hpath
  | case2 base name text rest ih =>
    rcases List.mem_append.mp hpath with hpath | hpath
    · split at hpath
      · rename_i hscene
        rw [List.mem_singleton.mp hpath]
        exact ⟨name, List.mem_cons_self, [], text, h.find_join List.mem_cons_self, name,
          List.getLast?_concat, hscene⟩
      · cases hpath
    · obtain ⟨name', hname', hrest⟩ := ih (h.sublist (List.sublist_cons_self _ _)) path hpath
      exact ⟨name', List.mem_cons_of_mem _ hname', hrest⟩
  | case3 base name entries rest ihEntries ihRest =>
    rcases List.mem_append.mp hpath with hpath | hpath
    · split at hpath
      · cases hpath
      · obtain ⟨name', _, more, hscene⟩ :=
          ihEntries (h.below List.mem_cons_self) path hpath
        rw [List.append_assoc] at hscene
        exact ⟨name, List.mem_cons_self, name' :: more, hscene⟩
    · obtain ⟨name', hname', hrest⟩ := ihRest (h.sublist (List.sublist_cons_self _ _)) path hpath
      exact ⟨name', List.mem_cons_of_mem _ hname', hrest⟩

theorem IsScene.place_eq {path : String} {place place' : List String} (h : t.IsScene path place)
    (h' : t.IsScene path place') : place = place' := by
  obtain ⟨text, hfind, _⟩ := h
  obtain ⟨text', hfind', _⟩ := h'
  exact (Prod.mk.inj (Except.ok.inj (hfind.symm.trans hfind'))).1

theorem nodup_belowAll (excludes : List String) (base : String) (entries : List (String × Entry))
    (h : t.Lists base place entries) : (belowAll excludes base entries).Nodup := by
  -- paths below different entries lead to different places
  have hapart : ∀ {base place name e} {rest : List (String × Entry)},
      t.Lists base place ((name, e) :: rest) → ∀ path ∈ belowAll excludes base [(name, e)],
      ∀ path' ∈ belowAll excludes base rest, path ≠ path' := by
    rintro base place name e rest hlists path hpath _ hpath' rfl
    obtain ⟨first, hfirst, more, hscene⟩ := isScene_of_mem_belowAll excludes base [(name, e)]
      (hlists.sublist (List.cons_sublist_cons.mpr (List.nil_sublist rest))) path hpath
    obtain ⟨other, hother, more', hscene'⟩ := isScene_of_mem_belowAll excludes base rest
      (hlists.sublist (List.sublist_cons_self _ _)) path hpath'
    have hplaces := List.append_cancel_left (hscene.place_eq hscene')
    obtain rfl : first = name := List.mem_singleton.mp hfirst
    obtain rfl := (List.cons.inj hplaces).1
    exact (List.nodup_cons.mp hlists.nodup).1 hother
  fun_induction belowAll excludes base entries generalizing place with
  | case1 => exact List.nodup_nil
  | case2 base name text rest ih =>
    refine List.nodup_append.mpr ⟨?_, ih (h.sublist (List.sublist_cons_self _ _)), ?_⟩
    · split
      · exact List.pairwise_singleton _ _
      · exact List.nodup_nil
    · intro path hpath path' hpath'
      exact hapart h path (by simpa [belowAll] using hpath) path' hpath'
  | case3 base name entries rest ihEntries ihRest =>
    refine List.nodup_append.mpr ⟨?_, ihRest (h.sublist (List.sublist_cons_self _ _)), ?_⟩
    · split
      · exact List.nodup_nil
      · exact ihEntries (h.below List.mem_cons_self)
    · intro path hpath path' hpath'
      exact hapart h path (by simpa [belowAll] using hpath) path' hpath'

theorem discover_spec (hproper : t.top.Proper) {source : String} (excludes : Option (List String))
    (hsource : t.contains source = true) :
    ∃ files, discover t source excludes = .ok files ∧ files.Nodup ∧
      (files = [source] ∨ ∀ path ∈ files, ∃ place, t.IsScene path place) := by
  cases hfind : t.find source with
  | error fault =>
    rw [contains, hfind] at hsource
    cases hsource
  | ok result =>
    obtain ⟨place, e⟩ := result
    refine ⟨_, discover_of_find hfind excludes, ?_⟩
    cases e with
    | file text => exact ⟨List.pairwise_singleton _ source, .inl rfl⟩
    | directory entries =>
      have hlists := lists_of_find hproper hfind
      refine ⟨(List.mergeSort_perm _ _).nodup_iff.mpr (nodup_belowAll _ source entries hlists),
        .inr fun path hpath => ?_⟩
      obtain ⟨name, _, more, hscene⟩ := isScene_of_mem_belowAll _ source entries hlists path
        (List.mem_mergeSort.mp hpath)
      exact ⟨_, hscene⟩

end FileTree

end SceneCompiler
