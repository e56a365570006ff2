import SceneCompiler.Batch
import SceneCompiler.Proofs.Files.Tree
import SceneCompiler.Proofs.Scene.Generation

/-!
# What a batch writes

A batch without failures reads every scene file as it was at the start, generates code from it under a
class name that no other file of the batch has, and leaves a file under that name in its output directory.
-/

namespace SceneCompiler

namespace Batch

section Growth

variable {W : List String → String → Prop} {t t' : FileTree} {path text : String}

theorem readText_eq_ok_iff (h : Path.Plain path) :
    readText t path = .ok text ↔
      t.top.get? (Path.parts path) = some (.file text) ∧ Path.endsWithSlash path = false := by
  have hfind (place : List String) (e : Entry) : t.find path = .ok (place, e) ↔ _ :=
    FileTree.find_eq_ok_iff h
  unfold readText
  split
  · rename_i place found hok
    obtain ⟨_, hget, hdirectory | hslash⟩ := (hfind _ _).mp hok
    · cases hdirectory
    · rw [hget, hslash]
      simp
  · rename_i place entries hok
    obtain ⟨_, hget, _⟩ := (hfind _ _).mp hok
    rw [hget]
    simp
  · rename_i fault herror
    refine iff_of_false nofun fun hfile => ?_
    rw [(hfind _ _).mpr ⟨rfl, hfile.1, .inr hfile.2⟩] at herror
    cases herror

theorem readText_of_grows (hgrows : Entry.Grows W t.top t'.top) (hplain : Path.Plain path)
    (h : readText t path = .ok text) :
    ∃ text', readText t' path = .ok text' ∧ (text' = text ∨ W (Path.parts path) text') := by
  obtain ⟨hget, hslash⟩ := (readText_eq_ok_iff hplain).mp h
  have hbecomes := hgrows (Path.parts path)
  rw [hget] at hbecomes
  simp only [readText_eq_ok_iff hplain, hslash, and_true]
  generalize t'.top.get? (Path.parts path) = new at hbecomes ⊢
  cases hbecomes with
  | same => exact ⟨text, rfl, .inl rfl⟩
  | written _ hW => exact ⟨_, rfl, .inr hW⟩

theorem readText_cases (hgrows : Entry.Grows W t.top t'.top) (hplain : Path.Plain path)
    (h : readText t' path = .ok text) : readText t path = .ok text ∨ W (Path.parts path) text := by
  obtain ⟨hget, hslash⟩ := (readText_eq_ok_iff hplain).mp h
  have hbecomes := hgrows (Path.parts path)
  rw [hget] at hbecomes
  simp only [readText_eq_ok_iff hplain, hslash, and_true]
  generalize t.top.get? (Path.parts path) = old at hbecomes ⊢
  cases hbecomes with
  | same => exact .inl rfl
  | written _ hW => exact .inr hW

end Growth

/-! ## Writing code -/

theorem isPart_of_isClassName {className front : String} (h : isClassName className = true)
    (hfront : '/' ∉ front.toList) :
    Path.IsPart (className ++ front) ∧ Path.IsDown (className ++ front) := by
  obtain ⟨hne, hword⟩ := isWord_of_isClassName h
  have hnot {c : Char} (hc : (c.isAlphanum || c == '_') = false) : c ∉ className.toList := by
    intro hmem
    rw [hword c hmem] at hc
    cases hc
  have hslash : '/' ∉ (className ++ front).toList := by
    rw [String.toList_append, List.mem_append]
    exact fun hmem => hmem.elim (hnot (by decide)) hfront
  obtain ⟨first, rest, hname⟩ := List.exists_cons_of_ne_nil (String.toList_eq_nil_iff.not.mpr hne)
  have hpoint : first ≠ '.' := by
    rintro rfl
    exact hnot (by decide) (hname ▸ List.mem_cons_self)
  have hhead {text : String} (htext : className ++ front = text) : text.toList.head? = some first := by
    rw [← htext, String.toList_append, hname]
    rfl
  refine ⟨Path.isPart_of_not_mem (fun hempty => ?_) hslash, fun hdot => ?_, fun hdots => ?_⟩
  · cases hhead hempty
  · exact hpoint (Option.some.inj (hhead hdot)).symm
  · exact hpoint (Option.some.inj (hhead hdots)).symm

theorem fileName_spec {className : String} (h : isClassName className = true) :
    Path.IsPart (className ++ ".cs") ∧ Path.IsDown (className ++ ".cs") ∧
      Discovery.isSceneName (className ++ ".cs") = false := by
  obtain ⟨hpart, hdown⟩ := isPart_of_isClassName h (show '/' ∉ ".cs".toList by decide)
  refine ⟨hpart, hdown, ?_⟩
  have hlast : (className ++ ".cs").toList.getLast? = some 's' := by simp
  cases hscene : Discovery.isSceneName (className ++ ".cs") with
  | false => rfl
  | true =>
    obtain ⟨front, hfront⟩ := List.isSuffixOf_iff_suffix.mp hscene
    rw [← hfront] at hlast
    simp at hlast

def outputPath (b : BatchOptions) (className : String) : String :=
  Path.join b.outputDir (className ++ b.extension)

section Write

variable {b : BatchOptions} (hdir : Path.Plain b.outputDir) (hextension : b.extension = ".cs")

include hdir

theorem plain_outputPath (className : String) : Path.Plain (outputPath b className) :=
  Path.plain_join hdir _

include hextension

theorem parts_outputPath {className : String} (h : isClassName className = true) :
    Path.parts (outputPath b className) = Path.parts b.outputDir ++ [className ++ ".cs"] := by
  obtain ⟨hpart, hdown, _⟩ := fileName_spec h
  rw [outputPath, hextension]
  exact Path.parts_join hdir hpart hdown

theorem write_spec {t t' : FileTree} {g : Generated} {path : String}
    (hname : isClassName g.className = true) (h : write b t g = .ok (path, t')) :
    readText t' (outputPath b g.className) = .ok g.code ∧
      ∀ W : List String → String → Prop, W (Path.parts (outputPath b g.className)) g.code →
        Entry.Grows W t.top t'.top := by
  have hplain := plain_outputPath hdir g.className
  have hparts := parts_outputPath hdir hextension hname
  obtain ⟨made, hmade, hrest⟩ := bind_eq_ok_iff.mp h
  obtain ⟨written, hwritten, hpure⟩ := bind_eq_ok_iff.mp hrest
  cases hpure
  change made.writeFile (outputPath b g.className) g.code = .ok t' at hwritten
  obtain ⟨habsolute, hdirectory⟩ := Path.parts_directory hplain.isAbsolute
  have halong : t.makeAlong [] (Path.parts (outputPath b g.className)).dropLast = .ok made := by
    rw [← hdirectory, ← FileTree.start_of_isAbsolute habsolute]
    exact mapError_eq_ok_iff.mp hmade
  have hmakes (W : List String → String → Prop) : Entry.Grows W t.top made.top :=
    FileTree.grows_makeAlong halong
  unfold FileTree.writeFile at hwritten
  split at hwritten
  · rename_i place hplace
    cases hwritten
    obtain ⟨rfl, hslash, names, name, entries, hnames, hparent, hnot⟩ :=
      FileTree.writable_spec hplain hplace
    have hscene : Discovery.isSceneName name = false := by
      rw [hparts] at hnames
      obtain ⟨_, hlast⟩ := List.append_inj' hnames rfl
      rw [← List.singleton_inj.mp hlast]
      exact (fileName_spec hname).2.2
    rw [hnames] at hnot ⊢
    refine ⟨(readText_eq_ok_iff hplain).mpr ⟨?_, hslash⟩, fun W hW => ?_⟩
    · rw [hnames]
      exact Entry.get?_put hparent name _
    · refine (hmakes W).trans (Entry.grows_put (.file hnot hscene) fun text htext => ?_)
      cases htext
      exact hW
  · cases hwritten

end Write

/-! ## Steps -/

variable {b : BatchOptions} {o : GenerateOptions}

theorem generateOne_eq_ok_iff {p : Progress} {path : String} {g : Generated} :
    generateOne o p path = .ok g ↔ ∃ text, readText p.session.files path = .ok text ∧
      generateFile path text o = .ok g ∧ p.taken.lookup g.className = none := by
  simp only [generateOne, bind_eq_ok_iff, mapError_eq_ok_iff]
  refine exists_congr fun text => and_congr_right fun _ => ?_
  constructor
  · rintro ⟨generated, hgenerated, hresult⟩
    split at hresult
    · cases hresult
    · rename_i hnone
      cases hresult
      exact ⟨hgenerated, hnone⟩
  · rintro ⟨hgenerated, hnone⟩
    exact ⟨g, hgenerated, by rw [hnone]; rfl⟩

section Outcomes

variable {p : Progress} {path : String} {g : Generated}

theorem exists_logged (b : BatchOptions) (o : GenerateOptions) (p : Progress) (path : String) :
    ∃ session : Session, session.files = p.session.files ∧
      (if b.verbose then { p with session := p.session.say .log ("Compiling " ++ path) } else p) =
        { p with session } ∧
      generateOne o { p with session } path = generateOne o p path := by
  cases b.verbose with
  | false => exact ⟨p.session, rfl, rfl, rfl⟩
  | true =>
    refine ⟨p.session.say .log ("Compiling " ++ path), rfl, rfl, ?_⟩
    rw [generateOne, generateOne]
    rfl

theorem step_of_error {cause : FailureCause} (h : generateOne o p path = .error cause) :
    (step b o p path).session.files = p.session.files ∧
      (step b o p path).outputs = p.outputs ∧ (step b o p path).taken = p.taken ∧
      (step b o p path).failures = p.failures ++ [⟨path, cause⟩] := by
  obtain ⟨session, hfiles, hlogged, hone⟩ := exists_logged b o p path
  simp only [step, hlogged, hone, h]
  exact ⟨hfiles, rfl, rfl, rfl⟩

theorem step_of_unwritten {error : FileError} (h : generateOne o p path = .ok g)
    (hwrite : write b p.session.files g = .error error) :
    (step b o p path).session.files = p.session.files ∧
      (step b o p path).outputs = p.outputs ∧
      (step b o p path).taken = p.taken ++ [(g.className, path)] ∧
      (step b o p path).failures = p.failures ++ [⟨path, .file error⟩] := by
  obtain ⟨session, hfiles, hlogged, hone⟩ := exists_logged b o p path
  simp only [step, hlogged, hone, h, hfiles, hwrite]
  exact ⟨hfiles, rfl, rfl, rfl⟩

theorem step_of_write {output : String} {next : FileTree} (h : generateOne o p path = .ok g)
    (hwrite : write b p.session.files g = .ok (output, next)) :
    (step b o p path).session.files = next ∧
      (step b o p path).outputs = p.outputs ++ [⟨g.className, path, output⟩] ∧
      (step b o p path).taken = p.taken ++ [(g.className, path)] ∧
      (step b o p path).failures = p.failures := by
  obtain ⟨session, hfiles, hlogged, hone⟩ := exists_logged b o p path
  simp only [step, hlogged, hone, h, hfiles, hwrite, and_self]

end Outcomes

structure Handles (b : BatchOptions) (o : GenerateOptions) (path : String) (p q : Progress)
    (text : String) (g : Generated) : Prop where
  read : readText p.session.files path = .ok text
  generated : generateFile path text o = .ok g
  untaken : p.taken.lookup g.className = none
  taken : q.taken = p.taken ++ [(g.className, path)]
  written : ∃ output, write b p.session.files g = .ok (output, q.session.files)

theorem step_handles {p : Progress} {path : String} (h : (step b o p path).failures = []) :
    p.failures = [] ∧ ∃ text g, Handles b o path p (step b o p path) text g := by
  cases hone : generateOne o p path with
  | error cause =>
    rw [(step_of_error hone).2.2.2] at h
    exact absurd h (List.append_ne_nil_of_right_ne_nil _ (List.cons_ne_nil _ _))
  | ok g =>
    cases hwrite : write b p.session.files g with
    | error error =>
      rw [(step_of_unwritten hone hwrite).2.2.2] at h
      exact absurd h (List.append_ne_nil_of_right_ne_nil _ (List.cons_ne_nil _ _))
    | ok result =>
      obtain ⟨output, files⟩ := result
      obtain ⟨hfiles, _, htaken, hfailures⟩ := step_of_write hone hwrite
      obtain ⟨text, hread, hgenerated, huntaken⟩ := generateOne_eq_ok_iff.mp hone
      exact ⟨hfailures ▸ h, text, g, hread, hgenerated, huntaken, htaken, output,
        hfiles.symm ▸ hwrite⟩

/-! ## Runs -/

def generated? (t : FileTree) (o : GenerateOptions) (path : String) : Option Generated :=
  (readText t path).toOption.bind fun text => (generateFile path text o).toOption

theorem generated?_eq_some_iff {t : FileTree} {path : String} {g : Generated} :
    generated? t o path = some g ↔
      ∃ text, readText t path = .ok text ∧ generateFile path text o = .ok g := by
  unfold generated?
  cases readText t path with
  | error e => simp [Except.toOption]
  | ok text => cases hgenerated : generateFile path text o <;> simp [Except.toOption, hgenerated]

def Apart (t : FileTree) (o : GenerateOptions) (path path' : String) : Prop :=
  ∀ g ∈ generated? t o path, ∀ g' ∈ generated? t o path', g.className ≠ g'.className

instance apart_symm (t : FileTree) (o : GenerateOptions) : Std.Symm (Apart t o) :=
  ⟨fun _ _ h g hg g' hg' => Ne.symm (h g' hg' g hg)⟩

/-- What is written into a tree: code of its scene files, each at its path, and no document. -/
structure Admits (W : List String → String → Prop) (t : FileTree) (b : BatchOptions)
    (o : GenerateOptions) (files : List String) : Prop where
  code : ∀ path ∈ files, ∀ g ∈ generated? t o path, W (Path.parts (outputPath b g.className)) g.code
  noDocument : ∀ place text, W place text → Json.parse? text = none

variable {W : List String → String → Prop} {t : FileTree}

theorem generateFile_of_noDocument {path text : String} (h : Json.parse? text = none) (g : Generated) :
    generateFile path text o ≠ .ok g := by
  rw [generateFile, h]
  nofun

theorem Handles.generated?_eq {path text : String} {g : Generated} {p q : Progress}
    (h : Handles b o path p q text g) (hnone : ∀ place text, W place text → Json.parse? text = none)
    (hplain : Path.Plain path) (hgrows : Entry.Grows W t.top p.session.files.top) :
    generated? t o path = some g := by
  rcases readText_cases hgrows hplain h.read with hread | hW
  · exact generated?_eq_some_iff.mpr ⟨text, hread, h.generated⟩
  · exact absurd h.generated (generateFile_of_noDocument (hnone _ _ hW) g)

structure Completes (W : List String → String → Prop) (t : FileTree) (b : BatchOptions)
    (o : GenerateOptions) (files : List String) (p q : Progress) : Prop where
  grows : Entry.Grows W p.session.files.top q.session.files.top
  apart : files.Pairwise (Apart t o)
  held : ∀ path ∈ files, ∃ g, generated? t o path = some g ∧ p.taken.lookup g.className = none ∧
    ∃ text, readText q.session.files (outputPath b g.className) = .ok text ∧
      W (Path.parts (outputPath b g.className)) text

theorem failures_of_foldl {files : List String} {p : Progress}
    (h : (files.foldl (step b o) p).failures = []) : p.failures = [] := by
  induction files generalizing p with
  | nil => exact h
  | cons path files ih => exact (step_handles (ih h)).1

theorem completes_foldl (hdir : Path.Plain b.outputDir) (hextension : b.extension = ".cs")
    {files : List String} (hplain : ∀ path ∈ files, Path.Plain path) (hadmits : Admits W t b o files)
    {p : Progress} (hgrows : Entry.Grows W t.top p.session.files.top)
    (h : (files.foldl (step b o) p).failures = []) :
    Completes W t b o files p (files.foldl (step b o) p) := by
  induction files generalizing p with
  | nil => exact ⟨.refl _, .nil, nofun⟩
  | cons path files ih =>
    obtain ⟨hpath, hfiles⟩ := List.forall_mem_cons.mp hplain
    rw [List.foldl_cons] at h ⊢
    obtain ⟨_, text, g, hstep⟩ := step_handles (failures_of_foldl h)
    obtain ⟨output, hwrite⟩ := hstep.written
    have hg := hstep.generated?_eq hadmits.noDocument hpath hgrows
    have hW := hadmits.code path List.mem_cons_self g hg
    obtain ⟨hread, hwrites⟩ :=
      write_spec hdir hextension (generateFile_spec hstep.generated).1 hwrite
    have hrest := ih hfiles ⟨fun path hpath => hadmits.code path (List.mem_cons_of_mem _ hpath),
      hadmits.noDocument⟩ (hgrows.trans (hwrites W hW)) h
    have huntaken {name : String} (hname : (step b o p path).taken.lookup name = none) :
        p.taken.lookup name = none ∧ name ≠ g.className := by
      rw [hstep.taken, List.lookup_append, Option.or_eq_none_iff] at hname
      refine ⟨hname.1, ?_⟩
      rintro rfl
      simp at hname
    refine ⟨(hwrites W hW).trans hrest.grows, ?_, ?_⟩
    · refine List.pairwise_cons.mpr ⟨fun path' hpath' => ?_, hrest.apart⟩
      obtain ⟨g', hg', hname, _⟩ := hrest.held path' hpath'
      rintro _ hmem _ hmem'
      cases hg.symm.trans hmem
      cases hg'.symm.trans hmem'
      exact Ne.symm (huntaken hname).2
    · refine List.forall_mem_cons.mpr ⟨?_, fun path' hpath' => ?_⟩
      · obtain ⟨text, hlast, hcode⟩ :=
          readText_of_grows hrest.grows (plain_outputPath hdir g.className) hread
        refine ⟨g, hg, hstep.untaken, text, hlast, ?_⟩
        rcases hcode with rfl | hcode
        · exact hW
        · exact hcode
      · obtain ⟨g', hg', hname, hheld⟩ := hrest.held path' hpath'
        exact ⟨g', hg', (huntaken hname).1, hheld⟩

def options (b : BatchOptions) (count : Nat) : GenerateOptions :=
  ⟨if count ≤ 1 then b.className else none, b.nameSpace, b.setComments⟩

theorem chooseName_eq (b : BatchOptions) (count : Nat) (s : Session) :
    ∃ s', chooseName b count s = ((options b count).className, s') ∧ s'.files = s.files := by
  unfold chooseName options
  cases b.className with
  | none => exact ⟨s, by simp, rfl⟩
  | some name =>
    dsimp only
    split
    · exact ⟨s, rfl, rfl⟩
    · exact ⟨_, rfl, rfl⟩

theorem run_eq_ok {s s' : Session} {outputs : List Output} (h : run b s = (.ok outputs, s')) :
    ∃ files, discover s.files b.source b.excludeDirs = .ok files ∧
      ∃ p : Progress, p.session.files = s.files ∧ p.outputs = [] ∧
        (files.foldl (step b (options b files.length)) p).failures = [] ∧
        outputs = (files.foldl (step b (options b files.length)) p).outputs ∧
        s' = (files.foldl (step b (options b files.length)) p).session := by
  have hdiscovered : run.discovered b s = (.ok outputs, s') := by
    unfold run at h
    split at h
    · split at h
      · exact h
      · cases h
    · exact h
  unfold run.discovered at hdiscovered
  split at hdiscovered
  · cases hdiscovered
  · rename_i files hfiles
    obtain ⟨session, hchoice, hsession⟩ := chooseName_eq b files.length s
    rw [hchoice] at hdiscovered
    dsimp only at hdiscovered
    split at hdiscovered
    · rename_i hempty
      obtain ⟨houtputs, rfl⟩ := Prod.mk.inj hdiscovered
      exact ⟨files, hfiles, { session := session }, hsession, rfl, List.isEmpty_iff.mp hempty,
        (Except.ok.inj houtputs).symm, rfl⟩
    · cases (Prod.mk.inj hdiscovered).1

end Batch

end SceneCompiler
