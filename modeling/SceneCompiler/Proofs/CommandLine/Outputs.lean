import SceneCompiler.CommandLine
import SceneCompiler.Proofs.Batch.Outputs
import SceneCompiler.Proofs.Scene.PlainCode

/-!
# What the command line leaves behind

A run with status zero has generated code from every scene file under every input.  Two files under one
input never have the same class name, but files under different inputs may, and then the one that is
written last stays.
-/

namespace SceneCompiler

namespace CommandLine

def directory (t : FileTree) : String :=
  "/" ++ "/".intercalate t.current

namespace Arguments

variable (a : Arguments) (t : FileTree)

def batch (input : String) : BatchOptions where
  source := Path.resolve (directory t) input
  outputDir := Path.resolve (directory t) a.output
  className := a.className
  setComments := a.setComments
  verbose := a.verbose

def outputPath (className : String) : String :=
  Path.join (Path.resolve (directory t) a.output) (className ++ ".cs")

structure Yields (input path : String) (g : Generated) : Prop where
  isInput : input ∈ a.inputs
  found : ∃ files, discover t (Path.resolve (directory t) input) none = .ok files ∧ path ∈ files ∧
    Batch.generated? t (Batch.options (a.batch t input) files.length) path = some g

/-- What a run writes: the code of scene files, each at its path. -/
def Writes (place : List String) (text : String) : Prop :=
  ∃ input path g, a.Yields t input path g ∧ place = Path.parts (a.outputPath t g.className) ∧
    text = g.code

variable {a t}

theorem noDocument_of_writes {place : List String} {text : String} (h : a.Writes t place text) :
    Json.parse? text = none := by
  obtain ⟨input, path, g, ⟨_, files, _, _, hg⟩, _, rfl⟩ := h
  obtain ⟨text, _, hgenerated⟩ := Batch.generated?_eq_some_iff.mp hg
  exact (generateFile_spec hgenerated).2

end Arguments

variable {a : Arguments} {t : FileTree}

theorem runInput_eq_zero {state : Nat × Session} {input : String}
    (h : (runInput a (directory t) (Path.resolve (directory t) a.output) state input).1 = 0) :
    state.1 = 0 ∧ ∃ s₁ outputs s₂, s₁.files = state.2.files ∧
      Batch.run (a.batch t input) s₁ = (.ok outputs, s₂) ∧
      (runInput a (directory t) (Path.resolve (directory t) a.output) state input).2.files =
        s₂.files := by
  obtain ⟨status, s⟩ := state
  have hsay (lines : List String) (s : Session) :
      (lines.foldl (fun s line => s.say .log line) s).files = s.files := by
    induction lines generalizing s with
    | nil => rfl
    | cons line lines ih => exact ih (s.say .log line)
  simp only [runInput] at h ⊢
  split at h
  · cases h
  · rename_i hcontains
    rw [if_neg hcontains]
    obtain ⟨s₁, hs₁, hfiles⟩ : ∃ s₁, s₁ = (if a.verbose then s.say .log ("Generating " ++
        Path.resolve (directory t) input ++ " -> " ++ Path.resolve (directory t) a.output) else s) ∧
        s₁.files = s.files := by
      refine ⟨_, rfl, ?_⟩
      split <;> rfl
    rw [← hs₁] at h ⊢
    split at h
    · rename_i outputs s₂ hrun
      exact ⟨h, s₁, outputs, s₂, hfiles, hrun, hsay _ s₂⟩
    · cases h

structure Completes (a : Arguments) (t : FileTree) (inputs : List String) (s s' : Session) : Prop where
  grows : Entry.Grows (a.Writes t) s.files.top s'.files.top
  apart : ∀ input ∈ inputs, ∀ files,
    discover t (Path.resolve (directory t) input) none = .ok files →
      files.Pairwise (Batch.Apart t (Batch.options (a.batch t input) files.length))
  held : ∀ input ∈ inputs, ∀ files,
    discover t (Path.resolve (directory t) input) none = .ok files → ∀ path ∈ files,
      ∃ g, Batch.generated? t (Batch.options (a.batch t input) files.length) path = some g ∧
        ∃ text, Batch.readText s'.files (a.outputPath t g.className) = .ok text ∧
          a.Writes t (Path.parts (a.outputPath t g.className)) text

theorem Completes.append {inputs inputs' : List String} {s s' s'' : Session}
    (h : Completes a t inputs s s') (h' : Completes a t inputs' s' s'') :
    Completes a t (inputs ++ inputs') s s'' := by
  refine ⟨h.grows.trans h'.grows, ?_, ?_⟩
  · exact fun input hinput => (List.mem_append.mp hinput).elim (h.apart input) (h'.apart input)
  · intro input hinput files hfiles path hpath
    rcases List.mem_append.mp hinput with hinput | hinput
    · obtain ⟨g, hg, text, hread, hwrites⟩ := h.held input hinput files hfiles path hpath
      obtain ⟨text', hread', rfl | hwrites'⟩ :=
        Batch.readText_of_grows h'.grows (Path.plain_join (Path.plain_resolve _ _) _) hread
      · exact ⟨g, hg, text', hread', hwrites⟩
      · exact ⟨g, hg, text', hread', hwrites'⟩
    · exact h'.held input hinput files hfiles path hpath

theorem completes_runInput {state : Nat × Session} {input : String} (hinput : input ∈ a.inputs)
    (hgrows : Entry.Grows (a.Writes t) t.top state.2.files.top)
    (h : (runInput a (directory t) (Path.resolve (directory t) a.output) state input).1 = 0) :
    Completes a t [input] state.2
      (runInput a (directory t) (Path.resolve (directory t) a.output) state input).2 := by
  obtain ⟨_, s₁, outputs, s₂, hfiles₁, hrun, hfiles₂⟩ := runInput_eq_zero h
  obtain ⟨files, hfiles, p, hp, _, hfailures, _, rfl⟩ := Batch.run_eq_ok hrun
  have hsource : Path.Plain (a.batch t input).source := Path.plain_resolve _ _
  have hdir : Path.Plain (a.batch t input).outputDir := Path.plain_resolve _ _
  rw [hfiles₁] at hfiles hp
  rw [← hp] at hgrows hfiles
  -- Whatever is found now was found at the start, unless it has been written since.
  have hadmits : Batch.Admits (a.Writes t) t (a.batch t input)
      (Batch.options (a.batch t input) files.length) files := by
    refine ⟨fun path hpath g hg => ⟨input, path, g, ⟨hinput, files, ?_, hpath, hg⟩, rfl, rfl⟩,
      fun _ _ => Arguments.noDocument_of_writes⟩
    rcases FileTree.discover_cases hgrows hsource hfiles with hstart | rfl | ⟨_, rfl, _⟩
    · exact hstart
    · cases hpath
    · obtain ⟨text, hread, _⟩ := Batch.generated?_eq_some_iff.mp hg
      rw [List.mem_singleton.mp hpath] at hread
      obtain ⟨hget, hslash⟩ := (Batch.readText_eq_ok_iff hsource).mp hread
      exact (FileTree.discover_eq_ok_iff hsource).mpr ⟨_, hget, .inr hslash, rfl⟩
  have hcompletes := Batch.completes_foldl hdir rfl (FileTree.plain_of_mem_discover hsource hfiles)
    hadmits hgrows hfailures
  have hfound {found : List String}
      (h : discover t (a.batch t input).source none = .ok found) : found = files :=
    Except.ok.inj ((FileTree.discover_of_grows hgrows hsource h).symm.trans hfiles)
  refine ⟨?_, ?_, ?_⟩
  · rw [hfiles₂, ← hp]
    exact hcompletes.grows
  · refine List.forall_mem_singleton.mpr fun found h => ?_
    rw [hfound h]
    exact hcompletes.apart
  · refine List.forall_mem_singleton.mpr fun found h path hpath => ?_
    rw [hfound h] at hpath ⊢
    obtain ⟨g, hg, _, hheld⟩ := hcompletes.held path hpath
    rw [hfiles₂]
    exact ⟨g, hg, hheld⟩

theorem status_of_foldl {inputs : List String} {state : Nat × Session}
    (h : (inputs.foldl (runInput a (directory t) (Path.resolve (directory t) a.output)) state).1 = 0) :
    state.1 = 0 := by
  induction inputs generalizing state with
  | nil => exact h
  | cons input inputs ih =>
    rw [List.foldl_cons] at h
    exact (runInput_eq_zero (ih h)).1

theorem completes_foldl {inputs : List String} (hinputs : inputs ⊆ a.inputs) {state : Nat × Session}
    (hgrows : Entry.Grows (a.Writes t) t.top state.2.files.top)
    (h : (inputs.foldl (runInput a (directory t) (Path.resolve (directory t) a.output)) state).1 = 0) :
    Completes a t inputs state.2
      (inputs.foldl (runInput a (directory t) (Path.resolve (directory t) a.output)) state).2 := by
  induction inputs generalizing state with
  | nil => exact ⟨.refl _, nofun, nofun⟩
  | cons input inputs ih =>
    obtain ⟨hinput, hrest⟩ := List.cons_subset.mp hinputs
    rw [List.foldl_cons] at h ⊢
    have hfirst := completes_runInput hinput hgrows (status_of_foldl h)
    exact hfirst.append (ih hrest (hgrows.trans hfirst.grows) h)

theorem Arguments.Yields.isClassName {input path : String} {g : Generated}
    (h : a.Yields t input path g) : isClassName g.className = true := by
  obtain ⟨_, _, _, _, hg⟩ := h
  obtain ⟨text, _, hgenerated⟩ := Batch.generated?_eq_some_iff.mp hg
  exact (generateFile_spec hgenerated).1

theorem exists_yields_of_writes {className text : String} (hname : isClassName className = true)
    (h : a.Writes t (Path.parts (a.outputPath t className)) text) :
    ∃ input path g, a.Yields t input path g ∧ g.className = className ∧ text = g.code := by
  obtain ⟨input, path, g, hyields, hplace, rfl⟩ := h
  refine ⟨input, path, g, hyields, ?_, rfl⟩
  have hparts {name : String} (h : isClassName name = true) :
      Path.parts (a.outputPath t name) = _ :=
    Batch.parts_outputPath (b := a.batch t input) (Path.plain_resolve _ _) rfl h
  rw [hparts hname, hparts hyields.isClassName] at hplace
  have hnames := congrArg String.toList (List.singleton_inj.mp (List.append_cancel_left hplace))
  rw [String.toList_append, String.toList_append] at hnames
  exact (String.toList_inj.mp (List.append_cancel_right hnames)).symm

namespace Completes

variable {s s' : Session} (h : Completes a t a.inputs s s')

include h

theorem exists_held {input : String} (hinput : input ∈ a.inputs) {files : List String}
    (hfiles : discover t (Path.resolve (directory t) input) none = .ok files) {path : String}
    (hpath : path ∈ files) :
    ∃ g, a.Yields t input path g ∧ ∃ input' path' g', a.Yields t input' path' g' ∧
      g'.className = g.className ∧
      Batch.readText s'.files (a.outputPath t g.className) = .ok g'.code := by
  obtain ⟨g, hg, text, hread, hwrites⟩ := h.held input hinput files hfiles path hpath
  have hyields : a.Yields t input path g := ⟨hinput, files, hfiles, hpath, hg⟩
  obtain ⟨input', path', g', hyields', hname, rfl⟩ :=
    exists_yields_of_writes hyields.isClassName hwrites
  exact ⟨g, hyields, input', path', g', hyields', hname, hread⟩

theorem eq_of_yields {input path path' : String} {g g' : Generated} (hg : a.Yields t input path g)
    (hg' : a.Yields t input path' g') (hname : g.className = g'.className) : g = g' := by
  obtain ⟨hinput, files, hfiles, hpath, hg⟩ := hg
  obtain ⟨_, files', hfiles', hpath', hg'⟩ := hg'
  cases hfiles.symm.trans hfiles'
  by_cases heq : path = path'
  · subst heq
    exact Option.some.inj (hg.symm.trans hg')
  · exact absurd hname ((h.apart input hinput files hfiles).forall hpath hpath' heq g hg g' hg')

theorem held_iff :
    (∀ input path g, a.Yields t input path g →
        Batch.readText s'.files (a.outputPath t g.className) = .ok g.code) ↔
      ∀ input path g input' path' g', a.Yields t input path g → a.Yields t input' path' g' →
        input ≠ input' → g.className = g'.className → g.code = g'.code := by
  constructor
  · intro hheld input path g input' path' g' hg hg' _ hname
    have hread := hheld input path g hg
    rw [hname, hheld input' path' g' hg'] at hread
    exact (Except.ok.inj hread).symm
  · intro hagree input path g hg
    obtain ⟨hinput, files, hfiles, hpath, hgenerated⟩ := id hg
    obtain ⟨g₁, hg₁, input', path', g', hg', hname, hread⟩ := h.exists_held hinput hfiles hpath
    obtain rfl : g₁ = g := by
      obtain ⟨_, files', hfiles', _, hgenerated'⟩ := hg₁
      cases hfiles.symm.trans hfiles'
      exact Option.some.inj (hgenerated'.symm.trans hgenerated)
    have hcode : g₁.code = g'.code := by
      by_cases heq : input = input'
      · subst heq
        rw [h.eq_of_yields hg hg' hname.symm]
      · exact hagree input path g₁ input' path' g' hg hg' heq hname.symm
    rw [hread, hcode]

end Completes

end CommandLine

/-! ## Two scenes of one class -/

namespace CommandLine

variable {a : Arguments} {t : FileTree}

theorem discover_of_readText {s : Session} {input path text : String}
    (hsource : Path.resolve (directory t) input = path)
    (hread : Batch.readText s.files path = .ok text) :
    discover s.files path none = .ok [path] := by
  have hplain : Path.Plain path := hsource ▸ Path.plain_resolve _ _
  obtain ⟨hget, hslash⟩ := (Batch.readText_eq_ok_iff hplain).mp hread
  exact (FileTree.discover_eq_ok_iff hplain).mpr ⟨_, hget, .inr hslash, rfl⟩

theorem runInput_of_write {s : Session} {input path text output : String} {g : Generated}
    {files : FileTree} (hverbose : a.verbose = false) (hclass : a.className = none)
    (hsource : Path.resolve (directory t) input = path) (hread : Batch.readText s.files path = .ok text)
    (hgenerated : generateFile path text ⟨none, none, a.setComments⟩ = .ok g)
    (hwrite : Batch.write (a.batch t input) s.files g = .ok (output, files)) (status : Nat) :
    runInput a (directory t) (Path.resolve (directory t) a.output) (status, s) input =
      (status, { s with files := files }) := by
  have hdiscover := discover_of_readText hsource hread
  have hcontains : s.files.contains path = true := by
    have hplain : Path.Plain path := hsource ▸ Path.plain_resolve _ _
    obtain ⟨hget, hslash⟩ := (Batch.readText_eq_ok_iff hplain).mp hread
    rw [FileTree.contains, (FileTree.find_eq_ok_iff hplain).mpr ⟨rfl, hget, .inr hslash⟩]
    rfl
  have hone : Batch.generateOne ⟨none, none, a.setComments⟩ { session := s } path = .ok g :=
    Batch.generateOne_eq_ok_iff.mpr ⟨text, hread, hgenerated, rfl⟩
  have hrun : Batch.run (a.batch t input) s =
      (.ok [⟨g.className, path, output⟩], { s with files := files }) := by
    simp only [Arguments.batch, hclass, hverbose, hsource] at hwrite
    simp only [Batch.run, Batch.run.discovered, Arguments.batch, hclass, hsource, hdiscover,
      Batch.chooseName, List.foldl_cons, List.foldl_nil, Batch.step, hverbose, hone, hwrite,
      Bool.false_eq_true, if_false]
    rfl
  simp only [Arguments.batch, hclass, hverbose, hsource] at hrun
  simp only [runInput, hcontains, hclass, hverbose, hsource, hrun, Bool.not_true, Bool.false_eq_true,
    if_false, List.foldl_nil]

theorem yields_of_readText {s : Session} {input path text : String} {g : Generated}
    (hinput : input ∈ a.inputs) (hclass : a.className = none)
    (hsource : Path.resolve (directory s.files) input = path)
    (hread : Batch.readText s.files path = .ok text)
    (hgenerated : generateFile path text ⟨none, none, a.setComments⟩ = .ok g) :
    a.Yields s.files input path g := by
  have hdiscover := discover_of_readText hsource hread
  have hoptions : Batch.options (a.batch s.files input) [path].length = ⟨none, none, a.setComments⟩ := by
    simp [Batch.options, Arguments.batch, hclass]
  rw [← hsource] at hdiscover
  refine ⟨hinput, [path], hsource ▸ hdiscover, List.mem_singleton.mpr rfl, ?_⟩
  rw [hoptions]
  exact Batch.generated?_eq_some_iff.mpr ⟨text, hread, hgenerated⟩

theorem write_root {entries : List (String × Entry)} {current : List String} {code : String}
    (houtput : Path.resolve (directory t) a.output = "/") (input : String)
    (h : ∀ es, entries.lookup "A.cs" ≠ some (.directory es)) :
    Batch.write (a.batch t input) ⟨.directory entries, current⟩ ⟨"A", code⟩ =
      .ok ("/A.cs", ⟨.directory (Entry.setName "A.cs" (.file code) entries), current⟩) := by
  have hpath : Path.join (a.batch t input).outputDir ("A" ++ (a.batch t input).extension) = "/A.cs" := by
    change Path.join (Path.resolve (directory t) a.output) ("A" ++ ".cs") = _
    rw [houtput]
    decide +kernel
  have hdirectory : Path.directory "/A.cs" = "/" := by decide +kernel
  have hplain : Path.Plain "/A.cs" := hpath ▸ Path.plain_join (Path.plain_resolve _ _) _
  have hparts : Path.parts "/A.cs" = [] ++ ["A.cs"] := by decide +kernel
  have hmake : FileTree.makeDirectory ⟨.directory entries, current⟩ "/" =
      .ok ⟨.directory entries, current⟩ := by
    rw [FileTree.makeDirectory, show Path.parts "/" = [] by decide]
    rfl
  have hwrite : FileTree.writeFile ⟨.directory entries, current⟩ "/A.cs" code = .ok _ :=
    FileTree.writeFile_eq_ok hplain hparts (by decide +kernel) rfl (fun es => by
      rw [List.nil_append, Entry.get?_directory_cons]
      cases hlookup : entries.lookup "A.cs" with
      | none => exact nofun
      | some e => exact fun he => h es (hlookup.trans he)) code
  rw [Batch.write, hpath, hdirectory, hmake]
  change (FileTree.writeFile ⟨.directory entries, current⟩ "/A.cs" code >>=
    fun t => pure ("/A.cs", t)) = _
  rw [hwrite]
  rfl

theorem readText_name {entries : List (String × Entry)} {name path text : String}
    (hpath : Path.resolve "/" name = path) (hparts : Path.parts path = [name])
    (hslash : Path.endsWithSlash path = false) (h : entries.lookup name = some (.file text)) :
    Batch.readText ⟨.directory entries, []⟩ path = .ok text := by
  refine (Batch.readText_eq_ok_iff (hpath ▸ Path.plain_resolve _ _)).mpr ⟨?_, hslash⟩
  rw [hparts, Entry.get?_directory_cons, h]
  rfl

def oneClassEntries : List (String × Entry) :=
  [("a.json", .file (classText "1000")), ("b.json", .file (classText "2000"))]

def oneClassFiles : FileTree where
  top := .directory oneClassEntries

def oneClassArguments : Arguments where
  inputs := ["a.json", "b.json"]
  output := "/"

theorem run_oneClass {code code' : String}
    (hcode : generateFile "/a.json" (classText "1000") {} = .ok ⟨"A", code⟩)
    (hcode' : generateFile "/b.json" (classText "2000") {} = .ok ⟨"A", code'⟩) :
    (run ["a.json", "b.json", "-o", "/"] { files := oneClassFiles }).1 = 0 ∧
      oneClassArguments.Yields oneClassFiles "a.json" "/a.json" ⟨"A", code⟩ ∧
      oneClassArguments.Yields oneClassFiles "b.json" "/b.json" ⟨"A", code'⟩ := by
  have hsource : Path.resolve (directory oneClassFiles) "a.json" = "/a.json" := by decide +kernel
  have hsource' : Path.resolve (directory oneClassFiles) "b.json" = "/b.json" := by decide +kernel
  have houtput : Path.resolve (directory oneClassFiles) oneClassArguments.output = "/" := by
    decide +kernel
  have hread : Batch.readText oneClassFiles "/a.json" = .ok (classText "1000") :=
    readText_name (by decide +kernel) (by decide +kernel) (by decide +kernel) List.lookup_cons_self
  have hlookup : oneClassEntries.lookup "b.json" = some (.file (classText "2000")) := by
    simp [oneClassEntries, List.lookup_cons]
  have hread' {entries : List (String × Entry)}
      (h : entries.lookup "b.json" = some (.file (classText "2000"))) :
      Batch.readText ⟨.directory entries, []⟩ "/b.json" = .ok (classText "2000") :=
    readText_name (by decide +kernel) (by decide +kernel) (by decide +kernel) h
  have hnone : oneClassEntries.lookup "A.cs" = none := by
    simp [oneClassEntries, List.lookup_cons]
  refine ⟨?_, yields_of_readText (s := { files := oneClassFiles }) (by decide) rfl hsource hread hcode,
    yields_of_readText (s := { files := oneClassFiles }) (by decide) rfl hsource' (hread' hlookup) hcode'⟩
  have hfirst := runInput_of_write (a := oneClassArguments) (s := { files := oneClassFiles })
    rfl rfl hsource hread hcode (write_root houtput "a.json" (by rw [hnone]; nofun)) 0
  have hsecond := runInput_of_write (a := oneClassArguments)
    (s := { files := ⟨.directory (Entry.setName "A.cs" (.file code) oneClassEntries), []⟩ })
    rfl rfl hsource' (hread' (by rw [Entry.lookup_setName, if_neg (by decide), hlookup])) hcode'
    (write_root houtput "b.json" (by rw [Entry.lookup_setName, if_pos rfl]; nofun)) 0
  change (List.foldl (runInput oneClassArguments (directory oneClassFiles)
    (Path.resolve (directory oneClassFiles) oneClassArguments.output))
      (0, { files := oneClassFiles }) ["a.json", "b.json"]).1 = 0
  rw [List.foldl_cons, hfirst, List.foldl_cons, hsecond]
  rfl

/-- A run with status zero shows the help, or has generated code from every scene file under every input
and left code of its class at its path.  Each file has its own code there exactly if files under different
inputs have the same code where they have the same class name. -/
theorem outputs_held_iff {arguments : List String} {s : Session} (h : (run arguments s).1 = 0) :
    (parse {} arguments = .ok .help ∧ (run arguments s).2.files = s.files) ∨
    ∃ a, parse {} arguments = .ok (.generate a) ∧
      (∀ input ∈ a.inputs, ∀ files,
        discover s.files (Path.resolve (directory s.files) input) none = .ok files →
        ∀ path ∈ files, ∃ g, a.Yields s.files input path g ∧
          ∃ input' path' g', a.Yields s.files input' path' g' ∧ g'.className = g.className ∧
            Batch.readText (run arguments s).2.files (a.outputPath s.files g.className) =
              .ok g'.code) ∧
      ((∀ input path g, a.Yields s.files input path g →
          Batch.readText (run arguments s).2.files (a.outputPath s.files g.className) = .ok g.code) ↔
        ∀ input path g input' path' g', a.Yields s.files input path g →
          a.Yields s.files input' path' g' → input ≠ input' → g.className = g'.className →
            g.code = g'.code) := by
  cases hparse : parse {} arguments with
  | error error =>
    simp only [run, hparse] at h
    cases h
  | ok command =>
    cases command with
    | help => exact .inl ⟨rfl, by simp only [run, hparse, Session.say]⟩
    | generate a =>
      simp only [run, hparse] at h ⊢
      split at h
      · cases h
      · rename_i hempty
        rw [if_neg hempty]
        have hcompletes := completes_foldl (t := s.files) (List.Subset.refl a.inputs) (.refl _) h
        exact .inr ⟨a, rfl, fun input hinput files hfiles path hpath =>
          hcompletes.exists_held hinput hfiles hpath, hcompletes.held_iff⟩

theorem outputs_lost_oneClass :
    (run ["a.json", "b.json", "-o", "/"] { files := oneClassFiles }).1 = 0 ∧
      parse {} ["a.json", "b.json", "-o", "/"] = .ok (.generate oneClassArguments) ∧
      ¬∀ input path g, oneClassArguments.Yields oneClassFiles input path g →
        Batch.readText (run ["a.json", "b.json", "-o", "/"] { files := oneClassFiles }).2.files
          (oneClassArguments.outputPath oneClassFiles g.className) = .ok g.code := by
  obtain ⟨code, hcode, rest, hlines⟩ : ∃ code,
      generateFile "/a.json" (classText "1000") {} = .ok ⟨"A", code⟩ ∧ _ :=
    exists_classText 1000 (by decide +kernel)
  obtain ⟨code', hcode', rest', hlines'⟩ : ∃ code,
      generateFile "/b.json" (classText "2000") {} = .ok ⟨"A", code⟩ ∧ _ :=
    exists_classText 2000 (by decide +kernel)
  have hne : code ≠ code' := by
    rintro rfl
    rw [hlines, List.flatMap_append, List.flatMap_append] at hlines'
    have hrest := congrArg (List.take 43) (List.append_cancel_left hlines')
    simp only [List.flatMap_cons, List.append_assoc] at hrest
    rw [List.take_append_of_le_length (by decide +kernel),
      List.take_append_of_le_length (by decide +kernel)] at hrest
    exact absurd hrest (by decide +kernel)
  have hparse : parse {} ["a.json", "b.json", "-o", "/"] = .ok (.generate oneClassArguments) := rfl
  obtain ⟨hzero, hyields, hyields'⟩ := run_oneClass hcode hcode'
  refine ⟨hzero, hparse, fun hheld => ?_⟩
  obtain ⟨hhelp, _⟩ | ⟨a, hparse', _, hiff⟩ := outputs_held_iff hzero
  · cases hparse.symm.trans hhelp
  · cases hparse.symm.trans hparse'
    exact hne (hiff.mp hheld _ _ _ _ _ _ hyields hyields' (by decide) rfl)

end CommandLine

end SceneCompiler
