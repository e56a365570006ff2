import SceneCompiler.Proofs.Batch.Outputs
import SceneCompiler.Proofs.Files.Search
import SceneCompiler.Proofs.Scene.PlainCode

/-!
# The books of a batch

A file is written, or it is reported as a failure: because it gives no code, or because an earlier
output has its class name.  Code is written under names that no scene file has, so every file is
read as it was at the start, and no output is written over.
-/

namespace SceneCompiler.Batch

variable {b : BatchOptions} {o : GenerateOptions} {t now next : FileTree}

/-! ## Outcomes -/

def attempt (t : FileTree) (o : GenerateOptions) (path : String) : Except FailureCause Generated := do
  let text ← (readText t path).mapError .file
  (generateFile path text o).mapError .generate

inductive Yields (b : BatchOptions) (t : FileTree) (o : GenerateOptions) (earlier : List Output)
    (path : String) : Output ⊕ Failure → Prop
  | refused {cause : FailureCause} :
      attempt t o path = .error cause → Yields b t o earlier path (.inr ⟨path, cause⟩)
  | taken {g : Generated} {previous : Output} :
      attempt t o path = .ok g → previous ∈ earlier → previous.className = g.className →
      Yields b t o earlier path (.inr ⟨path, .duplicate g.className previous.sourcePath⟩)
  | written {g : Generated} :
      attempt t o path = .ok g → (∀ previous ∈ earlier, previous.className ≠ g.className) →
      Yields b t o earlier path (.inl ⟨g.className, path, outputPath b g.className⟩)

inductive Handled (b : BatchOptions) (t : FileTree) (o : GenerateOptions) :
    List Output → List String → List (Output ⊕ Failure) → Prop
  | nil (earlier : List Output) : Handled b t o earlier [] []
  | cons {earlier : List Output} {path : String} {files : List String}
      {outcome : Output ⊕ Failure} {outcomes : List (Output ⊕ Failure)} :
      Yields b t o earlier path outcome →
      Handled b t o (earlier ++ outcome.getLeft?.toList) files outcomes →
      Handled b t o earlier (path :: files) (outcome :: outcomes)

theorem Handled.map_path {earlier : List Output} {files : List String}
    {outcomes : List (Output ⊕ Failure)} (h : Handled b t o earlier files outcomes) :
    outcomes.map (Sum.elim Output.sourcePath Failure.filePath) = files := by
  induction h with
  | nil => rfl
  | cons hyields _ ih =>
    rw [List.map_cons, ih]
    cases hyields <;> rfl

theorem Handled.xor {earlier : List Output} {files : List String}
    {outcomes : List (Output ⊕ Failure)} (h : Handled b t o earlier files outcomes)
    (hnodup : files.Nodup) {path : String} (hpath : path ∈ files) :
    Xor (∃ output ∈ outcomes.filterMap Sum.getLeft?, output.sourcePath = path)
      (∃ failure ∈ outcomes.filterMap Sum.getRight?, failure.filePath = path) := by
  have hmap := h.map_path
  have hinj := List.inj_on_of_nodup_map (hmap ▸ hnodup)
  obtain ⟨outcome, houtcome, rfl⟩ := List.mem_map.mp (hmap ▸ hpath)
  cases outcome with
  | inl output =>
    refine .inl ⟨⟨output, List.mem_filterMap.mpr ⟨_, houtcome, rfl⟩, rfl⟩, ?_⟩
    rintro ⟨failure, hfailure, heq⟩
    obtain ⟨outcome', houtcome', hright⟩ := List.mem_filterMap.mp hfailure
    obtain rfl := Sum.getRight?_eq_some_iff.mp hright
    cases hinj houtcome houtcome' heq.symm
  | inr failure =>
    refine .inr ⟨⟨failure, List.mem_filterMap.mpr ⟨_, houtcome, rfl⟩, rfl⟩, ?_⟩
    rintro ⟨output, houtput, heq⟩
    obtain ⟨outcome', houtcome', hleft⟩ := List.mem_filterMap.mp houtput
    obtain rfl := Sum.getLeft?_eq_some_iff.mp hleft
    cases hinj houtcome houtcome' heq.symm

/-! ## Reading -/

theorem readText_of_find {path text : String} {place : List String}
    (h : t.find path = .ok (place, .file text)) : readText t path = .ok text := by
  rw [readText, h]

theorem attempt_congr {path : String} (h : now.find path = t.find path) :
    attempt now o path = attempt t o path := by
  rw [attempt, attempt, readText, readText, h]

theorem isClassName_of_attempt {path : String} {g : Generated} (h : attempt t o path = .ok g) :
    isClassName g.className = true := by
  obtain ⟨text, _, hgenerated⟩ := bind_eq_ok_iff.mp h
  exact (generateFile_spec (mapError_eq_ok_iff.mp hgenerated)).1

/-! ## Writing -/

def outputParts (b : BatchOptions) : List String :=
  Path.simplify (Path.isAbsolute b.outputDir) (Path.parts b.outputDir)

section Write

variable (hextension : b.extension = ".cs")

include hextension

theorem outputPath_spec {className : String} (h : isClassName className = true) :
    Path.isAbsolute (outputPath b className) = Path.isAbsolute b.outputDir ∧
      Path.parts (outputPath b className) = outputParts b ++ [className ++ ".cs"] ∧
      Path.endsWithSlash (outputPath b className) = false := by
  obtain ⟨hpart, hdown, _⟩ := fileName_spec h
  rw [outputPath, hextension]
  exact Path.join_name b.outputDir hpart hdown

theorem eq_of_outputPath_eq {className className' : String} (h : isClassName className = true)
    (h' : isClassName className' = true) (heq : outputPath b className = outputPath b className') :
    className = className' := by
  have hparts := (outputPath_spec hextension h).2.1
  rw [heq, (outputPath_spec hextension h').2.1] at hparts
  have hname := List.singleton_inj.mp (List.append_cancel_left hparts)
  exact (String.append_left_inj ".cs").mp hname.symm

theorem write_eq_ok_iff {g : Generated} (hname : isClassName g.className = true) {path : String} :
    write b t g = .ok (path, next) ↔ path = outputPath b g.className ∧
      ∃ made parent entries, t.makeAlong (t.start b.outputDir) (outputParts b) = .ok made ∧
        made.follow (t.start b.outputDir) (outputParts b) = .ok parent ∧
        made.top.get? parent = some (.directory entries) ∧
        (∀ es, made.top.get? (parent ++ [g.className ++ ".cs"]) ≠ some (.directory es)) ∧
        next.top = made.top.put (parent ++ [g.className ++ ".cs"]) (.file g.code) ∧
        next.current = made.current := by
  obtain ⟨habsolute, hparts, hslash⟩ := outputPath_spec hextension hname
  obtain ⟨hdirectory, hnames⟩ := Path.directory_spec hparts
  have hmakes (made : FileTree) : t.makeDirectory (Path.directory (outputPath b g.className)) =
      .ok made ↔ t.makeAlong (t.start b.outputDir) (outputParts b) = .ok made := by
    have hstart : t.start (Path.directory (outputPath b g.className)) = t.start b.outputDir := by
      rw [FileTree.start, FileTree.start, hdirectory, habsolute]
    rw [FileTree.makeDirectory, mapError_eq_ok_iff, hstart]
    rcases hnames with hnames | ⟨hdot, hnil⟩
    · rw [hnames]
    · rw [hdot, hnil]
      rfl
  have hwrites (made : FileTree) (hmade : made.current = t.current) :
      made.writeFile (outputPath b g.className) g.code = .ok next ↔
        ∃ parent entries, made.follow (t.start b.outputDir) (outputParts b) = .ok parent ∧
          made.top.get? parent = some (.directory entries) ∧
          (∀ es, made.top.get? (parent ++ [g.className ++ ".cs"]) ≠ some (.directory es)) ∧
          next.top = made.top.put (parent ++ [g.className ++ ".cs"]) (.file g.code) ∧
          next.current = made.current := by
    have hstart : made.start (outputPath b g.className) = t.start b.outputDir := by
      rw [FileTree.start, FileTree.start, habsolute, hmade]
    have hwritable (place : List String) : made.writable (outputPath b g.className) = .ok place ↔ _ :=
      FileTree.writable_eq_ok_iff hparts (fileName_spec hname).2.1 hslash
    rw [hstart] at hwritable
    rw [FileTree.writeFile]
    cases hplace : made.writable (outputPath b g.className) with
    | error fault =>
      refine iff_of_false (fun h => by cases h) ?_
      rintro ⟨parent, entries, hfollow, hparent, hfree, _⟩
      rw [(hwritable _).mpr ⟨parent, entries, hfollow, hparent, hfree, rfl⟩] at hplace
      cases hplace
    | ok place =>
      constructor
      · intro h
        cases h
        obtain ⟨parent, entries, hfollow, hparent, hfree, rfl⟩ := (hwritable _).mp hplace
        exact ⟨parent, entries, hfollow, hparent, hfree, rfl, rfl⟩
      · rintro ⟨parent, entries, hfollow, hparent, hfree, htop, hcurrent⟩
        rw [(hwritable _).mpr ⟨parent, entries, hfollow, hparent, hfree, rfl⟩] at hplace
        cases hplace
        dsimp only
        rw [← htop, ← hcurrent]
  constructor
  · intro h
    obtain ⟨made, hmade, hrest⟩ := bind_eq_ok_iff.mp h
    obtain ⟨written, hwritten, hpure⟩ := bind_eq_ok_iff.mp hrest
    cases hpure
    have halong := (hmakes made).mp hmade
    obtain ⟨parent, entries, hspec⟩ :=
      (hwrites made (FileTree.current_makeAlong halong)).mp hwritten
    exact ⟨rfl, made, parent, entries, halong, hspec⟩
  · rintro ⟨rfl, made, parent, entries, halong, hspec⟩
    refine bind_eq_ok_iff.mpr ⟨made, (hmakes made).mpr halong, bind_eq_ok_iff.mpr ⟨next, ?_, rfl⟩⟩
    exact (hwrites made (FileTree.current_makeAlong halong)).mpr ⟨parent, entries, hspec⟩

theorem write_frame {g : Generated} (hname : isClassName g.className = true) {path : String}
    (h : write b now g = .ok (path, next)) :
    next.current = now.current ∧
      (∃ place, next.find (outputPath b g.className) = .ok (place, .file g.code) ∧
        place.getLast? = some (g.className ++ ".cs")) ∧
      Entry.Grows (fun place _ => place.getLast? = some (g.className ++ ".cs")) now.top next.top := by
  obtain ⟨_, made, parent, entries, halong, hfollow, hparent, hfree, htop, hcurrent⟩ :=
    (write_eq_ok_iff hextension hname).mp h
  obtain ⟨habsolute, hparts, hslash⟩ := outputPath_spec hextension hname
  obtain ⟨_, hdown, hscene⟩ := fileName_spec hname
  have hstays : next.current = now.current := hcurrent.trans (FileTree.current_makeAlong halong)
  have hputs : Entry.Grows (fun place _ => place.getLast? = some (g.className ++ ".cs")) made.top
      next.top :=
    htop ▸ Entry.grows_put (.file hfree hscene) fun _ _ => List.getLast?_concat
  have hget : next.top.get? (parent ++ [g.className ++ ".cs"]) = some (.file g.code) :=
    htop ▸ Entry.get?_put hparent (g.className ++ ".cs") (.file g.code)
  refine ⟨hstays, ⟨_, FileTree.find_eq_ok.mpr ⟨?_, ?_, hget, .inr hslash⟩, List.getLast?_concat⟩,
    (FileTree.grows_makeAlong halong).trans hputs⟩
  · intro hempty
    rw [hempty, Path.parts_empty] at hparts
    simp at hparts
  · have hstart : next.start (outputPath b g.className) = now.start b.outputDir := by
      rw [FileTree.start, FileTree.start, habsolute, hstays]
    obtain ⟨entries', hparent'⟩ := FileTree.directory_of_grows hputs hparent
    rw [hstart, hparts]
    exact FileTree.follow_append_eq_ok_iff.mpr ⟨parent, FileTree.follow_of_grows hputs hfollow,
      FileTree.follow_down hparent' hdown (by rw [hget]; rfl)⟩

theorem write_again {g g' : Generated} (hname : isClassName g.className = true)
    (hname' : isClassName g'.className = true) {path : String}
    (h : write b now g = .ok (path, next)) (h' : ∃ result, write b now g' = .ok result) :
    ∃ result, write b next g' = .ok result := by
  obtain ⟨_, made, parent, entries, halong, hfollow, hparent, hfree, htop, hcurrent⟩ :=
    (write_eq_ok_iff hextension hname).mp h
  obtain ⟨⟨path', next'⟩, hwrite'⟩ := h'
  obtain ⟨_, made', parent', _, halong', hfollow', _, hfree', _⟩ :=
    (write_eq_ok_iff hextension hname').mp hwrite'
  cases halong.symm.trans halong'
  cases hfollow.symm.trans hfollow'
  have hputs : Entry.Grows (fun _ _ => True) made.top next.top :=
    htop ▸ Entry.grows_put (.file hfree (fileName_spec hname).2.2) fun _ _ => trivial
  have hstart : next.start b.outputDir = now.start b.outputDir := by
    rw [FileTree.start, FileTree.start, hcurrent, FileTree.current_makeAlong halong]
  have hfollowNext := FileTree.follow_of_grows hputs hfollow
  obtain ⟨entries', hparentNext⟩ := FileTree.directory_of_grows hputs hparent
  refine ⟨(_, ⟨_, _⟩), (write_eq_ok_iff hextension hname').mpr ⟨rfl, next, parent, entries', ?_, ?_,
    hparentNext, fun es hes => ?_, rfl, rfl⟩⟩
  · rw [hstart]
    exact FileTree.makeAlong_of_follow hfollowNext hparentNext
  · rw [hstart]
    exact hfollowNext
  · rw [htop] at hes
    by_cases hsame : g'.className ++ ".cs" = g.className ++ ".cs"
    · rw [hsame, Entry.get?_put hparent] at hes
      cases hes
    · rw [Entry.get?_put_of_ne hparent hsame] at hes
      exact hfree' es hes

end Write

/-! ## Steps -/

section Steps

variable {p : Progress} {path : String} {g : Generated}

theorem generateOne_of_refused {cause : FailureCause}
    (h : attempt p.session.files o path = .error cause) : generateOne o p path = .error cause := by
  unfold attempt at h
  unfold generateOne
  cases hread : (readText p.session.files path).mapError FailureCause.file with
  | error error =>
    rw [hread] at h
    cases h
    rfl
  | ok text =>
    rw [hread] at h
    simp only [bind, Except.bind] at h ⊢
    rw [h]

theorem generateOne_of_taken {previous : String} (h : attempt p.session.files o path = .ok g)
    (htaken : p.taken.lookup g.className = some previous) :
    generateOne o p path = .error (.duplicate g.className previous) := by
  obtain ⟨text, hread, hgenerated⟩ := bind_eq_ok_iff.mp h
  simp only [generateOne, hread, hgenerated, bind, Except.bind, htaken]
  rfl

theorem generateOne_of_free (h : attempt p.session.files o path = .ok g)
    (hfree : p.taken.lookup g.className = none) : generateOne o p path = .ok g := by
  obtain ⟨text, hread, hgenerated⟩ := bind_eq_ok_iff.mp h
  exact generateOne_eq_ok_iff.mpr
    ⟨text, mapError_eq_ok_iff.mp hread, mapError_eq_ok_iff.mp hgenerated, hfree⟩

end Steps

/-- The outputs have taken their class names, each for its file, and each is at its path. -/
structure Keeps (b : BatchOptions) (t : FileTree) (o : GenerateOptions) (p : Progress) : Prop where
  taken : p.taken = p.outputs.map fun output => (output.className, output.sourcePath)
  distinct : (p.outputs.map Output.className).Nodup
  held : ∀ output ∈ p.outputs, ∃ g place, attempt t o output.sourcePath = .ok g ∧
    output.className = g.className ∧ output.outputPath = outputPath b g.className ∧
    p.session.files.find output.outputPath = .ok (place, .file g.code) ∧
    place.getLast? = some (g.className ++ ".cs")

/-- Files that are still to be handled give what they gave at the start, and their code can be
written.  All but the first have names of scenes, so that no code is written over them before. -/
structure Ready (b : BatchOptions) (t : FileTree) (o : GenerateOptions) (files : List String)
    (now : FileTree) : Prop where
  same : ∀ path ∈ files, attempt now o path = attempt t o path
  scene : ∀ path ∈ files.tail, ∃ place, now.IsScene path place
  writes : ∀ path ∈ files, ∀ g, attempt t o path = .ok g → ∃ result, write b now g = .ok result

theorem Ready.tail {path : String} {files : List String} (h : Ready b t o (path :: files) now) :
    Ready b t o files now :=
  ⟨fun path' hmem => h.same path' (List.mem_cons_of_mem path hmem),
    fun path' hmem => h.scene path' (List.mem_of_mem_tail hmem),
    fun path' hmem => h.writes path' (List.mem_cons_of_mem path hmem)⟩

theorem Keeps.lookup_taken {p : Progress} (h : Keeps b t o p) {className previous : String}
    (hlookup : p.taken.lookup className = some previous) :
    ∃ output ∈ p.outputs, output.className = className ∧ output.sourcePath = previous := by
  obtain ⟨before, after, hsplit, _⟩ := List.lookup_eq_some_iff.mp hlookup
  have hmem : (className, previous) ∈ p.taken := by simp [hsplit]
  rw [h.taken] at hmem
  obtain ⟨output, houtput, heq⟩ := List.mem_map.mp hmem
  exact ⟨output, houtput, (Prod.mk.inj heq).1, (Prod.mk.inj heq).2⟩

theorem Keeps.free {p : Progress} (h : Keeps b t o p) {className : String}
    (hlookup : p.taken.lookup className = none) :
    ∀ output ∈ p.outputs, output.className ≠ className := by
  intro output houtput heq
  have hnone := List.lookup_eq_none_iff.mp hlookup (output.className, output.sourcePath) (by
    rw [h.taken]
    exact List.mem_map_of_mem houtput)
  simp [heq] at hnone

section Writing

variable (hextension : b.extension = ".cs") {g : Generated}
  (hname : isClassName g.className = true) {output : String}
  (hwrite : write b now g = .ok (output, next))

include hextension hname hwrite

theorem find_of_write {path text : String} {place : List String}
    (h : now.find path = .ok (place, .file text))
    (hplace : place.getLast? ≠ some (g.className ++ ".cs")) :
    next.find path = .ok (place, .file text) := by
  obtain ⟨hcurrent, _, hgrows⟩ := write_frame hextension hname hwrite
  exact FileTree.find_of_grows hgrows hcurrent h fun _ => hplace

theorem isScene_of_write {path : String} {place : List String} (h : now.IsScene path place) :
    next.find path = now.find path ∧ next.IsScene path place := by
  obtain ⟨text, hfind, name, hlast, hscene⟩ := h
  have hplace : place.getLast? ≠ some (g.className ++ ".cs") := by
    intro heq
    rw [hlast] at heq
    cases heq
    exact absurd hscene (Bool.eq_false_iff.mp (fileName_spec hname).2.2)
  have hnext := find_of_write hextension hname hwrite hfind hplace
  exact ⟨hnext.trans hfind.symm, text, hnext, name, hlast, hscene⟩

theorem Ready.of_write {path : String} {files : List String} (h : Ready b t o (path :: files) now) :
    Ready b t o files next := by
  refine ⟨fun path' hmem => ?_, fun path' hmem => ?_, fun path' hmem g' hg' => ?_⟩
  · obtain ⟨place, hscene⟩ := h.scene path' hmem
    rw [attempt_congr (isScene_of_write hextension hname hwrite hscene).1]
    exact h.same path' (List.mem_cons_of_mem path hmem)
  · obtain ⟨place, hscene⟩ := h.scene path' (List.mem_of_mem_tail hmem)
    exact ⟨place, (isScene_of_write hextension hname hwrite hscene).2⟩
  · exact write_again hextension hname (isClassName_of_attempt hg') hwrite
      (h.writes path' (List.mem_cons_of_mem path hmem) g' hg')

end Writing

theorem step_keeps (hextension : b.extension = ".cs") {p : Progress} {path : String}
    {files : List String} (hp : Keeps b t o p)
    (hready : Ready b t o (path :: files) p.session.files) :
    ∃ outcome, Yields b t o p.outputs path outcome ∧
      (step b o p path).outputs = p.outputs ++ outcome.getLeft?.toList ∧
      (step b o p path).failures = p.failures ++ outcome.getRight?.toList ∧
      Keeps b t o (step b o p path) ∧ Ready b t o files (step b o p path).session.files := by
  have hsame := hready.same path List.mem_cons_self
  have hfails : ∀ {cause}, generateOne o p path = .error cause →
      Yields b t o p.outputs path (.inr ⟨path, cause⟩) → ∃ outcome,
        Yields b t o p.outputs path outcome ∧
        (step b o p path).outputs = p.outputs ++ outcome.getLeft?.toList ∧
        (step b o p path).failures = p.failures ++ outcome.getRight?.toList ∧
        Keeps b t o (step b o p path) ∧ Ready b t o files (step b o p path).session.files := by
    intro cause hcause hyields
    obtain ⟨hfiles, houtputs, htaken, hfailures⟩ := step_of_error (b := b) hcause
    refine ⟨_, hyields, by simpa using houtputs, hfailures, ⟨?_, ?_, ?_⟩, ?_⟩
    · rw [htaken, houtputs]
      exact hp.taken
    · rw [houtputs]
      exact hp.distinct
    · rw [houtputs, hfiles]
      exact hp.held
    · rw [hfiles]
      exact hready.tail
  cases hattempt : attempt t o path with
  | error cause =>
    exact hfails (generateOne_of_refused (hsame.trans hattempt)) (.refused hattempt)
  | ok g =>
    have hname := isClassName_of_attempt hattempt
    cases hlookup : p.taken.lookup g.className with
    | some previous =>
      obtain ⟨output, houtput, hclass, rfl⟩ := hp.lookup_taken hlookup
      exact hfails (generateOne_of_taken (hsame.trans hattempt) hlookup)
        (.taken hattempt houtput hclass)
    | none =>
      have hfree := hp.free hlookup
      obtain ⟨⟨output, next⟩, hwrite⟩ := hready.writes path List.mem_cons_self g hattempt
      obtain ⟨hfiles, houtputs, htaken, hfailures⟩ :=
        step_of_write (generateOne_of_free (hsame.trans hattempt) hlookup) hwrite
      obtain rfl := ((write_eq_ok_iff hextension hname).mp hwrite).1
      obtain ⟨_, ⟨place, hfind, hlast⟩, _⟩ := write_frame hextension hname hwrite
      refine ⟨_, .written hattempt hfree, houtputs, by simpa using hfailures,
        ⟨?_, ?_, ?_⟩, ?_⟩
      · rw [htaken, houtputs, hp.taken, List.map_append]
        rfl
      · rw [houtputs, List.map_append, List.nodup_append]
        refine ⟨hp.distinct, List.pairwise_singleton _ _, ?_⟩
        intro name hname name' hname'
        obtain ⟨output, houtput, rfl⟩ := List.mem_map.mp hname
        rw [List.mem_singleton.mp hname']
        exact hfree output houtput
      · rw [houtputs, hfiles]
        intro output houtput
        rcases List.mem_append.mp houtput with houtput | houtput
        · obtain ⟨g', place', hattempt', hclass, hpath, hfind', hlast'⟩ := hp.held output houtput
          refine ⟨g', place', hattempt', hclass, hpath, ?_, hlast'⟩
          refine find_of_write hextension hname hwrite hfind' fun heq => ?_
          rw [hlast'] at heq
          have hsame := (String.append_left_inj ".cs").mp (Option.some.inj heq)
          exact hfree output houtput (hclass.trans hsame)
        · rw [List.mem_singleton.mp houtput]
          exact ⟨g, place, hattempt, rfl, rfl, hfind, hlast⟩
      · rw [hfiles]
        exact hready.of_write hextension hname hwrite

/-! ## Runs -/

theorem foldl_keeps (hextension : b.extension = ".cs") {files : List String} {p : Progress}
    (hp : Keeps b t o p) (hready : Ready b t o files p.session.files) :
    ∃ outcomes, Handled b t o p.outputs files outcomes ∧
      (files.foldl (step b o) p).outputs = p.outputs ++ outcomes.filterMap Sum.getLeft? ∧
      (files.foldl (step b o) p).failures = p.failures ++ outcomes.filterMap Sum.getRight? ∧
      Keeps b t o (files.foldl (step b o) p) := by
  induction files generalizing p with
  | nil => exact ⟨[], .nil _, by simp, by simp, hp⟩
  | cons path files ih =>
    obtain ⟨outcome, hyields, houtputs, hfailures, hkeeps, hnext⟩ :=
      step_keeps hextension hp hready
    obtain ⟨outcomes, hhandled, houtputs', hfailures', hkeeps'⟩ := ih hkeeps hnext
    rw [houtputs] at hhandled houtputs'
    rw [hfailures] at hfailures'
    refine ⟨outcome :: outcomes, .cons hyields hhandled, ?_, ?_, hkeeps'⟩
    · rw [List.foldl_cons, houtputs', List.append_assoc]
      cases outcome <;> rfl
    · rw [List.foldl_cons, hfailures', List.append_assoc]
      cases outcome <;> rfl

theorem run_eq {s : Session} (hname : ∀ name ∈ b.className, isClassName name = true)
    {files : List String} (hfiles : discover s.files b.source b.excludeDirs = .ok files) :
    ∃ session : Session, session.files = s.files ∧
      run b s = (if (files.foldl (step b (options b files.length))
          { session := session }).failures.isEmpty
        then .ok (files.foldl (step b (options b files.length)) { session := session }).outputs
        else .error (.failures (files.foldl (step b (options b files.length))
          { session := session }).failures),
        (files.foldl (step b (options b files.length)) { session := session }).session) := by
  have hrun : run b s = run.discovered b s := by
    unfold run
    split
    · rename_i name heq
      rw [if_pos (hname name heq)]
    · rfl
  obtain ⟨session, hchoice, hsession⟩ := chooseName_eq b files.length s
  refine ⟨session, hsession, ?_⟩
  rw [hrun, run.discovered, hfiles]
  simp only [hchoice]
  rfl

theorem Keeps.nodup_outputPath (hextension : b.extension = ".cs") {p : Progress}
    (h : Keeps b t o p) : (p.outputs.map Output.outputPath).Nodup := by
  refine List.pairwise_map.mpr ((List.pairwise_map.mp h.distinct).imp_of_mem ?_)
  intro output output' houtput houtput' hne heq
  obtain ⟨g, _, hattempt, hclass, hpath, _⟩ := h.held output houtput
  obtain ⟨g', _, hattempt', hclass', hpath', _⟩ := h.held output' houtput'
  rw [hpath, hpath'] at heq
  have hsame := eq_of_outputPath_eq hextension (isClassName_of_attempt hattempt)
    (isClassName_of_attempt hattempt') heq
  exact hne (hclass.trans (hsame.trans hclass'.symm))

/-- A batch for a source that exists handles its scene files in order, each of them once: a file is in
one of the lists of outputs and failures.  The outputs have different paths, and at the end each holds
what its file gave at the start.  The failures are reported exactly if there are any. -/
theorem run_keeps_books (b : BatchOptions) (s : Session) (hextension : b.extension = ".cs")
    (hname : ∀ name ∈ b.className, isClassName name = true) (hproper : s.files.top.Proper)
    (hsource : s.files.contains b.source = true)
    (hwrites : ∀ files, discover s.files b.source b.excludeDirs = .ok files → ∀ path ∈ files,
      ∀ g, attempt s.files (options b files.length) path = .ok g →
        ∃ result, write b s.files g = .ok result) :
    ∃ files outcomes, discover s.files b.source b.excludeDirs = .ok files ∧ files.Nodup ∧
      Handled b s.files (options b files.length) [] files outcomes ∧
      let outputs := outcomes.filterMap Sum.getLeft?
      let failures := outcomes.filterMap Sum.getRight?
      (∀ path ∈ files, Xor (∃ output ∈ outputs, output.sourcePath = path)
        (∃ failure ∈ failures, failure.filePath = path)) ∧
      (outputs.map Output.outputPath).Nodup ∧
      (∀ output ∈ outputs, ∃ g,
        attempt s.files (options b files.length) output.sourcePath = .ok g ∧
          readText (run b s).2.files output.outputPath = .ok g.code) ∧
      (failures = [] → (run b s).1 = .ok outputs) ∧
      (failures ≠ [] → (run b s).1 = .error (.failures failures)) := by
  obtain ⟨files, hfiles, hnodup, hscenes⟩ := FileTree.discover_spec hproper b.excludeDirs hsource
  obtain ⟨session, hsession, hrun⟩ := run_eq hname hfiles
  have hready : Ready b s.files (options b files.length) files session.files := by
    rw [hsession]
    refine ⟨fun _ _ => rfl, fun path hpath => ?_, hwrites files hfiles⟩
    rcases hscenes with rfl | hscenes
    · cases hpath
    · exact hscenes path (List.mem_of_mem_tail hpath)
  have hempty : Keeps b s.files (options b files.length) { session := session } :=
    ⟨rfl, List.nodup_nil, fun output houtput => absurd houtput List.not_mem_nil⟩
  obtain ⟨outcomes, hhandled, houtputs, hfailures, hkeeps⟩ := foldl_keeps hextension hempty hready
  rw [List.nil_append] at houtputs hfailures
  rw [hrun, houtputs, hfailures]
  refine ⟨files, outcomes, hfiles, hnodup, hhandled, fun path => hhandled.xor hnodup,
    houtputs ▸ hkeeps.nodup_outputPath hextension, fun output houtput => ?_, fun hnone => ?_,
    fun hsome => ?_⟩
  · obtain ⟨g, place, hattempt, _, _, hfind, _⟩ := hkeeps.held output (houtputs ▸ houtput)
    exact ⟨g, hattempt, readText_of_find hfind⟩
  · exact if_pos (List.isEmpty_iff.mpr hnone)
  · exact if_neg fun h => hsome (List.isEmpty_iff.mp h)

/-- Two scenes of one class in a directory, and the working directory beside it. -/
def rivalFiles : FileTree where
  top := .directory [("s", .directory [("a.json", .file (classText "1000")),
    ("b.json", .file (classText "2000"))]), ("w", .directory [])]
  current := ["w"]

def rivalOptions : BatchOptions where
  source := "../s"
  outputDir := "../o"

theorem proper_rivals : rivalFiles.top.Proper := by
  simp only [rivalFiles, Entry.Proper, Entry.ProperAll, Path.IsPart, Path.IsDown]
  decide +kernel

theorem discover_rivals :
    discover rivalFiles rivalOptions.source rivalOptions.excludeDirs =
      .ok ["../s/a.json", "../s/b.json"] := by
  have hfind : rivalFiles.find "../s" = .ok (["s"], .directory
      [("a.json", .file (classText "1000")), ("b.json", .file (classText "2000"))]) := by
    refine FileTree.find_eq_ok.mpr ⟨by decide, ?_, rfl, .inl rfl⟩
    rw [show Path.parts "../s" = ["..", "s"] by decide +kernel,
      show rivalFiles.start "../s" = ["w"] by decide +kernel]
    rfl
  have hbelow : Discovery.belowAll Discovery.standardExcludes "../s"
      [("a.json", .file (classText "1000")), ("b.json", .file (classText "2000"))] =
        ["../s/a.json", "../s/b.json"] := by
    have hscenes : Discovery.isSceneName "a.json" = true ∧ Discovery.isSceneName "b.json" = true := by
      decide +kernel
    have hpaths : Path.join "../s" "a.json" = "../s/a.json" ∧
        Path.join "../s" "b.json" = "../s/b.json" := by
      decide +kernel
    simp only [Discovery.belowAll, hscenes, hpaths, if_true]
    rfl
  have hsorted : ["../s/a.json", "../s/b.json"].mergeSort Text.le =
      ["../s/a.json", "../s/b.json"] :=
    List.mergeSort_of_pairwise (by decide +kernel)
  rw [discover, FileTree.stat, show rivalOptions.source = "../s" from rfl, hfind]
  change Except.ok ((Discovery.belowAll Discovery.standardExcludes "../s" _).mergeSort Text.le) = _
  rw [hbelow, hsorted]

theorem attempt_rivals (name : String) {durationMs code : String}
    (hparts : Path.parts ("../s/" ++ name) = ["..", "s", name])
    (hends : Path.isAbsolute ("../s/" ++ name) = false ∧
      Path.endsWithSlash ("../s/" ++ name) = false)
    (hfollow : rivalFiles.follow ["w"] ["..", "s", name] = .ok ["s", name])
    (hget : rivalFiles.top.get? ["s", name] = some (.file (classText durationMs)))
    (hcode : generateFile ("../s/" ++ name) (classText durationMs) {} = .ok ⟨"A", code⟩) :
    attempt rivalFiles (options rivalOptions 2) ("../s/" ++ name) = .ok ⟨"A", code⟩ := by
  have hne : "../s/" ++ name ≠ "" := by
    intro hempty
    rw [hempty] at hparts
    cases hparts
  have hfind : rivalFiles.find ("../s/" ++ name) =
      .ok (["s", name], .file (classText durationMs)) := by
    refine FileTree.find_eq_ok.mpr ⟨hne, ?_, hget, .inr hends.2⟩
    rw [FileTree.start, hends.1, hparts]
    exact hfollow
  rw [attempt, readText_of_find hfind]
  exact mapError_eq_ok_iff.mpr hcode

theorem write_rivals (code : String) :
    ∃ result, write rivalOptions rivalFiles ⟨"A", code⟩ = .ok result := by
  have hparts : outputParts rivalOptions = ["..", "o"] := by decide +kernel
  have hstart : rivalFiles.start rivalOptions.outputDir = ["w"] := by decide +kernel
  have hname : isClassName "A" = true := by decide +kernel
  refine ⟨(_, ⟨_, _⟩), (write_eq_ok_iff rfl hname).mpr ⟨rfl,
    { rivalFiles with top := rivalFiles.top.put ["o"] (.directory []) }, ["o"], [], ?_, ?_, rfl, ?_,
    rfl, rfl⟩⟩
  · rw [hstart, hparts]
    rfl
  · rw [hstart, hparts]
    rfl
  · intro es hes
    cases hes

theorem run_keeps_books_rivals : ∃ code,
    attempt rivalFiles (options rivalOptions 2) "../s/a.json" = .ok ⟨"A", code⟩ ∧
      readText (run rivalOptions { files := rivalFiles }).2.files "../o/A.cs" = .ok code ∧
      (run rivalOptions { files := rivalFiles }).1 =
        .error (.failures [⟨"../s/b.json", .duplicate "A" "../s/a.json"⟩]) := by
  obtain ⟨code, hcode, _⟩ : ∃ code,
      generateFile "../s/a.json" (classText "1000") {} = .ok ⟨"A", code⟩ ∧ _ :=
    exists_classText 1000 (by decide +kernel)
  obtain ⟨code', hcode', _⟩ : ∃ code,
      generateFile "../s/b.json" (classText "2000") {} = .ok ⟨"A", code⟩ ∧ _ :=
    exists_classText 2000 (by decide +kernel)
  have hfirst := attempt_rivals "a.json" (by decide +kernel) (by decide +kernel) rfl rfl hcode
  have hsecond := attempt_rivals "b.json" (by decide +kernel) (by decide +kernel) rfl rfl hcode'
  obtain ⟨files, outcomes, hfiles, _, hhandled, _, _, hheld, _, hfails⟩ :=
    run_keeps_books rivalOptions { files := rivalFiles } rfl (by decide) proper_rivals
      (by decide +kernel) (by
        intro files hfiles path hpath g hg
        cases discover_rivals.symm.trans hfiles
        rcases List.mem_pair.mp hpath with rfl | rfl
        · cases hfirst.symm.trans hg
          exact write_rivals code
        · cases hsecond.symm.trans hg
          exact write_rivals code')
  cases discover_rivals.symm.trans hfiles
  -- the outcomes are those that the two attempts leave room for
  have houtcomes : outcomes = [.inl ⟨"A", "../s/a.json", "../o/A.cs"⟩,
      .inr ⟨"../s/b.json", .duplicate "A" "../s/a.json"⟩] := by
    have hpath : outputPath rivalOptions "A" = "../o/A.cs" := by decide +kernel
    rw [← hpath]
    obtain _ | ⟨hyields, hrest⟩ := hhandled
    obtain _ | ⟨hyields', hnone⟩ := hrest
    cases hnone
    cases hyields with
    | refused hrefused => cases hfirst.symm.trans hrefused
    | taken _ hearlier => cases hearlier
    | written hwritten _ =>
      cases hfirst.symm.trans hwritten
      cases hyields' with
      | refused hrefused => cases hsecond.symm.trans hrefused
      | taken htaken hearlier _ =>
        cases hsecond.symm.trans htaken
        rw [List.mem_singleton.mp hearlier]
      | written hwritten hfree =>
        cases hsecond.symm.trans hwritten
        exact absurd rfl (hfree _ (List.mem_singleton_self _))
  subst houtcomes
  obtain ⟨g, hg, hread⟩ := hheld _ (List.mem_singleton_self _)
  cases hfirst.symm.trans hg
  exact ⟨code, hfirst, hread, hfails (List.cons_ne_nil _ _)⟩

end SceneCompiler.Batch
