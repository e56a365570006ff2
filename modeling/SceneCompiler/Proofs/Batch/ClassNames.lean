import SceneCompiler.Proofs.Batch.Bookkeeping
import SceneCompiler.Proofs.CSharp.PropertyNames

/-!
# Class names

A class name is given by the caller, by the scene or by the path of the scene's file, and is an
identifier in each case.  The code of a class is written to an entry of the output directory: an
identifier cannot lead out of it.
-/

namespace SceneCompiler

namespace Path

/-! ## Base names -/

theorem exists_last {c : Char} {text : List Char} (h : c ∈ text) :
    ∃ front tail, text = front ++ c :: tail ∧ c ∉ tail := by
  obtain ⟨tail, front, htext, htail⟩ := List.eq_append_cons_of_mem (List.mem_reverse.mpr h)
  refine ⟨front.reverse, tail.reverse, ?_, by simpa using htail⟩
  rw [← List.reverse_reverse text, htext]
  simp

/-- The base name of a path is what is behind its last slash, slashes at its end aside. -/
inductive IsBaseName : List Char → List Char → Prop where
  | empty {path : List Char} : (∀ c ∈ path, c = '/') → IsBaseName path []
  | first {name slashes : List Char} : name ≠ [] → '/' ∉ name → (∀ c ∈ slashes, c = '/') →
      IsBaseName (name ++ slashes) name
  | behind {front name slashes : List Char} : name ≠ [] → '/' ∉ name → (∀ c ∈ slashes, c = '/') →
      IsBaseName (front ++ '/' :: name ++ slashes) name

theorem IsBaseName.concat_slash {path name : List Char} (h : IsBaseName path name) :
    IsBaseName (path ++ ['/']) name := by
  have hconcat {slashes : List Char} (h : ∀ c ∈ slashes, c = '/') : ∀ c ∈ slashes ++ ['/'], c = '/' := by
    simpa [or_imp, forall_and] using h
  cases h with
  | empty hpath => exact .empty (hconcat hpath)
  | first hname hslash hslashes =>
    rw [List.append_assoc]
    exact .first hname hslash (hconcat hslashes)
  | behind hname hslash hslashes =>
    rw [List.append_assoc]
    exact .behind hname hslash (hconcat hslashes)

theorem isBaseName_ofList (text : List Char) : IsBaseName text (name (String.ofList text)).toList := by
  have hparts {tail : List Char} (hne : tail ≠ []) (hslash : '/' ∉ tail) :
      parts (String.ofList tail) = [String.ofList tail] :=
    isPart_of_not_mem (by simpa using hne) (by simpa using hslash)
  -- from the end: a slash there is passed over, and anything else is part of the name
  induction text using List.reverseRecOn with
  | nil => exact .empty (List.forall_mem_nil _)
  | append_singleton init c ih =>
    by_cases hc : c = '/'
    · subst hc
      have hname : name (String.ofList (init ++ ['/'])) = name (String.ofList init) := by
        rw [name, String.ofList_append]
        exact congrArg (fun parts => parts.getLast?.getD "") (parts_append_slash _)
      rw [hname]
      exact ih.concat_slash
    · by_cases hmem : '/' ∈ init ++ [c]
      · obtain ⟨front, tail, htext, htail⟩ := exists_last hmem
        have hne : tail ≠ [] := by
          rintro rfl
          exact hc (List.singleton_inj.mp (List.append_inj_right' htext rfl))
        have hname : name (String.ofList (front ++ '/' :: tail)) = String.ofList tail := by
          have hsplit : String.ofList (front ++ '/' :: tail) =
              String.ofList front ++ "/" ++ String.ofList tail := by
            apply String.toList_injective
            simp
          rw [name, hsplit, parts_append, hparts hne htail]
          simp
        rw [htext, hname, String.toList_ofList]
        have hbehind : IsBaseName (front ++ '/' :: tail ++ []) tail :=
          .behind hne htail (List.forall_mem_nil _)
        rwa [List.append_nil] at hbehind
      · have hne : init ++ [c] ≠ [] := by simp
        have hfirst : IsBaseName (init ++ [c] ++ []) (init ++ [c]) := .first hne hmem (List.forall_mem_nil _)
        rw [List.append_nil] at hfirst
        rw [name, hparts hne hmem]
        simpa using hfirst

theorem isBaseName_name (path : String) : IsBaseName path.toList (name path).toList := by
  simpa using isBaseName_ofList path.toList

/-- The stem of a name ends before its last point.  A point that is the first character does not
count, and neither do the two of the name `..`. -/
inductive IsStem : List Char → List Char → Prop where
  | cut {front tail : List Char} : front ≠ [] → '.' ∉ tail → front ++ '.' :: tail ≠ ['.', '.'] →
      IsStem (front ++ '.' :: tail) front
  | whole {name : List Char} : '.' ∉ name.tail ∨ name = ['.', '.'] → IsStem name name

theorem isStem_take (name : List Char) : IsStem name (name.take (stemLength name)) := by
  have hpoint {tail : List Char} (h : '.' ∉ tail) : ∀ c ∈ tail.reverse, (c != '.') = true := by
    intro c hc
    exact bne_iff_ne.mpr fun heq => h (heq ▸ List.mem_reverse.mp hc)
  by_cases hdots : name = ['.', '.']
  · subst hdots
    exact .whole (.inr rfl)
  by_cases hmem : '.' ∈ name
  · obtain ⟨front, tail, rfl, htail⟩ := exists_last hmem
    have hafter : (front ++ '.' :: tail).reverse.takeWhile (· != '.') = tail.reverse := by
      rw [List.reverse_append, List.reverse_cons, List.append_assoc,
        List.takeWhile_append_of_pos (hpoint htail)]
      simp
    simp only [stemLength, hafter, List.length_append, List.length_reverse, List.length_cons]
    rw [Nat.add_sub_cancel]
    by_cases hfront : front = []
    · subst hfront
      have hwhole : IsStem ('.' :: tail) ('.' :: tail) := .whole (.inl htail)
      simpa using hwhole
    · have hlength : front.length ≠ 0 := by simpa using hfront
      simpa [hlength, hdots] using IsStem.cut hfront htail hdots
  · have hafter : name.reverse.takeWhile (· != '.') = name.reverse :=
      List.takeWhile_eq_self_iff.mpr (hpoint hmem)
    have hlength : stemLength name = name.length := by simp [stemLength, hafter]
    rw [hlength, List.take_length]
    exact .whole (.inl fun h => hmem (List.mem_of_mem_tail h))

theorem isStem_stem (path : String) : IsStem (name path).toList (stem path).toList := by
  rw [stem, String.toList_ofList]
  exact isStem_take _

end Path

/-! ## Names -/

theorem isClassName_iff {name : String} :
    isClassName name = true ↔ CSharp.IsIdentifier name.toList := by
  unfold isClassName CSharp.IsIdentifier
  cases name.toList with
  | nil => simp
  | cons first rest => simp

namespace ClassName

theorem flatten_words (text : List Char) : (words text).flatten = text.filter Char.isAlphanum := by
  fun_induction words text with
  | case1 => rfl
  | case2 c rest hc first more heq ih =>
    rw [heq] at ih
    rw [List.filter_cons_of_pos hc, ← ih]
    simp
  | case3 c rest hc heq ih =>
    rw [heq] at ih
    rw [List.filter_cons_of_pos hc, ← ih]
    rfl
  | case4 c rest hc ih =>
    rw [List.filter_cons_of_neg hc, ← ih]
    rfl

theorem capitalize_eq_nil_iff {word : List Char} : capitalize word = [] ↔ word = [] := by
  cases word <;> simp [capitalize]

theorem ofPath?_eq_none_iff {path : String} :
    ofPath? path = none ↔ ∀ c ∈ (Path.stem path).toList, c.isAlphanum = false := by
  have hempty : ((words (Path.stem path).toList).map capitalize).flatten = [] ↔
      (words (Path.stem path).toList).flatten = [] := by
    simp [List.flatten_eq_nil_iff, capitalize_eq_nil_iff]
  have hnone : ofPath? path = none ↔
      ((words (Path.stem path).toList).map capitalize).flatten = [] := by
    unfold ofPath?
    split <;> simp_all
  rw [hnone, hempty, flatten_words, List.filter_eq_nil_iff]
  simp

end ClassName

theorem isClassName_of_generate {document : Option Json} {o : GenerateOptions}
    {sourcePath : Option String} {g : Generated} (h : generate document o sourcePath = .ok g) :
    isClassName g.className = true := by
  obtain ⟨scene, hload, hgenerate⟩ := generate_eq_ok_iff.mp h
  obtain ⟨hname, c, _, rfl⟩ := (scene.generate_eq_ok_iff o sourcePath).mp hgenerate
  exact Scene.isClassName_options hload hname _

namespace Batch

/-! ## Output paths -/

structure IsEntry (b : BatchOptions) (name path : String) : Prop where
  isAbsolute : Path.isAbsolute path = Path.isAbsolute b.outputDir
  parts : Path.parts path = outputParts b ++ [name]
  endsWithSlash : Path.endsWithSlash path = false

/-- A path to the entry of the output directory that is named for a class.  Where the extension has a
slash, the entry is named with what is before the first one, and the rest is followed from there. -/
inductive Enters (b : BatchOptions) (className : String) : String → Prop where
  | entry {path : String} : '/' ∉ b.extension.toList → IsEntry b (className ++ b.extension) path →
      Enters b className path
  | beyond {front rest path : String} : b.extension = front ++ ("/" ++ rest) → '/' ∉ front.toList →
      IsEntry b (className ++ front) path → Enters b className (Path.normalize (path ++ ("/" ++ rest)))

variable {b : BatchOptions} {o : GenerateOptions}

theorem isEntry_join {className front : String} (h : isClassName className = true)
    (hfront : '/' ∉ front.toList) :
    IsEntry b (className ++ front) (Path.join b.outputDir (className ++ front)) := by
  obtain ⟨hpart, hdown⟩ := isPart_of_isClassName h hfront
  obtain ⟨habsolute, hparts, hslash⟩ := Path.join_name b.outputDir hpart hdown
  exact ⟨habsolute, hparts, hslash⟩

theorem enters_outputPath (b : BatchOptions) {className : String} (h : isClassName className = true) :
    Enters b className (outputPath b className) := by
  unfold outputPath
  by_cases hmem : '/' ∈ b.extension.toList
  · obtain ⟨front, rest, hextension, hfront⟩ := List.eq_append_cons_of_mem hmem
    have hfront : '/' ∉ (String.ofList front).toList := by rwa [String.toList_ofList]
    have hsplit : b.extension = String.ofList front ++ ("/" ++ String.ofList rest) := by
      apply String.toList_injective
      simpa using hextension
    obtain ⟨hpart, hdown⟩ := isPart_of_isClassName h hfront
    rw [hsplit, ← String.append_assoc, Path.join_append _ hpart hdown (.inr ⟨_, rfl⟩)]
    exact .beyond hsplit hfront (isEntry_join h hfront)
  · exact .entry hmem (isEntry_join h hmem)

/-! ## Batches -/

/-- An output is of a class with an identifier for its name, and is where that name leads. -/
structure Named (b : BatchOptions) (output : Output) : Prop where
  isIdentifier : CSharp.IsIdentifier output.className.toList
  enters : Enters b output.className output.outputPath

theorem named_of_write {t next : FileTree} {g : Generated} {path output : String}
    (hname : isClassName g.className = true) (h : write b t g = .ok (output, next)) :
    Named b ⟨g.className, path, output⟩ := by
  obtain ⟨made, _, hrest⟩ := bind_eq_ok_iff.mp h
  obtain ⟨written, _, hpure⟩ := bind_eq_ok_iff.mp hrest
  cases hpure
  exact ⟨isClassName_iff.mp hname, enters_outputPath b hname⟩

theorem step_named {p : Progress} (h : ∀ output ∈ p.outputs, Named b output) (path : String) :
    ∀ output ∈ (step b o p path).outputs, Named b output := by
  cases hone : generateOne o p path with
  | error cause =>
    rw [(step_of_error hone).2.1]
    exact h
  | ok g =>
    obtain ⟨text, _, hgenerated, _⟩ := generateOne_eq_ok_iff.mp hone
    have hname := (generateFile_spec hgenerated).1
    cases hwrite : write b p.session.files g with
    | error error =>
      rw [(step_of_unwritten hone hwrite).2.1]
      exact h
    | ok result =>
      obtain ⟨output, next⟩ := result
      rw [(step_of_write hone hwrite).2.1, List.forall_mem_append]
      exact ⟨h, List.forall_mem_singleton.mpr (named_of_write hname hwrite)⟩

theorem foldl_named {files : List String} {p : Progress} (h : ∀ output ∈ p.outputs, Named b output) :
    ∀ output ∈ (files.foldl (step b o) p).outputs, Named b output := by
  induction files generalizing p with
  | nil => exact h
  | cons path files ih => exact ih (step_named h path)

theorem run_named {s s' : Session} {outputs : List Output} (h : run b s = (.ok outputs, s')) :
    ∀ output ∈ outputs, Named b output := by
  obtain ⟨files, _, p, _, hempty, _, rfl, _⟩ := run_eq_ok h
  apply foldl_named
  rw [hempty]
  exact List.forall_mem_nil _

end Batch

/-- Every name that code is generated under is an identifier, and code that a batch has written is at
the entry of the output directory with that name, whether other scenes fail or not.  A path gives no
name if its base name without extension has no letters or digits. -/
theorem generate_names_identifiers :
    (∀ document o sourcePath g, generate document o sourcePath = .ok g →
      CSharp.IsIdentifier g.className.toList) ∧
    (∀ path text o g, generateFile path text o = .ok g → CSharp.IsIdentifier g.className.toList) ∧
    (∀ path, Path.IsBaseName path.toList (Path.name path).toList ∧
      Path.IsStem (Path.name path).toList (Path.stem path).toList ∧
      (ClassName.ofPath? path = none ↔ ∀ c ∈ (Path.stem path).toList, c.isAlphanum = false)) ∧
    (∀ b o s, ∀ files : List String,
      ∀ output ∈ (files.foldl (Batch.step b o) { session := s }).outputs, Batch.Named b output) ∧
    ∀ b s outputs s', Batch.run b s = (.ok outputs, s') → ∀ output ∈ outputs, Batch.Named b output := by
  refine ⟨fun document o sourcePath g h => ?_, fun path text o g h => ?_, fun path => ?_,
    fun b o s files => ?_, fun b s outputs s' h => ?_⟩
  · exact isClassName_iff.mp (isClassName_of_generate h)
  · exact isClassName_iff.mp (generateFile_spec h).1
  · exact ⟨Path.isBaseName_name path, Path.isStem_stem path, ClassName.ofPath?_eq_none_iff⟩
  · exact Batch.foldl_named (List.forall_mem_nil _)
  · exact Batch.run_named h

/-- A scene that leaves its class name to its path. -/
def spinnerDocument : Option Json :=
  Scene.documentOf [("root", .object [("type", .string "ContainerVisual")])]

theorem generate_names_identifiers_spinner :
    (∃ g, generate spinnerDocument {} (some "./9 loading-spinner.json") = .ok g ∧
      g.className = "_9LoadingSpinner" ∧ CSharp.IsIdentifier g.className.toList) ∧
    ClassName.ofPath? "spinner/é.json" = none ∧
    ∃ output ∈ (["../s/a.json"].foldl (Batch.step Batch.rivalOptions (Batch.options Batch.rivalOptions 2))
        { session := { files := Batch.rivalFiles } }).outputs,
      output.className = "A" ∧ Batch.Named Batch.rivalOptions output := by
  obtain ⟨hgenerate, _, hpath, hbatch, _⟩ := generate_names_identifiers
  refine ⟨?_, ?_, ?_⟩
  · obtain ⟨scene, hload, ⟨g, hg⟩, hname⟩ :
        ∃ scene, Scene.load spinnerDocument "./9 loading-spinner.json" = .ok scene ∧
          (∃ g, generate spinnerDocument {} (some "./9 loading-spinner.json") = .ok g) ∧
          (scene.options {} (some "./9 loading-spinner.json")).className = "_9LoadingSpinner" :=
      exists_generates spinnerDocument {} (some "./9 loading-spinner.json")
        (fun _ h => absurd h (Option.not_mem_none _)) (by decide +kernel)
    obtain ⟨scene', hload', hscene⟩ := generate_eq_ok_iff.mp hg
    cases hload.symm.trans hload'
    obtain ⟨_, c, _, rfl⟩ := (scene.generate_eq_ok_iff {} _).mp hscene
    exact ⟨_, hg, hname, hgenerate _ _ _ _ hg⟩
  · have hstem : Path.stem "spinner/é.json" = "é" := by decide +kernel
    refine (hpath _).2.2.mpr ?_
    rw [hstem]
    exact List.forall_mem_singleton.mpr (by decide)
  · obtain ⟨code, hcode, _⟩ : ∃ code,
        generateFile "../s/a.json" (classText "1000") {} = .ok ⟨"A", code⟩ ∧ _ :=
      exists_classText 1000 (by decide +kernel)
    have hattempt := Batch.attempt_rivals "a.json" (by decide +kernel) (by decide +kernel) rfl rfl hcode
    obtain ⟨⟨output, next⟩, hwrite⟩ := Batch.write_rivals code
    have hmem : (⟨"A", "../s/a.json", output⟩ : Output) ∈
        (["../s/a.json"].foldl (Batch.step Batch.rivalOptions (Batch.options Batch.rivalOptions 2))
          { session := { files := Batch.rivalFiles } }).outputs := by
      have hone : Batch.generateOne (Batch.options Batch.rivalOptions 2)
          { session := { files := Batch.rivalFiles } } "../s/a.json" = .ok ⟨"A", code⟩ :=
        Batch.generateOne_of_free hattempt rfl
      rw [List.foldl_cons, List.foldl_nil, (Batch.step_of_write hone hwrite).2.1]
      exact List.mem_append_right _ (List.mem_singleton_self _)
    exact ⟨_, hmem, rfl, hbatch _ _ _ _ _ hmem⟩

end SceneCompiler
