import SceneCompiler.Generate
import SceneCompiler.Proofs.Code.Remarks
import SceneCompiler.Proofs.Compile.Faults
import SceneCompiler.Proofs.Naming.Segments
import SceneCompiler.Proofs.Scene.Faithfulness

/-!
# Generated code

Generating is loading a document and compiling its scene under a class name.  Wherever the name is
taken from, it is a class name.
-/

namespace SceneCompiler

namespace Scene

variable (scene : Scene) (o : GenerateOptions) (sourcePath : Option String)

def options : Options where
  className := ((o.className <|> scene.className) <|> sourcePath.bind ClassName.ofPath?).getD
    ClassName.standard
  nameSpace := o.nameSpace.getD "AnimatedVisuals"
  width := scene.width
  height := scene.height
  durationMs := scene.durationMs
  setComments := o.setComments

theorem generate_eq_ok_iff {g : Generated} :
    scene.generate o sourcePath = .ok g ↔
      (∀ name ∈ o.className, isClassName name = true) ∧
        ∃ c, compile scene.heap scene.root (scene.options o sourcePath) = .ok c ∧
          g = ⟨(scene.options o sourcePath).className, c.code⟩ := by
  have hcompile : ((compile scene.heap scene.root (scene.options o sourcePath)).mapError .fault >>=
      fun result => pure ⟨(scene.options o sourcePath).className, result.code⟩ :
        Except GenerateError Generated) = .ok g ↔
      ∃ c, compile scene.heap scene.root (scene.options o sourcePath) = .ok c ∧
        g = ⟨(scene.options o sourcePath).className, c.code⟩ := by
    cases compile scene.heap scene.root (scene.options o sourcePath) with
    | error fault => simp [Except.mapError, bind, Except.bind]
    | ok c => simp [Except.mapError, bind, Except.bind, pure, Except.pure, eq_comm]
  rw [← hcompile, generate]
  cases hname : o.className with
  | none => simp [options, hname]
  | some name =>
    cases hvalid : isClassName name with
    | true => simp [options, hname, hvalid]
    | false => simp [hvalid, throw, throwThe, MonadExceptOf.throw, bind, Except.bind]

end Scene

theorem generate_eq_ok_iff {document : Option Json} {o : GenerateOptions}
    {sourcePath : Option String} {g : Generated} :
    generate document o sourcePath = .ok g ↔
      ∃ scene, Scene.load document (sourcePath.getD "<memory>") = .ok scene ∧
        scene.generate o sourcePath = .ok g := by
  rw [generate]
  cases Scene.load document (sourcePath.getD "<memory>") with
  | error e => simp [Except.mapError, bind, Except.bind]
  | ok scene => simp [Except.mapError, bind, Except.bind]

theorem exists_generates (document : Option Json) (o : GenerateOptions) (sourcePath : Option String)
    {P : Scene → Prop} [DecidablePred P] (ho : ∀ name ∈ o.className, isClassName name = true)
    (h : ((Scene.load document (sourcePath.getD "<memory>")).toOption.any fun scene => decide (
      (Graph.ofRoot scene.heap scene.root).Sound o.setComments ∧ P scene)) = true) :
    ∃ scene, Scene.load document (sourcePath.getD "<memory>") = .ok scene ∧
      (∃ g, generate document o sourcePath = .ok g) ∧ P scene := by
  obtain ⟨scene, hload, hfaults, hP⟩ := Scene.exists_of_load h
  obtain ⟨c, hc⟩ := (Graph.compile_ok_iff (Graph.ofRoot_ordered scene.heap scene.root)
    (Scene.load_kinded hload) (scene.options o sourcePath)).mpr hfaults
  exact ⟨scene, hload, ⟨_, generate_eq_ok_iff.mpr ⟨scene, hload,
    (scene.generate_eq_ok_iff o sourcePath).mpr ⟨ho, c, hc, rfl⟩⟩⟩, hP⟩

/-! ## Class names -/

theorem isWord_of_isClassName {name : String} (h : isClassName name = true) :
    name ≠ "" ∧ ∀ c ∈ name.toList, (c.isAlphanum || c == '_') = true := by
  unfold isClassName at h
  split at h
  · rename_i first rest hname
    obtain ⟨hfirst, hrest⟩ := (Bool.and_eq_true _ _).mp h
    constructor
    · rintro rfl
      cases hname
    · rw [hname, List.forall_mem_cons]
      refine ⟨?_, List.all_eq_true.mp hrest⟩
      rcases (Bool.or_eq_true _ _).mp hfirst with hfirst | hfirst
      · rw [Char.isAlphanum, hfirst]
        rfl
      · rw [hfirst, Bool.or_true]
  · cases h

namespace ClassName

theorem isAlphanum_of_mem_words {text word : List Char} (h : word ∈ words text) :
    ∀ c ∈ word, c.isAlphanum = true := by
  fun_induction words text generalizing word with
  | case1 => simp_all
  | case2 c rest hc first more heq ih =>
    rcases List.mem_cons.mp h with rfl | h
    · exact List.forall_mem_cons.mpr ⟨hc, ih (heq ▸ List.mem_cons_self)⟩
    · exact ih (heq ▸ List.mem_cons_of_mem _ h)
  | case3 c rest hc heq ih =>
    rw [List.mem_singleton.mp h]
    simpa using hc
  | case4 c rest hc ih =>
    rcases List.mem_cons.mp h with rfl | h
    · simp
    · exact ih h

theorem isAlphanum_toUpper {c : Char} (h : c.isAlphanum = true) : c.toUpper.isAlphanum = true := by
  have hall : ∀ k < 0x80, (Char.ofNat k).isAlphanum = true →
      (Char.ofNat k).toUpper.isAlphanum = true := by decide
  have hc := hall c.toNat (toNat_lt_of_isAlphanum h)
  rw [Char.ofNat_toNat] at hc
  exact hc h

theorem isAlphanum_capitalize {word : List Char} (h : ∀ c ∈ word, c.isAlphanum = true) :
    ∀ c ∈ capitalize word, c.isAlphanum = true := by
  cases word with
  | nil => exact h
  | cons c rest =>
    obtain ⟨hc, hrest⟩ := List.forall_mem_cons.mp h
    exact List.forall_mem_cons.mpr ⟨isAlphanum_toUpper hc, hrest⟩

theorem isClassName_ofPath? {path name : String} (h : ofPath? path = some name) :
    isClassName name = true := by
  have hchars : ∀ c ∈ ((words (Path.stem path).toList).map capitalize).flatten,
      c.isAlphanum = true := by
    intro c hc
    obtain ⟨word, hword, hc⟩ := List.mem_flatten.mp hc
    obtain ⟨plain, hplain, rfl⟩ := List.mem_map.mp hword
    exact isAlphanum_capitalize (isAlphanum_of_mem_words hplain) c hc
  unfold ofPath? at h
  split at h
  · cases h
  · rename_i c rest htext
    rw [htext, List.forall_mem_cons] at hchars
    obtain ⟨hc, hrest⟩ := hchars
    have hall : rest.all (fun d => d.isAlphanum || d == '_') = true :=
      List.all_eq_true.mpr fun d hd => by rw [hrest d hd]; rfl
    obtain rfl := Option.some.inj h
    cases hdigit : c.isDigit with
    | true => simp [isClassName, hc, hall]
    | false =>
      have halpha : c.isAlpha = true := by
        simpa [Char.isAlphanum, hdigit] using hc
      simp [isClassName, halpha, hall]

end ClassName

namespace Scene

variable {json : Option Json} {path : String} {scene : Scene}

theorem isClassName_className (hload : Scene.load json path = .ok scene) :
    ∀ name ∈ scene.className, isClassName name = true := by
  intro name hname
  obtain ⟨d, place, hread, hrealizes, _⟩ := exists_document hload
  obtain ⟨ms, entries, _, hd⟩ := Document.read_eq_ok_iff.mp hread
  have hclass := hd.className
  rw [← hrealizes.className, hname] at hclass
  obtain ⟨j, _, _, hvalid⟩ := hclass
  exact hvalid

theorem isClassName_options (hload : Scene.load json path = .ok scene) {o : GenerateOptions}
    (ho : ∀ name ∈ o.className, isClassName name = true) (sourcePath : Option String) :
    isClassName (scene.options o sourcePath).className = true := by
  have hscene := isClassName_className hload
  unfold options
  dsimp only
  cases hname : o.className with
  | some name => exact ho name hname
  | none =>
    cases hown : scene.className with
    | some name => exact hscene name hown
    | none =>
      cases hpath : sourcePath.bind ClassName.ofPath? with
      | none => decide
      | some name =>
        obtain ⟨source, _, hsource⟩ := Option.bind_eq_some_iff.mp hpath
        exact ClassName.isClassName_ofPath? hsource

end Scene

/-! ## Code is no document -/

theorem head?_code {n : Nat} {heap : Heap n} {root : Fin n} {o : Options} {c : Compilation n}
    (h : compile heap root o = .ok c) : c.code.toList.head? = some '/' := by
  simp only [compile, Graph.compile, bind_eq_ok_iff] at h
  obtain ⟨p, _, hwrite⟩ := h
  simp only [Plan.write] at hwrite
  split at hwrite
  · obtain ⟨⟨methods, calls⟩, _, hcode⟩ := bind_eq_ok_iff.mp hwrite
    cases hcode
    rw [Code.render, Layout.toList_text]
    · rfl
    · exact List.cons_ne_nil _ _
  · cases hwrite

theorem Json.parse?_of_head? {text : String} (h : text.toList.head? = some '/') :
    Json.parse? text = none := by
  obtain ⟨rest, hrest⟩ := List.head?_eq_some_iff.mp h
  have hvalue (fuel : Nat) : Json.value? (fuel + 1) ('/' :: rest) = none := by
    rw [Json.value?]
    rfl
  rw [Json.parse?, hrest]
  simp only [hvalue]

theorem generateFile_spec {path text : String} {o : GenerateOptions} {g : Generated}
    (h : generateFile path text o = .ok g) :
    isClassName g.className = true ∧ Json.parse? g.code = none := by
  unfold generateFile at h
  split at h
  · obtain ⟨scene, hload, hgenerate⟩ := generate_eq_ok_iff.mp h
    obtain ⟨hname, c, hcompile, rfl⟩ := (scene.generate_eq_ok_iff o _).mp hgenerate
    exact ⟨Scene.isClassName_options hload hname _, Json.parse?_of_head? (head?_code hcompile)⟩
  · cases h

end SceneCompiler
