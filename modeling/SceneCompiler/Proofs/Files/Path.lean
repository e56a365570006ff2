import SceneCompiler.Files.Path
import Mathlib.Data.List.Basic
import Mathlib.Data.List.Induction

/-!
# The parts of paths

A path that is made by resolving or joining is plain: it is absolute, and its parts lead straight down.
-/

namespace SceneCompiler.Path

theorem splitSlashes_ne_nil (text : List Char) : splitSlashes text ≠ [] := by
  fun_cases splitSlashes text <;> simp

theorem splitSlashes_append (left right : List Char) :
    splitSlashes (left ++ '/' :: right) = splitSlashes left ++ splitSlashes right := by
  induction left with
  | nil => rfl
  | cons c left ih =>
    rw [List.cons_append, splitSlashes, splitSlashes, ih]
    split
    · rfl
    · cases hleft : splitSlashes left with
      | nil => exact absurd hleft (splitSlashes_ne_nil left)
      | cons first more => rfl

theorem splitSlashes_of_not_mem {text : List Char} (h : '/' ∉ text) : splitSlashes text = [text] := by
  induction text with
  | nil => rfl
  | cons c text ih =>
    rw [List.mem_cons, not_or] at h
    rw [splitSlashes, if_neg (Ne.symm h.1), ih h.2]

theorem not_mem_of_mem_splitSlashes {text part : List Char} (h : part ∈ splitSlashes text) :
    '/' ∉ part := by
  fun_induction splitSlashes text generalizing part with
  | case1 => simp_all
  | case2 rest ih =>
    rcases List.mem_cons.mp h with rfl | h
    · exact List.not_mem_nil
    · exact ih h
  | case3 c rest hc first more heq ih =>
    rcases List.mem_cons.mp h with rfl | h
    · rw [List.mem_cons, not_or]
      exact ⟨Ne.symm hc, ih (heq ▸ List.mem_cons_self)⟩
    · exact ih (heq ▸ List.mem_cons_of_mem _ h)
  | case4 c rest hc heq => exact absurd heq (splitSlashes_ne_nil rest)

@[simp] theorem parts_empty : parts "" = [] := by decide

theorem parts_append (left right : String) :
    parts (left ++ "/" ++ right) = parts left ++ parts right := by
  have hchars : (left ++ "/" ++ right).toList = left.toList ++ '/' :: right.toList := by simp
  rw [parts, hchars, splitSlashes_append, List.map_append, List.filter_append]
  rfl

@[simp] theorem parts_slash_append (path : String) : parts ("/" ++ path) = parts path := by
  simpa using parts_append "" path

@[simp] theorem parts_append_slash (path : String) : parts (path ++ "/") = parts path := by
  simpa using parts_append path ""

def IsPart (name : String) : Prop :=
  parts name = [name]

theorem isPart_of_not_mem {name : String} (hne : name ≠ "") (h : '/' ∉ name.toList) : IsPart name := by
  simp [IsPart, parts, splitSlashes_of_not_mem h, hne]

theorem not_mem_of_mem_parts {path part : String} (h : part ∈ parts path) :
    part ≠ "" ∧ '/' ∉ part.toList := by
  simp only [parts, List.mem_filter, List.mem_map, Bool.not_eq_true', String.isEmpty_eq_false_iff] at h
  obtain ⟨⟨chars, hchars, rfl⟩, hne⟩ := h
  exact ⟨hne, by simpa using not_mem_of_mem_splitSlashes hchars⟩

theorem isPart_of_mem_parts {path part : String} (h : part ∈ parts path) : IsPart part :=
  isPart_of_not_mem (not_mem_of_mem_parts h).1 (not_mem_of_mem_parts h).2

theorem IsPart.not_mem {name : String} (h : IsPart name) : name ≠ "" ∧ '/' ∉ name.toList :=
  @not_mem_of_mem_parts name name (h ▸ List.mem_singleton_self name)

theorem parts_intercalate {names : List String} (h : ∀ name ∈ names, IsPart name) :
    parts ("/".intercalate names) = names := by
  induction names with
  | nil => simp
  | cons name names ih =>
    obtain ⟨hname, hnames⟩ := List.forall_mem_cons.mp h
    cases names with
    | nil =>
      rw [String.intercalate_singleton]
      exact hname
    | cons next names =>
      rw [String.intercalate_cons_cons, parts_append, ih hnames, hname]
      rfl

/-! ## Plain paths -/

def IsDown (part : String) : Prop :=
  part ≠ "." ∧ part ≠ ".."

/-- An absolute path whose parts lead straight down. -/
structure Plain (path : String) : Prop where
  isAbsolute : isAbsolute path = true
  isDown : ∀ part ∈ parts path, IsDown part

theorem push_of_isDown {part : String} (h : IsDown part) (absolute : Bool) (reversed : List String) :
    push absolute reversed part = part :: reversed := by
  simp [push, h.1, h.2]

theorem simplify_of_isDown {names : List String} (h : ∀ name ∈ names, IsDown name) (absolute : Bool) :
    simplify absolute names = names := by
  have hfold (reversed : List String) :
      names.foldl (push absolute) reversed = names.reverse ++ reversed := by
    induction names generalizing reversed with
    | nil => rfl
    | cons name names ih =>
      obtain ⟨hname, hnames⟩ := List.forall_mem_cons.mp h
      rw [List.foldl_cons, push_of_isDown hname, ih hnames]
      simp
  rw [simplify, hfold, List.append_nil, List.reverse_reverse]

theorem mem_push {reversed : List String} {part name : String} (h : name ∈ push true reversed part)
    (hdown : ∀ name ∈ reversed, IsDown name) : IsDown name ∧ (name = part ∨ name ∈ reversed) := by
  unfold push at h
  split at h
  · exact ⟨hdown name h, .inr h⟩
  · split at h
    · cases reversed with
      | nil => cases h
      | cons last rest =>
        have hlast := (hdown last List.mem_cons_self).2
        have hrest : name ∈ last :: rest := by
          simp only [beq_iff_eq, hlast, if_false] at h
          exact List.mem_cons_of_mem last h
        exact ⟨hdown name hrest, .inr hrest⟩
    · rename_i hdot hdots
      rcases List.mem_cons.mp h with rfl | h
      · exact ⟨⟨by simpa using hdot, by simpa using hdots⟩, .inl rfl⟩
      · exact ⟨hdown name h, .inr h⟩

theorem mem_simplify {names : List String} {name : String} (h : name ∈ simplify true names) :
    IsDown name ∧ name ∈ names := by
  have hfold (reversed : List String) (hdown : ∀ name ∈ reversed, IsDown name) :
      ∀ name ∈ names.foldl (push true) reversed, IsDown name ∧ (name ∈ names ∨ name ∈ reversed) := by
    clear h
    induction names generalizing reversed with
    | nil => exact fun name hname => ⟨hdown name hname, .inr hname⟩
    | cons first names ih =>
      intro name hname
      have hpush : ∀ name ∈ push true reversed first, IsDown name := fun name hname =>
        (mem_push hname hdown).1
      obtain ⟨hleads, hmem | hmem⟩ := ih _ hpush name hname
      · exact ⟨hleads, .inl (List.mem_cons_of_mem first hmem)⟩
      · rcases (mem_push hmem hdown).2 with rfl | hmem
        · exact ⟨hleads, .inl List.mem_cons_self⟩
        · exact ⟨hleads, .inr hmem⟩
  obtain ⟨hdown, hmem | hmem⟩ := hfold [] (by simp) name (List.mem_reverse.mp h)
  · exact ⟨hdown, hmem⟩
  · cases hmem

theorem parts_simplified (path : String) :
    parts ("/".intercalate (simplify true (parts path))) = simplify true (parts path) :=
  parts_intercalate fun _ hname => isPart_of_mem_parts (mem_simplify hname).2

theorem isAbsolute_append (path rest : String) (h : isAbsolute path = true) :
    isAbsolute (path ++ rest) = true := by
  unfold isAbsolute at h ⊢
  rw [String.toList_append]
  cases hpath : path.toList with
  | nil =>
    rw [hpath] at h
    cases h
  | cons c chars =>
    rw [hpath] at h
    exact h

theorem isEmpty_of_isAbsolute {path : String} (h : isAbsolute path = true) : path.isEmpty = false := by
  cases hempty : path.isEmpty with
  | false => rfl
  | true =>
    rw [String.isEmpty_iff.mp hempty] at h
    exact absurd h (by decide)

theorem parts_resolve (directory path : String) :
    ∃ whole, parts (resolve directory path) = simplify true (parts whole) := by
  refine ⟨if isAbsolute path then path else directory ++ "/" ++ path, ?_⟩
  rw [resolve, parts_slash_append]
  exact parts_simplified _

theorem plain_resolve (directory path : String) : Plain (resolve directory path) := by
  obtain ⟨whole, hparts⟩ := parts_resolve directory path
  refine ⟨isAbsolute_append _ _ (by decide), fun part hpart => ?_⟩
  rw [hparts] at hpart
  exact (mem_simplify hpart).1

theorem normalize_spec {path : String} (h : isAbsolute path = true) :
    isAbsolute (normalize path) = true ∧ parts (normalize path) = simplify true (parts path) := by
  have hbody := parts_simplified path
  unfold normalize
  simp only [h, if_true]
  split
  · rename_i hempty
    refine ⟨by decide, ?_⟩
    rw [← hbody, String.isEmpty_iff.mp hempty]
    decide
  · refine ⟨isAbsolute_append _ _ (isAbsolute_append _ _ (by decide)), ?_⟩
    split <;> simp [hbody]

theorem join_spec {base : String} (h : isAbsolute base = true) (path : String) :
    isAbsolute (join base path) = true ∧
      parts (join base path) = simplify true (parts base ++ parts path) := by
  have hbase := isEmpty_of_isAbsolute h
  unfold join
  cases hpath : path.isEmpty with
  | true =>
    obtain rfl := String.isEmpty_iff.mp hpath
    simpa [hbase, hpath] using normalize_spec h
  | false =>
    have hspec := normalize_spec (isAbsolute_append _ path (isAbsolute_append base "/" h))
    rw [parts_append] at hspec
    simpa [hbase, hpath] using hspec

theorem plain_join {base : String} (h : Plain base) (path : String) : Plain (join base path) := by
  obtain ⟨habsolute, hparts⟩ := join_spec h.isAbsolute path
  refine ⟨habsolute, fun part hpart => ?_⟩
  rw [hparts] at hpart
  exact (mem_simplify hpart).1

theorem parts_join {base name : String} (h : Plain base) (hpart : IsPart name) (hdown : IsDown name) :
    parts (join base name) = parts base ++ [name] := by
  rw [(join_spec h.isAbsolute name).2, hpart]
  refine simplify_of_isDown (fun part hmem => ?_) true
  rcases List.mem_append.mp hmem with hmem | hmem
  · exact h.isDown part hmem
  · rwa [List.mem_singleton.mp hmem]

theorem parts_directory {path : String} (h : isAbsolute path = true) :
    isAbsolute (directory path) = true ∧ parts (directory path) = (parts path).dropLast := by
  have hparts : parts ("/".intercalate (parts path).dropLast) = (parts path).dropLast :=
    parts_intercalate fun _ hname => isPart_of_mem_parts (List.dropLast_subset _ hname)
  unfold directory
  simp only [h, if_true]
  exact ⟨isAbsolute_append _ _ (by decide), by rw [parts_slash_append, hparts]⟩

/-! ## A name below any path -/

theorem isAbsolute_append_eq {left : String} (h : left ≠ "") (right : String) :
    isAbsolute (left ++ right) = isAbsolute left := by
  have hne : left.toList ≠ [] := by simpa using h
  rw [isAbsolute, isAbsolute, String.toList_append, List.head?_append,
    Option.or_of_isSome (by simpa using hne)]

theorem endsWithSlash_append_eq {right : String} (h : right ≠ "") (left : String) :
    endsWithSlash (left ++ right) = endsWithSlash right := by
  have hne : right.toList ≠ [] := by simpa using h
  rw [endsWithSlash, endsWithSlash, String.toList_append, List.getLast?_append,
    Option.or_of_isSome (by simpa using hne)]

theorem IsPart.ends {name : String} (h : IsPart name) :
    isAbsolute name = false ∧ endsWithSlash name = false := by
  obtain ⟨_, hslash⟩ := h.not_mem
  constructor
  · exact beq_eq_false_iff_ne.mpr fun hhead => hslash (List.mem_of_head? hhead)
  · exact beq_eq_false_iff_ne.mpr fun hlast => hslash (List.mem_of_getLast? hlast)

theorem intercalate_ends {names : List String} (h : ∀ name ∈ names, IsPart name) :
    isAbsolute ("/".intercalate names) = false ∧ endsWithSlash ("/".intercalate names) = false := by
  induction names with
  | nil => exact ⟨by decide, by decide⟩
  | cons name names ih =>
    obtain ⟨hname, hnames⟩ := List.forall_mem_cons.mp h
    cases names with
    | nil =>
      rw [String.intercalate_singleton]
      exact hname.ends
    | cons next names =>
      have hrest : "/".intercalate (next :: names) ≠ "" := by
        intro hempty
        have hparts := parts_intercalate hnames
        rw [hempty, parts_empty] at hparts
        cases hparts
      rw [String.intercalate_cons_cons, String.append_assoc,
        isAbsolute_append_eq hname.not_mem.1, ← String.append_assoc,
        endsWithSlash_append_eq hrest]
      exact ⟨hname.ends.1, (ih hnames).2⟩

theorem mem_of_mem_simplify {absolute : Bool} {names : List String} {name : String}
    (h : name ∈ simplify absolute names) : name ∈ names := by
  have hpush : ∀ (reversed : List String) (part : String), name ∈ push absolute reversed part →
      name = part ∨ name ∈ reversed := by
    intro reversed part hmem
    unfold push at hmem
    split at hmem
    · exact .inr hmem
    · split at hmem
      · rename_i hdots
        rw [beq_iff_eq] at hdots
        split at hmem
        · split at hmem
          · cases hmem
          · exact .inl ((List.mem_singleton.mp hmem).trans hdots.symm)
        · split at hmem
          · exact (List.mem_cons.mp hmem).imp_left (·.trans hdots.symm)
          · exact .inr (List.mem_cons_of_mem _ hmem)
      · exact List.mem_cons.mp hmem
  have hfold (reversed : List String) (hmem : name ∈ names.foldl (push absolute) reversed) :
      name ∈ names ∨ name ∈ reversed := by
    clear h
    induction names generalizing reversed with
    | nil => exact .inr hmem
    | cons first names ih =>
      rcases ih _ hmem with hmem | hmem
      · exact .inl (List.mem_cons_of_mem first hmem)
      · rcases hpush reversed first hmem with rfl | hmem
        · exact .inl List.mem_cons_self
        · exact .inr hmem
  exact (hfold [] (List.mem_reverse.mp h)).resolve_right List.not_mem_nil

theorem simplify_concat (absolute : Bool) (names : List String) {name : String} (h : IsDown name) :
    simplify absolute (names ++ [name]) = simplify absolute names ++ [name] := by
  rw [simplify, List.foldl_append, List.foldl_cons, List.foldl_nil, push_of_isDown h,
    List.reverse_cons]
  rfl

theorem normalize_of_concat {path name : String} {names : List String}
    (h : simplify (isAbsolute path) (parts path) = names ++ [name])
    (hslash : endsWithSlash path = false) :
    isAbsolute (normalize path) = isAbsolute path ∧ parts (normalize path) = names ++ [name] ∧
      endsWithSlash (normalize path) = false := by
  have hpart : ∀ part ∈ names ++ [name], IsPart part :=
    fun part hmem => isPart_of_mem_parts (mem_of_mem_simplify (h ▸ hmem))
  have hparts := parts_intercalate hpart
  obtain ⟨habsolute, hends⟩ := intercalate_ends hpart
  have hne : "/".intercalate (names ++ [name]) ≠ "" := by
    intro hempty
    rw [hempty, parts_empty] at hparts
    simp at hparts
  simp only [normalize, h, hslash, Bool.false_eq_true, if_false, String.append_empty,
    String.isEmpty_eq_false_iff.mpr hne]
  split
  · rename_i habsolute'
    rw [habsolute', parts_slash_append, endsWithSlash_append_eq hne]
    exact ⟨isAbsolute_append _ _ (by decide), hparts, hends⟩
  · rename_i hrelative
    exact ⟨habsolute.trans (Bool.not_eq_true _ ▸ hrelative).symm, hparts, hends⟩

theorem exists_join (base : String) {path : String} (hne : path ≠ "")
    (hrelative : isAbsolute path = false) :
    ∃ whole, join base path = normalize whole ∧ isAbsolute whole = isAbsolute base ∧
      parts whole = parts base ++ parts path ∧ endsWithSlash whole = endsWithSlash path := by
  have hpath : path.isEmpty = false := String.isEmpty_eq_false_iff.mpr hne
  unfold join
  cases hbase : base.isEmpty with
  | true =>
    obtain rfl := String.isEmpty_iff.mp hbase
    exact ⟨path, by simp [hpath, hbase], hrelative, by simp, rfl⟩
  | false =>
    refine ⟨base ++ "/" ++ path, by simp [hpath, hbase], ?_, parts_append base path,
      endsWithSlash_append_eq hne _⟩
    rw [String.append_assoc, isAbsolute_append_eq (String.isEmpty_eq_false_iff.mp hbase)]

theorem join_name (base : String) {name : String} (hpart : IsPart name) (hdown : IsDown name) :
    isAbsolute (join base name) = isAbsolute base ∧
      parts (join base name) = simplify (isAbsolute base) (parts base) ++ [name] ∧
      endsWithSlash (join base name) = false := by
  obtain ⟨whole, hwhole, habsolute, hparts, hslash⟩ :=
    exists_join base hpart.not_mem.1 hpart.ends.1
  have hsimple : simplify (isAbsolute whole) (parts whole) =
      simplify (isAbsolute base) (parts base) ++ [name] := by
    rw [habsolute, hparts, hpart, simplify_concat _ _ hdown]
  rw [hwhole, ← habsolute]
  rw [← habsolute] at hsimple
  exact normalize_of_concat hsimple (hslash.trans hpart.ends.2)

theorem join_ne_empty (base : String) {name : String} (hpart : IsPart name) (hdown : IsDown name) :
    join base name ≠ "" := by
  intro hempty
  have hparts := (join_name base hpart hdown).2.1
  rw [hempty, parts_empty] at hparts
  simp at hparts

theorem directory_spec {path name : String} {names : List String} (h : parts path = names ++ [name]) :
    isAbsolute (directory path) = isAbsolute path ∧
      (parts (directory path) = names ∨ parts (directory path) = ["."] ∧ names = []) := by
  have hpart : ∀ part ∈ names, IsPart part :=
    fun part hmem => isPart_of_mem_parts (h ▸ List.mem_append_left [name] hmem)
  have hparts := parts_intercalate hpart
  simp only [directory, h, List.dropLast_concat]
  split
  · rename_i habsolute
    rw [habsolute, parts_slash_append]
    exact ⟨isAbsolute_append _ _ (by decide), .inl hparts⟩
  · rename_i hrelative
    have hrelative : isAbsolute path = false := Bool.not_eq_true _ ▸ hrelative
    split
    · rename_i hempty
      rw [String.isEmpty_iff.mp hempty, parts_empty] at hparts
      exact ⟨hrelative ▸ (by decide), .inr ⟨by decide, hparts.symm⟩⟩
    · exact ⟨(intercalate_ends hpart).1.trans hrelative.symm, .inl hparts⟩

/-! ## Joining in steps -/

theorem not_mem_push {absolute : Bool} {reversed : List String} {part : String}
    (h : "." ∉ reversed) : "." ∉ push absolute reversed part := by
  unfold push
  split
  · exact h
  · rename_i hdot
    split
    · split
      · split <;> decide
      · split
        · exact List.not_mem_cons_of_ne_of_not_mem (by decide) h
        · exact fun hmem => h (List.mem_cons_of_mem _ hmem)
    · exact List.not_mem_cons_of_ne_of_not_mem (fun heq => hdot (beq_iff_eq.mpr heq.symm)) h

section Push

variable {absolute absolute' : Bool} {reversed : List String}
  (h : absolute = true → absolute' = true ∧ reversed = [])

include h

theorem foldl_push {simple : List String} (hdot : "." ∉ simple) (part : String) :
    (push absolute simple part).reverse.foldl (push absolute') reversed =
      push absolute' (simple.reverse.foldl (push absolute') reversed) part := by
  by_cases hone : part = "."
  · subst hone
    rfl
  · by_cases htwo : part = ".."
    · subst htwo
      rw [push.eq_def absolute, if_neg (by decide), if_pos (by decide)]
      cases simple with
      | nil =>
        cases absolute with
        | true =>
          obtain ⟨rfl, rfl⟩ := h rfl
          rfl
        | false => rfl
      | cons last rest =>
        dsimp only
        split
        · rw [List.reverse_cons, List.foldl_append]
          rfl
        · rename_i hlast
          have hdown : IsDown last :=
            ⟨fun heq => hdot (heq ▸ List.mem_cons_self), by simpa using hlast⟩
          rw [List.reverse_cons, List.foldl_append, List.foldl_cons, List.foldl_nil,
            push_of_isDown hdown, push.eq_def absolute', if_neg (by decide), if_pos (by decide)]
          dsimp only
          rw [if_neg hlast]
    · rw [push_of_isDown ⟨hone, htwo⟩, List.reverse_cons, List.foldl_append]
      rfl

theorem foldl_simplify (names : List String) :
    (simplify absolute names).foldl (push absolute') reversed =
      names.foldl (push absolute') reversed := by
  have hfold : "." ∉ names.foldl (push absolute) [] ∧
      (names.foldl (push absolute) []).reverse.foldl (push absolute') reversed =
        names.foldl (push absolute') reversed := by
    induction names using List.reverseRecOn with
    | nil => exact ⟨List.not_mem_nil, rfl⟩
    | append_singleton names part ih =>
      rw [List.foldl_append, List.foldl_append]
      exact ⟨not_mem_push ih.1, (foldl_push h ih.1 part).trans (by rw [ih.2]; rfl)⟩
  exact hfold.2

end Push

theorem simplify_simplify_append (absolute : Bool) (names more : List String) :
    simplify absolute (simplify absolute names ++ more) = simplify absolute (names ++ more) := by
  have hfold : (simplify absolute names).foldl (push absolute) [] = names.foldl (push absolute) [] :=
    foldl_simplify (fun h => ⟨h, rfl⟩) names
  rw [simplify, List.foldl_append, hfold, ← List.foldl_append]
  rfl

theorem normalize_congr {path path' : String} (habsolute : isAbsolute path = isAbsolute path')
    (hparts : simplify (isAbsolute path) (parts path) = simplify (isAbsolute path) (parts path'))
    (hslash : endsWithSlash path = endsWithSlash path') : normalize path = normalize path' := by
  rw [habsolute] at hparts
  simp only [normalize, habsolute, hparts, hslash]

theorem join_append (base : String) {name rest : String} (hpart : IsPart name) (hdown : IsDown name)
    (hrest : rest = "" ∨ ∃ more, rest = "/" ++ more) :
    join base (name ++ rest) = normalize (join base name ++ rest) := by
  obtain ⟨habsolute, hparts, hslash⟩ := join_name base hpart hdown
  have hjoined := join_ne_empty base hpart hdown
  have hparts_append (path : String) : parts (path ++ rest) = parts path ++ parts rest := by
    rcases hrest with rfl | ⟨more, rfl⟩
    · simp
    · rw [← String.append_assoc, parts_append, parts_slash_append]
  have hends {path : String} (hpath : endsWithSlash path = false) :
      endsWithSlash (path ++ rest) = (rest ≠ "" && endsWithSlash rest) := by
    by_cases hempty : rest = ""
    · simp [hempty, hpath]
    · simp [hempty, endsWithSlash_append_eq]
  have hname : name ++ rest ≠ "" := fun hempty =>
    hpart.not_mem.1 (String.append_eq_empty_iff.mp hempty).1
  obtain ⟨whole, hwhole, habsolute', hparts', hslash'⟩ := exists_join base hname
    ((isAbsolute_append_eq hpart.not_mem.1 rest).trans hpart.ends.1)
  rw [hwhole]
  apply normalize_congr
  · rw [habsolute', isAbsolute_append_eq hjoined, habsolute]
  · rw [habsolute', hparts', hparts_append, hparts_append, hparts, hpart, List.append_assoc,
      simplify_simplify_append]
  · rw [hslash', hends hpart.ends.2, hends hslash]

theorem foldl_join (base : String) {name : String} {names : List String}
    (hpart : ∀ n ∈ name :: names, IsPart n) (hdown : ∀ n ∈ name :: names, IsDown n) :
    (name :: names).foldl join base = join base ("/".intercalate (name :: names)) := by
  induction names generalizing base name with
  | nil =>
    rw [String.intercalate_singleton]
    rfl
  | cons next names ih =>
    obtain ⟨hname, hnames⟩ := List.forall_mem_cons.mp hpart
    obtain ⟨hfirst, hrest⟩ := List.forall_mem_cons.mp hdown
    have hparts := parts_intercalate hnames
    have hne : "/".intercalate (next :: names) ≠ "" := by
      intro hempty
      rw [hempty, parts_empty] at hparts
      cases hparts
    have hjoined := join_ne_empty base hname hfirst
    rw [List.foldl_cons, ih (join base name) hnames hrest, String.intercalate_cons_cons,
      String.append_assoc, join_append base hname hfirst (.inr ⟨_, rfl⟩), join]
    simp [hne, hjoined, String.append_assoc]

end SceneCompiler.Path
