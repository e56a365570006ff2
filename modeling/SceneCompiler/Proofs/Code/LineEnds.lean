import SceneCompiler.Proofs.Code.Remarks

/-!
# The ends of lines

A compiler of the code ends lines not only at line feeds.  The lines it reads are those that were
written exactly if no written line holds any of the characters that end one.  A comment is cut at
line feeds only, so it may leave the others in a line, unless they are blanks that are trimmed.
-/

namespace SceneCompiler

namespace Text

/-- Line feed, carriage return, next line, line separator and paragraph separator. -/
def isLineEnd (c : Char) : Bool :=
  let n := c.toNat
  n == 0x0A || n == 0x0D || n == 0x85 || n == 0x2028 || n == 0x2029

/-- The lines of a text for a compiler.  A carriage return and the line feed after it are one end. -/
def sourceLines : List Char → List (List Char)
  | [] => [[]]
  | '\r' :: '\n' :: rest => [] :: sourceLines rest
  | c :: rest =>
    if isLineEnd c then [] :: sourceLines rest
    else
      match sourceLines rest with
      | first :: more => (c :: first) :: more
      | [] => [[c]]

def inLine (text : List Char) : Bool :=
  text.all fun c => !isLineEnd c

def unbroken (text : String) : Bool :=
  inLine text.toList

@[simp] theorem inLine_nil : inLine [] = true := rfl

@[simp] theorem inLine_cons (c : Char) (text : List Char) :
    inLine (c :: text) = (!isLineEnd c && inLine text) := rfl

@[simp] theorem inLine_append (a b : List Char) : inLine (a ++ b) = (inLine a && inLine b) :=
  List.all_append

@[simp] theorem unbroken_append (a b : String) :
    unbroken (a ++ b) = (unbroken a && unbroken b) := by
  simp [unbroken]

@[simp] theorem unbroken_ofList (text : List Char) : unbroken (String.ofList text) = inLine text := by
  simp [unbroken]

theorem sourceLines_append_feed {line : List Char} (h : inLine line = true)
    (rest : List Char) : sourceLines (line ++ '\n' :: rest) = line :: sourceLines rest := by
  induction line with
  | nil => rw [List.nil_append, sourceLines, if_pos (by decide)]; nofun
  | cons c line ih =>
    rw [inLine_cons, Bool.and_eq_true, Bool.not_eq_true'] at h
    have hreturn : c = '\r' → False := by
      rintro rfl
      exact absurd h.1 (by decide)
    rw [List.cons_append, sourceLines, if_neg (by simp [h.1]), ih h.2]
    exact fun _ hc _ => hreturn hc

theorem inLine_of_mem_sourceLines {text line : List Char} (h : line ∈ sourceLines text) :
    inLine line = true := by
  fun_induction sourceLines text generalizing line with
  | case1 => simp_all
  | case2 rest ih | case3 c rest hreturn hend ih =>
    rcases List.mem_cons.mp h with rfl | h
    · rfl
    · exact ih h
  | case4 c rest hreturn hend first more heq ih =>
    rcases List.mem_cons.mp h with rfl | h
    · simp [hend, ih (heq ▸ List.mem_cons_self)]
    · exact ih (heq ▸ List.mem_cons_of_mem _ h)
  | case5 c rest hreturn hend heq ih =>
    rw [List.mem_singleton.mp h]
    simp [hend]

theorem sourceLines_eq_iff (lines : List String) :
    sourceLines (lines.flatMap fun line => line.toList ++ ['\n']) =
        lines.map String.toList ++ [[]] ↔
      lines.all unbroken = true := by
  constructor
  · intro h
    refine List.all_eq_true.mpr fun line hline => ?_
    apply inLine_of_mem_sourceLines
    rw [h]
    exact List.mem_append_left _ (List.mem_map_of_mem hline)
  · intro h
    induction lines with
    | nil => rfl
    | cons line lines ih =>
      rw [List.all_cons, Bool.and_eq_true] at h
      rw [List.flatMap_cons, List.append_assoc, List.singleton_append,
        sourceLines_append_feed h.1, ih h.2]
      rfl

/-! ## Comments -/

def trimRight (line : List Char) : List Char :=
  (line.reverse.dropWhile isBlankChar).reverse

theorem trimRight_cons (c : Char) (line : List Char) :
    trimRight (c :: line) =
      if (trimRight line).isEmpty && isBlankChar c then [] else c :: trimRight line := by
  rw [trimRight, trimRight, List.reverse_cons, List.dropWhile_append]
  cases hrest : line.reverse.dropWhile isBlankChar with
  | nil => cases hc : isBlankChar c <;> simp [hc]
  | cons d rest => simp

theorem trimRight_eq_nil {line : List Char} (h : line.all isBlankChar = true) :
    trimRight line = [] := by
  induction line with
  | nil => rfl
  | cons c line ih =>
    rw [List.all_cons, Bool.and_eq_true] at h
    rw [trimRight_cons, ih h.2, h.1]
    rfl

end Text

namespace Layout

open Text

def remarkLines (text : List Char) : List (List Char) :=
  (splitLines text).map trimRight

theorem splitLines_ne_nil (text : List Char) : splitLines text ≠ [] := by
  fun_induction splitLines text <;> simp

theorem remarkLines_append_feed (a b : List Char) :
    remarkLines (a ++ '\n' :: b) = remarkLines a ++ remarkLines b := by
  fun_induction splitLines a with
  | case1 => rfl
  | case2 rest ih | case3 rest ih => exact congrArg (List.cons []) ih
  | case4 c rest hfeed hreturn first more heq ih =>
    by_cases hlast : c = '\r' ∧ rest = []
    · obtain ⟨rfl, rfl⟩ := hlast
      rfl
    · have hsplit : ∀ rest', c = '\r' → rest ++ '\n' :: b = '\n' :: rest' → False := by
        intro rest' hc happend
        cases rest with
        | nil => exact hlast ⟨hc, rfl⟩
        | cons d rest => exact hreturn rest hc (by rw [(List.cons.inj happend).1])
      obtain ⟨first', more', heq'⟩ := List.exists_cons_of_ne_nil
        (splitLines_ne_nil (rest ++ '\n' :: b))
      simp only [remarkLines, heq, heq', List.map_cons, List.cons_append, List.cons.injEq] at ih
      simp only [remarkLines, List.cons_append, splitLines, heq, heq', List.map_cons,
        Text.trimRight_cons, ih.1, ih.2]
  | case5 c rest hfeed hreturn heq ih => exact absurd heq (splitLines_ne_nil rest)

def fitsRemark (text : String) : Bool :=
  (remarkLines text.toList).all inLine

theorem fitsRemark_intercalate (parts : List String) :
    fitsRemark ("\n".intercalate parts) = parts.all fitsRemark := by
  induction parts with
  | nil => rfl
  | cons part parts ih =>
    cases parts with
    | nil => simp
    | cons next rest =>
      have hfeed : "\n".toList = ['\n'] := rfl
      rw [List.all_cons, ← ih, fitsRemark, fitsRemark, fitsRemark, String.toList_intercalate,
        String.toList_intercalate, List.map_cons, List.map_cons, List.intercalate_cons_cons,
        hfeed, List.append_assoc, List.singleton_append, remarkLines_append_feed,
        List.all_append]

theorem fitsRemark_space (text : List Char) :
    fitsRemark (String.ofList (' ' :: text)) = fitsRemark (String.ofList text) := by
  have hspace : isLineEnd ' ' = false := by decide
  obtain ⟨first, more, heq⟩ := List.exists_cons_of_ne_nil (splitLines_ne_nil text)
  have hcons : splitLines (' ' :: text) = (' ' :: first) :: more := by
    rw [splitLines, heq] <;> simp
  have htrim : inLine (trimRight (' ' :: first)) = inLine (trimRight first) := by
    rw [trimRight_cons]
    cases trimRight first with
    | nil => decide
    | cons c rest => simp [hspace]
  simp only [fitsRemark, remarkLines, String.toList_ofList, hcons, heq, List.map_cons, List.all_cons,
    htrim]

theorem fitsRemark_indented (count : Nat) (text : String) :
    fitsRemark (String.ofList (List.replicate count ' ') ++ text) = fitsRemark text := by
  induction count with
  | zero => simp
  | succ count ih =>
    have hsplit (spaces : List Char) :
        String.ofList spaces ++ text = String.ofList (spaces ++ text.toList) := by
      rw [← String.toList_inj]
      simp
    rw [← ih, hsplit, hsplit, List.replicate_succ, List.cons_append, fitsRemark_space]

theorem fitsRemark_of_unbroken {text : String} (h : unbroken text = true) :
    fitsRemark text = true := by
  refine List.all_eq_true.mpr fun line hline => ?_
  obtain ⟨part, hpart, rfl⟩ := List.mem_map.mp hline
  refine List.all_eq_true.mpr fun c hc => List.all_eq_true.mp h c ?_
  have hmem := (List.dropWhile_sublist _).subset (List.mem_reverse.mp hc)
  exact (mem_splitLines hpart c (List.mem_reverse.mp hmem)).1

theorem all_unbroken_commentLines (text : String) :
    (commentLines text).all unbroken = fitsRemark text := by
  rw [commentLines]
  split
  · rename_i hblank
    refine (List.all_eq_true.mpr fun line hline => ?_).symm
    obtain ⟨part, hpart, rfl⟩ := List.mem_map.mp hline
    have hall : part.all isBlankChar = true := List.all_eq_true.mpr fun c hc =>
      List.all_eq_true.mp hblank c (mem_splitLines hpart c hc).1
    rw [trimRight_eq_nil hall]
    rfl
  · rw [fitsRemark, remarkLines, List.all_map, List.all_map]
    refine congrArg (List.all _) (funext fun part => ?_)
    have htext : "// " ++ String.ofList part = String.ofList (['/'] ++ '/' :: ' ' :: part) := by
      rw [← String.toList_inj]
      simp
    have htrim : (trimEnd (String.ofList (['/'] ++ '/' :: ' ' :: part))).toList =
        ['/', '/'] ++ trimRight (' ' :: part) := toList_trimEnd_append (by decide) _
    have hblank : isBlankChar ' ' = true := by decide
    have hspace : isLineEnd ' ' = false := by decide
    have hslash : isLineEnd '/' = false := by decide
    rw [Function.comp_apply, Function.comp_apply, unbroken, htext, htrim, trimRight_cons]
    cases hpart : trimRight part with
    | nil => simp [hslash, hblank]
    | cons c rest => simp [hslash, hspace]

end Layout

/-! ## Code -/

namespace Code

open Text

mutual
def unbroken : Code → Bool
  | .line text => Text.unbroken text
  | .comment text => Layout.fitsRemark text
  | .block body => allUnbroken body
def allUnbroken : List Code → Bool
  | [] => true
  | c :: rest => c.unbroken && allUnbroken rest
end

@[simp] theorem allUnbroken_append (a b : List Code) :
    allUnbroken (a ++ b) = (allUnbroken a && allUnbroken b) := by
  induction a with
  | nil => rfl
  | cons c a ih => simp [allUnbroken, ih, Bool.and_assoc]

theorem allUnbroken_eq_all (code : List Code) : allUnbroken code = code.all unbroken := by
  induction code with
  | nil => rfl
  | cons c code ih => simp [allUnbroken, ih]

theorem unbroken_indented (depth : Nat) (text : String) :
    Text.unbroken (Layout.indented "    " depth text) = Text.unbroken text := by
  cases hchars : text.toList with
  | nil =>
    obtain rfl : text = "" := by simpa using hchars
    rfl
  | cons c rest =>
    have hspace : isLineEnd ' ' = false := by decide
    rw [Text.unbroken, toList_indented hchars, inLine_append]
    simp [Text.unbroken, inLine, hspace]

mutual
theorem all_unbroken_lines (depth : Nat) (c : Code) :
    (c.lines "    " depth).all Text.unbroken = c.unbroken := by
  cases c with
  | line text => simp [lines, unbroken, unbroken_indented]
  | comment text =>
    rw [lines, unbroken, ← Layout.all_unbroken_commentLines, List.all_map]
    congr 1
    funext line
    exact unbroken_indented depth line
  | block body =>
    have hopen : Text.unbroken "\x7b" = true := by decide
    have hclose : Text.unbroken "\x7d" = true := by decide
    rw [lines, unbroken, List.all_cons, List.all_append, all_unbroken_allLines (depth + 1) body]
    simp [unbroken_indented, hopen, hclose]
theorem all_unbroken_allLines (depth : Nat) (code : List Code) :
    (allLines "    " depth code).all Text.unbroken = allUnbroken code := by
  cases code with
  | nil => rfl
  | cons c rest =>
    rw [allLines, allUnbroken, List.all_append, all_unbroken_lines depth c,
      all_unbroken_allLines depth rest]
end

/-- The lines of some code are read as they are written exactly if the code holds no end of a line
but those that it is laid out with. -/
theorem sourceLines_render_iff {code : List Code} (h : allLines "    " 0 code ≠ []) :
    sourceLines (render code).toList = (allLines "    " 0 code).map String.toList ++ [[]] ↔
      allUnbroken code = true := by
  rw [render, Layout.toList_text h, sourceLines_eq_iff, all_unbroken_allLines]

end Code

end SceneCompiler
