import SceneCompiler.Code

/-!
# Remarks

A comment is written as lines that begin with two slashes.  Deleting all such lines from the text of
some code leaves what is left of the text of the same code without its comments.
-/

namespace SceneCompiler

/-! ## The lines of a text -/

namespace Layout

theorem toList_text {l : Layout} (h : l.lines ≠ []) :
    l.text.toList = l.lines.flatMap fun line => line.toList ++ ['\n'] := by
  rw [text, String.toList_append, String.toList_intercalate]
  generalize l.lines = lines at h ⊢
  induction lines with
  | nil => exact absurd rfl h
  | cons line lines ih =>
    cases lines with
    | nil => simp
    | cons next rest =>
      have hrest := ih (List.cons_ne_nil next rest)
      rw [List.map_cons] at hrest
      rw [List.map_cons, List.map_cons, List.intercalate_cons_cons, List.append_assoc, hrest]
      simp

theorem mem_splitLines {text line : List Char} (h : line ∈ splitLines text) :
    ∀ c ∈ line, c ∈ text ∧ c ≠ '\n' := by
  fun_induction splitLines text generalizing line with
  | case1 => simp_all
  | case2 rest ih | case3 rest ih =>
    intro c hc
    rcases List.mem_cons.mp h with rfl | h
    · cases hc
    · have hmem := ih h c hc
      exact ⟨by simp [hmem.1], hmem.2⟩
  | case4 d rest hfeed hreturn first more heq ih =>
    intro c hc
    rcases List.mem_cons.mp h with rfl | h
    · rcases List.mem_cons.mp hc with rfl | hc
      · exact ⟨List.mem_cons_self, fun heq => hfeed heq⟩
      · have hmem := ih (heq ▸ List.mem_cons_self) c hc
        exact ⟨List.mem_cons_of_mem _ hmem.1, hmem.2⟩
    · have hmem := ih (heq ▸ List.mem_cons_of_mem _ h) c hc
      exact ⟨List.mem_cons_of_mem _ hmem.1, hmem.2⟩
  | case5 d rest hfeed hreturn heq ih =>
    intro c hc
    rw [List.mem_singleton.mp h] at hc
    rw [List.mem_singleton.mp hc]
    exact ⟨List.mem_cons_self, fun heq => hfeed heq⟩

end Layout

theorem Text.toList_trimEnd_append {start : List Char} {last : Char}
    (hlast : isBlankChar last = false) (rest : List Char) :
    (trimEnd (String.ofList (start ++ last :: rest))).toList =
      start ++ last :: (rest.reverse.dropWhile isBlankChar).reverse := by
  rw [trimEnd, String.toList_ofList, String.toList_ofList, List.reverse_append, List.reverse_cons,
    List.append_assoc, List.dropWhile_append]
  split
  · rename_i hempty
    rw [List.isEmpty_iff.mp hempty]
    simp [hlast]
  · simp

theorem Layout.commentLine_spec {text line : String} (h : line ∈ commentLines text) :
    ∃ rest, line.toList = '/' :: '/' :: rest ∧ '\n' ∉ rest := by
  rw [commentLines] at h
  split at h
  · cases h
  · obtain ⟨part, hpart, rfl⟩ := List.mem_map.mp h
    have htext : "// " ++ String.ofList part = String.ofList (['/'] ++ '/' :: ' ' :: part) := by
      rw [← String.toList_inj]
      simp
    refine ⟨_, by rw [htext]; exact Text.toList_trimEnd_append (by decide) _, fun hmem => ?_⟩
    rw [List.mem_reverse] at hmem
    have hfeed := (List.dropWhile_sublist _).subset hmem
    rcases List.mem_cons.mp (List.mem_reverse.mp hfeed) with hspace | hpartMem
    · cases hspace
    · exact (mem_splitLines hpart _ hpartMem).2 rfl

/-! ## Deleting remarks -/

namespace Code

def isRemark (line : List Char) : Bool :=
  ['/', '/'].isPrefixOf (line.dropWhile (· == ' '))

def keptLines (text : List Char) : List (List Char) :=
  (text.splitOn '\n').filter fun line => !isRemark line

theorem keptLines_flatMap (lines : List String) :
    keptLines (lines.flatMap fun line => line.toList ++ ['\n']) =
      (lines.flatMap fun line => keptLines line.toList) ++ [[]] := by
  induction lines with
  | nil => rfl
  | cons line lines ih =>
    rw [List.flatMap_cons, List.flatMap_cons, List.append_assoc, List.append_assoc, ← ih,
      List.singleton_append, keptLines, List.splitOn_append_cons_self, List.filter_append]
    rfl

theorem toList_indented {line : String} {c : Char} {rest : List Char}
    (h : line.toList = c :: rest) (depth : Nat) :
    (Layout.indented "    " depth line).toList = List.replicate (4 * depth) ' ' ++ line.toList := by
  have hne : line.isEmpty = false := by
    rw [Bool.eq_false_iff]
    intro hempty
    rw [String.isEmpty_iff.mp hempty] at h
    cases h
  have hspaces : (String.join (List.replicate depth "    ")).toList =
      List.replicate (4 * depth) ' ' := by
    induction depth with
    | zero => rfl
    | succ depth ih =>
      rw [String.toList_join] at ih ⊢
      rw [List.replicate_succ, List.flatMap_cons, ih, Nat.mul_succ, Nat.add_comm,
        ← List.replicate_append_replicate]
      rfl
  rw [Layout.indented, hne, if_neg Bool.false_ne_true, String.toList_append, hspaces]

theorem keptLines_comment {text line : String} (h : line ∈ Layout.commentLines text)
    (depth : Nat) : keptLines (Layout.indented "    " depth line).toList = [] := by
  obtain ⟨rest, hline, hfeed⟩ := Layout.commentLine_spec h
  have hone : '\n' ∉ List.replicate (4 * depth) ' ' ++ line.toList := by
    simp [hline, hfeed]
  rw [keptLines, toList_indented hline, List.splitOn_eq_singleton hone]
  have hremark : isRemark (List.replicate (4 * depth) ' ' ++ line.toList) = true := by
    rw [isRemark, List.dropWhile_append_of_pos (by simp), hline]
    rfl
  simp [hremark]

mutual
def uncommented : Code → List Code
  | .line text => [.line text]
  | .comment _ => []
  | .block body => [.block (allUncommented body)]
def allUncommented : List Code → List Code
  | [] => []
  | c :: rest => c.uncommented ++ allUncommented rest
end

theorem allLines_append (unit : String) (depth : Nat) (a b : List Code) :
    allLines unit depth (a ++ b) = allLines unit depth a ++ allLines unit depth b := by
  induction a with
  | nil => rfl
  | cons c a ih => simp [allLines, ih]

@[simp] theorem allUncommented_append (a b : List Code) :
    allUncommented (a ++ b) = allUncommented a ++ allUncommented b := by
  induction a with
  | nil => rfl
  | cons c a ih => simp [allUncommented, ih]

mutual
theorem keptLines_lines (depth : Nat) (c : Code) :
    ((c.lines "    " depth).flatMap fun line => keptLines line.toList) =
      (allLines "    " depth c.uncommented).flatMap fun line => keptLines line.toList := by
  cases c with
  | line text => simp [uncommented, allLines]
  | comment text =>
    rw [lines, uncommented, allLines, List.flatMap_map, List.flatMap_nil, List.flatMap_eq_nil_iff]
    exact fun line hline => keptLines_comment hline depth
  | block body =>
    have hbody := keptLines_allLines (depth + 1) body
    simp [lines, uncommented, allLines, hbody]
theorem keptLines_allLines (depth : Nat) (code : List Code) :
    ((allLines "    " depth code).flatMap fun line => keptLines line.toList) =
      (allLines "    " depth (allUncommented code)).flatMap fun line => keptLines line.toList := by
  cases code with
  | nil => rfl
  | cons c rest =>
    rw [allLines, allUncommented, allLines_append, List.flatMap_append, List.flatMap_append,
      keptLines_lines depth c, keptLines_allLines depth rest]
end

theorem keptLines_render {code : List Code} (h : allLines "    " 0 code ≠ []) :
    keptLines (render code).toList =
      ((allLines "    " 0 (allUncommented code)).flatMap fun line => keptLines line.toList) ++
        [[]] := by
  rw [render, Layout.toList_text h, keptLines_flatMap, keptLines_allLines]

end Code

end SceneCompiler
