import Mathlib.Data.Fintype.Card
import SceneCompiler.Ancestry

/-!
# Ancestors

The short descriptions above an object are those along a chain of objects, each the only one that
refers to the object before it.  A graph may be circular, so the chain is kept from returning to an
object; it is the longest one that does not, and every other such chain is the beginning of it.
-/

namespace SceneCompiler

variable {n : Nat}

theorem Text.present?_eq_some_iff {text : Option String} {t : String} :
    Text.present? text = some t ↔ text = some t ∧ Text.isBlank t = false := by
  cases text with
  | none => simp [Text.present?]
  | some s =>
    cases hblank : Text.isBlank s <;> simp only [Text.present?, hblank]
    · simpa using fun heq => heq ▸ hblank
    · simpa using fun heq => heq ▸ hblank

namespace Merge

variable (m : Merge n)

/-- The second object is the only one that refers to the first, however often, and has a short
description that is not blank. -/
def EnclosedBy (child parent : Fin n) : Prop :=
  (∀ j, j ∈ m.inReferences child ↔ j = parent) ∧
    ∃ short, (m.object parent).description.short = some short ∧ Text.isBlank short = false

/-- A chain of enclosing objects from `i` on, all different and none of them visited. -/
structure Ancestry (visited : List (Fin n)) (i : Fin n) (path : List (Fin n)) : Prop where
  linked : (i :: path).IsChain m.EnclosedBy
  nodup : (path ++ visited).Nodup

variable {m} {visited path : List (Fin n)} {i parent : Fin n}

theorem ancestry_nil (h : visited.Nodup) : m.Ancestry visited i [] :=
  ⟨.singleton i, h⟩

theorem ancestry_cons :
    m.Ancestry visited i (parent :: path) ↔
      m.EnclosedBy i parent ∧ m.Ancestry (parent :: visited) parent path := by
  constructor
  · rintro ⟨hlinked, hnodup⟩
    obtain ⟨hfirst, hrest⟩ := List.isChain_cons_cons.mp hlinked
    exact ⟨hfirst, hrest, List.nodup_middle.mpr hnodup⟩
  · rintro ⟨hfirst, hrest, hnodup⟩
    exact ⟨List.isChain_cons_cons.mpr ⟨hfirst, hrest⟩, List.nodup_middle.mp hnodup⟩

theorem Ancestry.not_mem (h : m.Ancestry visited i (parent :: path)) : parent ∉ visited :=
  fun hmem => (List.nodup_cons.mp h.nodup).1 (List.mem_append_right _ hmem)

theorem soleReferencer?_eq_some_iff :
    m.soleReferencer? i = some parent ↔ ∀ j, j ∈ m.inReferences i ↔ j = parent := by
  unfold soleReferencer?
  cases m.inReferences i with
  | nil => simp
  | cons first rest =>
    simp only [List.all_eq_true, beq_iff_eq, List.mem_cons]
    split
    · rename_i hall
      rw [Option.some.injEq]
      constructor
      · rintro rfl j
        exact ⟨fun h => h.elim id (hall j), .inl⟩
      · exact fun h => (h first).mp (.inl rfl)
    · rename_i hnot
      refine iff_of_false (fun h => by cases h) fun h => hnot fun j hj => ?_
      rw [(h j).mp (.inr hj), (h first).mp (.inl rfl)]

/-- The walk follows the longest chain.  The visited objects are all different, so that the fuel
lasts. -/
theorem chain_spec (fuel : Nat) (hvisited : visited.Nodup) (hfuel : n < visited.length + fuel)
    (i : Fin n) :
    ∃ path, m.Ancestry visited i path ∧
      (m.chain fuel visited i).map some = path.map (fun j => (m.object j).description.short) ∧
      ∀ other, m.Ancestry visited i other → other <+: path := by
  induction fuel generalizing visited i with
  | zero =>
    have hlength := hvisited.length_le_card
    rw [Fintype.card_fin] at hlength
    omega
  | succ fuel ih =>
    -- where the walk ends no chain goes on
    have hend (hstop : ∀ parent, m.EnclosedBy i parent → parent ∈ visited) :
        ∃ path, m.Ancestry visited i path ∧
          ([] : List String).map some = path.map (fun j => (m.object j).description.short) ∧
          ∀ other, m.Ancestry visited i other → other <+: path := by
      refine ⟨[], ancestry_nil hvisited, rfl, fun other hother => ?_⟩
      cases other with
      | nil => exact List.prefix_rfl
      | cons parent rest =>
        exact absurd (hstop parent (ancestry_cons.mp hother).1) hother.not_mem
    rw [chain]
    cases hsole : m.soleReferencer? i with
    | none =>
      refine hend fun parent henclosed => ?_
      rw [soleReferencer?_eq_some_iff.mpr henclosed.1] at hsole
      cases hsole
    | some parent =>
      have honly (other : Fin n) (h : m.EnclosedBy i other) : other = parent :=
        Option.some.inj ((soleReferencer?_eq_some_iff.mpr h.1).symm.trans hsole)
      by_cases hseen : parent ∈ visited
      · simp only [List.contains_iff_mem.mpr hseen, if_true]
        exact hend fun other h => honly other h ▸ hseen
      · simp only [List.contains_iff_mem, hseen, if_false]
        cases hshort : Text.present? (m.object parent).description.short with
        | none =>
          refine hend fun other h => ?_
          obtain rfl := honly other h
          rw [Text.present?_eq_some_iff.mpr h.2.choose_spec] at hshort
          cases hshort
        | some short =>
          have hpresent := Text.present?_eq_some_iff.mp hshort
          have henclosed : m.EnclosedBy i parent :=
            ⟨soleReferencer?_eq_some_iff.mp hsole, short, hpresent⟩
          have hnodup : (parent :: visited).Nodup := List.nodup_cons.mpr ⟨hseen, hvisited⟩
          obtain ⟨path, hpath, htexts, hlongest⟩ :=
            ih hnodup (by simp only [List.length_cons]; omega) parent
          refine ⟨parent :: path, ancestry_cons.mpr ⟨henclosed, hpath⟩, ?_, ?_⟩
          · simp only [List.map_cons, htexts, hpresent.1]
          · intro other hother
            cases other with
            | nil => exact List.nil_prefix
            | cons first rest =>
              obtain ⟨hfirst, hrest⟩ := ancestry_cons.mp hother
              obtain rfl := honly first hfirst
              exact List.cons_prefix_cons.mpr ⟨rfl, hlongest rest hrest⟩

/-- The ancestors of an object are the short descriptions, the most distant first, along a chain of
enclosing objects from the object on that are all different.  Every other such chain is a part of
it, so that it is the longest. -/
theorem ancestors_along_longest_chain (m : Merge n) (i : Fin n) :
    ∃ path, m.Ancestry [i] i path ∧
      (m.ancestors i).map some = path.reverse.map (fun j => (m.object j).description.short) ∧
      ∀ other, m.Ancestry [i] i other → other <+: path ∧ other.length ≤ path.length := by
  obtain ⟨path, hpath, htexts, hlongest⟩ :=
    m.chain_spec n (List.nodup_singleton i) (by simp) i
  refine ⟨path, hpath, ?_, fun other hother => ?_⟩
  · rw [ancestors, List.map_reverse, htexts, List.map_reverse]
  · exact ⟨hlongest other hother, (hlongest other hother).length_le⟩

end Merge

end SceneCompiler
