import SceneCompiler.Proofs.Factory.Insertions
import SceneCompiler.Proofs.Model.Lookup
import SceneCompiler.Proofs.Number.ReadBack
import SceneCompiler.Sketch.Datum

/-!
# The fields that a factory sets

The compositor creates an object by a method and its arguments; a factory goes on to assign some of its
fields and to add items to its lists.  The last assignment to a field is the one that counts, and items
are kept in the order in which they are added.
-/

namespace SceneCompiler

variable {ρ σ : Type}

def ItemList.field : ItemList → String
  | .children => "children"
  | .shapes => "shapes"
  | .strokeDashArray => "strokeDashArray"

/-- The value that an operand stands for, with `ref` for objects. -/
def Operand.datum (s : Settings) (ref : ρ → Datum) : Operand ρ → Datum
  | .number value => .number value
  | .integer value => .number value
  | .truth => .flag true
  | .text value => .text value
  | .vector2 value => .ofVector2 value
  | .vector3 value => .ofVector3 value
  | .color value => .ofColor value
  | .cap value => .ofNamed value
  | .join value => .ofNamed value
  | .timeSpan milliseconds => .number milliseconds
  | .duration => .number s.durationMs
  | .object reference => ref reference
  | .holder _ => .absent

def Statement.assignment? : Statement ρ → Option (String × Operand ρ)
  | .assign .result property value => some (fieldOf property, value)
  | _ => none

def Statement.added? (list : ItemList) : Statement ρ → Option (Operand ρ)
  | .add other item => if other = list then some item else none
  | _ => none

def assignments (ss : List (Statement ρ)) : List (String × Operand ρ) :=
  ss.filterMap Statement.assignment?

def additions (list : ItemList) (ss : List (Statement ρ)) : List (Operand ρ) :=
  ss.filterMap (Statement.added? list)

def assignedTo (key : String) (ss : List (Statement ρ)) : List (Operand ρ) :=
  (assignments ss).filterMap fun entry => if entry.1 = key then some entry.2 else none

def itemsOf (fields : Attributes) (key : String) : List Datum :=
  match fields.lookup key with
  | some (.list items) => items
  | _ => []

/-- The fields of the object being built after a statement. What is put in front counts. -/
def Statement.perform (s : Settings) (ref : ρ → Datum) (fields : Attributes) :
    Statement ρ → Attributes
  | .assign .result property value => (fieldOf property, value.datum s ref) :: fields
  | .add list item =>
    (list.field, .list (itemsOf fields list.field ++ [item.datum s ref])) :: fields
  | _ => fields

def performAll (s : Settings) (ref : ρ → Datum) (fields : Attributes) (ss : List (Statement ρ)) :
    Attributes :=
  ss.foldl (Statement.perform s ref) fields

/-! ## Performing statements -/

theorem assignments_append (ss ts : List (Statement ρ)) :
    assignments (ss ++ ts) = assignments ss ++ assignments ts :=
  List.filterMap_append

theorem additions_append (list : ItemList) (ss ts : List (Statement ρ)) :
    additions list (ss ++ ts) = additions list ss ++ additions list ts :=
  List.filterMap_append

theorem assignedTo_append (key : String) (ss ts : List (Statement ρ)) :
    assignedTo key (ss ++ ts) = assignedTo key ss ++ assignedTo key ts := by
  rw [assignedTo, assignments_append, List.filterMap_append]
  rfl

theorem ItemList.field_inj {a b : ItemList} (h : a.field = b.field) : a = b := by
  cases a <;> cases b <;> first | rfl | simp [field] at h

section Perform

variable (s : Settings) (ref : ρ → Datum)

theorem lookup_perform {key : String} {statement : Statement ρ}
    (hkey : ∀ list : ItemList, list.field = key → additions list [statement] = [])
    (fields : Attributes) :
    (statement.perform s ref fields).lookup key =
      ((assignedTo key [statement]).map (Operand.datum s ref)).getLast?.or (fields.lookup key) := by
  cases statement with
  | assign holder property value =>
    cases holder with
    | result =>
      rw [Statement.perform, lookup_cons_text]
      by_cases hproperty : fieldOf property = key <;>
        simp [assignedTo, assignments, Statement.assignment?, hproperty]
    | reusable => rfl
    | controller depth => rfl
  | add list item =>
    have hlist : list.field ≠ key := fun h => by
      simpa [additions, Statement.added?] using hkey list h
    rw [Statement.perform, lookup_cons_text, if_neg hlist]
    rfl
  | _ => rfl

theorem lookup_performAll {key : String} {ss : List (Statement ρ)}
    (hkey : ∀ list : ItemList, list.field = key → additions list ss = []) (fields : Attributes) :
    (performAll s ref fields ss).lookup key =
      ((assignedTo key ss).map (Operand.datum s ref)).getLast?.or (fields.lookup key) := by
  induction ss generalizing fields with
  | nil => rfl
  | cons statement ss ih =>
    have hnone (list : ItemList) (hlist : list.field = key) :
        additions list [statement] = [] ∧ additions list ss = [] := by
      rw [← List.append_eq_nil_iff, ← additions_append, List.singleton_append]
      exact hkey list hlist
    have hsplit := assignedTo_append key [statement] ss
    rw [List.singleton_append] at hsplit
    rw [performAll, List.foldl_cons, ← performAll, ih fun list h => (hnone list h).2,
      lookup_perform s ref fun list h => (hnone list h).1, hsplit, List.map_append,
      List.getLast?_append, Option.or_assoc]

theorem lookup_perform_list {list : ItemList} {fields : Attributes} {items : List Datum}
    (hfields : fields.lookup list.field = some (.list items)) {statement : Statement ρ}
    (hassigned : assignedTo list.field [statement] = []) :
    (statement.perform s ref fields).lookup list.field =
      some (.list (items ++ (additions list [statement]).map (Operand.datum s ref))) := by
  have hsame : fields.lookup list.field = some (.list (items ++ [])) := by
    rw [List.append_nil, hfields]
  cases statement with
  | assign holder property value =>
    cases holder with
    | result =>
      have hproperty : fieldOf property ≠ list.field := fun h => by
        simp [assignedTo, assignments, Statement.assignment?, h] at hassigned
      rw [Statement.perform, lookup_cons_text, if_neg hproperty]
      exact hsame
    | reusable => exact hsame
    | controller depth => exact hsame
  | add other item =>
    rw [Statement.perform, lookup_cons_text]
    by_cases hother : other = list
    · subst hother
      simp [additions, Statement.added?, itemsOf, hfields]
    · rw [if_neg fun h => hother (ItemList.field_inj h), hfields]
      simp [additions, Statement.added?, hother]
  | _ => exact hsame

theorem lookup_performAll_list {list : ItemList} {fields : Attributes} {items : List Datum}
    (hfields : fields.lookup list.field = some (.list items)) {ss : List (Statement ρ)}
    (hassigned : assignedTo list.field ss = []) :
    (performAll s ref fields ss).lookup list.field =
      some (.list (items ++ (additions list ss).map (Operand.datum s ref))) := by
  induction ss generalizing fields items with
  | nil => simpa [performAll, additions] using hfields
  | cons statement ss ih =>
    have hsplit := assignedTo_append list.field [statement] ss
    rw [List.singleton_append, hassigned, eq_comm, List.append_eq_nil_iff] at hsplit
    have hadded := additions_append list [statement] ss
    rw [List.singleton_append] at hadded
    rw [performAll, List.foldl_cons, ← performAll,
      ih (lookup_perform_list s ref hfields hsplit.1) hsplit.2, hadded, List.map_append,
      List.append_assoc]

end Perform

/-! ## Renamed requests -/

section Renamed

variable (f : ρ → σ) (ss : List (Statement ρ))

theorem Operand.datum_map (s : Settings) (ref : σ → Datum) (a : Operand ρ) :
    (a.map f).datum s ref = a.datum s (ref ∘ f) := by
  cases a <;> rfl

theorem assignedTo_map (key : String) :
    assignedTo key (ss.map (Statement.map f)) = (assignedTo key ss).map (Operand.map f) := by
  induction ss with
  | nil => rfl
  | cons statement ss ih =>
    have hone : assignedTo key [statement.map f] =
        (assignedTo key [statement]).map (Operand.map f) := by
      cases statement with
      | assign holder property value =>
        cases holder with
        | result =>
          by_cases hproperty : fieldOf property = key <;>
            simp [assignedTo, assignments, Statement.assignment?, hproperty]
        | reusable => rfl
        | controller depth => rfl
      | _ => rfl
    have hsplit := assignedTo_append key [statement] ss
    have hsplit' := assignedTo_append key [statement.map f] (ss.map (Statement.map f))
    rw [List.singleton_append] at hsplit hsplit'
    rw [List.map_cons, hsplit, hsplit', hone, ih, List.map_append]

theorem performAll_map (s : Settings) (ref : σ → Datum) (fields : Attributes) :
    performAll s ref fields (ss.map (Statement.map f)) = performAll s (ref ∘ f) fields ss := by
  have hone (statement : Statement ρ) (fields : Attributes) :
      (statement.map f).perform s ref fields = statement.perform s (ref ∘ f) fields := by
    cases statement with
    | assign holder property value =>
      cases holder with
      | result => rw [Statement.map_assign, Statement.perform, Operand.datum_map, Statement.perform]
      | reusable => rfl
      | controller depth => rfl
    | add list item =>
      rw [Statement.map_add, Statement.perform, Operand.datum_map, Statement.perform]
    | _ => rfl
  simp only [performAll, List.foldl_map, hone]

end Renamed

/-! ## Values -/

/-- Values that are equal, the two zeros being one. -/
inductive Datum.Same : Datum → Datum → Prop where
  | refl (value : Datum) : Same value value
  | number {a b : Number} : a.equals b = true → Same (.number a) (.number b)
  | vector2 {u v : Vector2} : u.equals v = true → Same (.ofVector2 u) (.ofVector2 v)

namespace CSharp

def wholeFields : List String := ["finalStep", "initialStep", "stepCount"]

def capFields : List String := ["strokeDashCap", "strokeEndCap", "strokeStartCap"]

/-- How the value of a field is written, unless it is an object. -/
def written? (d : Dialect) (s : Settings) (key : String) : Datum → Option String
  | .flag value => some (bool value)
  | .number value =>
    if key = "duration" then
      some (timeSpan (if value.equals s.durationMs then durationField else integer (ticks value)))
    else if wholeFields.contains key then some (integer value)
    else some (float value)
  | .text value =>
    if key = "strokeLineJoin" then some (lineJoin d value)
    else if capFields.contains key then some (strokeCap d value)
    else some (Text.quote value)
  | .record [(_, .number x), (_, .number y)] => some (vector2 ⟨x, y⟩)
  | .record [(_, .number x), (_, .number y), (_, .number z)] => some (vector3 ⟨x, y, z⟩)
  | _ => none

def Alike (d : Dialect) (s : Settings) (key : String) (v w : Datum) : Prop :=
  v = w ∨ ∃ text, written? d s key v = some text ∧ written? d s key w = some text

end CSharp

namespace Number

theorem eq_or_zero_of_equals {a b : Number} (h : a.equals b = true) :
    a = b ∨ ∃ s t hzero, a = .finite s 0 hzero ∧ b = .finite t 0 hzero := by
  cases a with
  | finite s a ha =>
    cases b with
    | finite t b hb =>
      simp only [equals, Bool.and_eq_true, beq_iff_eq, Bool.or_eq_true] at h
      obtain ⟨rfl, rfl | rfl⟩ := h
      · exact .inl rfl
      · exact .inr ⟨s, t, ha, rfl, rfl⟩
    | infinite t => cases h
    | nan => cases h
  | infinite s =>
    cases b with
    | infinite t => exact .inl (congrArg _ (eq_of_beq h))
    | finite t b hb => cases h
    | nan => cases h
  | nan => cases h

theorem equals_left {a b : Number} (h : a.equals b = true) (c : Number) :
    a.equals c = b.equals c := by
  rcases eq_or_zero_of_equals h with rfl | ⟨s, t, _, rfl, rfl⟩
  · rfl
  · cases c with
    | finite u c hc => by_cases hzero : 0 = c <;> simp [equals, hzero]
    | infinite u => rfl
    | nan => rfl

section Zero

variable (negative : Bool) (h : Representable 0)

theorem ofRatio_zero : ofRatio negative 0 1 = .finite negative 0 h := by
  rw [ofRatio, Nat.zero_mul, nearestUnits_one h, ofUnits, dif_pos h]

theorem truncate_zero : truncate (.finite negative 0 h) = .finite negative 0 h := by
  rw [truncate, Nat.zero_div, ofRatio_zero negative h]

theorem round_zero : round (.finite negative 0 h) = .finite negative 0 h := by
  cases negative with
  | false => rw [round, Nat.div_eq_zero_iff.mpr (by omega), ofRatio_zero false h]
  | true => rw [round, Nat.div_eq_zero_iff.mpr (by omega), ofRatio_zero true h]

theorem scale_zero (k : Nat) : scale (.finite negative 0 h) k = .finite negative 0 h := by
  rw [scale, Nat.zero_mul, nearestUnits_one h, ofUnits, dif_pos h]

theorem text_zero : text (.finite negative 0 h) = text (.finite false 0 h) := by
  simp [text, chars]

end Zero

end Number

namespace CSharp

theorem float_eq_of_equals {a b : Number} (h : a.equals b = true) : float a = float b := by
  rcases Number.eq_or_zero_of_equals h with rfl | ⟨s, t, hzero, rfl, rfl⟩
  · rfl
  · simp [float]

theorem integer_eq_of_equals {a b : Number} (h : a.equals b = true) : integer a = integer b := by
  rcases Number.eq_or_zero_of_equals h with rfl | ⟨s, t, hzero, rfl, rfl⟩
  · rfl
  · rw [integer, integer, Number.truncate_zero, Number.truncate_zero, Number.text_zero s,
      Number.text_zero t]

theorem integer_ticks_of_equals {a b : Number} (h : a.equals b = true) :
    integer (ticks a) = integer (ticks b) := by
  rcases Number.eq_or_zero_of_equals h with rfl | ⟨s, t, hzero, rfl, rfl⟩
  · rfl
  · rw [ticks, ticks, Number.scale_zero, Number.scale_zero, Number.round_zero, Number.round_zero]
    exact integer_eq_of_equals h

theorem alike_of_same (d : Dialect) (s : Settings) (key : String) {v w : Datum} (h : v.Same w) :
    Alike d s key v w := by
  cases h with
  | refl value => exact .inl rfl
  | number h =>
    refine .inr ?_
    have hticks := integer_ticks_of_equals h
    simp only [written?, Number.equals_left h, float_eq_of_equals h, integer_eq_of_equals h, hticks]
    split
    · exact ⟨_, rfl, rfl⟩
    · split <;> exact ⟨_, rfl, rfl⟩
  | @vector2 u v h =>
    obtain ⟨hx, hy⟩ := (Bool.and_eq_true _ _).mp h
    refine .inr ⟨vector2 u, rfl, ?_⟩
    rw [vector2, float_eq_of_equals hx, float_eq_of_equals hy]
    rfl

end CSharp

end SceneCompiler
