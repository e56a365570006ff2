import SceneCompiler.CSharp.SourceFile
import SceneCompiler.Factory.Resolution
import SceneCompiler.Proofs.CSharp.PropertyNames
import SceneCompiler.Proofs.Code.LineEnds
import SceneCompiler.Proofs.Naming.Segments
import SceneCompiler.Proofs.Number.Rounding

/-!
# The ends of lines in literals and statements

Numbers, vectors, colors and the words of the code hold no end of a line.  A string literal escapes
line feeds and carriage returns, and leaves the other ends of lines as they are.
-/

namespace SceneCompiler

namespace Text

theorem isLineEnd_of_isAlphanum {c : Char} (h : c.isAlphanum = true) : isLineEnd c = false := by
  cases hend : isLineEnd c with
  | false => rfl
  | true =>
    have hends : ∀ k ∈ [0x0A, 0x0D, 0x85, 0x2028, 0x2029], (Char.ofNat k).isAlphanum = false := by
      decide
    simp only [isLineEnd, Bool.or_eq_true, beq_iff_eq, or_assoc] at hend
    rw [← Char.ofNat_toNat c, hends c.toNat (by simpa using hend)] at h
    cases h

theorem inLine_of_isAlphanum {text : List Char} (h : ∀ c ∈ text, c.isAlphanum = true) :
    inLine text = true := by
  refine List.all_eq_true.mpr fun c hc => ?_
  rw [isLineEnd_of_isAlphanum (h c hc)]
  rfl

def fitsLiteral (text : String) : Bool :=
  text.toList.all fun c => !isLineEnd c || c == '\n' || c == '\r'

theorem inLine_escapeChar (c : Char) :
    inLine (escapeChar c) = (!isLineEnd c || c == '\n' || c == '\r') := by
  have hdigit : ∀ k < 16, isLineEnd (Nat.digitChar k) = false := by decide
  unfold escapeChar
  split
  case h_8 hquote hslash hback hform hfeed hreturn htab =>
    have hnone : (c == '\n' || c == '\r') = false :=
      Bool.or_eq_false_iff.mpr ⟨beq_false_of_ne hfeed, beq_false_of_ne hreturn⟩
    rw [Bool.or_assoc, hnone, Bool.or_false]
    dsimp only
    split
    · rename_i hcontrol
      have hends : ∀ k < 0x20, Char.ofNat k ≠ '\n' → Char.ofNat k ≠ '\r' →
          isLineEnd (Char.ofNat k) = false := by decide
      have hend := hends c.toNat hcontrol
      rw [Char.ofNat_toNat] at hend
      have hhigh := hdigit (c.toNat / 16) (by omega)
      have hlow := hdigit (c.toNat % 16) (by omega)
      simp only [inLine_cons, inLine_nil, hhigh, hlow, hend hfeed hreturn]
      decide
    · simp
  all_goals decide

theorem unbroken_quote (text : String) : unbroken (quote text) = fitsLiteral text := by
  have hquote : isLineEnd '"' = false := by decide
  have hall (chars : List Char) : inLine (chars.flatMap escapeChar) =
      chars.all fun c => !isLineEnd c || c == '\n' || c == '\r' := by
    induction chars with
    | nil => rfl
    | cons c chars ih =>
      rw [List.flatMap_cons, inLine_append, inLine_escapeChar, ih, List.all_cons]
  rw [quote, unbroken_ofList, inLine_append, inLine_cons, hall, inLine_cons, hquote, fitsLiteral]
  simp

end Text

/-! ## Numbers -/

open Text

theorem AreDigits.inLine {digits : List Char} (h : AreDigits digits) : inLine digits = true :=
  inLine_of_isAlphanum h.isAlphanum

theorem IsUnsigned.inLine {text : List Char} (h : IsUnsigned text) : inLine text = true := by
  refine List.all_eq_true.mpr fun c hc => ?_
  rcases h.chars c hc with hc | rfl
  · rw [isLineEnd_of_isAlphanum hc]
    rfl
  · decide

theorem Scientific.IsExponent.inLine {text : List Char} (h : IsExponent text) :
    inLine text = true := by
  obtain ⟨hsign, _, hdigits⟩ := h
  rcases hsign with rfl | rfl <;> simp [hdigits.inLine] <;> decide

theorem IsMagnitude.inLine {text : List Char} (h : IsMagnitude text) : inLine text = true := by
  rcases h with h | h
  · exact h.inLine
  · have hpoint : isLineEnd '.' = false := by decide
    cases h with
    | whole _ hwhole hexponent => simp [hwhole.inLine, hexponent.inLine]
    | fraction _ hwhole _ hfraction hexponent =>
      simp [hwhole.inLine, hfraction.inLine, hexponent.inLine, hpoint]

theorem inLine_sign {sign : List Char} (h : sign = [] ∨ sign = ['-']) : inLine sign = true := by
  rcases h with rfl | rfl <;> decide

namespace Number

theorem inLine_chars (n : Number) : inLine (n.chars false) = true := by
  obtain ⟨sign, body, hsign, hbody, htext⟩ := n.exists_chars
  rw [htext, inLine_append, inLine_sign hsign, hbody.inLine]
  rfl

theorem inLine_expandExponent (n : Number) : inLine (expandExponent (n.chars false)) = true := by
  obtain ⟨sign, body, hsign, hbody, htext⟩ := n.exists_chars
  rw [htext]
  obtain ⟨digits, hdigits, h | h⟩ := isNumeral_expandExponent hsign hbody
  · rw [h, hdigits.inLine]
  · rw [h, inLine_cons, hdigits.inLine]
    decide

theorem inLine_hexFraction (fuel : Nat) {rest : Nat} (hrest : rest < one) :
    inLine ((hexFraction fuel rest).map Char.toUpper) = true := by
  induction fuel generalizing rest with
  | zero => rfl
  | succ fuel ih =>
    have hdigit : ∀ k < 16, isLineEnd (Nat.digitChar k).toUpper = false := by decide
    have hlt : 16 * rest / one < 16 := Nat.div_lt_of_lt_mul (by omega)
    rw [hexFraction]
    split
    · rfl
    · rw [List.map_cons, inLine_cons, hdigit _ hlt, ih (Nat.mod_lt _ one_pos)]
      rfl

theorem inLine_hexMagnitude (units : Nat) :
    inLine ((hexMagnitude units).map Char.toUpper) = true := by
  have hwhole := inLine_of_isAlphanum (isSegment_toDigits (units / one)).2
  have hfraction := inLine_hexFraction 269 (Nat.mod_lt units one_pos)
  have hpoint : isLineEnd '.'.toUpper = false := by decide
  rw [hexMagnitude]
  cases hdigits : hexFraction 269 (units % one) with
  | nil => exact hwhole
  | cons c rest =>
    rw [hdigits] at hfraction
    rw [List.map_append, List.map_cons, inLine_append, inLine_cons, hwhole, hfraction, hpoint]
    rfl

theorem unbroken_hexText (n : Number) : unbroken n.hexText = true := by
  have hsign : isLineEnd '-'.toUpper = false := by decide
  cases n with
  | finite negative units representable =>
    rw [hexText, unbroken_ofList, inLine_append, (areDigits_zeros _).inLine, Bool.true_and]
    split
    · rw [List.map_cons, inLine_cons, hsign, inLine_hexMagnitude]
      rfl
    · exact inLine_hexMagnitude units
  | infinite negative => cases negative <;> decide
  | nan => decide

end Number

/-! ## Literals -/

namespace CSharp

@[simp] theorem unbroken_float (n : Number) : unbroken (float n) = true := by
  have hsuffix : isLineEnd 'F' = false := by decide
  unfold float
  cases n with
  | finite negative units representable =>
    dsimp only
    split
    · decide
    · split
      · split
        · have hdigits := (areDigits_toDigits (units / Number.one)).inLine
          rw [unbroken_ofList, inLine_append, hdigits]
          cases negative <;> decide
        · rw [unbroken_ofList, Number.inLine_expandExponent]
      · rw [unbroken_ofList, inLine_append, Number.inLine_expandExponent, inLine_cons, hsuffix]
        rfl
  | infinite negative => cases negative <;> decide
  | nan => decide

@[simp] theorem unbroken_integer (n : Number) : unbroken (integer n) = true := by
  rw [integer, Number.text, unbroken_ofList, Number.inLine_chars]

theorem unbroken_intercalate (texts : List String) :
    unbroken (", ".intercalate texts) = texts.all unbroken := by
  have hcomma : inLine ", ".toList = true := by decide
  rw [unbroken, String.toList_intercalate]
  induction texts with
  | nil => rfl
  | cons text texts ih =>
    cases texts with
    | nil => simp [unbroken]
    | cons next rest =>
      rw [List.map_cons] at ih
      rw [List.map_cons, List.map_cons, List.intercalate_cons_cons, inLine_append,
        inLine_append, hcomma, ih, List.all_cons (a := text), Bool.and_true]
      rfl

@[simp] theorem unbroken_call (name : String) (arguments : List String) :
    unbroken (call name arguments) = (unbroken name && arguments.all unbroken) := by
  have hopen : unbroken "(" = true := by decide
  have hclose : unbroken ")" = true := by decide
  simp only [call, unbroken_append, unbroken_intercalate, hopen, hclose, Bool.and_true]

@[simp] theorem unbroken_vector2 (v : Vector2) : unbroken (vector2 v) = true := by
  simp +decide [vector2]

@[simp] theorem unbroken_vector3 (v : Vector3) : unbroken (vector3 v) = true := by
  simp +decide [vector3]

@[simp] theorem unbroken_matrix (m : Matrix3x2) : unbroken (matrix m) = true := by
  simp +decide [matrix]

@[simp] theorem unbroken_color (c : Color) : unbroken (color c) = true := by
  simp +decide [color, argb, Number.unbroken_hexText]

@[simp] theorem unbroken_repr (k : Nat) : unbroken k.repr = true := by
  rw [unbroken, Nat.toList_repr]
  exact (areDigits_toDigits k).inLine

@[simp] theorem unbroken_holder (h : Holder) : unbroken (holder h) = true := by
  cases h with
  | result => decide
  | reusable => decide
  | controller depth =>
    cases depth with
    | zero => decide
    | succ depth => simp +decide [holder]

@[simp] theorem unbroken_target (t : Target) : unbroken (target {} t) = true := by
  unfold target member
  split <;> simp +decide

end CSharp

/-! ## Statements -/

section Fits

variable {ρ : Type}

def Operand.fits : Operand ρ → Bool
  | .text value => fitsLiteral value
  | _ => true

def Statement.fits : Statement ρ → Bool
  | .comment text => Layout.fitsRemark text
  | .assign _ property value => unbroken property && value.fits
  | .add _ item => item.fits
  | .insertScalar name _ => fitsLiteral name
  | .insertVector2 name _ => fitsLiteral name
  | .setParameter _ name value => fitsLiteral name && value.fits
  | .insertKeyFrame _ value _ => value.fits
  | .insertExpressionKeyFrame _ expression _ => fitsLiteral expression
  | .startAnimation _ property animation => fitsLiteral property && animation.fits
  | .fetchController _ _ _ property => fitsLiteral property
  | _ => true

def Creation.fits : Creation ρ → Bool
  | .call method arguments => unbroken method && arguments.all Operand.fits
  | _ => true

/-- The texts that a site gives to the code are written in one line. -/
structure Site.Fits {ι : Type} (s : Site ι) : Prop where
  typeName : unbroken s.typeName = true
  name : unbroken s.name = true
  fieldName : unbroken s.fieldName = true
  inline : ∀ text ∈ s.inline, unbroken text = true

end Fits

namespace CSharp

theorem unbroken_operand {a : Operand Access} (h : ∀ x ∈ a.references, unbroken x.text = true) :
    unbroken (operand {} a) = a.fits := by
  cases a with
  | text value => exact unbroken_quote value
  | cap value => cases value <;> decide
  | join value => cases value <;> decide
  | object access => exact h access (by simp [Operand.references])
  | truth => decide
  | duration => decide
  | timeSpan milliseconds => simp +decide [operand, timeSpan, Operand.fits]
  | _ => simp [operand, Operand.fits]

@[simp] theorem unbroken_callLine (receiver method : String) (arguments : List String) :
    (callLine {} receiver method arguments).unbroken =
      (unbroken receiver && unbroken method && arguments.all unbroken) := by
  have hpoint : unbroken "." = true := by decide
  have hend : unbroken ";" = true := by decide
  simp [callLine, Code.unbroken, member, hpoint, hend]

theorem unbroken_statement {s : Statement Access}
    (h : ∀ x ∈ s.references, unbroken x.text = true) : (statement {} s).unbroken = s.fits := by
  rw [Bool.eq_iff_iff]
  cases s with
  | comment text => rfl
  | openList list => cases list <;> decide
  | add list item =>
    have hitem := unbroken_operand (a := item) h
    cases list <;> simp +decide [statement, itemList, hitem, Statement.fits]
  | fetchController declares depth t property =>
    cases declares <;> simp +decide [statement, fetchLine, Code.unbroken, declareLine, member,
      unbroken_quote, Statement.fits]
  | assign holder property value =>
    have hvalue := unbroken_operand (a := value) h
    simp +decide [statement, Code.unbroken, assignLine, member, hvalue, Statement.fits]
  | setParameter holder name value =>
    have hvalue := unbroken_operand (a := value) h
    simp +decide [statement, hvalue, unbroken_quote, Statement.fits]
  | insertKeyFrame progress value easing =>
    have hvalue := unbroken_operand (a := value) fun x hx => h x (List.mem_append_left _ hx)
    have heasing : unbroken easing.text = true := h easing (by simp [Statement.references])
    simp +decide [statement, hvalue, heasing, Statement.fits]
  | insertExpressionKeyFrame progress expression easing =>
    have heasing : unbroken easing.text = true := h easing (by simp [Statement.references])
    simp +decide [statement, unbroken_quote, heasing, Statement.fits]
  | startAnimation t property animation =>
    have hanimation := unbroken_operand (a := animation) h
    simp +decide [statement, startLine, hanimation, unbroken_quote, Statement.fits]
  | openProperties => decide
  | clearParameters => decide
  | _ => simp +decide [statement, unbroken_quote, Statement.fits]

theorem unbroken_creation {c : Creation Access}
    (h : ∀ x ∈ c.references, unbroken x.text = true) (hfits : c.fits = true) :
    unbroken (creation {} c) = true := by
  cases c with
  | call method arguments =>
    have harguments : (arguments.map (operand {})).all unbroken = true := by
      simp only [Creation.fits, Bool.and_eq_true, List.all_eq_true] at hfits
      simp only [List.all_map, List.all_eq_true, Function.comp_apply]
      intro a ha
      rw [unbroken_operand fun x hx => h x (List.mem_flatMap.mpr ⟨a, ha, hx⟩)]
      exact hfits.2 a ha
    rw [Creation.fits, Bool.and_eq_true] at hfits
    rw [creation, compositorCall, unbroken_call, harguments, member, unbroken_append, hfits.1]
    decide
  | path source =>
    have hsource : unbroken source.text = true := h source (by simp [Creation.references])
    simp +decide [creation, constructPath, hsource]
  | combination a b m mode =>
    have ha : unbroken a.text = true := h a (by simp [Creation.references])
    have hb : unbroken b.text = true := h b (by simp [Creation.references])
    have hmode : unbroken (combineMode (Named.name mode)) = true := by cases mode <;> decide
    have hmethod : unbroken ".CombineWith" = true := by decide
    simp [creation, combine, ha, hb, hmode, hmethod]
  | ellipse x y rx ry => simp +decide [creation, canvasShape]
  | roundedRectangle x y w h rx ry => simp +decide [creation, canvasShape]
  | outline region commands => exact (by decide : unbroken createPath = true)

theorem unbroken_pathCommand (c : PathCommand) : unbroken (pathCommand c) = true := by
  cases c with
  | endFigure a => cases a <;> decide
  | _ => simp +decide [pathCommand]

section Site

variable {s : Site} (hs : s.Fits)

include hs

theorem unbroken_keep (value : String) : unbroken (keep s value) = unbroken value := by
  unfold keep
  split <;> simp +decide [hs.fieldName]

theorem unbroken_createResult {c : Creation Access}
    (h : ∀ x ∈ c.references, unbroken x.text = true) (hfits : c.fits = true) :
    Code.allUnbroken (createResult {} s c) = true := by
  cases c with
  | outline region commands =>
    have hregion : Code.allUnbroken (if region = .alternate then []
        else [regionLine (Named.name region)]) = true := by cases region <;> decide
    have hcommands : Code.allUnbroken
        (commands.map fun command => builderLine (pathCommand command)) = true := by
      simp +decide [Code.allUnbroken_eq_all, builderLine, Code.unbroken, unbroken_pathCommand]
    simp +decide [createResult, outlineResult, Code.allUnbroken, Code.unbroken, hregion,
      hcommands, hs.typeName, unbroken_keep hs]
  | _ =>
    simp +decide [createResult, declareResult, declareLine, Code.allUnbroken, Code.unbroken,
      unbroken_keep hs, unbroken_creation h hfits]

theorem allUnbroken_method (comment : String) {f : Factory Access}
    (h : ∀ x ∈ f.references, unbroken x.text = true) (hcreation : f.creation.fits = true)
    (hbare : f.bare = true → f.statements = []) :
    Code.allUnbroken (method {} s comment f) =
      (Layout.fitsRemark comment && f.statements.all Statement.fits) := by
  obtain ⟨hcreated, hstated⟩ := List.forall_mem_append.mp h
  have hstatements : Code.allUnbroken (f.statements.map (statement {})) =
      f.statements.all Statement.fits := by
    rw [Code.allUnbroken_eq_all, List.all_map, Bool.eq_iff_iff, List.all_eq_true, List.all_eq_true]
    refine forall₂_congr fun statement hstatement => ?_
    rw [Function.comp_apply, unbroken_statement fun x hx =>
      hstated x (List.mem_flatMap.mpr ⟨statement, hstatement, hx⟩)]
  have hreturn : returnResult.unbroken = true := by decide
  rw [method, Bool.eq_iff_iff]
  cases hf : f.bare with
  | true =>
    rw [hbare hf]
    simp +decide [methodAround, bareBody, Code.allUnbroken, Code.unbroken, hs.typeName, hs.name,
      unbroken_keep hs, unbroken_creation hcreated hcreation]
  | false =>
    simp +decide [methodAround, Code.allUnbroken, Code.unbroken, hs.typeName, hs.name, hreturn,
      hstatements, unbroken_createResult hs hcreated hcreation]

end Site

/-! ## Source files -/

theorem unbroken_wordText (name : String) : unbroken (wordText name) = true := by
  refine List.all_eq_true.mpr fun c hc => ?_
  rcases isWordChar_iff.mp (isWordChar_wordText name c hc) with halnum | rfl
  · rw [isLineEnd_of_isAlphanum halnum]
    rfl
  · decide

theorem unbroken_candidate {base : String} (h : unbroken base = true) (k : Nat) :
    unbroken (candidate base k) = true := by
  unfold candidate
  split <;> simp +decide [h]

theorem propertyNameConstants_spec (names : List String) :
    ∀ constant ∈ propertyNameConstants names,
      constant.1 ∈ names ∧ unbroken constant.2 = true := by
  intro constant hconstant
  have hdeclares := declares_propertyNameConstants names
  obtain ⟨k, hid⟩ := hdeclares.identifier constant hconstant
  rw [hid]
  exact ⟨(hdeclares.mem_iff _).mp (List.mem_map_of_mem hconstant),
    unbroken_candidate (unbroken_wordText _) k⟩

namespace SourceFile

variable {u : SourceFile}

theorem allUnbroken_constants (h : u.propertyNames.all fitsLiteral = true) :
    Code.allUnbroken u.constants = true := by
  rw [constants, Code.allUnbroken_append, Bool.and_eq_true]
  constructor
  · rw [Code.allUnbroken_eq_all, List.all_map, List.all_eq_true]
    intro constant hconstant
    obtain ⟨hname, hid⟩ := propertyNameConstants_spec _ constant hconstant
    have hfits := List.all_eq_true.mp h constant.1 hname
    simp +decide [constantLine, Code.unbroken, unbroken_quote, hid, hfits]
  · split <;> decide

theorem allUnbroken_code (hclass : unbroken u.className = true) (hroot : u.root.Fits)
    (hstored : ∀ s ∈ u.stored, s.Fits) :
    Code.allUnbroken (u.code {}) =
      (unbroken u.nameSpace && (Code.allUnbroken u.constants && Code.allUnbroken u.methods)) := by
  have hheader : Code.allUnbroken (header.map .line) = true := by decide +kernel
  have husings : Code.allUnbroken ((usings u.usesGeometryLibrary).map .line) = true := by
    cases u.usesGeometryLibrary <;> decide +kernel
  have hentry : Code.allUnbroken (entry {}) = true := by decide +kernel
  have hfields : Code.allUnbroken (u.fields {}) = true := by
    have hlines : Code.allUnbroken
        (u.stored.map fun s => .line (s.typeName ++ " " ++ s.fieldName ++ ";")) = true := by
      rw [Code.allUnbroken_eq_all, List.all_map, List.all_eq_true]
      intro s hs
      simp +decide [Code.unbroken, (hstored s hs).typeName, (hstored s hs).fieldName]
    simp +decide [fields, Code.allUnbroken, Code.unbroken, hlines]
  have hending : Code.allUnbroken (u.ending {}) = true := by
    have hfield : unbroken u.rootField = true := by
      unfold rootField
      split
      · exact hroot.fieldName
      · decide
    cases hstored : u.root.stored <;>
      simp +decide [ending, Code.allUnbroken, Code.unbroken, hstored, hfield, hroot.name]
  rw [Bool.eq_iff_iff]
  simp +decide [code, Code.allUnbroken, Code.unbroken, hheader, husings, hentry, hfields, hending,
    hclass]

end SourceFile

end CSharp

end SceneCompiler
