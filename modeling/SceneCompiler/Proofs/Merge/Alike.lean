import Mathlib.Data.List.Forall2
import SceneCompiler.Proofs.Merge.Kinds

/-!
# Objects that are merged

What tells objects apart is a list of atoms.  The atoms of a field show where they end, so two objects
with the same atoms are of one variant and have fields that are written alike.  Merged objects are
alike in this way, and they refer to objects that are merged with each other.
-/

namespace SceneCompiler

namespace Number

def json (a : Number) : String :=
  match a with
  | .finite _ _ _ => a.text
  | _ => "null"

def isFinite : Number → Bool
  | .finite _ _ _ => true
  | _ => false

/-- Two numbers with one JSON text: they are equal, or neither is finite. -/
def Alike (a b : Number) : Prop :=
  a.json = b.json ∧ (a.equals b = true ∨ a.isFinite = false ∧ b.isFinite = false)

theorem alike_of_written {a b : Number} (h : a.written = b.written) : a.Alike b := by
  cases a with
  | finite s u hu =>
    cases b with
    | finite t v hv =>
      simp only [written, ofUnits, hu, hv, dif_pos, finite.injEq] at h
      obtain ⟨hsign, rfl⟩ := h
      constructor
      · simp [json, text, chars, hsign]
      · by_cases hzero : u = 0
        · simp [equals, hzero]
        · have hne : (u != 0) = true := by simpa using hzero
          rw [hne, Bool.and_true, Bool.and_true] at hsign
          simp [equals, hsign]
    | infinite t => simp [written, ofUnits, hu] at h
    | nan => simp [written, ofUnits, hu] at h
  | infinite s =>
    cases b with
    | finite t v hv => simp [written, ofUnits, hv] at h
    | infinite t => exact ⟨rfl, .inr ⟨rfl, rfl⟩⟩
    | nan => exact ⟨rfl, .inr ⟨rfl, rfl⟩⟩
  | nan =>
    cases b with
    | finite t v hv => simp [written, ofUnits, hv] at h
    | infinite t => exact ⟨rfl, .inr ⟨rfl, rfl⟩⟩
    | nan => exact ⟨rfl, .inr ⟨rfl, rfl⟩⟩

end Number

section Values

def Vector2.Alike (u v : Vector2) : Prop :=
  u.x.Alike v.x ∧ u.y.Alike v.y

def Vector3.Alike (u v : Vector3) : Prop :=
  u.x.Alike v.x ∧ u.y.Alike v.y ∧ u.z.Alike v.z

def Matrix3x2.Alike (a b : Matrix3x2) : Prop :=
  a.m11.Alike b.m11 ∧ a.m12.Alike b.m12 ∧ a.m21.Alike b.m21 ∧ a.m22.Alike b.m22 ∧
    a.m31.Alike b.m31 ∧ a.m32.Alike b.m32

def Color.Alike (c d : Color) : Prop :=
  c.hex = d.hex

def Trim.Alike (t u : Trim) : Prop :=
  t.start.Alike u.start ∧ t.stop.Alike u.stop ∧ t.offset.Alike u.offset

def StepEasing.Alike (s t : StepEasing) : Prop :=
  s.finalStep.Alike t.finalStep ∧ s.initialStep.Alike t.initialStep ∧
    s.isFinalStepSingleFrame = t.isFinalStepSingleFrame ∧
    s.isInitialStepSingleFrame = t.isInitialStepSingleFrame ∧ s.stepCount.Alike t.stepCount

inductive PathCommand.Alike : PathCommand → PathCommand → Prop
  | beginFigure {p q : Vector2} : p.Alike q → Alike (.beginFigure p) (.beginFigure q)
  | addLine {p q : Vector2} : p.Alike q → Alike (.addLine p) (.addLine q)
  | addCubicBezier {a b p a' b' p' : Vector2} :
      a.Alike a' → b.Alike b' → p.Alike p' →
      Alike (.addCubicBezier a b p) (.addCubicBezier a' b' p')
  | endFigure (figureLoop : FigureLoop) : Alike (.endFigure figureLoop) (.endFigure figureLoop)

variable {ρ α : Type}

def Parameters.Alike (p q : Parameters ρ) : Prop :=
  p.target.getD "" = q.target.getD "" ∧ p.references.map Prod.fst = q.references.map Prod.fst

inductive FrameValue.Alike (R : α → α → Prop) : FrameValue α → FrameValue α → Prop
  | value {a b : α} : R a b → Alike R (.value a) (.value b)
  | expression (text : String) : Alike R (.expression text) (.expression text)

def KeyFrame.Alike (R : α → α → Prop) (k l : KeyFrame ρ α) : Prop :=
  k.progress.Alike l.progress ∧ k.value.Alike R l.value

def Frames.Alike (R : α → α → Prop) (f g : Frames ρ α) : Prop :=
  f.duration.Alike g.duration ∧ List.Forall₂ (KeyFrame.Alike R) f.keyFrames g.keyFrames

/-- Two variants of one type that may be merged, with fields that are alike, references apart. -/
inductive Variant.Alike : Variant ρ → Variant ρ → Prop
  | linearEasing : Alike .linearEasing .linearEasing
  | cubicBezierEasing {a b a' b' : Vector2} :
      a.Alike a' → b.Alike b' → Alike (.cubicBezierEasing a b) (.cubicBezierEasing a' b')
  | stepEasing {s t : StepEasing} : s.Alike t → Alike (.stepEasing s) (.stepEasing t)
  | colorBrush {c d : Color} : c.Alike d → Alike (.colorBrush c) (.colorBrush d)
  | ellipseGeometry {t t' : Trim} {center radius center' radius' : Vector2} :
      t.Alike t' → center.Alike center' → radius.Alike radius' →
      Alike (.ellipseGeometry t center radius) (.ellipseGeometry t' center' radius')
  | rectangleGeometry {t t' : Trim} {size size' : Vector2} :
      t.Alike t' → size.Alike size' →
      Alike (.rectangleGeometry t size) (.rectangleGeometry t' size')
  | roundedRectangleGeometry {t t' : Trim} {size radius size' radius' : Vector2} :
      t.Alike t' → size.Alike size' → radius.Alike radius' →
      Alike (.roundedRectangleGeometry t size radius) (.roundedRectangleGeometry t' size' radius')
  | pathGeometry {t t' : Trim} (path path' : ρ) :
      t.Alike t' → Alike (.pathGeometry t path) (.pathGeometry t' path')
  | expressionAnimation {p q : Parameters ρ} (expression : String) :
      p.Alike q → Alike (.expressionAnimation p expression) (.expressionAnimation q expression)
  | colorAnimation {p q : Parameters ρ} {f g : Frames ρ Color} :
      p.Alike q → f.Alike Color.Alike g → Alike (.colorAnimation p f) (.colorAnimation q g)
  | scalarAnimation {p q : Parameters ρ} {f g : Frames ρ Number} :
      p.Alike q → f.Alike Number.Alike g → Alike (.scalarAnimation p f) (.scalarAnimation q g)
  | vector2Animation {p q : Parameters ρ} {f g : Frames ρ Vector2} :
      p.Alike q → f.Alike Vector2.Alike g → Alike (.vector2Animation p f) (.vector2Animation q g)
  | vector3Animation {p q : Parameters ρ} {f g : Frames ρ Vector3} :
      p.Alike q → f.Alike Vector3.Alike g → Alike (.vector3Animation p f) (.vector3Animation q g)
  | pathAnimation {p q : Parameters ρ} {f g : Frames ρ ρ} :
      p.Alike q → f.Alike (fun _ _ => True) g → Alike (.pathAnimation p f) (.pathAnimation q g)

inductive CanvasGeometry.Alike : CanvasGeometry ρ → CanvasGeometry ρ → Prop
  | combination (a b a' b' : ρ) {matrix matrix' : Matrix3x2} (mode : CombineMode) :
      matrix.Alike matrix' → Alike (.combination a b matrix mode) (.combination a' b' matrix' mode)
  | ellipse {x y rx ry x' y' rx' ry' : Number} :
      x.Alike x' → y.Alike y' → rx.Alike rx' → ry.Alike ry' →
      Alike (.ellipse x y rx ry) (.ellipse x' y' rx' ry')
  | path (region : FilledRegion) {commands commands' : List PathCommand} :
      List.Forall₂ PathCommand.Alike commands commands' →
      Alike (.path region commands) (.path region commands')
  | roundedRectangle {x y w h rx ry x' y' w' h' rx' ry' : Number} :
      x.Alike x' → y.Alike y' → w.Alike w' → h.Alike h' → rx.Alike rx' → ry.Alike ry' →
      Alike (.roundedRectangle x y w h rx ry) (.roundedRectangle x' y' w' h' rx' ry')

/-- Two objects of one type that may be merged, without animators and property values, with fields that
are alike, references apart, and with the same comment where comments are kept. -/
inductive Object.Alike (keepComments : Bool) : Object ρ → Object ρ → Prop
  | composition {base base' : Base ρ} {variant variant' : Variant ρ} :
      base.animators = [] → base'.animators = [] → base.values = {} → base'.values = {} →
      (keepComments = true →
        base.description.comment.getD "" = base'.description.comment.getD "") →
      variant.Alike variant' →
      Alike keepComments (.composition base variant) (.composition base' variant')
  | path (description description' : Description) (source source' : ρ) :
      Alike keepComments (.path description source) (.path description' source')
  | canvas (description description' : Description) {geometry geometry' : CanvasGeometry ρ} :
      geometry.Alike geometry' →
      Alike keepComments (.canvas description geometry) (.canvas description' geometry')

end Values

namespace Atom

/-- The atoms of a value show where they end, and values with the same atoms are alike. -/
def Tells {α : Type} (atoms : α → List Atom) (R : α → α → Prop) : Prop :=
  ∀ ⦃a b : α⦄ ⦃s t : List Atom⦄, atoms a ++ s = atoms b ++ t → R a b ∧ s = t

theorem alike_of_ofNumber {a b : Number} (h : ofNumber a = ofNumber b) : a.Alike b :=
  Number.alike_of_written (Atom.number.inj h)

theorem tells_number : Tells (fun a => [ofNumber a]) Number.Alike := by
  intro a b s t h
  obtain ⟨hhead, rfl⟩ := List.cons.inj h
  exact ⟨alike_of_ofNumber hhead, rfl⟩

theorem tells_vector2 : Tells ofVector2 Vector2.Alike := by
  intro u v s t h
  obtain ⟨hx, hrest⟩ := tells_number h
  obtain ⟨hy, rfl⟩ := tells_number hrest
  exact ⟨⟨hx, hy⟩, rfl⟩

theorem tells_vector3 : Tells ofVector3 Vector3.Alike := by
  intro u v s t h
  obtain ⟨hx, hrest⟩ := tells_number h
  obtain ⟨hy, hrest⟩ := tells_number hrest
  obtain ⟨hz, rfl⟩ := tells_number hrest
  exact ⟨⟨hx, hy, hz⟩, rfl⟩

theorem tells_color : Tells ofColor Color.Alike := by
  intro c d s t h
  obtain ⟨hhex, rfl⟩ := List.cons.inj h
  exact ⟨Atom.text.inj hhex, rfl⟩

theorem tells_trim : Tells ofTrim Trim.Alike := by
  intro a b s t h
  obtain ⟨hstart, hrest⟩ := tells_number h
  obtain ⟨hstop, hrest⟩ := tells_number hrest
  obtain ⟨hoffset, rfl⟩ := tells_number hrest
  exact ⟨⟨hstart, hstop, hoffset⟩, rfl⟩

theorem tells_matrix : Tells ofMatrix Matrix3x2.Alike := by
  intro a b s t h
  obtain ⟨h11, hrest⟩ := tells_number h
  obtain ⟨h12, hrest⟩ := tells_number hrest
  obtain ⟨h21, hrest⟩ := tells_number hrest
  obtain ⟨h22, hrest⟩ := tells_number hrest
  obtain ⟨h31, hrest⟩ := tells_number hrest
  obtain ⟨h32, rfl⟩ := tells_number hrest
  exact ⟨⟨h11, h12, h21, h22, h31, h32⟩, rfl⟩

theorem tells_named {α : Type} [Named α]
    (hinj : ∀ a b : α, Named.name a = Named.name b → a = b) :
    Tells (ofNamed (α := α)) Eq := by
  intro a b s t h
  obtain ⟨hname, rfl⟩ := List.cons.inj h
  exact ⟨hinj a b (Atom.text.inj hname), rfl⟩

theorem tells_figureLoop : Tells (ofNamed (α := FigureLoop)) Eq :=
  tells_named fun a b h => by cases a <;> cases b <;> simp [Named.name] at h ⊢

theorem tells_filledRegion : Tells (ofNamed (α := FilledRegion)) Eq :=
  tells_named fun a b h => by cases a <;> cases b <;> simp [Named.name] at h ⊢

theorem tells_combineMode : Tells (ofNamed (α := CombineMode)) Eq :=
  tells_named fun a b h => by cases a <;> cases b <;> simp [Named.name] at h ⊢

theorem tells_command : Tells ofCommand PathCommand.Alike := by
  intro a b s t h
  cases a with
  | beginFigure p =>
    cases b with
    | beginFigure q =>
      obtain ⟨hp, rfl⟩ := tells_vector2 (List.cons.inj h).2
      exact ⟨.beginFigure hp, rfl⟩
    | _ => simp [ofCommand] at h
  | addLine p =>
    cases b with
    | addLine q =>
      obtain ⟨hp, rfl⟩ := tells_vector2 (List.cons.inj h).2
      exact ⟨.addLine hp, rfl⟩
    | _ => simp [ofCommand] at h
  | addCubicBezier c d p =>
    cases b with
    | addCubicBezier c' d' p' =>
      obtain ⟨hc, hrest⟩ := tells_vector2 (List.cons.inj h).2
      obtain ⟨hd, hrest⟩ := tells_vector2 hrest
      obtain ⟨hp, rfl⟩ := tells_vector2 hrest
      exact ⟨.addCubicBezier hc hd hp, rfl⟩
    | _ => simp [ofCommand] at h
  | endFigure figureLoop =>
    cases b with
    | endFigure figureLoop' =>
      obtain ⟨rfl, rfl⟩ := tells_figureLoop (List.cons.inj h).2
      exact ⟨.endFigure figureLoop, rfl⟩
    | _ => simp [ofCommand] at h

theorem Tells.flatMap {α : Type} {atoms : α → List Atom} {R : α → α → Prop} (hatoms : Tells atoms R)
    {as bs : List α} {s t : List Atom} (hlength : as.length = bs.length)
    (h : as.flatMap atoms ++ s = bs.flatMap atoms ++ t) : List.Forall₂ R as bs ∧ s = t := by
  induction as generalizing bs with
  | nil =>
    cases bs with
    | nil => exact ⟨.nil, h⟩
    | cons b bs => cases hlength
  | cons a as ih =>
    cases bs with
    | nil => cases hlength
    | cons b bs =>
      rw [List.flatMap_cons, List.flatMap_cons, List.append_assoc, List.append_assoc] at h
      obtain ⟨hab, hrest⟩ := hatoms h
      obtain ⟨hall, rfl⟩ := ih (Nat.succ.inj hlength) hrest
      exact ⟨.cons hab hall, rfl⟩

variable {ρ : Type}

theorem tells_parameters : Tells (ofParameters (ρ := ρ)) Parameters.Alike := by
  intro p q s t h
  obtain ⟨htarget, hrest⟩ := List.cons.inj h
  obtain ⟨hsize, hnames⟩ := List.cons.inj hrest
  obtain ⟨hnames, rfl⟩ := List.append_inj hnames (by simpa using hsize)
  refine ⟨⟨Atom.text.inj htarget, ?_⟩, rfl⟩
  have hmap := congrArg (List.map fun a : Atom => match a with | .text name => name | _ => "") hnames
  simpa [Function.comp_def] using hmap

def ofKeyFrame {α : Type} (value : α → List Atom) (frame : KeyFrame ρ α) : List Atom :=
  ofNumber frame.progress ::
    match frame.value with
    | .value v => .text "value" :: value v
    | .expression source => [.text "expression", .text source]

theorem tells_keyFrame {α : Type} {value : α → List Atom} {R : α → α → Prop}
    (hvalue : Tells value R) : Tells (ofKeyFrame (ρ := ρ) value) (KeyFrame.Alike R) := by
  intro k l s t h
  obtain ⟨hprogress, hrest⟩ := List.cons.inj h
  have hprogress := alike_of_ofNumber hprogress
  obtain ⟨progress, content, easing⟩ := k
  obtain ⟨progress', content', easing'⟩ := l
  cases content with
  | value a =>
    cases content' with
    | value b =>
      obtain ⟨hab, rfl⟩ := hvalue (List.cons.inj hrest).2
      exact ⟨⟨hprogress, .value hab⟩, rfl⟩
    | expression source => simp at hrest
  | expression source =>
    cases content' with
    | value b => simp at hrest
    | expression source' =>
      obtain ⟨hsource, rfl⟩ := List.cons.inj (List.cons.inj hrest).2
      cases hsource
      exact ⟨⟨hprogress, .expression source⟩, rfl⟩

theorem tells_frames {α : Type} {value : α → List Atom} {R : α → α → Prop} (hvalue : Tells value R) :
    Tells (ofFrames (ρ := ρ) value) (Frames.Alike R) := by
  intro f g s t h
  obtain ⟨hduration, hrest⟩ := List.cons.inj h
  obtain ⟨hsize, hframes⟩ := List.cons.inj hrest
  obtain ⟨hall, rfl⟩ := (tells_keyFrame hvalue).flatMap (Atom.size.inj hsize) hframes
  exact ⟨⟨alike_of_ofNumber hduration, hall⟩, rfl⟩

end Atom

open Atom

variable {ρ : Type}

private theorem alike_of_animation {α : Type} {value : α → List Atom} {R : α → α → Prop}
    (hvalue : Tells value R) {p q : Parameters ρ} {f g : Frames ρ α} {s t : List Atom}
    (h : ofParameters p ++ ofFrames value f ++ s = ofParameters q ++ ofFrames value g ++ t) :
    p.Alike q ∧ f.Alike R g ∧ s = t := by
  rw [List.append_assoc, List.append_assoc] at h
  obtain ⟨hparameters, hrest⟩ := tells_parameters h
  exact ⟨hparameters, tells_frames hvalue hrest⟩

theorem Variant.alike_of_atoms? {v w : Variant ρ} {fields fields' s t : List Atom}
    (hv : v.atoms? = some fields) (hw : w.atoms? = some fields') (htype : v.typeName = w.typeName)
    (h : fields ++ s = fields' ++ t) : v.Alike w ∧ s = t := by
  cases v <;> cases w <;> simp only [typeName, String.reduceEq] at htype <;> cases hv <;> cases hw
  case linearEasing.linearEasing => exact ⟨.linearEasing, h⟩
  case cubicBezierEasing.cubicBezierEasing =>
    rw [List.append_assoc, List.append_assoc] at h
    obtain ⟨ha, hrest⟩ := tells_vector2 h
    obtain ⟨hb, rfl⟩ := tells_vector2 hrest
    exact ⟨.cubicBezierEasing ha hb, rfl⟩
  case stepEasing.stepEasing =>
    obtain ⟨hfinal, hrest⟩ := tells_number h
    obtain ⟨hinitial, hrest⟩ := tells_number hrest
    obtain ⟨hfinalFrame, hrest⟩ := List.cons.inj hrest
    obtain ⟨hinitialFrame, hrest⟩ := List.cons.inj hrest
    obtain ⟨hcount, rfl⟩ := tells_number hrest
    exact ⟨.stepEasing ⟨hfinal, hinitial, Atom.flag.inj hfinalFrame, Atom.flag.inj hinitialFrame,
      hcount⟩, rfl⟩
  case colorBrush.colorBrush =>
    obtain ⟨hcolor, rfl⟩ := tells_color h
    exact ⟨.colorBrush hcolor, rfl⟩
  case ellipseGeometry.ellipseGeometry =>
    simp only [List.append_assoc] at h
    obtain ⟨htrim, hrest⟩ := tells_trim h
    obtain ⟨hcenter, hrest⟩ := tells_vector2 hrest
    obtain ⟨hradius, rfl⟩ := tells_vector2 hrest
    exact ⟨.ellipseGeometry htrim hcenter hradius, rfl⟩
  case rectangleGeometry.rectangleGeometry =>
    simp only [List.append_assoc] at h
    obtain ⟨htrim, hrest⟩ := tells_trim h
    obtain ⟨hsize, rfl⟩ := tells_vector2 hrest
    exact ⟨.rectangleGeometry htrim hsize, rfl⟩
  case roundedRectangleGeometry.roundedRectangleGeometry =>
    simp only [List.append_assoc] at h
    obtain ⟨htrim, hrest⟩ := tells_trim h
    obtain ⟨hsize, hrest⟩ := tells_vector2 hrest
    obtain ⟨hradius, rfl⟩ := tells_vector2 hrest
    exact ⟨.roundedRectangleGeometry htrim hsize hradius, rfl⟩
  case pathGeometry.pathGeometry =>
    obtain ⟨htrim, rfl⟩ := tells_trim h
    exact ⟨.pathGeometry _ _ htrim, rfl⟩
  case expressionAnimation.expressionAnimation =>
    obtain ⟨hexpression, hrest⟩ := List.cons.inj h
    cases hexpression
    obtain ⟨hparameters, rfl⟩ := tells_parameters hrest
    exact ⟨.expressionAnimation _ hparameters, rfl⟩
  case colorAnimation.colorAnimation =>
    obtain ⟨hparameters, hframes, rfl⟩ := alike_of_animation tells_color h
    exact ⟨.colorAnimation hparameters hframes, rfl⟩
  case scalarAnimation.scalarAnimation =>
    obtain ⟨hparameters, hframes, rfl⟩ := alike_of_animation tells_number h
    exact ⟨.scalarAnimation hparameters hframes, rfl⟩
  case vector2Animation.vector2Animation =>
    obtain ⟨hparameters, hframes, rfl⟩ := alike_of_animation tells_vector2 h
    exact ⟨.vector2Animation hparameters hframes, rfl⟩
  case vector3Animation.vector3Animation =>
    obtain ⟨hparameters, hframes, rfl⟩ := alike_of_animation tells_vector3 h
    exact ⟨.vector3Animation hparameters hframes, rfl⟩
  case pathAnimation.pathAnimation =>
    -- the paths themselves are references
    have hvalue : Tells (fun _ : ρ => []) fun _ _ => True := fun _ _ _ _ h => ⟨trivial, h⟩
    obtain ⟨hparameters, hframes, rfl⟩ := alike_of_animation hvalue h
    exact ⟨.pathAnimation hparameters hframes, rfl⟩

theorem CanvasGeometry.alike_of_atoms {a b : CanvasGeometry ρ} (h : a.atoms = b.atoms) :
    a.Alike b := by
  have happend : a.atoms ++ [] = b.atoms ++ [] := by rw [h]
  cases a with
  | combination c d matrix mode =>
    cases b with
    | combination c' d' matrix' mode' =>
      simp only [atoms, List.cons_append, List.append_assoc] at happend
      obtain ⟨hmatrix, hrest⟩ := tells_matrix (List.cons.inj happend).2
      obtain ⟨rfl, _⟩ := tells_combineMode hrest
      exact .combination c d c' d' mode hmatrix
    | _ => simp [atoms] at h
  | ellipse x y rx ry =>
    cases b with
    | ellipse x' y' rx' ry' =>
      obtain ⟨hx, hrest⟩ := tells_number (List.cons.inj happend).2
      obtain ⟨hy, hrest⟩ := tells_number hrest
      obtain ⟨hrx, hrest⟩ := tells_number hrest
      exact .ellipse hx hy hrx (tells_number hrest).1
    | _ => simp [atoms] at h
  | path region commands =>
    cases b with
    | path region' commands' =>
      simp only [atoms, List.cons_append, List.append_assoc] at happend
      obtain ⟨rfl, hrest⟩ := tells_filledRegion (List.cons.inj happend).2
      obtain ⟨hsize, hcommands⟩ := List.cons.inj hrest
      exact .path region (tells_command.flatMap (Atom.size.inj hsize) hcommands).1
    | _ => simp [atoms] at h
  | roundedRectangle x y w h rx ry =>
    cases b with
    | roundedRectangle x' y' w' h' rx' ry' =>
      obtain ⟨hx, hrest⟩ := tells_number (List.cons.inj happend).2
      obtain ⟨hy, hrest⟩ := tells_number hrest
      obtain ⟨hw, hrest⟩ := tells_number hrest
      obtain ⟨hh, hrest⟩ := tells_number hrest
      obtain ⟨hrx, hrest⟩ := tells_number hrest
      exact .roundedRectangle hx hy hw hh hrx (tells_number hrest).1
    | _ => simp [atoms] at h

namespace Object

theorem atoms?_composition {keep : Bool} {base : Base ρ} {variant : Variant ρ} {fields : List Atom}
    (h : (Object.composition base variant).atoms? keep = some fields) :
    base.animators = [] ∧ base.values = {} ∧ ∃ own, variant.atoms? = some own ∧
      fields = .text variant.typeName :: (own ++
        if keep then [.text (base.description.comment.getD "")] else []) := by
  simp only [atoms?] at h
  split at h
  · cases h
  · rename_i hempty
    obtain ⟨own, hown, rfl⟩ := Option.map_eq_some_iff.mp h
    simp only [PropertyValues.isEmpty, Bool.or_eq_true, Bool.not_eq_true', not_or,
      Bool.not_eq_false, List.isEmpty_iff, Bool.and_eq_true] at hempty
    obtain ⟨hanimators, hscalars, hvectors⟩ := hempty
    refine ⟨hanimators, ?_, own, hown, rfl⟩
    obtain ⟨description, ⟨scalars, vector2s⟩, onProperties, onObject⟩ := base
    cases hscalars
    cases hvectors
    rfl

theorem alike_of_atoms? {keep : Bool} {a b : Object ρ} {fields : List Atom}
    (ha : a.atoms? keep = some fields) (hb : b.atoms? keep = some fields) : a.Alike keep b := by
  have htype : a.typeName = b.typeName := by
    have hhead := (head?_of_atoms? ha).symm.trans (head?_of_atoms? hb)
    exact Atom.text.inj (Option.some.inj hhead)
  cases a with
  | composition base variant =>
    cases b with
    | composition base' variant' =>
      obtain ⟨hanimators, hvalues, own, hown, rfl⟩ := atoms?_composition ha
      obtain ⟨hanimators', hvalues', own', hown', hfields⟩ := atoms?_composition hb
      obtain ⟨hvariant, hcomment⟩ :=
        Variant.alike_of_atoms? hown hown' htype (List.cons.inj hfields).2
      refine .composition hanimators hanimators' hvalues hvalues' (fun hkeep => ?_) hvariant
      rw [if_pos hkeep, if_pos hkeep] at hcomment
      exact Atom.text.inj (List.cons.inj hcomment).1
    | path description source =>
      exact absurd (isOutline_iff.mpr (.inl htype)) Bool.false_ne_true
    | canvas description geometry =>
      exact absurd (isOutline_iff.mpr (.inr htype)) Bool.false_ne_true
  | path description source =>
    cases b with
    | composition base variant =>
      exact absurd (isOutline_iff.mpr (.inl htype.symm)) Bool.false_ne_true
    | path description' source' => exact .path description description' source source'
    | canvas description' geometry => simp [typeName] at htype
  | canvas description geometry =>
    cases b with
    | composition base variant =>
      exact absurd (isOutline_iff.mpr (.inr htype.symm)) Bool.false_ne_true
    | path description' source => simp [typeName] at htype
    | canvas description' geometry' =>
      cases ha
      have hgeometry : geometry'.atoms = geometry.atoms :=
        (List.cons.inj (Option.some.inj hb)).2
      exact .canvas description description' (CanvasGeometry.alike_of_atoms hgeometry.symm)

end Object

/-- Two objects of a graph with one representative are alike, and they refer to objects with the same
representatives, one by one. -/
theorem merged_objects_alike {n : Nat} (heap : Heap n) (root : Fin n) (keep : Bool) :
    let g := Graph.ofRoot heap root
    let m := Merge.ofGraph g (g.atoms keep)
    ∀ i ∈ g.order, ∀ j ∈ g.order, i ≠ j → m.representative[i] = m.representative[j] →
      (g.object i).Alike keep (g.object j) ∧
        List.Forall₂ (fun a b => m.representative[a] = m.representative[b])
          (g.outReferences i) (g.outReferences j) := by
  intro g m i hi j hj hne hrep
  have hm : m.Lawful (g.atoms keep) :=
    Merge.ofGraph_lawful g (g.atoms keep) (Graph.ofRoot_ordered heap root)
  rcases hm.alike i hi j hj hrep with heq | ⟨fields, hfields, hfields', htargets⟩
  · exact absurd heq hne
  · refine ⟨Object.alike_of_atoms? hfields hfields', ?_⟩
    have hsame : List.Forall₂ Eq (m.targets i) (m.targets j) :=
      htargets ▸ List.forall₂_same.mpr fun _ _ => rfl
    rwa [Merge.targets, Merge.targets, List.forall₂_map_left_iff, List.forall₂_map_right_iff] at hsame

/-- Two animations of the root that refer back to it.  They differ in the sign of a zero, and in that
one has an empty target and the other none. -/
def signedZeroHeap : Heap 5 :=
  #v[.composition { onObject := [.plain "Opacity" 1, .plain "Scale" 2] } (.containerVisual {}),
    .composition { description := { comment := some "fade" } }
      (.scalarAnimation { references := [("host", 0)] } ⟨1000, [⟨0, .value 0, 3⟩]⟩),
    .composition { description := { comment := some "fade" } }
      (.scalarAnimation { target := some "", references := [("host", 0)] }
        ⟨1000, [⟨0, .value (.ofRatio true 0 1), 4⟩]⟩),
    .composition {} .linearEasing,
    .composition {} .linearEasing]

theorem merged_objects_signedZero :
    let g := Graph.ofRoot signedZeroHeap 0
    let m := Merge.ofGraph g (g.atoms true)
    (1 ∈ g.order ∧ 2 ∈ g.order ∧ m.representative[(2 : Fin 5)] = 1) ∧
      (g.object 1).Alike true (g.object 2) ∧
      List.Forall₂ (fun a b : Fin 5 => m.representative[a] = m.representative[b]) [0, 3] [0, 4] := by
  intro g m
  have hfirst : 1 ∈ g.order := by decide +kernel
  have hsecond : 2 ∈ g.order := by decide +kernel
  exact ⟨⟨hfirst, hsecond, by decide +kernel⟩, merged_objects_alike signedZeroHeap 0 true 1 hfirst 2
    hsecond (by decide) (by decide +kernel)⟩

end SceneCompiler
