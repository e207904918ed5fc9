import FieldGeometry.Component.Evaluate

/-!
# How components read their pins

A component looks at its inputs only through the readers of `Pin`.  Two pins that these read alike
(`Pin.Alike`) are therefore interchangeable for every component (`evaluate_congr`), apart from the
two pins of the displays that have readers of their own, the section and the grid.

All readers of a single value look at the same part of a pin, so one equation stands for all of
them.  Merging reads as many pins as there are; what it finds depends on the fields at each pin, and
a pin that is not there has none (`fieldsAcross_congr`).
-/

namespace FieldGeometry

/-- Lists that differ in one place only are the same in the others. -/
theorem getElem?_around_of_ne
    {β : Type}
    {before : List β}
    {i : Nat}
    (h : i ≠ before.length)
    (x y : β)
    (after : List β) :
    (before ++ x :: after)[i]? = (before ++ y :: after)[i]? := by
  rcases Nat.lt_or_gt_of_ne h with hlt | hgt
  · rw [List.getElem?_append_left hlt, List.getElem?_append_left hlt]
  · obtain ⟨k, rfl⟩ := Nat.exists_eq_add_of_lt hgt
    have hle : before.length ≤ before.length + k + 1 := by omega
    have hindex : before.length + k + 1 - before.length = k + 1 := by omega
    rw [List.getElem?_append_right hle, List.getElem?_append_right hle, hindex,
      List.getElem?_cons_succ, List.getElem?_cons_succ]

namespace Pin

variable {α δ : Type} [Scalar α]

/-- Readings in turn succeed when the first does and what follows does with what it read. -/
theorem exists_of_bind_eq_ok
    {β γ : Type}
    {first : Except Failure β}
    {next : β → Except Failure γ}
    {result : γ}
    (h : first >>= next = .ok result) :
    ∃ x, first = .ok x ∧ next x = .ok result := by
  cases first with
  | error failure =>
      cases h
  | ok x =>
      exact ⟨x, rfl, h⟩

/-- Two pins are alike when all that is read of a pin is the same for both. -/
structure Alike (p q : Pin α δ) : Prop where
  /-- What all readers of a single value look at. -/
  unwrap : unwrap p = unwrap q
  points : points p = points q
  frames : frames p = frames q
  fields : fields p = fields q
  region : region p = region q

section Readers

variable {p q r : Pin α δ}

theorem Alike.refl (p : Pin α δ) : Alike p p :=
  ⟨rfl, rfl, rfl, rfl, rfl⟩

theorem Alike.symm (h : Alike p q) : Alike q p :=
  ⟨h.unwrap.symm, h.points.symm, h.frames.symm, h.fields.symm, h.region.symm⟩

theorem Alike.trans (h : Alike p q) (h' : Alike q r) : Alike p r :=
  ⟨h.unwrap.trans h'.unwrap, h.points.trans h'.points, h.frames.trans h'.frames,
    h.fields.trans h'.fields, h.region.trans h'.region⟩

variable (h : Alike p q)
include h

theorem Alike.number (fallback : α) : number p fallback = number q fallback := by
  unfold Pin.number
  rw [h.unwrap]

theorem Alike.count (fallback : Nat) : count p fallback = count q fallback := by
  unfold Pin.count
  rw [h.number]

theorem Alike.boolean (fallback : Bool) : boolean p fallback = boolean q fallback := by
  unfold Pin.boolean
  rw [h.unwrap]

theorem Alike.point : point p = point q := by
  unfold Pin.point
  rw [h.unwrap]

theorem Alike.vector : vector p = vector q := by
  unfold Pin.vector
  rw [h.unwrap]

theorem Alike.frame : frame p = frame q := by
  unfold Pin.frame
  rw [h.unwrap]

theorem Alike.curve : curve p = curve q := by
  unfold Pin.curve
  rw [h.unwrap]

theorem Alike.field : field p = field q := by
  unfold Pin.field
  rw [h.unwrap]

theorem Alike.color : color p = color q := by
  unfold Pin.color
  rw [h.unwrap]

theorem Alike.searchOptions : searchOptions p = searchOptions q := by
  unfold Pin.searchOptions
  rw [h.count]

end Readers

section Merging

/-- The fields at a list of pins, those of each pin in turn. -/
def fieldsAcross (inputs : List (Value α δ)) : Except Failure (List (Field α)) :=
  (inputs.mapM fieldsOf).map List.flatten

theorem fieldsAcross_nil : fieldsAcross ([] : List (Value α δ)) = .ok [] := by
  rfl

theorem fieldsAcross_cons (v : Value α δ) (vs : List (Value α δ)) :
    fieldsAcross (v :: vs) =
      (fieldsOf v).bind fun fs => (fieldsAcross vs).map fun gs => fs ++ gs := by
  unfold fieldsAcross
  rw [List.mapM_cons]
  cases fieldsOf v with
  | error failure =>
      rfl
  | ok fs =>
      cases vs.mapM fieldsOf with
      | error failure =>
          rfl
      | ok gss =>
          rfl

/-- A pin without fields adds nothing. -/
theorem fieldsAcross_cons_of_empty
    {v : Value α δ}
    (h : fieldsOf v = .ok [])
    (vs : List (Value α δ)) :
    fieldsAcross (v :: vs) = fieldsAcross vs := by
  rw [fieldsAcross_cons, h]
  cases fieldsAcross vs with
  | error failure =>
      rfl
  | ok gs =>
      rfl

theorem fieldsAcross_of_empty
    {inputs : List (Value α δ)}
    (h : ∀ i : Nat, fields inputs[i]? = .ok []) :
    fieldsAcross inputs = .ok [] := by
  induction inputs with
  | nil =>
      exact fieldsAcross_nil
  | cons v vs ih =>
      rw [fieldsAcross_cons_of_empty (h 0)]
      exact ih fun i => h (i + 1)

/-- The fields across pins depend on the fields at each pin only, where a pin that is not there has
none. -/
theorem fieldsAcross_congr
    {inputs inputs' : List (Value α δ)}
    (h : ∀ i : Nat, fields inputs[i]? = fields inputs'[i]?) :
    fieldsAcross inputs = fieldsAcross inputs' := by
  induction inputs generalizing inputs' with
  | nil =>
      exact (fieldsAcross_of_empty fun i => (h i).symm).symm
  | cons v vs ih =>
      cases inputs' with
      | nil =>
          exact fieldsAcross_of_empty h
      | cons v' vs' =>
          have hfirst : fieldsOf v = fieldsOf v' := h 0
          rw [fieldsAcross_cons, fieldsAcross_cons, hfirst, ih fun i => h (i + 1)]

end Merging

end Pin

namespace Component

variable {α δ : Type} [Scalar α]

/-- The components that show a field on a section. -/
def isDisplay : Component → Bool
  | .tensorDisplay | .scalarDisplay | .directionDisplay | .perpendicularDisplay => true
  | _ => false

theorem mergeFieldsAt_eq (inputs : List (Value α δ)) :
    mergeFieldsAt inputs = (Pin.fieldsAcross inputs).map fun fs => oneField (.merge fs) := by
  unfold mergeFieldsAt Pin.fieldsAcross
  cases inputs.mapM Pin.fieldsOf with
  | error failure =>
      rfl
  | ok fss =>
      rfl

section Congruence

variable {inputs inputs' : List (Value α δ)} (h : ∀ i : Nat, Pin.Alike inputs[i]? inputs'[i]?)
include h

theorem worldPlane_congr (make : Point α → Frame α) :
    worldPlane make inputs = worldPlane make inputs' := by
  simp only [worldPlane, (h 0).points]

/-- A display is given by its field, its section and its grid. -/
theorem display_congr
    (c : Component)
    (hsection : Pin.displaySection inputs[1]? = Pin.displaySection inputs'[1]?)
    (hgrid : Pin.displayGrid inputs[2]? = Pin.displayGrid inputs'[2]?) :
    display c inputs = display c inputs' := by
  simp only [display, needField, (h 0).field, hsection, hgrid]

/-- **Components read pins.**  Inputs that are alike at every pin give the same outputs or the same
failure; of a display, the section and the grid must be the same too. -/
theorem evaluate_congr
    (c : Component)
    (hsection : c.isDisplay = true →
      Pin.displaySection inputs[1]? = Pin.displaySection inputs'[1]?)
    (hgrid : c.isDisplay = true → Pin.displayGrid inputs[2]? = Pin.displayGrid inputs'[2]?) :
    c.evaluate inputs = c.evaluate inputs' := by
  cases c with
  | xyPlane => exact worldPlane_congr h _
  | xzPlane => exact worldPlane_congr h _
  | yzPlane => exact worldPlane_congr h _
  | alignPlanes => simp only [evaluate, alignPlanesAt, (h 0).frames, (h 1).frame]
  | planeFit => simp only [evaluate, planeFitAt, (h 0).points]
  | planeOffset => simp only [evaluate, planeOffsetAt, needPlane, (h 0).frame, (h 1).number]
  | deconstructPlane => simp only [evaluate, deconstructPlaneAt, needPlane, (h 0).frame]
  | planeCoordinates =>
    simp only [evaluate, planeCoordinatesAt, needPoint, (h 0).point, (h 1).frame]
  | planeOrigin => simp only [evaluate, planeOriginAt, needPlane, (h 0).frame, (h 1).point]
  | adjustPlane => simp only [evaluate, adjustPlaneAt, needPlane, (h 0).frame, (h 1).vector]
  | planeClosestPoint =>
    simp only [evaluate, planeClosestPointAt, needPoint, needPlane, (h 0).point, (h 1).frame]
  | constructPlane =>
    simp only [evaluate, constructPlaneAt, (h 0).point, (h 1).vector, (h 2).vector]
  | flipPlane =>
    simp only [evaluate, flipPlaneAt, needPlane, (h 0).frame, (h 1).boolean, (h 2).boolean,
      (h 3).boolean]
  | planeThroughPoints =>
    simp only [evaluate, planeThroughPointsAt, needPoint, (h 0).point, (h 1).point, (h 2).point]
  | planeThroughLineAndPoint =>
    simp only [evaluate, planeThroughLineAndPointAt, needLine, needPoint, (h 0).curve,
      (h 1).point]
  | planeNormal => simp only [evaluate, planeNormalAt, (h 0).points, (h 1).vector]
  | planeThroughLines =>
    simp only [evaluate, planeThroughLinesAt, needLine, (h 0).curve, (h 1).curve]
  | alignPlane => simp only [evaluate, alignPlaneAt, needPlane, (h 0).frame, (h 1).vector]
  | rotatePlane => simp only [evaluate, rotatePlaneAt, needPlane, (h 0).frame, (h 1).number]
  | pointOriented =>
    simp only [evaluate, pointOrientedAt, (h 0).frame, (h 1).number, (h 2).number, (h 3).number]
  | tensorDisplay =>
    simp only [evaluate, tensorDisplayAt, display_congr h _ (hsection rfl) (hgrid rfl)]
  | scalarDisplay =>
    simp only [evaluate, scalarDisplayAt, display_congr h _ (hsection rfl) (hgrid rfl)]
  | directionDisplay =>
    simp only [evaluate, directionDisplayAt, display_congr h _ (hsection rfl) (hgrid rfl)]
  | perpendicularDisplay =>
    simp only [evaluate, perpendicularDisplayAt, display_congr h _ (hsection rfl) (hgrid rfl),
      (h 3).color, (h 4).color]
  | spinForce =>
    simp only [evaluate, spinForceAt, (h 0).frame, (h 1).number, (h 2).number, (h 3).number,
      (h 4).region]
  | lineCharge =>
    simp only [evaluate, lineChargeAt, needSegment, (h 0).curve, (h 1).number, (h 2).region]
  | vectorForce => simp only [evaluate, vectorForceAt, needSegment, (h 0).curve, (h 1).region]
  | pointCharge =>
    simp only [evaluate, pointChargeAt, (h 0).point, (h 1).number, (h 2).number, (h 3).region]
  | evaluateField => simp only [evaluate, evaluateFieldAt, needField, (h 0).field, (h 1).points]
  | fieldLine =>
    simp only [evaluate, fieldLineAt, needField, (h 0).field, (h 1).point, (h 2).count,
      (h 3).number, (h 4).number]
  | breakField => simp only [evaluate, breakFieldAt, (h 0).field]
  | mergeFields =>
    simp only [evaluate, mergeFieldsAt_eq, Pin.fieldsAcross_congr fun i => (h i).fields]
  | curveClosestPoint =>
    simp only [evaluate, curveClosestPointAt, needCurve, (h 0).points, (h 1).curve,
      (h 2).searchOptions]
  | sortAlongCurve =>
    simp only [evaluate, sortAlongCurveAt, needCurve, (h 0).points, (h 1).curve,
      (h 2).searchOptions]
  | pullPoint =>
    simp only [evaluate, pullPointAt, needCurve, (h 0).points, (h 1).curve, (h 2).searchOptions]

end Congruence

end Component

end FieldGeometry
