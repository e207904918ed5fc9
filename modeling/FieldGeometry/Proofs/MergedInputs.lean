import FieldGeometry.Moment
import FieldGeometry.Proofs.FieldAlgebra
import FieldGeometry.Proofs.LeafReadings
import FieldGeometry.Proofs.PinReadings

/-!
# Merging the fields at several pins

Merge Fields takes any number of pins, each with fields in lists of any nesting.  Reading pin after
pin is reading the leaves of all pins in turn (`Pin.fieldsAcross_eq_collect`), so only the leaves
and their order count, not how they are nested nor which pin they stand at.  A leaf is a field or no
value, or else the component fails (`Component.mergeFields_eq_error_iff`).

With `Field.merge_flatten` this makes merging independent of grouping throughout: of the fields in a
list, of the lists in a value, and of the values at the pins (`Component.mergeFields_regrouped`).
-/

namespace FieldGeometry

/-- A value that is no list and that merging takes: a field, or no value. -/
def Value.IsMergeable {α δ : Type} [Scalar α] (v : Value α δ) : Prop :=
  v = .null ∨ ∃ f, v = .field f

namespace Pin

variable {α δ : Type} [Scalar α]

theorem leafField_of_isMergeable
    {v : Value α δ}
    (h : v.IsMergeable) :
    leafField v = .ok v.field? := by
  rcases h with rfl | ⟨f, rfl⟩
  · rfl
  · rfl

/-- The leaves that are refused are those that are neither a field nor no value. -/
theorem leafField_eq_error_iff (v : Value α δ) :
    (∃ failure, leafField v = .error failure) ↔ ¬ v.IsMergeable := by
  constructor
  · rintro ⟨failure, hfailure⟩ hmergeable
    rw [leafField_of_isMergeable hmergeable] at hfailure
    cases hfailure
  · intro h
    cases v with
    | null =>
        exact absurd (Or.inl rfl) h
    | field f =>
        exact absurd (Or.inr ⟨f, rfl⟩) h
    | _ =>
        exact ⟨_, rfl⟩

/-- The fields across pins are those of the leaves of all pins. -/
theorem fieldsAcross_eq_collect (inputs : List (Value α δ)) :
    fieldsAcross inputs = collect leafField (Value.leavesOf inputs) := by
  induction inputs with
  | nil =>
      rfl
  | cons v vs ih =>
      have hfirst : fieldsOf v = collect leafField v.leaves := rfl
      rw [fieldsAcross_cons, Value.leavesOf, collect_append, hfirst, ih]

end Pin

namespace Component

variable {α δ : Type} [Scalar α]

/-- Every value inside the inputs is a field or no value. -/
def AllMergeable (inputs : List (Value α δ)) : Prop :=
  ∀ leaf ∈ Value.leavesOf inputs, leaf.IsMergeable

/-- The fields inside the inputs, depth first and from left to right. -/
def fieldLeaves (inputs : List (Value α δ)) : List (Field α) :=
  (Value.leavesOf inputs).filterMap Value.field?

theorem mergeFields_eq_collect (inputs : List (Value α δ)) :
    mergeFields.evaluate inputs =
      (Pin.collect Pin.leafField (Value.leavesOf inputs)).map fun fs => oneField (.merge fs) := by
  show mergeFieldsAt inputs = _
  rw [mergeFieldsAt_eq, Pin.fieldsAcross_eq_collect]

theorem mergeFields_of_allMergeable
    {inputs : List (Value α δ)}
    (h : AllMergeable inputs) :
    mergeFields.evaluate inputs = .ok (oneField (.merge (fieldLeaves inputs))) := by
  rw [mergeFields_eq_collect,
    Pin.collect_of_ok fun leaf hleaf => Pin.leafField_of_isMergeable (h leaf hleaf)]
  rfl

theorem mergeFields_eq_error_iff (inputs : List (Value α δ)) :
    (∃ failure, mergeFields.evaluate inputs = .error failure) ↔
      ∃ leaf ∈ Value.leavesOf inputs, ¬ leaf.IsMergeable := by
  simp only [← Pin.leafField_eq_error_iff]
  rw [← Pin.collect_eq_error_iff, mergeFields_eq_collect]
  cases Pin.collect Pin.leafField (Value.leavesOf inputs) with
  | error failure =>
      exact iff_of_true ⟨failure, rfl⟩ ⟨failure, rfl⟩
  | ok fs =>
      refine iff_of_false ?_ ?_
      · rintro ⟨failure, h⟩
        cases h
      · rintro ⟨failure, h⟩
        cases h

/-- **Grouping.**  A field merged alone is itself, and lists of fields may be merged one by one
first: sources and regions are put one after the other, and of metadata under one key the last
counts.  Merge Fields therefore gives the same for inputs that hold the same fields in the same
order, however they are nested and distributed over the pins and whatever missing values and empty
lists stand among them.  It fails when there is anything else among them, and only then. -/
theorem mergeFields_regrouped
    {α δ : Type}
    [Scalar α] :
    (∀ f : Field α, Field.merge [f] = f) ∧
    (∀ fs gs : List (Field α),
      Field.merge (fs ++ gs) = Field.merge [Field.merge fs, Field.merge gs]) ∧
    (∀ fs : List (Field α),
      (Field.merge fs).sources = fs.flatMap (·.sources) ∧
      (Field.merge fs).regions = fs.flatMap (·.regions) ∧
      ∀ key, (Field.merge fs).metadata.get? key =
        fs.reverse.findSome? fun f => f.metadata.get? key) ∧
    (∀ inputs : List (Value α δ), AllMergeable inputs →
      mergeFields.evaluate inputs = .ok [("F", .field (Field.merge (fieldLeaves inputs)))]) ∧
    (∀ inputs inputs' : List (Value α δ), AllMergeable inputs → AllMergeable inputs' →
      fieldLeaves inputs = fieldLeaves inputs' →
        mergeFields.evaluate inputs = mergeFields.evaluate inputs') ∧
    (∀ inputs : List (Value α δ),
      (∃ failure, mergeFields.evaluate inputs = .error failure) ↔
        ∃ leaf ∈ Value.leavesOf inputs, ¬ leaf.IsMergeable) := by
  refine ⟨Field.merge_singleton, ?_, ?_, ?_, ?_, mergeFields_eq_error_iff⟩
  · intro fs gs
    have hgroups := Field.merge_flatten [fs, gs]
    rwa [List.flatten_cons, List.flatten_singleton] at hgroups
  · intro fs
    exact ⟨Field.sources_merge fs, Field.regions_merge fs, Field.get?_metadata_merge fs⟩
  · intro inputs h
    exact mergeFields_of_allMergeable h
  · intro inputs inputs' h h' hleaves
    rw [mergeFields_of_allMergeable h, mergeFields_of_allMergeable h', hleaves]

/-- Two fields in nested lists, with missing values and empty lists among them. -/
noncomputable def nestedWinds : List (Value ℝ Moment) :=
  [.list [.null, .list [.list [.field (Field.namedWind "east" Vec.basisX)]]], .list [],
    .list [.field (Field.namedWind "north" Vec.basisY), .null]]

/-- The same fields in the same order, each at a pin of its own. -/
noncomputable def flatWinds : List (Value ℝ Moment) :=
  [.field (Field.namedWind "east" Vec.basisX), .field (Field.namedWind "north" Vec.basisY)]

theorem mergeFields_regrouped_winds :
    AllMergeable nestedWinds ∧ AllMergeable flatWinds ∧
    fieldLeaves nestedWinds = fieldLeaves flatWinds ∧
    mergeFields.evaluate nestedWinds = mergeFields.evaluate flatWinds ∧
    mergeFields.evaluate flatWinds =
      .ok [("F", .field (Field.merge
        [Field.namedWind "east" Vec.basisX, Field.namedWind "north" Vec.basisY]))] := by
  have hnested : AllMergeable nestedWinds := by
    intro leaf hleaf
    simp only [nestedWinds, Value.leavesOf, Value.leaves, List.append_nil, List.nil_append,
      List.cons_append, List.mem_cons, List.not_mem_nil, or_false] at hleaf
    rcases hleaf with rfl | rfl | rfl | rfl
    · exact Or.inl rfl
    · exact Or.inr ⟨_, rfl⟩
    · exact Or.inr ⟨_, rfl⟩
    · exact Or.inl rfl
  have hflat : AllMergeable flatWinds := by
    intro leaf hleaf
    simp only [flatWinds, Value.leavesOf, Value.leaves, List.append_nil, List.cons_append,
      List.nil_append, List.mem_cons, List.not_mem_nil, or_false] at hleaf
    rcases hleaf with rfl | rfl
    · exact Or.inr ⟨_, rfl⟩
    · exact Or.inr ⟨_, rfl⟩
  obtain ⟨-, -, -, hmerged, hregrouped, -⟩ := mergeFields_regrouped (α := ℝ)
  exact ⟨hnested, hflat, rfl, hregrouped _ _ hnested hflat rfl, hmerged _ hflat⟩

end Component

end FieldGeometry
