import FieldGeometry.Format.Decode
import FieldGeometry.Format.Encode
import FieldGeometry.Moment
import FieldGeometry.Proofs.FieldAlgebra
import FieldGeometry.Proofs.LeafReadings
import FieldGeometry.Proofs.Polylines

/-!
# Values survive the host's format

A value that is written for a host and read back is the same value.  Reading undoes writing part by
part: a structure is a record of its parts, each of which is found again under its name, and the
parts that writing leaves out are those that reading fills in.  A dictionary is read entry by entry,
and entries with ascending keys give the dictionary they came from.

**Polylines.**  Reading a polyline builds it anew, and a closed polyline is built without the corner
that repeats its first at the end.  So a closed polyline with more than two corners, of which the
last repeats the first (`Polyline.RepeatsFirst`), is read back with a corner less, and it is the
only thing that is not read back as it was.

**Dates.**  How dates are written and read is the host's, and all that is asked of it is that a date
is read back as it was written (`Datum.ReadsBack`).  Moments are such dates.

**Lists.**  Lists nest, so the proof for values is an induction over them
(`Value.nested_induction`): a list is read back exactly when each of its items is.
-/

namespace FieldGeometry

namespace Datum

variable {α β γ : Type}

@[simp] theorem field?_cons (name key : String) (d : Datum α) (rest : List (String × Datum α)) :
    field? name ((key, d) :: rest) = if key = name then some d else field? name rest := by
  rfl

@[simp] theorem field?_nil (name : String) :
    field? name ([] : List (String × Datum α)) = none := by
  rfl

@[simp] theorem parts_record (names : List String) (fields : List (String × Datum α)) :
    parts names (.record fields) = some (names.map fun name => field? name fields) := by
  rfl

@[simp] theorem scalar?_scalar [Scalar α] (x : α) : scalar? (.scalar x) = some x := by
  rfl

/-- What is written is read back as it was. -/
def ReadsBack (read : γ → Option β) (write : β → γ) : Prop :=
  ∀ x, read (write x) = some x

/-- Things that are written one by one are read back one by one. -/
theorem mapM_read_write
    {read : γ → Option β}
    {write : β → γ}
    (h : ReadsBack read write)
    (xs : List β) :
    (xs.map write).mapM read = some xs := by
  induction xs with
  | nil =>
      rfl
  | cons x xs ih =>
      rw [List.map_cons, List.mapM_cons, h, ih]
      rfl

theorem listOf?_write
    {read : Datum α → Option β}
    {write : β → Datum α}
    (h : ReadsBack read write)
    (xs : List β) :
    listOf? read (.list (xs.map write)) = some xs :=
  mapM_read_write h xs

end Datum

section Structures

variable {α δ : Type} [Scalar α]

@[simp] theorem Point.decode?_encode (p : Point α) : Point.decode? p.encode = some p := by
  simp [Point.decode?, Point.encode]

@[simp] theorem Vec.decode?_encode (v : Vec α) : Vec.decode? v.encode = some v := by
  simp [Vec.decode?, Vec.encode]

@[simp] theorem Point.decodeTriple?_encodeTriple (p : Point α) :
    Point.decodeTriple? p.encodeTriple = some p := by
  rfl

@[simp] theorem Vec.decodeTriple?_encodeTriple (v : Vec α) :
    Vec.decodeTriple? v.encodeTriple = some v := by
  rfl

@[simp] theorem Segment.decode?_encode (s : Segment α) : Segment.decode? s.encode = some s := by
  simp [Segment.decode?, Segment.encode]

@[simp] theorem Frame.decode?_encode (f : Frame α) : Frame.decode? f.encode = some f := by
  simp [Frame.decode?, Frame.encode]

@[simp] theorem Box.decode?_encode (b : Box α) : Box.decode? b.encode = some b := by
  simp [Box.decode?, Box.encode]

@[simp] theorem Region.decode?_encode (r : Region α) : Region.decode? r.encode = some r := by
  simp [Region.decode?, Region.encode]

@[simp] theorem Color.decode?_encode (c : Color α) : Color.decode? c.encode = some c := by
  simp [Color.decode?, Color.encode]

/-- A model is read as what its kind says. -/
@[simp] theorem Model.decode?_encode (m : Model α) : Model.decode? m.encode = some m := by
  cases m with
  | pointCharge c =>
      simp [Model.decode?, Model.encode, Model.Kind.code, Model.ofKind?, PointCharge.decode?]
  | lineCharge c =>
      simp [Model.decode?, Model.encode, Model.Kind.code, Model.ofKind?, LineCharge.decode?]
  | spin s =>
      simp [Model.decode?, Model.encode, Model.Kind.code, Model.ofKind?, Spin.decode?]
  | segmentForce s =>
      simp [Model.decode?, Model.encode, Model.Kind.code, Model.ofKind?, Model.decodeSegment?]
  | uniform v =>
      simp [Model.decode?, Model.encode, Model.Kind.code, Model.ofKind?, Model.decodeVector?]

end Structures

section Moments

theorem Moment.ofParts?_parts (m : Moment) :
    Moment.ofParts? m.year m.day m.hour m.minute m.second m.nanosecond = some m := by
  rw [Moment.ofParts?, dif_pos m.year_bounds, dif_pos m.day_bounds, dif_pos m.time_bounds]

/-- The day of a year is at most the 366th. -/
theorem Moment.day_le (m : Moment) : m.day ≤ 366 := by
  have hday := m.day_bounds.2
  unfold daysInYear at hday
  split at hday <;> omega

theorem Datum.count?_natCast
    {α : Type}
    {n : Nat}
    (h : (n : Int) < countBound) :
    count? (.int n : Datum α) = some n := by
  simp only [count?]
  rw [if_pos ⟨Int.natCast_nonneg n, h⟩, Int.toNat_natCast]

theorem Moment.decode?_encode (α : Type) :
    Datum.ReadsBack Moment.decode? (Moment.encode : Moment → Datum α) := by
  intro m
  have hday := m.day_le
  obtain ⟨hhour, hminute, hsecond, hnano⟩ := m.time_bounds
  have hcount : ∀ n : Nat, n < 1000000000 → Datum.count? (.int n : Datum α) = some n := by
    intro n hn
    refine Datum.count?_natCast ?_
    unfold Datum.countBound
    omega
  simp only [Moment.encode, Moment.decode?, Datum.int?]
  rw [hcount m.day (by omega), hcount m.hour (by omega), hcount m.minute (by omega),
    hcount m.second (by omega), hcount m.nanosecond hnano]
  exact m.ofParts?_parts

end Moments

section Fields

variable {α : Type}

theorem Metadata.mapM_entries (entries : List (String × String)) :
    (entries.map fun (key, s) => (key, (.text s : Datum α))).mapM
      (fun (key, d) => do return (key, ← d.text?)) = some entries := by
  refine Datum.mapM_read_write ?_ entries
  intro e
  rfl

@[simp] theorem Metadata.decode?_encode (m : Metadata) :
    Metadata.decode? (m.encode : Datum α) = some m := by
  have hsame : Dictionary.ofList m.entries = m := Dictionary.empty_extend m
  simp only [Metadata.encode, Metadata.decode?, Metadata.mapM_entries]
  exact congrArg some hsame

/-- Metadata have a field of their own unless there are none. -/
theorem Metadata.field_cases (m : Metadata) :
    (m = Dictionary.empty ∧ (m.field : List (String × Datum α)) = []) ∨
      (m.field : List (String × Datum α)) = [("metadata", m.encode)] := by
  unfold Metadata.field
  split
  · rename_i hempty
    have hnone : m.entries = [] := List.isEmpty_iff.mp hempty
    cases m
    cases hnone
    exact Or.inl ⟨rfl, rfl⟩
  · exact Or.inr rfl

theorem Metadata.field?_field_of_ne {name : String} (h : name ≠ "metadata") (m : Metadata) :
    Datum.field? name (m.field : List (String × Datum α)) = none := by
  rcases m.field_cases (α := α) with ⟨-, hfield⟩ | hfield
  · rw [hfield, Datum.field?_nil]
  · rw [hfield, Datum.field?_cons, if_neg h.symm, Datum.field?_nil]

theorem Metadata.decodeField?_field (m : Metadata) :
    Metadata.decodeField? (Datum.field? "metadata" (m.field : List (String × Datum α))) =
      some m := by
  rcases m.field_cases (α := α) with ⟨rfl, hfield⟩ | hfield
  · rw [hfield]
    rfl
  · rw [hfield, Datum.field?_cons, if_pos rfl]
    exact Metadata.decode?_encode m

variable [Scalar α]

theorem Source.decodeRegion?_encode (r : Region α) :
    Source.decodeRegion? (some r.encode) = some (some r) := by
  show (Region.decode? r.encode).map some = some (some r)
  rw [Region.decode?_encode, Option.map_some]

theorem Source.decode?_encode (s : Source α) : Source.decode? s.encode = some s := by
  obtain ⟨model, region?, metadata⟩ := s
  have hmetadata := Metadata.decodeField?_field (α := α) metadata
  unfold Source.encode Source.decode?
  cases region? with
  | none =>
      simp [Metadata.field?_field_of_ne, hmetadata, Source.decodeRegion?]
  | some region =>
      simp [hmetadata, Source.decodeRegion?_encode]

theorem Field.decode?_encode (f : Field α) : Field.decode? f.encode = some f := by
  obtain ⟨sources, regions, metadata⟩ := f
  have hsources := Datum.listOf?_write Source.decode?_encode sources
  have hregions := Datum.listOf?_write (α := α) Region.decode?_encode regions
  have hmetadata := Metadata.decodeField?_field (α := α) metadata
  unfold Field.encode Field.decode?
  cases hempty : regions.isEmpty with
  | true =>
      have hnone : regions = [] := List.isEmpty_iff.mp hempty
      simp [hnone, Metadata.field?_field_of_ne, hsources, hmetadata, Field.decodeRegions?]
  | false =>
      simp [hsources, hregions, hmetadata, Field.decodeRegions?]

end Fields

namespace Polyline

variable {α δ : Type} [Scalar α]

theorem decode?_encode (l : Polyline α) :
    decode? l.encode = (ofPoints l.points l.closed).toOption := by
  have hpoints := Datum.listOf?_write (α := α) Point.decode?_encode l.points
  simp [decode?, encode, hpoints, Datum.bool?]

theorem decode?_encode_iff (l : Polyline α) :
    decode? l.encode = some l ↔ ¬ l.RepeatsFirst := by
  rw [decode?_encode, ← ofPoints_points_iff]
  cases ofPoints l.points l.closed with
  | error defect =>
      simp [Except.toOption]
  | ok l' =>
      simp [Except.toOption]

end Polyline

namespace Value

variable {α δ : Type} [Scalar α]

/-- No closed polyline in the value repeats its first corner at the end. -/
def WithoutRepeats (v : Value α δ) : Prop :=
  ∀ l : Polyline α, .curve (.polyline l) ∈ v.leaves → ¬ l.RepeatsFirst

theorem withoutRepeats_list (items : List (Value α δ)) :
    (list items).WithoutRepeats ↔ ∀ v ∈ items, v.WithoutRepeats := by
  unfold WithoutRepeats
  rw [leaves]
  simp only [mem_leavesOf_iff]
  constructor
  · intro h v hv l hl
    exact h l ⟨v, hv, hl⟩
  · rintro h l ⟨v, hv, hl⟩
    exact h v hv l hl

section Dates

variable {readDate : Datum α → Option δ} {writeDate : δ → Datum α}

theorem decodeAll?_encodeAll_iff (items : List (Value α δ)) :
    decodeAll? readDate (encodeAll writeDate items) = some items ↔
      ∀ v ∈ items, decode? readDate (v.encode writeDate) = some v := by
  induction items with
  | nil =>
      simp [encodeAll, decodeAll?]
  | cons v rest ih =>
      rw [encodeAll, decodeAll?, List.forall_mem_cons, ← ih]
      cases decode? readDate (v.encode writeDate) with
      | none => simp
      | some w =>
          cases decodeAll? readDate (encodeAll writeDate rest) with
          | none => simp
          | some ws => simp

theorem decode?_encode_list_iff (items : List (Value α δ)) :
    decode? readDate ((list items).encode writeDate) = some (.list items) ↔
      ∀ v ∈ items, decode? readDate (v.encode writeDate) = some v := by
  rw [← decodeAll?_encodeAll_iff]
  simp [encode, decode?, decodeContent?, decodeItems?]

/-- Short of lists, only a polyline can be read back as another value. -/
theorem decode?_encode_leaf_iff
    (hdate : Datum.ReadsBack readDate writeDate)
    {v : Value α δ}
    (h : v.kind ≠ .list) :
    decode? readDate (v.encode writeDate) = some v ↔ v.WithoutRepeats := by
  unfold WithoutRepeats
  rw [leaves_of_kind_ne h]
  cases v with
  | list items =>
      exact absurd rfl h
  | curve c =>
      cases c with
      | segment s =>
          simp [encode, decode?, ofContent?, Path.encode, Path.decode?]
      | polyline l =>
          simp [encode, decode?, ofContent?, Path.encode, Path.decode?, Polyline.decode?_encode_iff]
  | date d =>
      simp [encode, decode?, ofContent?, hdate d]
  | _ =>
      simp [encode, decode?, ofContent?, Datum.bool?, Datum.text?, Field.decode?_encode]

end Dates

/-- **Values survive the host's format.**  Let dates be read back as they are written.  Written for
a host and read back, a value is the same again, except where a closed polyline in it repeats its
first corner at the end. -/
theorem decode?_encode_eq_some_iff
    {α δ : Type}
    [Scalar α]
    {readDate : Datum α → Option δ}
    {writeDate : δ → Datum α}
    (hdate : Datum.ReadsBack readDate writeDate)
    (v : Value α δ) :
    decode? readDate (v.encode writeDate) = some v ↔ v.WithoutRepeats := by
  induction v using nested_induction with
  | leaf v h =>
      exact decode?_encode_leaf_iff hdate h
  | list items ih =>
      rw [decode?_encode_list_iff, withoutRepeats_list]
      exact forall₂_congr ih

/-- A triangle, closed without a repetition. -/
def triangle : Polyline ℝ where
  points := [⟨0, 0, 0⟩, ⟨1, 0, 0⟩, ⟨1, 1, 0⟩]
  closed := true
  finite := rfl
  two_le := by decide

/-- The last noon of a leap year, beside a list with a triangle in it. -/
def datedTriangle : Value ℝ Moment :=
  .list [.date ⟨2024, 366, 12, 0, 0, 0, by decide, by decide, by decide⟩,
    .list [.curve (.polyline triangle), .null]]

/-- With moments for dates, the triangle and its date are read back. -/
theorem decode?_encode_datedTriangle :
    Datum.ReadsBack Moment.decode? (Moment.encode : Moment → Datum ℝ) ∧
    decode? Moment.decode? (datedTriangle.encode Moment.encode) = some datedTriangle := by
  refine ⟨Moment.decode?_encode ℝ, ?_⟩
  refine (decode?_encode_eq_some_iff (Moment.decode?_encode ℝ) datedTriangle).mpr ?_
  intro l hl
  obtain rfl : l = triangle := by simpa [datedTriangle, leaves, leavesOf] using hl
  rintro ⟨-, -, first, last, hfirst, hlast, hsame⟩
  cases hfirst
  cases hlast
  norm_num [Point.same, Scalar.same] at hsame

end Value

end FieldGeometry
