import FieldGeometry.Component.Pin
import Mathlib.Data.List.Basic

/-!
# Reading lists of any nesting

Points, planes and fields are collected from values in which lists may nest.  However the lists are
nested, they are read leaf by leaf (`Pin.collect`): a leaf that is read gives one thing or nothing,
and the first leaf that is refused ends the reading with its failure.

So the outcome is settled by the leaves alone.  When all of them are read, what they give is
collected in order (`collect_of_ok`).  Otherwise the failure is that of the first leaf that is
refused (`collect_of_first_error`), and there is one (`collect_eq_error_iff`).
-/

namespace FieldGeometry

section Leaves

variable {α δ : Type} [Scalar α]

/-- The finite point that a value is. -/
def Value.finitePoint? : Value α δ → Option (Point α)
  | .point p => Pin.finitePoint? p
  | _ => none

/-- The field that a value is. -/
def Value.field? : Value α δ → Option (Field α)
  | .field f => some f
  | _ => none

/-- What holds of every value that is no list, and of a list whenever it holds of its items, holds
of every value. -/
theorem Value.nested_induction
    {P : Value α δ → Prop}
    (leaf : ∀ v : Value α δ, v.kind ≠ .list → P v)
    (list : ∀ items : List (Value α δ), (∀ v ∈ items, P v) → P (.list items))
    (v : Value α δ) :
    P v := by
  cases v with
  | list items =>
      exact list items fun w hw => nested_induction leaf list w
  | _ =>
      exact leaf _ (by simp [kind])
termination_by v

theorem Value.leaves_of_kind_ne {v : Value α δ} (h : v.kind ≠ .list) : v.leaves = [v] := by
  cases v with
  | list items =>
      exact absurd rfl h
  | _ =>
      rfl

theorem Value.mem_leavesOf_iff {leaf : Value α δ} {vs : List (Value α δ)} :
    leaf ∈ leavesOf vs ↔ ∃ v ∈ vs, leaf ∈ v.leaves := by
  induction vs with
  | nil =>
      simp [leavesOf]
  | cons v vs ih =>
      simp [leavesOf, ih]

end Leaves

namespace Pin

section Collecting

variable {α δ : Type} [Scalar α] {β : Type} {read : Value α δ → Except Failure (Option β)}

/-- What is read from leaves in turn, up to the first that is refused. -/
def collect (read : Value α δ → Except Failure (Option β)) (leaves : List (Value α δ)) :
    Except Failure (List β) :=
  (leaves.mapM read).map (·.filterMap id)

theorem collect_cons (read : Value α δ → Except Failure (Option β)) (v : Value α δ)
    (vs : List (Value α δ)) :
    collect read (v :: vs) =
      (read v).bind fun x? => (collect read vs).map fun xs => x?.toList ++ xs := by
  unfold collect
  rw [List.mapM_cons]
  cases read v with
  | error failure =>
      rfl
  | ok x? =>
      cases vs.mapM read with
      | error failure =>
          rfl
      | ok xs =>
          cases x? with
          | none =>
              rfl
          | some x =>
              rfl

/-- Leaves may be read in two runs, one after the other. -/
theorem collect_append (read : Value α δ → Except Failure (Option β)) (us vs : List (Value α δ)) :
    collect read (us ++ vs) =
      (collect read us).bind fun xs => (collect read vs).map fun ys => xs ++ ys := by
  unfold collect
  rw [List.mapM_append]
  cases us.mapM read with
  | error failure =>
      rfl
  | ok xs =>
      cases vs.mapM read with
      | error failure =>
          rfl
      | ok ys =>
          exact congrArg Except.ok List.filterMap_append

/-- Leaves that are all read give what each of them gives. -/
theorem collect_of_ok
    {found : Value α δ → Option β}
    {vs : List (Value α δ)}
    (h : ∀ v ∈ vs, read v = .ok (found v)) :
    collect read vs = .ok (vs.filterMap found) := by
  induction vs with
  | nil =>
      rfl
  | cons v vs ih =>
      obtain ⟨hv, hvs⟩ := List.forall_mem_cons.mp h
      rw [collect_cons, hv, ih hvs]
      cases hfound : found v with
      | none =>
          rw [List.filterMap_cons_none hfound]
          rfl
      | some x =>
          rw [List.filterMap_cons_some hfound]
          rfl

/-- Leaves of which one is refused give the failure of the first of these. -/
theorem collect_of_first_error
    {before : List (Value α δ)}
    {v : Value α δ}
    {failure : Failure}
    (hbefore : ∀ u ∈ before, ∃ x?, read u = .ok x?)
    (hv : read v = .error failure)
    (after : List (Value α δ)) :
    collect read (before ++ v :: after) = .error failure := by
  induction before with
  | nil =>
      rw [List.nil_append, collect_cons, hv]
      rfl
  | cons u before ih =>
      obtain ⟨⟨x?, hu⟩, hrest⟩ := List.forall_mem_cons.mp hbefore
      rw [List.cons_append, collect_cons, hu, ih hrest]
      rfl

/-- Either all leaves are read or one of them is the first that is refused. -/
theorem all_read_or_first_refused
    (read : Value α δ → Except Failure (Option β))
    (vs : List (Value α δ)) :
    (∀ v ∈ vs, ∃ x?, read v = .ok x?) ∨
      ∃ (before after : List (Value α δ)) (v : Value α δ) (failure : Failure),
        vs = before ++ v :: after ∧
          (∀ u ∈ before, ∃ x?, read u = .ok x?) ∧ read v = .error failure := by
  induction vs with
  | nil =>
      exact Or.inl fun v hv => absurd hv List.not_mem_nil
  | cons v vs ih =>
      cases hv : read v with
      | error failure =>
          exact Or.inr ⟨[], vs, v, failure, rfl, fun u hu => absurd hu List.not_mem_nil, hv⟩
      | ok x? =>
          rcases ih with hall | ⟨before, after, w, failure, rfl, hbefore, hw⟩
          · exact Or.inl (List.forall_mem_cons.mpr ⟨⟨x?, hv⟩, hall⟩)
          · exact Or.inr ⟨v :: before, after, w, failure, rfl,
              List.forall_mem_cons.mpr ⟨⟨x?, hv⟩, hbefore⟩, hw⟩

/-- Collecting fails when a leaf is refused, and only then. -/
theorem collect_eq_error_iff (vs : List (Value α δ)) :
    (∃ failure, collect read vs = .error failure) ↔
      ∃ v ∈ vs, ∃ failure, read v = .error failure := by
  rcases all_read_or_first_refused read vs with
    hall | ⟨before, after, v, failure, rfl, hbefore, hv⟩
  · refine iff_of_false ?_ ?_
    · rintro ⟨failure, hfailure⟩
      have hfound : ∀ v ∈ vs, read v = .ok ((read v).toOption.join) := by
        intro v hv
        obtain ⟨x?, hx⟩ := hall v hv
        rw [hx]
        rfl
      rw [collect_of_ok hfound] at hfailure
      cases hfailure
    · rintro ⟨v, hv, failure, hfailure⟩
      obtain ⟨x?, hx⟩ := hall v hv
      rw [hx] at hfailure
      cases hfailure
  · refine iff_of_true ⟨failure, collect_of_first_error hbefore hv after⟩ ⟨v, ?_, failure, hv⟩
    exact List.mem_append_right before List.mem_cons_self

end Collecting

section Points

variable {α δ : Type} [Scalar α]

theorem finitePoint?_of_finite
    {p : Point α}
    (h : p.isFinite = true) :
    finitePoint? p = some p :=
  if_pos h

theorem leavesOf_points (ps : List (Point α)) :
    Value.leavesOf (ps.map .point : List (Value α δ)) = ps.map .point := by
  induction ps with
  | nil =>
      rfl
  | cons p ps ih =>
      rw [List.map_cons, Value.leavesOf, ih]
      rfl

/-- A list of finite points is read as it is. -/
theorem points_points
    {ps : List (Point α)}
    (h : ∀ p ∈ ps, p.isFinite = true) :
    points (some (.points ps) : Pin α δ) = .ok ps := by
  have hread : ∀ v ∈ (ps.map .point : List (Value α δ)), leafPoint v = .ok v.finitePoint? := by
    intro v hv
    obtain ⟨p, -, rfl⟩ := List.mem_map.mp hv
    rfl
  have hfinite : ps.filterMap finitePoint? = ps :=
    (List.filterMap_congr fun p hp => finitePoint?_of_finite (h p hp)).trans List.filterMap_some
  show collect leafPoint (Value.leavesOf (ps.map .point : List (Value α δ))) = .ok ps
  rw [leavesOf_points, collect_of_ok hread, List.filterMap_map]
  exact congrArg Except.ok hfinite

/-- A finite point is read as the list of it. -/
theorem points_point
    {p : Point α}
    (h : p.isFinite = true) :
    points (some (.point p) : Pin α δ) = .ok [p] := by
  have hall : ∀ q ∈ [p], q.isFinite = true := by simpa using h
  exact points_points hall

end Points

end Pin

end FieldGeometry
