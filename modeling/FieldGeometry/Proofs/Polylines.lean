import FieldGeometry.Curve

/-!
# How polylines are built

A polyline is built from finite points: its corners are the points themselves, and of a closed
polyline all but a last one that repeats the first.  One repetition is left out, not more, so the
corners that are left may begin and end with the same point once again (`Polyline.RepeatsFirst`).
Such a polyline is not the one that its own corners give (`Polyline.ofPoints_points_iff`).
-/

namespace FieldGeometry

namespace Polyline

variable {α : Type} [Scalar α] {l : Polyline α} {ps : List (Point α)}

/-- The last point of a list repeats the first. -/
def EndsAsBegins (ps : List (Point α)) : Prop :=
  ∃ first last, ps.head? = some first ∧ ps.getLast? = some last ∧ first.same last = true

theorem dropClosing_of_endsAsBegins
    (hlength : 2 < ps.length)
    (h : EndsAsBegins ps) :
    dropClosing ps = ps.dropLast := by
  obtain ⟨first, last, hfirst, hlast, hsame⟩ := h
  simp [dropClosing, hfirst, hlast, hlength, hsame]

theorem dropClosing_eq_self (h : ¬(2 < ps.length ∧ EndsAsBegins ps)) : dropClosing ps = ps := by
  unfold dropClosing
  split
  · rename_i first last hfirst hlast
    refine if_neg fun hrepeat => h ?_
    rw [Bool.and_eq_true, decide_eq_true_eq] at hrepeat
    exact ⟨hrepeat.1, first, last, hfirst, hlast, hrepeat.2⟩
  · rfl

/-- The polyline is closed and the last of its more than two corners repeats the first. -/
def RepeatsFirst (l : Polyline α) : Prop :=
  l.closed = true ∧ 2 < l.points.length ∧
    ∃ first last, l.points.head? = some first ∧ l.points.getLast? = some last ∧
      first.same last = true

theorem repeatsFirst_iff :
    l.RepeatsFirst ↔ l.closed = true ∧ 2 < l.points.length ∧ EndsAsBegins l.points :=
  Iff.rfl

theorem corners_of_repeatsFirst (h : l.RepeatsFirst) :
    corners l.points l.closed = l.points.dropLast := by
  obtain ⟨hclosed, hlength, hrepeats⟩ := repeatsFirst_iff.mp h
  rw [corners, if_pos hclosed, dropClosing_of_endsAsBegins hlength hrepeats]

theorem corners_of_not_repeatsFirst (h : ¬ l.RepeatsFirst) :
    corners l.points l.closed = l.points := by
  by_cases hclosed : l.closed = true
  · rw [corners, if_pos hclosed]
    exact dropClosing_eq_self fun hrepeats => h (repeatsFirst_iff.mpr ⟨hclosed, hrepeats⟩)
  · rw [corners, if_neg hclosed]

/-- A polyline is built from finite points, and its corners are theirs. -/
theorem ofPoints_eq_ok_iff {ps : List (Point α)} {closed : Bool} :
    ofPoints ps closed = .ok l ↔
      ps.all Point.isFinite = true ∧ l.points = corners ps closed ∧ l.closed = closed := by
  constructor
  · intro h
    unfold ofPoints at h
    split at h
    · rename_i hfinite
      split at h
      · cases h
        exact ⟨hfinite, rfl, rfl⟩
      · cases h
    · cases h
  · rintro ⟨hfinite, hpoints, hclosed⟩
    obtain ⟨points, closed', _, two_le⟩ := l
    dsimp only at hpoints hclosed
    subst hpoints hclosed
    rw [ofPoints, dif_pos hfinite, dif_pos two_le]

/-- Built anew from its corners, a polyline stays as it is unless the last repeats the first. -/
theorem ofPoints_points_iff (l : Polyline α) :
    ofPoints l.points l.closed = .ok l ↔ ¬ l.RepeatsFirst := by
  rw [ofPoints_eq_ok_iff]
  constructor
  · rintro ⟨-, hpoints, -⟩ hrepeats
    have hlength := congrArg List.length (hpoints.trans (corners_of_repeatsFirst hrepeats))
    have htwo := l.two_le
    rw [List.length_dropLast] at hlength
    omega
  · intro h
    exact ⟨l.finite, (corners_of_not_repeatsFirst h).symm, rfl⟩

end Polyline

end FieldGeometry
