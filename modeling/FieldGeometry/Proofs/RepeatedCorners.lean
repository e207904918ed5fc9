import FieldGeometry.Proofs.HostFormat
import FieldGeometry.Proofs.Exact

/-!
# Polylines that do not keep their corners

A closed polyline may be given with its first point once more at the end, and then leaves it out.
It does this once, so a list that ends with its first point twice gives a polyline whose own corners
end as they begin (`Polyline.repeatsFirst_iff_of_ofPoints`).  Building this one again, or writing it
for the host and reading it back, leaves out one corner more.  Every other polyline stays the same.
-/

namespace FieldGeometry

namespace Polyline

section Lists

variable {α : Type} [Scalar α] {l : Polyline α} {ps : List (Point α)} {closed : Bool}

/-- The corners end as they begin when more than three points do so twice. -/
theorem repeatsFirst_iff_of_ofPoints (h : ofPoints ps closed = .ok l) :
    l.RepeatsFirst ↔
      closed = true ∧ 3 < ps.length ∧ EndsAsBegins ps ∧ EndsAsBegins ps.dropLast := by
  obtain ⟨-, hpoints, rfl⟩ := ofPoints_eq_ok_iff.mp h
  rw [repeatsFirst_iff]
  refine and_congr_right fun hclosed => ?_
  rw [hpoints, corners, if_pos hclosed]
  by_cases hdrop : 2 < ps.length ∧ EndsAsBegins ps
  · obtain ⟨hlength, hrepeats⟩ := hdrop
    rw [dropClosing_of_endsAsBegins hlength hrepeats, List.length_dropLast]
    constructor
    · rintro ⟨hlength', hrepeats'⟩
      exact ⟨by omega, hrepeats, hrepeats'⟩
    · rintro ⟨hlength', -, hrepeats'⟩
      exact ⟨by omega, hrepeats'⟩
  · rw [dropClosing_eq_self hdrop]
    constructor
    · intro hrepeats
      exact absurd hrepeats hdrop
    · rintro ⟨hlength, hrepeats, -⟩
      exact absurd ⟨by omega, hrepeats⟩ hdrop

/-- A polyline that repeats its first corner loses the last one when it is built again. -/
theorem exists_ofPoints_of_repeatsFirst (h : l.RepeatsFirst) :
    ∃ l', ofPoints l.points l.closed = .ok l' ∧
      l'.points = l.points.dropLast ∧ l'.closed = true := by
  obtain ⟨hclosed, hlength, -⟩ := id h
  have hcorners := corners_of_repeatsFirst h
  have hfinite : l.points.dropLast.all Point.isFinite = true := by
    rw [← hcorners, List.all_eq_true]
    exact fun p hp => List.all_eq_true.mp l.finite p (corners_subset _ _ p hp)
  have htwo : 2 ≤ l.points.dropLast.length := by
    rw [List.length_dropLast]
    omega
  refine ⟨⟨l.points.dropLast, true, hfinite, htwo⟩, ?_, rfl, rfl⟩
  exact ofPoints_eq_ok_iff.mpr ⟨l.finite, hcorners.symm, hclosed.symm⟩

end Lists

/-- **Building a polyline again.**  Built from its own corners, or written for the host and read
back, a polyline is the same again unless it is closed and was given by more than three points of
which the last two repeat the first.  Then both leave out its last corner. -/
theorem ofPoints_again
    {α : Type}
    [Scalar α]
    (ps : List (Point α))
    (closed : Bool)
    (l : Polyline α)
    (h : ofPoints ps closed = .ok l) :
    (ofPoints l.points l.closed = .ok l ↔
      ¬(closed = true ∧ 3 < ps.length ∧ EndsAsBegins ps ∧ EndsAsBegins ps.dropLast)) ∧
    (decode? l.encode = some l ↔
      ¬(closed = true ∧ 3 < ps.length ∧ EndsAsBegins ps ∧ EndsAsBegins ps.dropLast)) ∧
    (closed = true → 3 < ps.length → EndsAsBegins ps → EndsAsBegins ps.dropLast →
      ∃ l', ofPoints l.points l.closed = .ok l' ∧ decode? l.encode = some l' ∧
        l'.points = ps.dropLast.dropLast ∧ l'.closed = true) := by
  have hrepeats := repeatsFirst_iff_of_ofPoints h
  refine ⟨?_, ?_, fun hclosed hlength hends hends' => ?_⟩
  · rw [ofPoints_points_iff, hrepeats]
  · rw [decode?_encode_iff, hrepeats]
  · obtain ⟨l', hbuilt, hpoints', hclosed'⟩ :=
      exists_ofPoints_of_repeatsFirst (hrepeats.mpr ⟨hclosed, hlength, hends, hends'⟩)
    obtain ⟨-, hpoints, -⟩ := ofPoints_eq_ok_iff.mp h
    rw [corners, if_pos hclosed, dropClosing_of_endsAsBegins (by omega) hends] at hpoints
    refine ⟨l', hbuilt, ?_, ?_, hclosed'⟩
    · rw [decode?_encode, hbuilt]
      rfl
    · rw [hpoints', hpoints]

section Triangle

/-- The corners of a triangle, the first of them twice more at the end. -/
def triangleTwiceClosed : List (Point ℝ) :=
  [⟨0, 0, 0⟩, ⟨3, 0, 0⟩, ⟨3, 4, 0⟩, ⟨0, 0, 0⟩, ⟨0, 0, 0⟩]

/-- The polyline that leaves out one of the two. -/
def triangleClosed : Polyline ℝ where
  points := [⟨0, 0, 0⟩, ⟨3, 0, 0⟩, ⟨3, 4, 0⟩, ⟨0, 0, 0⟩]
  closed := true
  finite := rfl
  two_le := by decide

theorem same_origin : (⟨0, 0, 0⟩ : Point ℝ).same ⟨0, 0, 0⟩ = true := by
  simp [Point.same, Scalar.same]

theorem ofPoints_triangleTwiceClosed : ofPoints triangleTwiceClosed true = .ok triangleClosed := by
  refine ofPoints_eq_ok_iff.mpr ⟨rfl, ?_, rfl⟩
  rw [corners, if_pos rfl, dropClosing_of_endsAsBegins (by decide) ⟨_, _, rfl, rfl, same_origin⟩]
  rfl

/-- Built again, the triangle that begins and ends at one corner has three corners. -/
theorem ofPoints_again_triangle :
    ofPoints triangleTwiceClosed true = .ok triangleClosed ∧
    ∃ l', ofPoints triangleClosed.points triangleClosed.closed = .ok l' ∧
      l'.points = [⟨0, 0, 0⟩, ⟨3, 0, 0⟩, ⟨3, 4, 0⟩] := by
  obtain ⟨-, -, hagain⟩ := ofPoints_again _ _ _ ofPoints_triangleTwiceClosed
  obtain ⟨l', hbuilt, -, hpoints, -⟩ :=
    hagain rfl (by decide) ⟨_, _, rfl, rfl, same_origin⟩ ⟨_, _, rfl, rfl, same_origin⟩
  exact ⟨ofPoints_triangleTwiceClosed, l', hbuilt, hpoints⟩

/-- The polyline through the corners of a triangle, closed twice, is not the one through its own
corners, and is not read back as it was written. -/
theorem triangleClosed_not_kept :
    ∃ l : Polyline ℝ, ofPoints triangleTwiceClosed true = .ok l ∧
      ofPoints l.points l.closed ≠ .ok l ∧ decode? l.encode ≠ some l := by
  have hrepeats : triangleClosed.RepeatsFirst := ⟨rfl, by decide, _, _, rfl, rfl, same_origin⟩
  refine ⟨triangleClosed, ofPoints_triangleTwiceClosed, fun h => ?_, fun h => ?_⟩
  · exact (ofPoints_points_iff triangleClosed).mp h hrepeats
  · exact triangleClosed.decode?_encode_iff.mp h hrepeats

end Triangle

end Polyline

end FieldGeometry
