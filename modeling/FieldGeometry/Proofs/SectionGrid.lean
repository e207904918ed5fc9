import FieldGeometry.Field.Section

/-!
# The points of a grid on a section

A grid is run through row after row, so the point at position `k` of the list lies in row
`k / vCount` and column `k % vCount` (`Section.getElem?_points`), and there are as many points as
the product of the counts.  The same holds of whatever is computed point by point, such as the
values of a field (`Field.getElem?_onGrid`).
-/

namespace FieldGeometry

namespace Grid

theorem one_le_clampCount (n : Nat) : 1 ≤ clampCount n := by
  unfold clampCount maxCount
  omega

theorem clampCount_le (n : Nat) : clampCount n ≤ maxCount :=
  Nat.min_le_right _ _

end Grid

/-- The row and the column of a position. -/
theorem div_mod_row
    {j n : Nat}
    (h : j < n)
    (i : Nat) :
    (i * n + j) / n = i ∧ (i * n + j) % n = j := by
  refine (Nat.div_mod_unique (Nat.zero_lt_of_lt h)).mpr ⟨?_, h⟩
  rw [Nat.add_comm, Nat.mul_comm]

/-- Rows of equal length, one after the other, as one list by position. -/
theorem flatMap_range_eq_map
    {β : Type}
    (entry : Nat → Nat → β)
    (m n : Nat) :
    ((List.range m).flatMap fun i => (List.range n).map (entry i)) =
      (List.range (m * n)).map fun k => entry (k / n) (k % n) := by
  induction m with
  | zero =>
      simp
  | succ m ih =>
      -- the last row holds the positions from `m * n` on
      have hrow : ∀ j ∈ List.range n,
          entry m j = entry ((m * n + j) / n) ((m * n + j) % n) := by
        intro j hj
        obtain ⟨hdiv, hmod⟩ := div_mod_row (List.mem_range.mp hj) m
        rw [hdiv, hmod]
      rw [List.range_succ, List.flatMap_append, ih, List.flatMap_singleton, Nat.succ_mul,
        List.range_add, List.map_append, List.map_map]
      exact congrArg _ (List.map_congr_left hrow)

namespace Section

variable {α : Type} [Scalar α] (s : Section α) (grid : Grid)

/-- The points of a grid by their positions: row after row. -/
theorem points_eq_map :
    s.points grid =
      (List.range (grid.uCount * grid.vCount)).map fun k =>
        s.pointAt grid (k / grid.vCount) (k % grid.vCount) :=
  flatMap_range_eq_map (s.pointAt grid) grid.uCount grid.vCount

theorem length_points : (s.points grid).length = grid.uCount * grid.vCount := by
  rw [points_eq_map, List.length_map, List.length_range]

theorem getElem?_points
    {k : Nat}
    (h : k < grid.uCount * grid.vCount) :
    (s.points grid)[k]? = some (s.pointAt grid (k / grid.vCount) (k % grid.vCount)) := by
  rw [points_eq_map, List.getElem?_map, List.getElem?_range h, Option.map_some]

section Rows

variable {i j : Nat}

/-- The point in a row and a column. -/
theorem getElem?_points_row
    (hi : i < grid.uCount)
    (hj : j < grid.vCount) :
    (s.points grid)[i * grid.vCount + j]? = some (s.pointAt grid i j) := by
  have hlt : i * grid.vCount + j < grid.uCount * grid.vCount :=
    calc
      i * grid.vCount + j < (i + 1) * grid.vCount := by
        rw [Nat.succ_mul]
        exact Nat.add_lt_add_left hj _
      _ ≤ grid.uCount * grid.vCount := Nat.mul_le_mul_right _ hi
  obtain ⟨hrow, hcolumn⟩ := div_mod_row hj i
  rw [s.getElem?_points grid hlt, hrow, hcolumn]

theorem mem_points_iff {p : Point α} :
    p ∈ s.points grid ↔
      ∃ i j, i < grid.uCount ∧ j < grid.vCount ∧ s.pointAt grid i j = p := by
  simp only [points, List.mem_flatMap, List.mem_map, List.mem_range]
  constructor
  · rintro ⟨i, hi, j, hj, rfl⟩
    exact ⟨i, j, hi, hj, rfl⟩
  · rintro ⟨i, j, hi, hj, rfl⟩
    exact ⟨i, hi, j, hj, rfl⟩

end Rows

end Section

namespace Field

variable {α : Type} [Scalar α] (f : Field α) (s : Section α) (grid : Grid)

theorem length_onGrid : (f.onGrid s grid).length = grid.uCount * grid.vCount := by
  rw [onGrid, List.length_map, s.length_points]

theorem getElem?_onGrid
    {k : Nat}
    (h : k < grid.uCount * grid.vCount) :
    (f.onGrid s grid)[k]? =
      some (f.evaluate (s.pointAt grid (k / grid.vCount) (k % grid.vCount))) := by
  rw [onGrid, List.getElem?_map, s.getElem?_points grid h, Option.map_some]

end Field

end FieldGeometry
