import FieldGeometry.Proofs.CurveComponents

/-!
# The order of points along a curve

Sorting points along a curve answers their indices in two parts: first the points that the search
places, in the order of their parameters, then those it cannot place.  Both parts keep the order
given where nothing else decides.  The points taken in this order are sorted already: sorting them
again answers the indices as they are, because a stable sort has one result only
(`StablySorts.unique`).
-/

namespace FieldGeometry

section Keys

variable {β : Type} {le : β → β → Bool}

/-- Keys that are given in the order of a stable sort keep this order when they are sorted. -/
theorem StablySorts.range_of_reordered
    {keys keys' : List β}
    {order : List ℕ}
    (h : StablySorts le keys order)
    (hkeys : keys'.map some = order.map fun i => keys[i]?) :
    StablySorts le keys' (List.range keys'.length) := by
  have hplace : ∀ {i : ℕ} {s : β}, keys'[i]? = some s →
      ∃ a, order[i]? = some a ∧ keys[a]? = some s := by
    intro i s hs
    have hrow : (order.map fun i => keys[i]?)[i]? = some (some s) := by
      rw [← hkeys, List.getElem?_map, hs]
      rfl
    rw [List.getElem?_map] at hrow
    exact Option.map_eq_some_iff.mp hrow
  refine ⟨List.Perm.refl _, List.pairwise_lt_range.imp fun {i j} hij s t hs ht => ?_⟩
  obtain ⟨a, ha, hkeya⟩ := hplace hs
  obtain ⟨b, hb, hkeyb⟩ := hplace ht
  obtain ⟨hia, rfl⟩ := List.getElem?_eq_some_iff.mp ha
  obtain ⟨hjb, rfl⟩ := List.getElem?_eq_some_iff.mp hb
  have hle := List.pairwise_iff_getElem.mp h.ascending i j hia hjb hij s t hkeya hkeyb
  exact ⟨hle.1, fun _ => hij⟩

/-- A list in which nothing with a property comes after something without it has those with the
property in front. -/
theorem exists_append_of_pairwise
    {P : β → Prop}
    {l : List β}
    (h : l.Pairwise fun a b => P b → P a) :
    ∃ front back, l = front ++ back ∧ (∀ a ∈ front, P a) ∧ ∀ b ∈ back, ¬P b := by
  induction l with
  | nil =>
      exact ⟨[], [], rfl, by simp, by simp⟩
  | cons a l ih =>
      obtain ⟨hhead, htail⟩ := List.pairwise_cons.mp h
      by_cases ha : P a
      · obtain ⟨front, back, rfl, hfront, hback⟩ := ih htail
        exact ⟨a :: front, back, rfl, List.forall_mem_cons.mpr ⟨ha, hfront⟩, hback⟩
      · refine ⟨[], a :: l, rfl, by simp, List.forall_mem_cons.mpr ⟨ha, fun b hb hPb => ?_⟩⟩
        exact ha (hhead b hb hPb)

end Keys

namespace Curve

variable {α : Type} [Scalar α]

/-- The parameter at which the search places one of some points, if it places it. -/
def positionOf? (curve : Curve α) (ps : List (Point α)) (options : Search.Options) (i : ℕ) :
    Option α :=
  ps[i]?.bind fun p => (curve.nearest? p options).map Placement.t

variable {curve : Curve α} {ps : List (Point α)} {options : Search.Options}

/-- The keys by which points are sorted. -/
theorem map_t_pull (curve : Curve α) (ps : List (Point α)) (options : Search.Options) :
    (curve.pull ps options).map (·.map Placement.t) =
      ps.map fun p => (curve.nearest? p options).map Placement.t := by
  rw [pull, List.map_map]
  rfl

/-- Each key is the position of its point. -/
theorem getElem?_map_t_pull
    {i : ℕ}
    (hi : i < ps.length) :
    ((curve.pull ps options).map (·.map Placement.t))[i]? =
      some (curve.positionOf? ps options i) := by
  rw [map_t_pull, List.getElem?_map, positionOf?, List.getElem?_eq_getElem hi]
  rfl

/-- Only a place comes before a place. -/
theorem exists_some_of_positionLe
    {a b : Option α}
    (h : positionLe a b = true)
    (hb : ∃ t, b = some t) :
    ∃ s, a = some s := by
  obtain ⟨t, rfl⟩ := hb
  cases a with
  | none =>
      cases h
  | some s =>
      exact ⟨s, rfl⟩

/-- What comes first is positioned first, and of two points with the same position the one given
first comes first. -/
theorem sortAlong_pairwise (curve : Curve α) (ps : List (Point α)) (options : Search.Options) :
    (curve.sortAlong ps options).Pairwise fun i j =>
      positionLe (curve.positionOf? ps options i) (curve.positionOf? ps options j) = true ∧
        (positionLe (curve.positionOf? ps options j) (curve.positionOf? ps options i) = true →
          i < j) := by
  refine (curve.sortAlong_stablySorts ps options).ascending.imp_of_mem fun {i j} hi hj hij => ?_
  have hlt : ∀ a ∈ curve.sortAlong ps options, a < ps.length := fun a ha =>
    List.mem_range.mp ((curve.sortAlong_perm ps options).subset ha)
  exact hij _ _ (getElem?_map_t_pull (hlt i hi)) (getElem?_map_t_pull (hlt j hj))

/-- The points in the order in which they were sorted are in order. -/
theorem sortAlong_reordered
    {sorted : List (Point α)}
    (hsorted : sorted.map some = (curve.sortAlong ps options).map fun i => ps[i]?) :
    curve.sortAlong sorted options = List.range ps.length := by
  let position : Point α → Option α := fun p => (curve.nearest? p options).map Placement.t
  have hkeys : (sorted.map position).map some =
      (curve.sortAlong ps options).map fun i => (ps.map position)[i]? := by
    calc (sorted.map position).map some
        = (sorted.map some).map (Option.map position) := by
          rw [List.map_map, List.map_map]
          rfl
      _ = (curve.sortAlong ps options).map fun i => (ps.map position)[i]? := by
          simp only [hsorted, List.map_map, List.getElem?_map, Function.comp_def]
  have hstable := curve.sortAlong_stablySorts ps options
  have hstable' := curve.sortAlong_stablySorts sorted options
  rw [map_t_pull] at hstable hstable'
  have hlength := congrArg List.length hsorted
  rw [List.length_map, List.length_map, (curve.sortAlong_perm ps options).length_eq,
    List.length_range] at hlength
  have hrange := hstable.range_of_reordered hkeys
  rw [List.length_map, hlength] at hrange
  exact hstable'.unique hrange

/-- **The order along a curve.**  Sorting points along a curve names each of them once.  First come
those that the search places, in the order of the parameters it finds (in exact arithmetic the usual
order), and of two at the same parameter the one given first; then those it cannot place, in the
order given.  The points taken in this order keep it when they are sorted again. -/
theorem sortAlong_ordered
    {α : Type}
    [Scalar α]
    (curve : Curve α)
    (ps : List (Point α))
    (options : Search.Options) :
    ∃ (placed unplaced : List ℕ) (sorted : List (Point α)),
      curve.sortAlong ps options = placed ++ unplaced ∧
      (placed ++ unplaced).Perm (List.range ps.length) ∧
      (∀ i ∈ placed, ∃ t, curve.positionOf? ps options i = some t) ∧
      (∀ i ∈ unplaced, curve.positionOf? ps options i = none) ∧
      placed.Pairwise (fun i j => ∀ s t, curve.positionOf? ps options i = some s →
        curve.positionOf? ps options j = some t →
          Scalar.precedes s t = true ∧ (Scalar.precedes t s = true → i < j)) ∧
      unplaced.Pairwise (· < ·) ∧
      sorted.map some = (placed ++ unplaced).map (fun i => ps[i]?) ∧
      curve.sortAlong sorted options = List.range ps.length := by
  have hpairs := curve.sortAlong_pairwise ps options
  have hperm := curve.sortAlong_perm ps options
  have hsorted := Component.map_some_filterMap_getElem? fun i hi =>
    List.mem_range.mp (hperm.subset hi)
  have hagain := sortAlong_reordered hsorted
  have hfirst : (curve.sortAlong ps options).Pairwise fun i j =>
      (∃ t, curve.positionOf? ps options j = some t) →
        ∃ s, curve.positionOf? ps options i = some s :=
    hpairs.imp fun hij => exists_some_of_positionLe hij.1
  obtain ⟨placed, unplaced, hsplit, hplaced, hunplaced⟩ := exists_append_of_pairwise hfirst
  have hnone : ∀ i ∈ unplaced, curve.positionOf? ps options i = none := fun i hi =>
    Option.eq_none_iff_forall_ne_some.mpr fun t ht => hunplaced i hi ⟨t, ht⟩
  rw [hsplit] at hpairs hperm
  obtain ⟨hfront, hback, -⟩ := List.pairwise_append.mp hpairs
  refine ⟨placed, unplaced, _, hsplit, hperm, hplaced, hnone, ?_, ?_, hsplit ▸ hsorted, hagain⟩
  · refine hfront.imp fun {i j} hij s t hs ht => ?_
    rwa [hs, ht] at hij
  · refine hback.imp_of_mem fun {i j} hi hj hij => hij.2 ?_
    rw [hnone i hi, hnone j hj]
    rfl

end Curve

end FieldGeometry
