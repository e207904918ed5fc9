import FieldGeometry.Curve.Search
import Mathlib.Data.List.Basic
import Mathlib.Data.List.Nodup
import Mathlib.Data.List.Range

/-!
# Sorting indices by their keys

A list of indices sorts a list of keys stably when it names every key once, no key comes after a
greater one, and of two keys that come before each other the one given first stays first.  There is
one such list at most (`StablySorts.unique`), and sorting the keys together with their indices gives
it (`stablySorts_mergeSort`).  The points along a curve are sorted in this way by their positions
(`Curve.sortAlong_stablySorts`).
-/

namespace FieldGeometry

/-- The indices of a list of keys in ascending order of the keys, equal keys in the order in which
they are given. -/
structure StablySorts {β : Type} (le : β → β → Bool) (keys : List β) (order : List ℕ) : Prop where
  perm : order.Perm (List.range keys.length)
  ascending : order.Pairwise fun i j => ∀ s t, keys[i]? = some s → keys[j]? = some t →
    le s t = true ∧ (le t s = true → i < j)

section Keys

variable {β : Type} {le : β → β → Bool}

theorem StablySorts.exists_key
    {keys : List β}
    {order : List ℕ}
    (h : StablySorts le keys order)
    {i : ℕ}
    (hi : i ∈ order) :
    ∃ s, keys[i]? = some s := by
  have hrange : i ∈ List.range keys.length := h.perm.subset hi
  exact ⟨_, List.getElem?_eq_getElem (List.mem_range.mp hrange)⟩

/-- **A stable sort has one result.** -/
theorem StablySorts.unique
    {keys : List β}
    {order order' : List ℕ}
    (h : StablySorts le keys order)
    (h' : StablySorts le keys order') :
    order = order' := by
  refine List.Perm.eq_of_pairwise ?_ h.ascending h'.ascending (h.perm.trans h'.perm.symm)
  intro i j hi hj hij hji
  obtain ⟨s, hs⟩ := h.exists_key hi
  obtain ⟨t, ht⟩ := h'.exists_key hj
  obtain ⟨hst, htie⟩ := hij s t hs ht
  obtain ⟨hts, htie'⟩ := hji t s ht hs
  -- keys that come before each other would each have to be given first
  exact absurd (htie hts) (Nat.lt_asymm (htie' hst))

/-- In a list of keys with their indices, each index stands at its own place. -/
theorem index_of_mem_zipIdx_zipIdx
    {keys : List β}
    {x : (β × ℕ) × ℕ}
    (hx : x ∈ keys.zipIdx.zipIdx) :
    x.1.2 = x.2 ∧ keys[x.1.2]? = some x.1.1 := by
  have hplace : keys.zipIdx[x.2]? = some x.1 := List.mem_zipIdx_iff_getElem?.mp hx
  rw [List.getElem?_zipIdx, Option.map_eq_some_iff] at hplace
  obtain ⟨s, hs, hpair⟩ := hplace
  rw [← hpair]
  exact ⟨Nat.zero_add x.2, by rwa [Nat.zero_add]⟩

theorem le_of_zipIdxLE
    {x y : β × ℕ}
    (h : List.zipIdxLE le x y = true) :
    le x.1 y.1 = true ∧ (le y.1 x.1 = true → x.2 ≤ y.2) := by
  unfold List.zipIdxLE at h
  split_ifs at h with hle hge
  · exact ⟨hle, fun _ => of_decide_eq_true h⟩
  · exact ⟨hle, fun hge' => absurd hge' hge⟩

/-- Sorting keys together with their indices sorts them stably. -/
theorem stablySorts_mergeSort
    (htrans : ∀ a b c, le a b = true → le b c = true → le a c = true)
    (htotal : ∀ a b, (le a b || le b a) = true)
    (keys : List β) :
    StablySorts le keys ((keys.zipIdx.mergeSort fun a b => le a.1 b.1).map (·.2)) := by
  let le' : β × ℕ → β × ℕ → Bool := fun a b => le a.1 b.1
  have htrans' : ∀ a b c, le' a b = true → le' b c = true → le' a c = true :=
    fun a b c => htrans a.1 b.1 c.1
  have htotal' : ∀ a b, (le' a b || le' b a) = true := fun a b => htotal a.1 b.1
  have hperm : ((keys.zipIdx.mergeSort le').map (·.2)).Perm (List.range keys.length) := by
    refine ((List.mergeSort_perm keys.zipIdx le').map _).trans ?_
    rw [List.zipIdx_map_snd, List.range_eq_range']
  have hnodup : ((keys.zipIdx.mergeSort le').map (·.2)).Nodup :=
    hperm.nodup_iff.mpr List.nodup_range
  -- the order that also counts the places, by which the merge sort is known to be stable
  have hsorted : (keys.zipIdx.zipIdx.mergeSort (List.zipIdxLE le')).Pairwise
      fun x y => List.zipIdxLE le' x y = true :=
    List.pairwise_mergeSort (List.zipIdxLE_trans htrans') (List.zipIdxLE_total htotal') _
  have hweak : ((keys.zipIdx.mergeSort le').map (·.2)).Pairwise fun i j => ∀ s t,
      keys[i]? = some s → keys[j]? = some t → le s t = true ∧ (le t s = true → i ≤ j) := by
    rw [← List.mergeSort_zipIdx, List.map_map, List.pairwise_map]
    refine hsorted.imp_of_mem fun {x y} hx hy hxy s t hs ht => ?_
    obtain ⟨hix, hkx⟩ := index_of_mem_zipIdx_zipIdx ((List.mergeSort_perm _ _).subset hx)
    obtain ⟨hiy, hky⟩ := index_of_mem_zipIdx_zipIdx ((List.mergeSort_perm _ _).subset hy)
    obtain rfl : x.1.1 = s := Option.some.inj (hkx.symm.trans hs)
    obtain rfl : y.1.1 = t := Option.some.inj (hky.symm.trans ht)
    obtain ⟨hle, htie⟩ := le_of_zipIdxLE hxy
    refine ⟨hle, fun hge => ?_⟩
    show x.1.2 ≤ y.1.2
    rw [hix, hiy]
    exact htie hge
  refine ⟨hperm, (hweak.and hnodup).imp fun {i j} hij s t hs ht => ?_⟩
  obtain ⟨hle, htie⟩ := hij.1 s t hs ht
  exact ⟨hle, fun hge => lt_of_le_of_ne (htie hge) hij.2⟩

end Keys

namespace Curve

variable {α : Type} [Scalar α]

theorem positionLe_trans (a b c : Option α)
    (hab : positionLe a b = true)
    (hbc : positionLe b c = true) :
    positionLe a c = true := by
  match a, b, c with
  | some r, some s, some t => exact Scalar.precedes_trans r s t hab hbc
  | some _, _, none => rfl
  | none, none, none => rfl
  | some _, none, some _ => cases hbc
  | none, some _, _ => cases hab
  | none, none, some _ => cases hbc

theorem positionLe_total (a b : Option α) : (positionLe a b || positionLe b a) = true := by
  match a, b with
  | some s, some t => exact Scalar.precedes_total s t
  | some _, none => rfl
  | none, some _ => rfl
  | none, none => rfl

/-- The points are sorted stably by the parameters of the places found for them, those without a
place last. -/
theorem sortAlong_stablySorts
    (curve : Curve α)
    (ps : List (Point α))
    (options : Search.Options) :
    StablySorts positionLe ((curve.pull ps options).map (·.map Placement.t))
      (curve.sortAlong ps options) :=
  stablySorts_mergeSort positionLe_trans positionLe_total _

end Curve

/-- Where every point has a position, they are sorted by the positions alone. -/
theorem StablySorts.of_positions
    {α : Type}
    [Scalar α]
    {ts : List α}
    {order : List ℕ}
    (h : StablySorts Curve.positionLe (ts.map some) order) :
    StablySorts Scalar.precedes ts order := by
  refine ⟨?_, h.ascending.imp fun {i j} hij s t hs ht => ?_⟩
  · rw [← ts.length_map some]
    exact h.perm
  · exact hij (some s) (some t) (by rw [List.getElem?_map, hs]; rfl)
      (by rw [List.getElem?_map, ht]; rfl)

end FieldGeometry
