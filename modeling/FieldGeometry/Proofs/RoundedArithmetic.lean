import FieldGeometry.Proofs.Exact

/-!
# Rounded arithmetic

The geometry runs with machine numbers as well as with real ones.  Two sets of laws say what holds
of both.  `OrdersFinite` is about comparing alone: it puts the finite scalars in a total order, in
which scalars that compare as equal share a place.  `Rounded` is about computing: each finite scalar
stands for a real number, and each operation answers a scalar nearest to the exact result.  Real
numbers are the case without any error.

The bounds that are derived here are those of a single operation: it does not cross a scalar that
the exact result does not cross (`Rounds.value_le`, `Rounds.le_value`), and it gives no more than
one when the exact result is hardly more (`Rounds.value_le_one`).
-/

namespace FieldGeometry

namespace Scalar

/-- Comparing puts the finite scalars in a total order. -/
class OrdersFinite (α : Type) [Scalar α] : Prop where
  le_total : ∀ a b : α, isFinite a = true → isFinite b = true → a ≤ b ∨ b ≤ a
  le_trans : ∀ a b c : α, isFinite a = true → isFinite b = true → isFinite c = true →
    a ≤ b → b ≤ c → a ≤ c
  lt_iff_not_le : ∀ a b : α, isFinite a = true → isFinite b = true → (a < b ↔ ¬b ≤ a)

section Order

variable {α : Type} [Scalar α] [OrdersFinite α] {a b c : α}

theorem OrdersFinite.refl (ha : isFinite a = true) : a ≤ a :=
  or_self_iff.mp (OrdersFinite.le_total a a ha ha)

theorem OrdersFinite.le_of_not_lt
    (ha : isFinite a = true)
    (hb : isFinite b = true)
    (h : ¬a < b) :
    b ≤ a := by
  rw [OrdersFinite.lt_iff_not_le a b ha hb] at h
  exact not_not.mp h

theorem OrdersFinite.le_of_lt
    (ha : isFinite a = true)
    (hb : isFinite b = true)
    (h : a < b) :
    a ≤ b :=
  (OrdersFinite.le_total a b ha hb).resolve_right ((OrdersFinite.lt_iff_not_le a b ha hb).mp h)

theorem OrdersFinite.lt_of_lt_of_le
    (ha : isFinite a = true)
    (hb : isFinite b = true)
    (hc : isFinite c = true)
    (hab : a < b)
    (hbc : b ≤ c) :
    a < c := by
  rw [OrdersFinite.lt_iff_not_le a c ha hc]
  intro hca
  have hba : b ≤ a := OrdersFinite.le_trans b c a hb hc ha hbc hca
  exact (OrdersFinite.lt_iff_not_le a b ha hb).mp hab hba

end Order

/-- A finite scalar that stands for a number nearest to `x`, with a bounded error. -/
structure Rounds {α : Type} [Scalar α] (value : α → ℝ) (unit : ℝ) (x : ℝ) (r : α) : Prop where
  finite : isFinite r = true
  nearest : ∀ c : α, isFinite c = true → |value r - x| ≤ |value c - x|
  error : |value r - x| ≤ unit * max |x| (1 / 1024)

/-- Finite scalars stand for real numbers, and the operations round to nearest.  The laws are about
exact results of at most `2⁶⁴`, which machine numbers do not overflow at. -/
class Rounded (α : Type) [Scalar α] where
  /-- The number that a finite scalar stands for. -/
  value : α → ℝ
  /-- The greatest relative error of an operation. -/
  unit : ℝ
  unit_nonneg : 0 ≤ unit
  unit_small : unit ≤ 1 / (1024 : ℕ)
  /-- The scalars above one begin at twice the greatest error. -/
  gap : ∀ a : α, isFinite a = true → 1 < value a → 1 + (unit + unit) ≤ value a
  le_iff : ∀ a b : α, isFinite a = true → isFinite b = true → (a ≤ b ↔ value a ≤ value b)
  lt_iff : ∀ a b : α, isFinite a = true → isFinite b = true → (a < b ↔ value a < value b)
  isNaN_of_isFinite : ∀ a : α, isFinite a = true → isNaN a = false
  isFinite_zero : isFinite (0 : α) = true
  isFinite_one : isFinite (1 : α) = true
  value_zero : value 0 = 0
  value_one : value 1 = 1
  natCast : ∀ n : ℕ, n < 2 ^ 64 → Rounds value unit n (n : α)
  add : ∀ a b : α, isFinite a = true → isFinite b = true →
    |value a + value b| ≤ (2 ^ 64 : ℕ) → Rounds value unit (value a + value b) (a + b)
  sub : ∀ a b : α, isFinite a = true → isFinite b = true →
    |value a - value b| ≤ (2 ^ 64 : ℕ) → Rounds value unit (value a - value b) (a - b)
  mul : ∀ a b : α, isFinite a = true → isFinite b = true →
    |value a * value b| ≤ (2 ^ 64 : ℕ) → Rounds value unit (value a * value b) (a * b)
  div : ∀ a b : α, isFinite a = true → isFinite b = true → value b ≠ 0 →
    |value a / value b| ≤ (2 ^ 64 : ℕ) → Rounds value unit (value a / value b) (a / b)

open Rounded

instance (priority := low) {α : Type} [Scalar α] [Rounded α] : OrdersFinite α where
  le_total a b ha hb := by
    rw [le_iff a b ha hb, le_iff b a hb ha]
    exact le_total _ _
  le_trans a b c ha hb hc := by
    rw [le_iff a b ha hb, le_iff b c hb hc, le_iff a c ha hc]
    exact le_trans
  lt_iff_not_le a b ha hb := by
    rw [lt_iff a b ha hb, le_iff b a hb ha, not_le]

/-- Exact arithmetic rounds nothing. -/
theorem rounds_exact (x : ℝ) : Rounds id 0 x x where
  finite := rfl
  nearest c _ := by simp
  error := by simp

noncomputable instance : Rounded ℝ where
  value := id
  unit := 0
  unit_nonneg := le_refl 0
  unit_small := by positivity
  gap a _ ha := by
    rw [add_zero, add_zero]
    exact le_of_lt ha
  le_iff _ _ _ _ := Iff.rfl
  lt_iff _ _ _ _ := Iff.rfl
  isNaN_of_isFinite _ _ := rfl
  isFinite_zero := rfl
  isFinite_one := rfl
  value_zero := rfl
  value_one := rfl
  natCast n _ := rounds_exact n
  add _ _ _ _ _ := rounds_exact _
  sub _ _ _ _ _ := rounds_exact _
  mul _ _ _ _ _ := rounds_exact _
  div _ _ _ _ _ _ := rounds_exact _

section Bounds

/-- Of two numbers the greater one is nearer only to what lies above their middle. -/
theorem add_le_of_nearer
    {u v x : ℝ}
    (huv : u < v)
    (h : |v - x| ≤ |u - x|) :
    u + v ≤ 2 * x := by
  rcases abs_cases (v - x) with hv | hv
  · rcases abs_cases (u - x) with hu | hu
    · linarith
    · linarith
  · linarith

/-- Of two numbers the lesser one is nearer only to what lies below their middle. -/
theorem le_add_of_nearer
    {u v x : ℝ}
    (huv : u < v)
    (h : |u - x| ≤ |v - x|) :
    2 * x ≤ u + v := by
  rcases abs_cases (u - x) with hu | hu
  · linarith
  · rcases abs_cases (v - x) with hv | hv
    · linarith
    · linarith

variable {α : Type} [Scalar α] [Rounded α] {x y : ℝ} {r s c : α}

/-- What is exactly at most a scalar is at most this scalar after rounding. -/
theorem Rounds.value_le
    (h : Rounds value (unit α) x r)
    (hc : isFinite c = true)
    (hx : x ≤ value c) :
    value r ≤ value c := by
  by_contra! hlt
  have hmiddle := add_le_of_nearer hlt (h.nearest c hc)
  linarith

/-- What is exactly at least a scalar is at least this scalar after rounding. -/
theorem Rounds.le_value
    (h : Rounds value (unit α) x r)
    (hc : isFinite c = true)
    (hx : value c ≤ x) :
    value c ≤ value r := by
  by_contra! hlt
  have hmiddle := le_add_of_nearer hlt (h.nearest c hc)
  linarith

theorem Rounds.nonneg
    (h : Rounds value (unit α) x r)
    (hx : 0 ≤ x) :
    0 ≤ value r := by
  have hzero : value (0 : α) = 0 := value_zero
  rw [← hzero] at hx ⊢
  exact h.le_value isFinite_zero hx

theorem Rounds.value_eq_zero
    (h : Rounds value (unit α) x r)
    (hx : x = 0) :
    value r = 0 := by
  have hzero : value (0 : α) = 0 := value_zero
  refine le_antisymm ?_ (h.nonneg hx.ge)
  rw [← hzero] at hx ⊢
  exact h.value_le isFinite_zero hx.le

/-- Rounding keeps the order. -/
theorem Rounds.mono
    (h : Rounds value (unit α) x r)
    (h' : Rounds value (unit α) y s)
    (hxy : x < y) :
    value r ≤ value s := by
  by_contra! hlt
  have hx := add_le_of_nearer hlt (h.nearest s h'.finite)
  have hy := le_add_of_nearer hlt (h'.nearest r h.finite)
  linarith

/-- Rounding gives no more than one when the exact result is hardly more. -/
theorem Rounds.value_le_one
    (h : Rounds value (unit α) x r)
    (hx : x ≤ 1 + 9 / 10 * unit α) :
    value r ≤ 1 := by
  have hone : value (1 : α) = 1 := value_one
  by_contra! hlt
  have hgap := gap r h.finite hlt
  rw [← hone] at hlt
  have hmiddle := add_le_of_nearer hlt (h.nearest 1 isFinite_one)
  linarith

/-- The error of an exact result of a known size. -/
theorem Rounds.error_le
    {b : ℝ}
    (h : Rounds value (unit α) x r)
    (hx : |x| ≤ b)
    (hb : 1 / 1024 ≤ b) :
    |value r - x| ≤ unit α * b :=
  le_trans h.error (mul_le_mul_of_nonneg_left (max_le hx hb) unit_nonneg)

variable {a b : α}

theorem finite_maxNum
    (ha : isFinite a = true)
    (hb : isFinite b = true) :
    isFinite (maxNum a b) = true ∧ value (maxNum a b) = max (value a) (value b) := by
  rw [maxNum, isNaN_of_isFinite a ha, if_neg Bool.false_ne_true]
  split_ifs with h
  · exact ⟨hb, (max_eq_right (le_of_lt ((lt_iff a b ha hb).mp h))).symm⟩
  · rw [lt_iff a b ha hb, not_lt] at h
    exact ⟨ha, (max_eq_left h).symm⟩

theorem finite_minNum
    (ha : isFinite a = true)
    (hb : isFinite b = true) :
    isFinite (minNum a b) = true ∧ value (minNum a b) = min (value a) (value b) := by
  rw [minNum, isNaN_of_isFinite a ha, if_neg Bool.false_ne_true]
  split_ifs with h
  · exact ⟨hb, (min_eq_right (le_of_lt ((lt_iff b a hb ha).mp h))).symm⟩
  · rw [lt_iff b a hb ha, not_lt] at h
    exact ⟨ha, (min_eq_left h).symm⟩

end Bounds

end Scalar

end FieldGeometry
