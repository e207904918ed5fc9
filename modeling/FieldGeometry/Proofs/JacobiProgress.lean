import FieldGeometry.Proofs.EigenAccuracy

/-!
# The progress of the plane rotations

How many rotations a diagonalisation needs, in exact arithmetic, and what its budget means.

**Progress.**  The measure is `SymTensor.offDiagonalSq`, the sum of the squared off-diagonal
entries.  A rotation makes the entry of its plane vanish and turns the other two into each other, so
the measure drops by the square of that entry (`State.offDiagonalSq_rotate`).  The pivot is the
largest of three entries, so a step takes away at least a third (`State.offDiagonalSq_step_le`).

**Runs.**  A run makes steps until it comes to a state that is diagonal or until its budget is
spent.  `StopsAfter` says this of a number of rotations, `exists_stopsAfter` finds the number for
every run by induction over the budget, and the number is determined (`StopsAfter.eq_of_le`).
Convergence within a budget, independence of a larger budget, and the full use of an insufficient
one are read off these.
-/

namespace FieldGeometry

/-- The sum of the squares of the off-diagonal entries. -/
noncomputable def SymTensor.offDiagonalSq (m : SymTensor ℝ) : ℝ :=
  m.xy ^ 2 + m.xz ^ 2 + m.yz ^ 2

namespace Jacobi

section Progress

/-- The two entries beside the plane of a rotation turn into each other. -/
theorem Turn.mixed_sq
    {t : Turn ℝ}
    (ht : t.cos * t.cos + t.sin * t.sin = 1)
    (akp akq : ℝ) :
    t.firstMixed akp akq ^ 2 + t.secondMixed akp akq ^ 2 = akp ^ 2 + akq ^ 2 := by
  have hsum : t.firstMixed akp akq ^ 2 + t.secondMixed akp akq ^ 2 =
      (t.cos * t.cos + t.sin * t.sin) * (akp ^ 2 + akq ^ 2) := by
    simp only [firstMixed, secondMixed]
    ring
  rw [hsum, ht, one_mul]

/-- A rotation lowers the measure by the square of the entry that it makes vanish. -/
theorem State.offDiagonalSq_rotate (s : State ℝ) (plane : Plane) :
    (s.rotate plane).tensor.offDiagonalSq =
      s.tensor.offDiagonalSq - plane.entry s.tensor ^ 2 := by
  cases plane with
  | xy =>
      have hunit := Turn.annihilating_unit s.tensor.xx s.tensor.yy s.tensor.xy
      have hmixed := Turn.mixed_sq hunit s.tensor.xz s.tensor.yz
      simp only [State.rotate, SymTensor.offDiagonalSq, Plane.entry]
      linarith
  | xz =>
      have hunit := Turn.annihilating_unit s.tensor.xx s.tensor.zz s.tensor.xz
      have hmixed := Turn.mixed_sq hunit s.tensor.xy s.tensor.yz
      simp only [State.rotate, SymTensor.offDiagonalSq, Plane.entry]
      linarith
  | yz =>
      have hunit := Turn.annihilating_unit s.tensor.yy s.tensor.zz s.tensor.yz
      have hmixed := Turn.mixed_sq hunit s.tensor.xy s.tensor.xz
      simp only [State.rotate, SymTensor.offDiagonalSq, Plane.entry]
      linarith

/-- The pivot carries at least a third of the measure. -/
theorem offDiagonalSq_le_pivot (m : SymTensor ℝ) :
    m.offDiagonalSq ≤ 3 * (pivot m).entry m ^ 2 := by
  have hxy : m.xy ^ 2 ≤ (pivot m).entry m ^ 2 := sq_le_sq.mpr (entry_le_pivot m .xy)
  have hxz : m.xz ^ 2 ≤ (pivot m).entry m ^ 2 := sq_le_sq.mpr (entry_le_pivot m .xz)
  have hyz : m.yz ^ 2 ≤ (pivot m).entry m ^ 2 := sq_le_sq.mpr (entry_le_pivot m .yz)
  rw [SymTensor.offDiagonalSq]
  linarith

variable (s : State ℝ)

/-- **A step takes away a third** of the measure, or more. -/
theorem State.offDiagonalSq_step_le :
    s.step.tensor.offDiagonalSq ≤ 2 / 3 * s.tensor.offDiagonalSq := by
  have hpivot := offDiagonalSq_le_pivot s.tensor
  rw [State.step, State.offDiagonalSq_rotate]
  linarith

theorem State.offDiagonalSq_iterate_le (k : ℕ) :
    (State.step^[k] s).tensor.offDiagonalSq ≤ (2 / 3) ^ k * s.tensor.offDiagonalSq := by
  induction k with
  | zero =>
      simp
  | succ k ih =>
      rw [Function.iterate_succ_apply']
      calc (State.step^[k] s).step.tensor.offDiagonalSq
          ≤ 2 / 3 * (State.step^[k] s).tensor.offDiagonalSq := State.offDiagonalSq_step_le _
        _ ≤ 2 / 3 * ((2 / 3) ^ k * s.tensor.offDiagonalSq) := by linarith
        _ = (2 / 3) ^ (k + 1) * s.tensor.offDiagonalSq := by ring

/-- Each entry is bounded by the measure, so a small measure makes a state diagonal. -/
theorem State.isDiagonal_of_offDiagonalSq_lt
    {s : State ℝ}
    {eps : ℝ}
    (heps : 0 < eps)
    (h : s.tensor.offDiagonalSq < eps ^ 2) :
    s.isDiagonal eps = true := by
  have hxy := sq_nonneg s.tensor.xy
  have hxz := sq_nonneg s.tensor.xz
  have hyz := sq_nonneg s.tensor.yz
  rw [SymTensor.offDiagonalSq] at h
  rw [State.isDiagonal_iff]
  intro plane
  apply abs_lt_of_sq_lt_sq _ (le_of_lt heps)
  cases plane with
  | xy | xz | yz =>
      simp only [Plane.entry]
      linarith

end Progress

section Runs

variable {α : Type} [Scalar α] {eps : α} {budget : ℕ} {s : State α} {k : ℕ}

/-- A run on `s` stops after `k` rotations: no state before is diagonal, and the state it has come
to is diagonal or the budget is spent. -/
structure StopsAfter (eps : α) (budget : ℕ) (s : State α) (k : ℕ) : Prop where
  le_budget : k ≤ budget
  before : ∀ j < k, (State.step^[j] s).isDiagonal eps = false
  stops : (State.step^[k] s).isDiagonal eps = true ∨ k = budget

/-- Every run stops after some number of rotations, with the state that as many steps lead to. -/
theorem exists_stopsAfter (eps : α) (budget done : ℕ) (s : State α) :
    ∃ k, StopsAfter eps budget s k ∧
      runFrom eps budget done s =
        ⟨State.step^[k] s, done + k, (State.step^[k] s).isDiagonal eps⟩ := by
  induction budget generalizing done s with
  | zero =>
      exact ⟨0, ⟨le_refl 0, by simp, Or.inr rfl⟩, rfl⟩
  | succ budget ih =>
      rw [runFrom]
      by_cases hdiagonal : s.isDiagonal eps = true
      · refine ⟨0, ⟨Nat.zero_le _, by simp, Or.inl hdiagonal⟩, ?_⟩
        simp [hdiagonal]
      · obtain ⟨k, hk, hrun⟩ := ih (done + 1) s.step
        refine ⟨k + 1, ⟨Nat.succ_le_succ hk.le_budget, ?_, ?_⟩, ?_⟩
        · intro j hj
          cases j with
          | zero =>
              simpa using hdiagonal
          | succ j =>
              exact hk.before j (Nat.lt_of_succ_lt_succ hj)
        · exact hk.stops.imp id (congrArg Nat.succ)
        · rw [if_neg hdiagonal, hrun, Nat.add_assoc, Nat.add_comm 1 k]
          rfl

/-- A run stops no later than at the first diagonal state. -/
theorem StopsAfter.le_of_isDiagonal
    (h : StopsAfter eps budget s k)
    {n : ℕ}
    (hn : (State.step^[n] s).isDiagonal eps = true) :
    k ≤ n := by
  by_contra hlt
  have hbefore := h.before n (not_le.mp hlt)
  rw [hn] at hbefore
  exact absurd hbefore (by decide)

/-- A run whose budget reaches a diagonal state stops at one. -/
theorem StopsAfter.isDiagonal
    (h : StopsAfter eps budget s k)
    {n : ℕ}
    (hn : (State.step^[n] s).isDiagonal eps = true)
    (hbudget : n ≤ budget) :
    (State.step^[k] s).isDiagonal eps = true := by
  rcases h.stops with hdiagonal | hspent
  · exact hdiagonal
  · have hkn : k = n := le_antisymm (h.le_of_isDiagonal hn) (hspent ▸ hbudget)
    rw [hkn, hn]

/-- A run that stops at a diagonal state stops there with every larger budget. -/
theorem StopsAfter.eq_of_le
    {more k' : ℕ}
    (h : StopsAfter eps budget s k)
    (h' : StopsAfter eps more s k')
    (hle : budget ≤ more)
    (hdiagonal : (State.step^[k] s).isDiagonal eps = true) :
    k' = k := by
  have hdiagonal' := h'.isDiagonal hdiagonal (le_trans h.le_budget hle)
  exact le_antisymm (h'.le_of_isDiagonal hdiagonal) (h.le_of_isDiagonal hdiagonal')

end Runs

/-- A diagonalisation stops after some number of rotations, with the state that as many steps lead
to from the tensor itself. -/
theorem exists_diagonalize_eq (a : SymTensor ℝ) (eps : ℝ) (budget : ℕ) :
    ∃ k, StopsAfter eps budget (.initial a) k ∧
      a.diagonalize ⟨budget, eps⟩ =
        ⟨State.step^[k] (.initial a), k, (State.step^[k] (.initial a)).isDiagonal eps⟩ := by
  obtain ⟨k, hk, hrun⟩ := exists_stopsAfter eps budget 0 (.initial a)
  refine ⟨k, hk, ?_⟩
  rw [Nat.zero_add] at hrun
  rw [SymTensor.diagonalize, SymTensor.sanitized_exact, hrun]

end Jacobi

open Jacobi in
/-- A diagonalisation whose budget reaches a diagonal state has converged, by that state at the
latest. -/
theorem SymTensor.converged_of_isDiagonal
    {a : SymTensor ℝ}
    {eps : ℝ}
    {n budget : ℕ}
    (h : (State.step^[n] (.initial a)).isDiagonal eps = true)
    (hbudget : n ≤ budget) :
    (a.diagonalize ⟨budget, eps⟩).converged = true ∧
      (a.diagonalize ⟨budget, eps⟩).rotations ≤ n := by
  obtain ⟨k, hk, hrun⟩ := exists_diagonalize_eq a eps budget
  rw [hrun]
  exact ⟨hk.isDiagonal h hbudget, hk.le_of_isDiagonal h⟩

open Jacobi in
/-- **Progress of a diagonalisation.**  After `k` rotations at most the `k`-th power of two thirds
of the measure is left, and the state of a run is that after its rotations.  So a budget that brings
the measure below the squared tolerance suffices.  A run that converged is the same under every
larger budget, and a run that did not has spent its budget. -/
theorem SymTensor.diagonalize_progress
    (a : SymTensor ℝ)
    {eps : ℝ}
    (heps : 0 < eps) :
    (∀ k : ℕ,
      (State.step^[k] (.initial a)).tensor.offDiagonalSq ≤ (2 / 3) ^ k * a.offDiagonalSq) ∧
    (∀ budget : ℕ,
      (a.diagonalize ⟨budget, eps⟩).state =
        State.step^[(a.diagonalize ⟨budget, eps⟩).rotations] (.initial a)) ∧
    (∀ n budget : ℕ,
      (2 / 3) ^ n * a.offDiagonalSq < eps ^ 2 → n ≤ budget →
      (a.diagonalize ⟨budget, eps⟩).converged = true ∧
        (a.diagonalize ⟨budget, eps⟩).rotations ≤ n) ∧
    (∀ budget more : ℕ,
      (a.diagonalize ⟨budget, eps⟩).converged = true → budget ≤ more →
      a.diagonalize ⟨more, eps⟩ = a.diagonalize ⟨budget, eps⟩) ∧
    (∀ budget : ℕ,
      (a.diagonalize ⟨budget, eps⟩).converged = false →
      (a.diagonalize ⟨budget, eps⟩).rotations = budget) := by
  have hmeasure : ∀ k : ℕ,
      (State.step^[k] (.initial a)).tensor.offDiagonalSq ≤ (2 / 3) ^ k * a.offDiagonalSq :=
    State.offDiagonalSq_iterate_le (.initial a)
  refine ⟨hmeasure, ?_, ?_, ?_, ?_⟩
  · intro budget
    obtain ⟨k, -, hrun⟩ := exists_diagonalize_eq a eps budget
    rw [hrun]
  · intro n budget hsmall hbudget
    have hdiagonal := State.isDiagonal_of_offDiagonalSq_lt heps (lt_of_le_of_lt (hmeasure n) hsmall)
    exact converged_of_isDiagonal hdiagonal hbudget
  · intro budget more hconverged hle
    obtain ⟨k, hk, hrun⟩ := exists_diagonalize_eq a eps budget
    obtain ⟨k', hk', hrun'⟩ := exists_diagonalize_eq a eps more
    rw [hrun] at hconverged
    rw [hrun, hrun', hk.eq_of_le hk' hle hconverged]
  · intro budget hopen
    obtain ⟨k, hk, hrun⟩ := exists_diagonalize_eq a eps budget
    rw [hrun] at hopen ⊢
    rcases hk.stops with hdiagonal | hspent
    · exact absurd hdiagonal (by simpa using hopen)
    · exact hspent

/-- Three entries of a half are brought below a half by three rotations, whatever is left of the
budget.  No rotation is not enough. -/
theorem SymTensor.diagonalize_progress_halves :
    (0 : ℝ) < 1 / 2 ∧
    ((⟨1, 1 / 2, 1 / 2, 1, 1 / 2, 1⟩ : SymTensor ℝ).diagonalize ⟨3, 1 / 2⟩).converged = true ∧
    (⟨1, 1 / 2, 1 / 2, 1, 1 / 2, 1⟩ : SymTensor ℝ).diagonalize ⟨9, 1 / 2⟩ =
      (⟨1, 1 / 2, 1 / 2, 1, 1 / 2, 1⟩ : SymTensor ℝ).diagonalize ⟨3, 1 / 2⟩ ∧
    ((⟨1, 1 / 2, 1 / 2, 1, 1 / 2, 1⟩ : SymTensor ℝ).diagonalize ⟨0, 1 / 2⟩).converged = false ∧
    ((⟨1, 1 / 2, 1 / 2, 1, 1 / 2, 1⟩ : SymTensor ℝ).diagonalize ⟨0, 1 / 2⟩).rotations = 0 := by
  have heps : (0 : ℝ) < 1 / 2 := by norm_num
  obtain ⟨-, -, hsuffices, hmore, hspent⟩ :=
    SymTensor.diagonalize_progress ⟨1, 1 / 2, 1 / 2, 1, 1 / 2, 1⟩ heps
  have hsmall : (2 / 3 : ℝ) ^ 3 *
      (⟨1, 1 / 2, 1 / 2, 1, 1 / 2, 1⟩ : SymTensor ℝ).offDiagonalSq < (1 / 2) ^ 2 := by
    norm_num [offDiagonalSq]
  have hconverged := (hsuffices 3 3 hsmall (le_refl 3)).1
  have hopen : ((⟨1, 1 / 2, 1 / 2, 1, 1 / 2, 1⟩ : SymTensor ℝ).diagonalize
      ⟨0, 1 / 2⟩).converged = false := by
    rw [SymTensor.diagonalize, SymTensor.sanitized_exact, Jacobi.runFrom, Bool.eq_false_iff, ne_eq,
      Jacobi.State.isDiagonal_iff]
    intro hall
    have hxy : |(1 / 2 : ℝ)| < 1 / 2 := hall .xy
    norm_num at hxy
  exact ⟨heps, hconverged, hmore 3 9 hconverged (by norm_num), hopen, hspent 0 hopen⟩

end FieldGeometry
