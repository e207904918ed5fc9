import FieldGeometry.Streamline

/-!
# Runs of a streamline

A streamline carries nothing from step to step but the point it has reached.  A run of `m + n` steps
is therefore a run of `m` steps, continued by a run of `n` steps from the point where the first one
ended, for any arithmetic and any direction.

A run may end early, where a step leads nowhere.  Such an end is final: started again from its last
point the run does not move (`step?_last_eq_none`), so asking for more steps adds nothing.
-/

namespace FieldGeometry

namespace Streamline

variable {α : Type}

section Follow

variable (step? : Point α → Option (Point α)) (m n : Nat) (p : Point α)

theorem follow_of_none
    {p : Point α}
    (h : step? p = none) :
    follow step? n p = [] := by
  cases n with
  | zero =>
      rfl
  | succ n =>
      rw [follow, h]

/-- Steps after steps go on from the last point. -/
theorem follow_add :
    follow step? (m + n) p =
      follow step? m p ++ follow step? n ((follow step? m p).getLastD p) := by
  induction m generalizing p with
  | zero =>
      rw [Nat.zero_add]
      rfl
  | succ m ih =>
      rw [Nat.add_right_comm, follow, follow]
      cases hstep : step? p with
      | none =>
          exact (follow_of_none step? n hstep).symm
      | some q =>
          rw [List.cons_append, List.getLastD_cons]
          exact congrArg (List.cons q) (ih q)

/-- A run that is shorter than its number of steps has ended where a step leads nowhere. -/
theorem step?_last_eq_none
    {m : Nat}
    {p : Point α}
    (h : (follow step? m p).length < m) :
    step? ((follow step? m p).getLastD p) = none := by
  induction m generalizing p with
  | zero =>
      exact absurd h (Nat.not_lt_zero _)
  | succ m ih =>
      rw [follow] at h ⊢
      cases hstep : step? p with
      | none =>
          exact hstep
      | some q =>
          rw [hstep] at h
          rw [List.getLastD_cons]
          exact ih (Nat.lt_of_succ_lt_succ h)

end Follow

/-- **Streamlines resume.**  A streamline of `m + n` steps is one of `m` steps, followed by what a
streamline of `n` steps from its last point adds.  So the shorter streamline is a prefix of the
longer, and once a streamline has ended early, more steps add nothing to it. -/
theorem trace_resumes
    [Scalar α]
    (direction : Point α → Option (Vec α))
    (seed : Point α)
    (options : Options α)
    (m n : Nat) :
    ∃ last : Point α,
      (trace direction seed { options with steps := m }).getLast? = some last ∧
      trace direction seed { options with steps := m + n } =
        trace direction seed { options with steps := m } ++
          (trace direction last { options with steps := n }).tail ∧
      trace direction seed { options with steps := m } <+:
        trace direction seed { options with steps := m + n } ∧
      ((trace direction seed { options with steps := m }).length ≤ m →
        trace direction seed { options with steps := m + n } =
          trace direction seed { options with steps := m }) := by
  let step := step? direction options.stride options.order
  have hlong : trace direction seed { options with steps := m + n } =
      trace direction seed { options with steps := m } ++
        follow step n ((follow step m seed).getLastD seed) := by
    show seed :: follow step (m + n) seed = seed :: follow step m seed ++ _
    rw [follow_add, List.cons_append]
  refine ⟨(follow step m seed).getLastD seed, ?_, hlong, ?_, ?_⟩
  · show (seed :: follow step m seed).getLast? = _
    rw [List.getLast?_cons, List.getLastD_eq_getLast?]
  · rw [hlong]
    exact List.prefix_append _ _
  · intro hearly
    have hend : step ((follow step m seed).getLastD seed) = none :=
      step?_last_eq_none step (Nat.lt_of_succ_le hearly)
    rw [hlong, follow_of_none step n hend, List.append_nil]

end Streamline

end FieldGeometry
