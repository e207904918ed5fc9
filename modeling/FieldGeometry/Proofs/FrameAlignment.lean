import FieldGeometry.Proofs.FrameAxes

/-!
# Aligning frames

A frame is aligned to a reference by one of four turns: it is kept, or turned half a turn about one
of its axes (`align_of_facing`, `align_of_opposed`).  Each of them keeps the origin and the line of
the normal and leaves the axes right-handed, and afterwards the normal does not oppose that of the
reference (`align_keeps`).  In a chain every frame becomes the reference of the next, so an
induction over the frames, for any master, carries this along (`alignChain_keeps`,
`alignChain_follows`).

**Where the normals oppose.**  There all three axes are reversed before the two choices for the axes
of the plane are compared.  Reversed axes are left-handed, and when the frame is rebuilt its first
axis points the other way again.  So the frames that are compared are not those that can be
obtained: of the products of the axes with those of the reference the sum is compared, and the
difference is obtained.
-/

namespace FieldGeometry

namespace Frame

section Turns

variable {α : Type} [Scalar α]

/-- The frame turned half a turn about its first axis. -/
def halfTurnAboutX (f : Frame α) : Frame α :=
  { f with yAxis := -f.yAxis, zAxis := -f.zAxis }

/-- The frame turned half a turn about its second axis. -/
def halfTurnAboutY (f : Frame α) : Frame α :=
  { f with xAxis := -f.xAxis, zAxis := -f.zAxis }

end Turns

section Agreement

variable (reference f : Frame ℝ)

@[simp] theorem agreement_halfTurn :
    agreement reference f.halfTurn = -agreement reference f := by
  simp only [agreement, halfTurn, Vec.neg_dot]
  ring

@[simp] theorem agreement_reversed :
    agreement reference f.reversed = -agreement reference f := by
  simp only [agreement, reversed, Vec.neg_dot]
  ring

theorem agreement_halfTurnAboutX :
    agreement reference f.halfTurnAboutX =
      f.xAxis.dot reference.xAxis - f.yAxis.dot reference.yAxis := by
  simp only [agreement, halfTurnAboutX, Vec.neg_dot]
  ring

theorem agreement_halfTurnAboutY :
    agreement reference f.halfTurnAboutY =
      f.yAxis.dot reference.yAxis - f.xAxis.dot reference.xAxis := by
  simp only [agreement, halfTurnAboutY, Vec.neg_dot]
  ring

end Agreement

section Align

variable {f : Frame ℝ} (hf : f.Orthonormal) (reference : Frame ℝ)
include hf

theorem halfTurn_orthonormal : f.halfTurn.Orthonormal :=
  Vec.RightHanded.half_turn hf

theorem halfTurnAboutX_orthonormal : f.halfTurnAboutX.Orthonormal :=
  (Vec.RightHanded.cycle hf).half_turn.cycle.cycle

theorem halfTurnAboutY_orthonormal : f.halfTurnAboutY.Orthonormal :=
  (Vec.RightHanded.cycle (Vec.RightHanded.cycle hf)).half_turn.cycle

/-- A frame whose normal does not oppose the reference's is kept or turned about its normal. -/
theorem align_of_facing (h : 0 ≤ f.zAxis.dot reference.zAxis) :
    align reference f = if agreement reference f < 0 then f.halfTurn else f := by
  have hchoice : agreement reference f < agreement reference f.halfTurn ↔
      agreement reference f < 0 := by
    rw [agreement_halfTurn]
    constructor <;> intro hlt <;> linarith
  unfold align
  simp only [if_neg (not_lt.mpr h), hchoice]
  split
  · exact ofAxes_of_orthonormal _ (halfTurn_orthonormal hf)
  · exact ofAxes_of_orthonormal _ hf

/-- A frame whose normal opposes the reference's is turned about one of the axes of its plane. -/
theorem align_of_opposed (h : f.zAxis.dot reference.zAxis < 0) :
    align reference f =
      if 0 < agreement reference f then f.halfTurnAboutY else f.halfTurnAboutX := by
  have hchoice : agreement reference f.reversed < agreement reference f.reversed.halfTurn ↔
      0 < agreement reference f := by
    rw [agreement_halfTurn, agreement_reversed]
    constructor <;> intro hlt <;> linarith
  have hback : f.reversed.halfTurn.yAxis = f.yAxis := neg_neg f.yAxis
  unfold align
  simp only [if_pos h, hchoice]
  -- the axes that were scored are left-handed; rebuilding reverses the first of them
  split
  · rw [hback]
    exact ofAxes_of_orthonormal (f := f.halfTurnAboutY) _ (halfTurnAboutY_orthonormal hf)
  · exact ofAxes_of_orthonormal (f := f.halfTurnAboutX) _ (halfTurnAboutX_orthonormal hf)

/-- **Agreement after aligning.**  Where the normals do not oppose, the agreement is that of the
better of the frame and its half turn, so it is never negative.  Where they do, the sum of the
products of the axes decides for one of two differences, which may be the negative one. -/
theorem agreement_align :
    (0 ≤ f.zAxis.dot reference.zAxis →
      agreement reference (align reference f) = |agreement reference f|) ∧
    (f.zAxis.dot reference.zAxis < 0 →
      agreement reference (align reference f) =
        if 0 < agreement reference f then
          f.yAxis.dot reference.yAxis - f.xAxis.dot reference.xAxis
        else f.xAxis.dot reference.xAxis - f.yAxis.dot reference.yAxis) := by
  constructor
  · intro h
    rw [align_of_facing hf reference h]
    split
    · rename_i hneg
      rw [agreement_halfTurn, abs_of_neg hneg]
    · rename_i hnonneg
      rw [abs_of_nonneg (not_lt.mp hnonneg)]
  · intro h
    rw [align_of_opposed hf reference h]
    split
    · exact agreement_halfTurnAboutY reference f
    · exact agreement_halfTurnAboutX reference f

end Align

/-- The world frame is brought back to agree with itself in full, whether it was turned about its
normal or about an axis of its plane. -/
theorem agreement_align_world :
    (world : Frame ℝ).halfTurn.Orthonormal ∧ (world : Frame ℝ).halfTurnAboutX.Orthonormal ∧
    agreement world (align world (world : Frame ℝ).halfTurn) = 2 ∧
    agreement world (align world (world : Frame ℝ).halfTurnAboutX) = 2 := by
  have hturned := halfTurn_orthonormal world_orthonormal
  have hover := halfTurnAboutX_orthonormal world_orthonormal
  have hfacing := agreement_align hturned world
  have hopposed := agreement_align hover world
  refine ⟨hturned, hover, ?_, ?_⟩
  · rw [hfacing.1 ?_]
    · norm_num [agreement, halfTurn, world, worldXY]
    · norm_num [halfTurn, world, worldXY]
  · rw [hopposed.2 ?_]
    · norm_num [agreement, halfTurnAboutX, world, worldXY]
    · norm_num [halfTurnAboutX, world, worldXY]

/-- The frame obtained may be the one that agrees less: so it is for a frame whose second axis and
normal are both turned away from those of the world frame. -/
theorem agreement_align_neg :
    (world : Frame ℝ).Orthonormal ∧
    (⟨Point.origin, ⟨1, 0, 0⟩, ⟨0, -3 / 5, 4 / 5⟩, ⟨0, -4 / 5, -3 / 5⟩⟩ : Frame ℝ).Orthonormal ∧
    agreement world (align world
      ⟨Point.origin, ⟨1, 0, 0⟩, ⟨0, -3 / 5, 4 / 5⟩, ⟨0, -4 / 5, -3 / 5⟩⟩) = (-8 / 5 : ℝ) := by
  have hcandidate :
      (⟨Point.origin, ⟨1, 0, 0⟩, ⟨0, -3 / 5, 4 / 5⟩, ⟨0, -4 / 5, -3 / 5⟩⟩ : Frame ℝ).Orthonormal := by
    constructor <;> norm_num [Vec.length_eq_one_iff, Vec.dot_eq, Vec.cross_eq]
  refine ⟨world_orthonormal, hcandidate, ?_⟩
  rw [align_of_opposed hcandidate world ?_, if_pos ?_, agreement_halfTurnAboutY]
  · norm_num [world, worldXY]
  · norm_num [agreement, world, worldXY]
  · norm_num [world, worldXY]

section Chain

variable {α : Type} [Scalar α]

/-- A frame as the next of a chain: aligned to the frame before it, or kept when there is none. -/
def alignNext (before : Option (Frame α)) (f : Frame α) : Frame α :=
  before.elim f fun reference => align reference f

theorem alignChain_cons
    (master : Option (Frame α))
    (f : Frame α)
    (rest : List (Frame α)) :
    alignChain master (f :: rest) =
      alignNext master f :: alignChain (some (alignNext master f)) rest := by
  cases master with
  | none =>
      rfl
  | some reference =>
      rfl

@[simp] theorem alignChain_nil (master : Option (Frame α)) :
    alignChain master ([] : List (Frame α)) = [] := by
  cases master with
  | none =>
      rfl
  | some reference =>
      rfl

theorem head?_alignChain_none (frames : List (Frame α)) :
    (alignChain none frames).head? = frames.head? := by
  cases frames with
  | nil =>
      rfl
  | cons f rest =>
      rfl

/-- What a frame becomes in a chain depends on those before it only. -/
theorem alignChain_take
    (master : Option (Frame α))
    (frames : List (Frame α))
    (n : ℕ) :
    alignChain master (frames.take n) = (alignChain master frames).take n := by
  induction frames generalizing master n with
  | nil =>
      simp
  | cons f rest ih =>
      cases n with
      | zero =>
          simp
      | succ n =>
          rw [List.take_succ_cons, alignChain_cons, alignChain_cons, List.take_succ_cons, ih]

end Chain

section Consistency

/-- What aligning keeps of a frame: its origin, its handedness and the line of its normal. -/
structure Keeps (f aligned : Frame ℝ) : Prop where
  origin : aligned.origin = f.origin
  orthonormal : aligned.Orthonormal
  zAxis : aligned.zAxis = f.zAxis ∨ aligned.zAxis = -f.zAxis

/-- The normal of a frame does not oppose that of the frame before it. -/
def Follows (before f : Frame ℝ) : Prop :=
  0 ≤ f.zAxis.dot before.zAxis

variable {f : Frame ℝ}

/-- Aligning keeps the frame but for half a turn, after which it faces the way of the reference. -/
theorem align_keeps
    (hf : f.Orthonormal)
    (reference : Frame ℝ) :
    Keeps f (align reference f) ∧ Follows reference (align reference f) := by
  rcases le_or_gt 0 (f.zAxis.dot reference.zAxis) with hfacing | hopposed
  · rw [align_of_facing hf reference hfacing]
    split
    · exact ⟨⟨rfl, halfTurn_orthonormal hf, Or.inl rfl⟩, hfacing⟩
    · exact ⟨⟨rfl, hf, Or.inl rfl⟩, hfacing⟩
  · have hfollows : 0 ≤ (-f.zAxis).dot reference.zAxis := by
      rw [Vec.neg_dot]
      linarith
    rw [align_of_opposed hf reference hopposed]
    split
    · exact ⟨⟨rfl, halfTurnAboutY_orthonormal hf, Or.inr rfl⟩, hfollows⟩
    · exact ⟨⟨rfl, halfTurnAboutX_orthonormal hf, Or.inr rfl⟩, hfollows⟩

theorem alignNext_keeps
    (hf : f.Orthonormal)
    (master : Option (Frame ℝ)) :
    Keeps f (alignNext master f) ∧ ∀ before ∈ master, Follows before (alignNext master f) := by
  cases master with
  | none =>
      exact ⟨⟨rfl, hf, Or.inl rfl⟩, by simp⟩
  | some reference =>
      have haligned := align_keeps hf reference
      refine ⟨haligned.1, ?_⟩
      rintro before ⟨⟩
      exact haligned.2

variable {frames : List (Frame ℝ)}

/-- Along a chain every frame is kept but for half a turn. -/
theorem alignChain_keeps
    (h : ∀ f ∈ frames, f.Orthonormal)
    (master : Option (Frame ℝ)) :
    List.Forall₂ Keeps frames (alignChain master frames) := by
  induction frames generalizing master with
  | nil =>
      simp
  | cons f rest ih =>
      obtain ⟨hf, hrest⟩ := List.forall_mem_cons.mp h
      rw [alignChain_cons]
      exact .cons (alignNext_keeps hf master).1 (ih hrest _)

/-- Along a chain every frame follows the one before it, the first the master. -/
theorem alignChain_follows
    (h : ∀ f ∈ frames, f.Orthonormal)
    (master : Option (Frame ℝ)) :
    (master.toList ++ alignChain master frames).IsChain Follows := by
  induction frames generalizing master with
  | nil =>
      cases master <;> simp
  | cons f rest ih =>
      obtain ⟨hf, hrest⟩ := List.forall_mem_cons.mp h
      have hnext := ih hrest (some (alignNext master f))
      rw [alignChain_cons]
      cases master with
      | none =>
          exact hnext
      | some before =>
          exact .cons_cons ((alignNext_keeps hf (some before)).2 before rfl) hnext

/-- **Chains of frames.**  Frames that are aligned one after the other keep their origins, their
handedness and the lines of their normals, and no normal opposes the one before it.  Without a
master the first frame stays as it is, and what a frame becomes does not depend on those after
it. -/
theorem alignChain_consistent
    {frames : List (Frame ℝ)}
    (h : ∀ f ∈ frames, f.Orthonormal)
    (master : Option (Frame ℝ)) :
    (alignChain master frames).length = frames.length ∧
    List.Forall₂ Keeps frames (alignChain master frames) ∧
    (master.toList ++ alignChain master frames).IsChain Follows ∧
    (alignChain none frames).head? = frames.head? ∧
    ∀ n : ℕ, alignChain master (frames.take n) = (alignChain master frames).take n := by
  have hkeeps := alignChain_keeps h master
  exact ⟨hkeeps.length_eq.symm, hkeeps, alignChain_follows h master, head?_alignChain_none frames,
    alignChain_take master frames⟩

/-- Without a master, the world frame is turned to follow one that is turned over. -/
theorem alignChain_consistent_turned :
    (∀ f ∈ [(world : Frame ℝ).halfTurnAboutX, world], f.Orthonormal) ∧
    List.Forall₂ Keeps [(world : Frame ℝ).halfTurnAboutX, world]
      (alignChain none [(world : Frame ℝ).halfTurnAboutX, world]) ∧
    (alignChain none [(world : Frame ℝ).halfTurnAboutX, world]).IsChain Follows ∧
    (alignChain none [(world : Frame ℝ).halfTurnAboutX, world]).head? =
      some (world : Frame ℝ).halfTurnAboutX := by
  have hframes : ∀ f ∈ [(world : Frame ℝ).halfTurnAboutX, world], f.Orthonormal := by
    simpa using ⟨halfTurnAboutX_orthonormal world_orthonormal, world_orthonormal⟩
  obtain ⟨-, hkeeps, hfollows, hhead, -⟩ := alignChain_consistent hframes none
  exact ⟨hframes, hkeeps, hfollows, hhead⟩

end Consistency

end Frame

end FieldGeometry
