import FieldGeometry.Proofs.Superposition
import FieldGeometry.Scalar.Double

/-!
# Idle sources

A source is idle at a point when its region leaves the point out or its action there is not finite.
Idle sources do not interfere: the value of a field is a sum over the contributions, and an idle
source makes none.  All that it leaves behind is its place in the list, by which the indices of the
sources after it are counted.

**One source.**  Inserted at a position, an idle source moves the indices from that position on by
one and changes nothing else (`contributionsFrom_insertIdx`).  **Any number.**  By induction so do
idle sources that are inserted one after the other, each at its position (`evaluate_insertAll`);
read from right to left, this is what removing them does.  **All of them.**  A list of sources
contributes the same as its active ones do, but for the indices (`unindexed_contributionsFrom`), so
fields with the same active sources have the same values.

Nothing here uses a law of arithmetic, so it holds of machine numbers as well as of exact ones.
-/

namespace FieldGeometry

variable {α : Type} [Scalar α]

namespace Source

/-- The source has no part in the value of a field at a point: its region leaves the point out, or
its action there has a part that is not finite. -/
def IdleAt (s : Source α) (p : Point α) : Prop :=
  s.actsAt p = false ∨ (s.model.sample p).vector.isFinite = false ∨
    Scalar.isFinite (s.model.sample p).strength = false

instance (s : Source α) (p : Point α) : Decidable (s.IdleAt p) :=
  inferInstanceAs (Decidable (_ ∨ _))

/-- The idle sources are those without an action. -/
theorem sample?_eq_none_iff {s : Source α} {p : Point α} : s.sample? p = none ↔ s.IdleAt p := by
  cases hacts : s.actsAt p <;> cases hvector : (s.model.sample p).vector.isFinite <;>
    simp [sample?, IdleAt, Sample.isFinite, hacts, hvector]

end Source

namespace Contribution

/-- The same part in a field that has one more source at the position `k`. -/
def movedPast (k : Nat) (c : Contribution α) : Contribution α :=
  if k ≤ c.index then c.shift 1 else c

/-- The part without its place in the field. -/
def unindexed (c : Contribution α) : Contribution α :=
  { c with index := 0 }

omit [Scalar α] in
theorem sample_movedPast (k : Nat) (c : Contribution α) : (c.movedPast k).sample = c.sample := by
  unfold movedPast
  split <;> rfl

omit [Scalar α] in
theorem sample_unindexed (c : Contribution α) : c.unindexed.sample = c.sample := by
  rfl

end Contribution

/-- The value with the places of its parts forgotten. -/
def Evaluation.unindexed (e : Evaluation α) : Evaluation α :=
  { e with contributions := e.contributions.map Contribution.unindexed }

namespace Field

/-- The field with one more source, which comes to stand at the position `k`. -/
def insert (f : Field α) (k : Nat) (s : Source α) : Field α :=
  { f with sources := f.sources.insertIdx k s }

/-- The field with more sources, inserted one after the other, each at its position. -/
def insertAll (f : Field α) (inserts : List (Nat × Source α)) : Field α :=
  inserts.foldl (fun g i => g.insert i.1 i.2) f

/-- The sources that are not idle at a point. -/
def activeSources (f : Field α) (p : Point α) : List (Source α) :=
  f.sources.filter fun s => ¬ s.IdleAt p

section Contributions

variable {p : Point α} {s : Source α} {ss : List (Source α)} (i j k : Nat)

theorem contributionsFrom_cons_of_idle
    (hs : s.IdleAt p)
    (ss : List (Source α)) :
    contributionsFrom p i (s :: ss) = contributionsFrom p (i + 1) ss := by
  rw [contributionsFrom, Source.sample?_eq_none_iff.mpr hs]

/-- Indices are counted from the first on. -/
theorem le_index_of_mem
    {c : Contribution α}
    (hc : c ∈ contributionsFrom p i ss) :
    i ≤ c.index := by
  induction ss generalizing i with
  | nil =>
      cases hc
  | cons s ss ih =>
      rw [contributionsFrom] at hc
      cases hsample : s.sample? p with
      | none =>
          rw [hsample] at hc
          exact Nat.le_of_succ_le (ih (i + 1) hc)
      | some sample =>
          rw [hsample] at hc
          rcases List.mem_cons.mp hc with rfl | hrest
          · exact Nat.le_refl i
          · exact Nat.le_of_succ_le (ih (i + 1) hrest)

/-- An idle source at a position moves the indices from there on. -/
theorem contributionsFrom_insertIdx
    (hs : s.IdleAt p)
    (ss : List (Source α)) :
    contributionsFrom p i (ss.insertIdx k s) =
      (contributionsFrom p i ss).map (Contribution.movedPast (i + k)) := by
  induction k generalizing i ss with
  | zero =>
      -- at the front all indices are at or after the position
      rw [List.insertIdx_zero, contributionsFrom_cons_of_idle i hs, contributionsFrom_add]
      refine List.map_congr_left fun c hc => ?_
      rw [Contribution.movedPast, Nat.add_zero, if_pos (le_index_of_mem i hc)]
  | succ k ih =>
      cases ss with
      | nil =>
          rfl
      | cons t ss =>
          have hnext : i + 1 + k = i + (k + 1) := by omega
          have hfirst : ¬ i + (k + 1) ≤ i := by omega
          rw [List.insertIdx_succ_cons, contributionsFrom, contributionsFrom, ih, hnext]
          cases t.sample? p with
          | none =>
              rfl
          | some sample =>
              rw [List.map_cons, Contribution.movedPast, if_neg hfirst]

/-- A list of sources contributes what its active ones do. -/
theorem unindexed_contributionsFrom (ss : List (Source α)) :
    (contributionsFrom p i ss).map Contribution.unindexed =
      (contributionsFrom p j (ss.filter fun s => ¬ s.IdleAt p)).map Contribution.unindexed := by
  induction ss generalizing i j with
  | nil =>
      rfl
  | cons s ss ih =>
      by_cases hs : s.IdleAt p
      · rw [contributionsFrom_cons_of_idle i hs, List.filter_cons_of_neg (by simpa using hs)]
        exact ih (i + 1) j
      · obtain ⟨sample, hsample⟩ :=
          Option.ne_none_iff_exists'.mp (mt Source.sample?_eq_none_iff.mp hs)
        rw [List.filter_cons_of_pos (by simpa using hs)]
        simp only [contributionsFrom, hsample, List.map_cons]
        rw [ih (i + 1) (j + 1)]
        rfl

end Contributions

section Evaluate

variable (f : Field α) (p : Point α)

/-- The sums do not see where the parts stand. -/
theorem superpose_map
    {change : Contribution α → Contribution α}
    (h : ∀ c, (change c).sample = c.sample)
    (parts : List (Contribution α)) :
    superpose p (parts.map change) =
      { superpose p parts with contributions := parts.map change } := by
  simp only [superpose, List.map_map, Function.comp_def, h]

theorem evaluate_insert
    {s : Source α}
    (hs : s.IdleAt p)
    (k : Nat) :
    (f.insert k s).evaluate p =
      { f.evaluate p with
        contributions := (f.evaluate p).contributions.map (Contribution.movedPast k) } := by
  have hparts : (f.insert k s).contributions p =
      (f.contributions p).map (Contribution.movedPast k) := by
    rw [contributions, contributions, insert, contributionsFrom_insertIdx 0 k hs, Nat.zero_add]
  rw [evaluate, hparts]
  exact superpose_map p (Contribution.sample_movedPast k) _

/-- Idle sources that are inserted one after the other move the indices one after the other. -/
theorem evaluate_insertAll
    {inserts : List (Nat × Source α)}
    (h : ∀ i ∈ inserts, i.2.IdleAt p) :
    (f.insertAll inserts).evaluate p =
      { f.evaluate p with
        contributions := (f.evaluate p).contributions.map fun c =>
          inserts.foldl (fun moved i => moved.movedPast i.1) c } := by
  induction inserts generalizing f with
  | nil =>
      simp [insertAll]
  | cons i rest ih =>
      obtain ⟨hi, hrest⟩ := List.forall_mem_cons.mp h
      have hrun := ih (f.insert i.1 i.2) hrest
      rw [evaluate_insert f p hi] at hrun
      simpa only [insertAll, List.foldl_cons, List.map_map, Function.comp_def] using hrun

theorem unindexed_evaluate :
    (f.evaluate p).unindexed =
      superpose p ((f.contributions p).map Contribution.unindexed) :=
  (superpose_map p Contribution.sample_unindexed (f.contributions p)).symm

/-- Without the indices, the value of a field is determined by its active sources. -/
theorem unindexed_evaluate_congr
    {f g : Field α}
    (h : f.activeSources p = g.activeSources p) :
    (f.evaluate p).unindexed = (g.evaluate p).unindexed := by
  have hactive : ∀ f : Field α, (f.contributions p).map Contribution.unindexed =
      (contributionsFrom p 0 (f.activeSources p)).map Contribution.unindexed :=
    fun f => unindexed_contributionsFrom 0 0 f.sources
  rw [unindexed_evaluate, unindexed_evaluate, hactive f, hactive g, h]

end Evaluate

/-- **Idle sources do not interfere.**  A source that is idle at a point may be inserted anywhere,
or any number of them one after the other: the value of the field there keeps its vector, magnitude,
direction, strength and tensor, and its contributions, except that their indices move by one for
every source inserted before them.  Fields with the same active sources have the same value there,
but for the indices. -/
theorem evaluate_idle
    {α : Type}
    [Scalar α] :
    (∀ (f : Field α) (p : Point α) (s : Source α) (k : Nat), s.IdleAt p →
      (f.insert k s).evaluate p =
        { f.evaluate p with
          contributions := (f.evaluate p).contributions.map (Contribution.movedPast k) }) ∧
    (∀ (f : Field α) (p : Point α) (inserts : List (Nat × Source α)),
      (∀ i ∈ inserts, i.2.IdleAt p) →
      (f.insertAll inserts).evaluate p =
        { f.evaluate p with
          contributions := (f.evaluate p).contributions.map fun c =>
            inserts.foldl (fun moved i => moved.movedPast i.1) c }) ∧
    (∀ (f g : Field α) (p : Point α), f.activeSources p = g.activeSources p →
      (f.evaluate p).unindexed = (g.evaluate p).unindexed) := by
  refine ⟨?_, ?_, ?_⟩
  · intro f p s k hs
    exact evaluate_insert f p hs k
  · intro f p inserts hinserts
    exact evaluate_insertAll f p hinserts
  · intro f g p h
    exact unindexed_evaluate_congr p h

/-- A uniform source of machine numbers. -/
def breeze : Source Float :=
  .ofModel (.uniform ⟨0, 0, 1⟩)

/-- The same in the unit cube only. -/
def shelteredBreeze : Source Float :=
  .ofModel (.uniform ⟨0, 0, 1⟩) (some (.world ⟨0, 0, 0⟩ ⟨1, 1, 1⟩))

/-- A uniform source whose vector is infinite. -/
def brokenBreeze : Source Float :=
  .ofModel (.uniform ⟨1 / 0, 0, 0⟩)

/-- In double precision, outside the cube: the infinite source at the front and the sheltered one
after it move the index of the third, and change nothing else. -/
theorem evaluate_idle_breezes :
    brokenBreeze.IdleAt ⟨0, 0, 2⟩ ∧ shelteredBreeze.IdleAt ⟨0, 0, 2⟩ ∧
    (((Field.ofSource breeze).insertAll [(0, brokenBreeze), (1, shelteredBreeze)]).evaluate
        ⟨0, 0, 2⟩).vector = ((Field.ofSource breeze).evaluate ⟨0, 0, 2⟩).vector ∧
    (((Field.ofSource breeze).insertAll [(0, brokenBreeze), (1, shelteredBreeze)]).evaluate
        ⟨0, 0, 2⟩).contributions.map (·.index) = [2] ∧
    (((Field.ofSource breeze).insert 1 shelteredBreeze).evaluate ⟨0, 0, 2⟩).unindexed =
      ((Field.ofSource breeze).evaluate ⟨0, 0, 2⟩).unindexed := by
  have hbroken : brokenBreeze.IdleAt ⟨0, 0, 2⟩ := by decide +kernel
  have hsheltered : shelteredBreeze.IdleAt ⟨0, 0, 2⟩ := by decide +kernel
  obtain ⟨-, hall, hactive⟩ := evaluate_idle (α := Float)
  have hidle : ∀ i ∈ [(0, brokenBreeze), (1, shelteredBreeze)], i.2.IdleAt ⟨0, 0, 2⟩ := by
    simpa using ⟨hbroken, hsheltered⟩
  have hsums := hall (.ofSource breeze) ⟨0, 0, 2⟩ _ hidle
  refine ⟨hbroken, hsheltered, ?_, ?_, ?_⟩
  · rw [hsums]
  · rw [hsums]
    decide +kernel
  · apply hactive
    simp [activeSources, insert, ofSource, List.filter_cons, hsheltered]

end Field

end FieldGeometry
