import FieldGeometry.Field
import FieldGeometry.Proofs.Exact

/-!
# The algebra of fields

Merging adds fields up.  `Field.append` is associative and has `Field.empty` on both sides, so
`Field.merge`, which folds it over a list, does not depend on how the list is grouped
(`merge_flatten`).  Of a merged field the sources and the declared regions are those of its fields
in order, and under each key of its metadata stands what the last field holds there.

The only part that is not a concatenation is the metadata.  Extending a dictionary lets the second
one win (`Dictionary.get?_extend`); with dictionaries determined by what they answer, its laws are
laws of a choice between two options.

Breaking a field repeats the regions and the metadata of the whole in each part.  Putting the parts
together repeats the regions once for each source and, as extending a dictionary by itself changes
nothing, restores the metadata (`merge_split`).  What a field declares has no part in evaluating it.
-/

namespace FieldGeometry

namespace Dictionary

variable {β : Type}

/-- Entries put in one after another, under ascending keys, win over what is there. -/
theorem get?_foldl_insert
    {l : List (String × β)}
    (h : l.Pairwise fun a b => a.1 < b.1)
    (d : Dictionary β)
    (key : String) :
    (l.foldl (fun d entry => d.insert entry.1 entry.2) d).get? key =
      (find? key l).or (d.get? key) := by
  induction l generalizing d with
  | nil =>
      rfl
  | cons entry rest ih =>
      obtain ⟨k, v⟩ := entry
      obtain ⟨hfirst, hrest⟩ := List.pairwise_cons.mp h
      rw [List.foldl_cons, ih hrest, get?_insert, find?]
      by_cases hk : k = key
      · -- no later entry stands under the same key
        have hnone : find? key rest = none :=
          find?_eq_none fun e he heq => String.lt_irrefl _ (heq ▸ hk ▸ hfirst e he)
        rw [if_pos hk, if_pos hk, hnone, Option.none_or, Option.some_or]
      · rw [if_neg hk, if_neg hk]

section Extension

variable (c d e : Dictionary β)

/-- A dictionary that is extended answers from the extension first. -/
theorem get?_extend (key : String) :
    (d.extend e).get? key = (e.get? key).or (d.get? key) :=
  get?_foldl_insert e.ascending d key

theorem extend_empty : d.extend empty = d := by
  rfl

theorem empty_extend : empty.extend d = d := by
  refine ext_get? fun key => ?_
  rw [get?_extend]
  exact Option.or_none

theorem extend_assoc : (c.extend d).extend e = c.extend (d.extend e) := by
  refine ext_get? fun key => ?_
  simp only [get?_extend, Option.or_assoc]

theorem extend_self : d.extend d = d := by
  refine ext_get? fun key => ?_
  rw [get?_extend, Option.or_self]

end Extension

end Dictionary

namespace Field

variable {α : Type}

section Append

variable (f g h : Field α)

theorem append_empty : f.append empty = f := by
  simp only [append, empty, List.append_nil, Dictionary.extend_empty]

theorem empty_append : empty.append f = f := by
  simp only [append, empty, List.nil_append, Dictionary.empty_extend]

theorem append_assoc : (f.append g).append h = f.append (g.append h) := by
  simp only [append, List.append_assoc, Dictionary.extend_assoc]

instance : Std.Associative (append (α := α)) where
  assoc := append_assoc

end Append

section Merge

variable (f : Field α) (fs gs : List (Field α))

theorem merge_nil : merge ([] : List (Field α)) = empty := by
  rfl

theorem merge_cons : merge (f :: fs) = f.append (merge fs) := by
  rw [merge, merge, List.foldl_cons, empty_append]
  calc
    fs.foldl append f = fs.foldl append (f.append empty) := by rw [append_empty]
    _ = f.append (fs.foldl append empty) := List.foldl_assoc

theorem merge_singleton : merge [f] = f := by
  rw [merge_cons, merge_nil, append_empty]

theorem merge_append : merge (fs ++ gs) = (merge fs).append (merge gs) := by
  induction fs with
  | nil =>
      rw [List.nil_append, merge_nil, empty_append]
  | cons f fs ih =>
      rw [List.cons_append, merge_cons, merge_cons, ih, append_assoc]

/-- Fields may be merged in groups first, and the groups afterwards. -/
theorem merge_flatten (groups : List (List (Field α))) :
    merge groups.flatten = merge (groups.map merge) := by
  induction groups with
  | nil =>
      rfl
  | cons group groups ih =>
      rw [List.flatten_cons, merge_append, List.map_cons, merge_cons, ih]

/-- What appending concatenates, merging concatenates over the list. -/
theorem merge_eq_flatMap
    {γ : Type}
    {part : Field α → List γ}
    (hempty : part empty = [])
    (happend : ∀ f g, part (f.append g) = part f ++ part g) :
    part (merge fs) = fs.flatMap part := by
  induction fs with
  | nil =>
      exact hempty
  | cons f fs ih =>
      rw [merge_cons, happend, ih, List.flatMap_cons]

theorem sources_merge : (merge fs).sources = fs.flatMap (·.sources) :=
  merge_eq_flatMap fs rfl fun _ _ => rfl

theorem regions_merge : (merge fs).regions = fs.flatMap (·.regions) :=
  merge_eq_flatMap fs rfl fun _ _ => rfl

theorem metadata_merge_cons :
    (merge (f :: fs)).metadata = f.metadata.extend (merge fs).metadata := by
  rw [merge_cons]
  rfl

/-- Under each key a merged field holds what the last of its fields that has the key holds. -/
theorem get?_metadata_merge (key : String) :
    (merge fs).metadata.get? key = fs.reverse.findSome? fun f => f.metadata.get? key := by
  induction fs with
  | nil =>
      rfl
  | cons f fs ih =>
      rw [metadata_merge_cons, Dictionary.get?_extend, ih, List.reverse_cons, List.findSome?_append]
      cases hf : f.metadata.get? key with
      | none =>
          simp [hf]
      | some text =>
          simp [hf]

end Merge

section Split

variable (f : Field α) (fs : List (Field α))

theorem map_sources_split : f.split.map (·.sources) = f.sources.map fun s => [s] := by
  rw [split, List.map_map]
  rfl

theorem sources_merge_split : (merge f.split).sources = f.sources := by
  calc
    (merge f.split).sources = (f.split.map (·.sources)).flatten := sources_merge f.split
    _ = f.sources.flatMap fun s => [s] := by rw [map_sources_split]; rfl
    _ = f.sources := List.flatMap_singleton' f.sources

theorem regions_merge_split :
    (merge f.split).regions = (List.replicate f.sources.length f.regions).flatten := by
  rw [regions_merge, List.flatMap_def, split, List.map_map]
  exact congrArg List.flatten List.map_const'

/-- Fields with the same metadata have it in common once they are merged. -/
theorem metadata_merge_of_forall
    {m : Metadata}
    (h : ∀ g ∈ fs, g.metadata = m)
    (hne : fs ≠ []) :
    (merge fs).metadata = m := by
  induction fs with
  | nil =>
      exact absurd rfl hne
  | cons g rest ih =>
      obtain ⟨hg, hrest⟩ := List.forall_mem_cons.mp h
      rw [metadata_merge_cons, hg]
      cases rest with
      | nil =>
          exact m.extend_empty
      | cons g' rest' =>
          rw [ih hrest (List.cons_ne_nil _ _)]
          exact m.extend_self

theorem metadata_merge_split
    (h : f.sources ≠ []) :
    (merge f.split).metadata = f.metadata := by
  refine metadata_merge_of_forall f.split ?_ ?_
  · intro g hg
    obtain ⟨s, -, rfl⟩ := List.mem_map.mp hg
    rfl
  · intro hnil
    exact h (List.map_eq_nil_iff.mp hnil)

end Split

/-- Evaluating a field looks at its sources only. -/
theorem evaluate_congr
    [Scalar α]
    {f g : Field α}
    (h : f.sources = g.sources)
    (p : Point α) :
    f.evaluate p = g.evaluate p := by
  rw [evaluate, evaluate, contributions, contributions, h]

/-- **Breaking and merging.**  The parts of a field that has sources merge into a field with the
same sources and metadata and the same values everywhere, which declares the regions of the field
once for each source.  The parts of a merged field hold the sources of its fields in order, one
each. -/
theorem merge_split
    {α : Type}
    [Scalar α] :
    (∀ f : Field α, f.sources ≠ [] →
      (merge f.split).sources = f.sources ∧
      (merge f.split).metadata = f.metadata ∧
      (merge f.split).regions = (List.replicate f.sources.length f.regions).flatten ∧
      ∀ p, (merge f.split).evaluate p = f.evaluate p) ∧
    (∀ fs : List (Field α),
      (merge fs).split.map (·.sources) = (fs.flatMap (·.sources)).map fun s => [s]) := by
  constructor
  · intro f hf
    have hsources := sources_merge_split f
    exact ⟨hsources, metadata_merge_split f hf, regions_merge_split f, evaluate_congr hsources⟩
  · intro fs
    rw [map_sources_split, sources_merge]

/-- A uniform field with a name, which declares the unit cube. -/
noncomputable def namedWind (name : String) (v : Vec ℝ) : Field ℝ :=
  ⟨[.ofModel (.uniform v)], [.world ⟨0, 0, 0⟩ ⟨1, 1, 1⟩], .ofList [("name", name)]⟩

/-- A field of two sources keeps its name, and declares its two regions twice. -/
theorem merge_split_winds :
    (merge [namedWind "east" Vec.basisX, namedWind "north" Vec.basisY]).sources ≠ [] ∧
    (merge (merge [namedWind "east" Vec.basisX, namedWind "north" Vec.basisY]).split).metadata =
      (merge [namedWind "east" Vec.basisX, namedWind "north" Vec.basisY]).metadata ∧
    (merge (merge [namedWind "east" Vec.basisX, namedWind "north" Vec.basisY]).split).regions.length =
      4 := by
  have hne : (merge [namedWind "east" Vec.basisX, namedWind "north" Vec.basisY]).sources ≠ [] :=
    List.cons_ne_nil _ _
  obtain ⟨-, hmetadata, hregions, -⟩ := merge_split.1 _ hne
  refine ⟨hne, hmetadata, ?_⟩
  rw [hregions]
  rfl

end Field

end FieldGeometry
