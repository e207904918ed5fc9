import FieldGeometry.Proofs.Edits
import FieldGeometry.Proofs.NameKeys
import FieldGeometry.Proofs.RegistryAliases
import FieldGeometry.Text.EditDistance
import Mathlib.Data.List.MinMax
import Mathlib.Data.Prod.Lex
import Mathlib.Data.String.Basic
import Mathlib.Tactic

/-!
# Suggestions

A registry that finds nothing under a key suggests a name instead.

**The choice.**  Of the names within reach the nearest is suggested, and of several as near the
first in order (`IsSuggestion`).  How near a name is, a host measures by an edit distance, so the
suggestion is the same for every host (`closest?_eq_some_iff`).  No two names have the same rank, so
there is at most one such name and the order in which the names are looked at does not matter
(`closest?_congr`).

**The way back.**  What is suggested is a stored name, and stored names are their own keys
(`Keyed`).  This is the invariant of a history: each call stores keys only, hence every sequence of
calls does (`Keyed.continued`).  So the suggestion finds a component (`require_suggests`).
-/

namespace FieldGeometry

namespace Registry

section Choice

variable {distance : String → String → Nat} {key : String} {names others : List String} {s : String}

/-- What names are compared by: the distance from the key, then the order of texts. -/
def rank (distance : String → String → Nat) (key name : String) : Nat ×ₗ String :=
  toLex (distance key name, name)

theorem rank_injective (distance : String → String → Nat) (key : String) :
    Function.Injective (rank distance key) := by
  intro a b h
  exact (Prod.mk.injEq _ _ _ _).mp (toLex.injective h) |>.2

theorem nearer_iff (key a b : String) :
    nearer distance key a b = true ↔ rank distance key a < rank distance key b := by
  simp [nearer, rank, Prod.Lex.toLex_lt_toLex]

theorem closest?_eq_argmin (distance : String → String → Nat) (key : String) (names : List String) :
    closest? distance key names =
      (names.filter fun name => distance key name ≤ reach name).argmin (rank distance key) := by
  unfold closest? List.argmin
  congr 1
  funext best name
  cases best with
  | none =>
      rfl
  | some best =>
      by_cases hnearer : nearer distance key name best = true
      · simp only [List.argAux, hnearer, if_true, if_pos ((nearer_iff key name best).mp hnearer)]
      · have hrank := mt (nearer_iff key name best).mpr hnearer
        simp only [List.argAux, if_neg hnearer, if_neg hrank]

/-- Of the names within reach the one of the least rank is chosen. -/
theorem closest?_eq_some_iff_rank :
    closest? distance key names = some s ↔
      (s ∈ names ∧ distance key s ≤ reach s) ∧
        ∀ t ∈ names, distance key t ≤ reach t → rank distance key s ≤ rank distance key t := by
  rw [closest?_eq_argmin, List.argmin_eq_some_iff]
  simp only [List.mem_filter, decide_eq_true_eq]
  constructor
  · rintro ⟨hs, hleast, -⟩
    exact ⟨hs, fun t ht htreach => hleast t ⟨ht, htreach⟩⟩
  · rintro ⟨hs, hleast⟩
    refine ⟨hs, fun t ht => hleast t ht.1 ht.2, ?_⟩
    -- a name of the same rank is the same name, so none comes earlier
    rintro t ⟨ht, htreach⟩ hle
    have hsame : t = s := rank_injective distance key (le_antisymm hle (hleast t ht htreach))
    rw [hsame]

/-- The suggestion depends on which names there are only. -/
theorem closest?_congr (hmem : ∀ n, n ∈ names ↔ n ∈ others) :
    closest? distance key names = closest? distance key others := by
  apply Option.ext
  intro s
  simp only [closest?_eq_some_iff_rank, hmem]

/-- The best suggestion among names, so many edits from the key: it is within reach, and of the
names within reach none takes fewer edits and none that takes as many comes before it. -/
structure IsSuggestion (key : String) (names : List String) (s : String) (n : Nat) : Prop where
  mem : s ∈ names
  edits : Text.IsDistance key.toList s.toList n
  within_reach : n ≤ reach s
  least : ∀ t ∈ names, ∀ m, Text.IsDistance key.toList t.toList m → m ≤ reach t →
    n < m ∨ (n = m ∧ s ≤ t)

section Edits

variable (hdistance : Text.IsEditDistance distance)

include hdistance

theorem closest?_eq_some_iff :
    closest? distance key names = some s ↔ ∃ n, IsSuggestion key names s n := by
  rw [closest?_eq_some_iff_rank]
  constructor
  · rintro ⟨⟨hmem, hreach⟩, hleast⟩
    refine ⟨distance key s, hmem, hdistance key s, hreach, ?_⟩
    intro t ht m hm htreach
    obtain rfl := hm.unique (hdistance key t)
    exact Prod.Lex.toLex_le_toLex.mp (hleast t ht htreach)
  · rintro ⟨n, h⟩
    obtain rfl := h.edits.unique (hdistance key s)
    refine ⟨⟨h.mem, h.within_reach⟩, ?_⟩
    intro t ht htreach
    exact Prod.Lex.toLex_le_toLex.mpr (h.least t ht _ (hdistance key t) htreach)

theorem closest?_eq_none_iff :
    closest? distance key names = none ↔
      ∀ t ∈ names, ∀ n, Text.Edits key.toList t.toList n → reach t < n := by
  rw [closest?_eq_argmin, List.argmin_eq_none, List.filter_eq_nil_iff]
  simp only [decide_eq_true_eq, not_le]
  constructor
  · intro h t ht n hn
    exact (h t ht).trans_le ((hdistance key t).2 hn)
  · intro h t ht
    exact h t ht _ (hdistance key t).1

end Edits

end Choice

section StoredNames

variable {history : List Entry} {r : Registry}

/-- The names of a history are their own keys. -/
def Keyed (history : List Entry) : Prop :=
  ∀ name c, Entry.name name c ∈ history → nameKey name = name

theorem Keyed.append
    {later : List Entry}
    (h : Keyed history)
    (hlater : Keyed later) :
    Keyed (history ++ later) := by
  intro name c hmem
  rcases List.mem_append.mp hmem with hmem | hmem
  · exact h name c hmem
  · exact hlater name c hmem

theorem nameKey_of_mem_map
    {names : List String}
    {name : String}
    {c d : Component}
    (hmem : Entry.name name c ∈ names.map fun given => Entry.name (nameKey given) d) :
    nameKey name = name := by
  obtain ⟨given, -, heq⟩ := List.mem_map.mp hmem
  rw [Entry.name.injEq] at heq
  rw [← heq.1, nameKey_nameKey]

/-- **Step of the invariant.**  A call stores keys. -/
theorem keyed_stored (history : List Entry) (call : Call) : Keyed (call.stored history) := by
  intro name c hmem
  cases call with
  | registerGuid guid d =>
      simp [Call.stored] at hmem
  | registerNames names d =>
      exact nameKey_of_mem_map hmem
  | registerAlias newName target =>
      simp only [Call.stored] at hmem
      split at hmem
      · exact absurd hmem List.not_mem_nil
      · split at hmem
        · exact absurd hmem List.not_mem_nil
        · rw [List.mem_singleton, Entry.name.injEq] at hmem
          rw [hmem.1, nameKey_nameKey]

/-- **The invariant of a sequence of calls.** -/
theorem Keyed.continued
    (h : Keyed history)
    (calls : List Call) :
    Keyed (continued history calls) := by
  induction calls generalizing history with
  | nil =>
      exact h
  | cons call calls ih =>
      exact ih (h.append (keyed_stored history call))

theorem keyed_standardHistory : Keyed standardHistory := by
  intro name c hmem
  obtain ⟨d, -, hmem⟩ := List.mem_flatMap.mp hmem
  rcases List.mem_append.mp hmem with hmem | hmem
  · obtain ⟨guid, -, heq⟩ := List.mem_map.mp hmem
    cases heq
  · exact nameKey_of_mem_map hmem

/-- A sequence of calls leads to the registry, from the empty registry or from the standard one. -/
def Reachable (distance : String → String → Nat) (r : Registry) : Prop :=
  ∃ calls, r = run distance empty calls ∨ r = run distance standard calls

theorem Reachable.exists_history
    {distance : String → String → Nat}
    (h : Reachable distance r) :
    ∃ history, Keyed history ∧ Records history r := by
  obtain ⟨calls, rfl | rfl⟩ := h
  · have hnone : Keyed [] := fun _ _ hmem => absurd hmem List.not_mem_nil
    exact ⟨_, hnone.continued calls, empty_records.run distance calls⟩
  · exact ⟨_, keyed_standardHistory.continued calls, standard_records.run distance calls⟩

/-- A name of a registry finds a component in it. -/
theorem Reachable.require_name
    {distance : String → String → Nat}
    (h : Reachable distance r)
    {name : String}
    (hname : name ∈ r.names) :
    ∃ c, r.require distance name = .ok c := by
  obtain ⟨history, hkeyed, hrecords⟩ := h.exists_history
  obtain ⟨d, hentry⟩ := (hrecords.mem_names_iff name).mp hname
  obtain ⟨c, hc⟩ := (Dictionary.mem_keys_iff r.byName name).mp hname
  refine ⟨(r.identified? name).getD c, require_eq_ok distance ?_⟩
  rw [resolve_eq_orElse, hkeyed name d hentry, hc]
  cases r.identified? name with
  | none =>
      rfl
  | some e =>
      rfl

end StoredNames

/-- **What is suggested for an unknown key.**  The distance of texts is an edit distance.  In a
registry that any calls lead to, a key that finds nothing is unknown, and the suggestion is the name
that the fewest edits separate from the key, the first in order of those as near, among the names at
most as many edits away as a third of their size or three.  There is none exactly when no name is
within that reach.  The order in which the names are looked at does not matter, and the suggestion
finds a component. -/
theorem require_suggests
    {distance : String → String → Nat}
    {r : Registry}
    {key : String}
    {fault : Fault}
    (hdistance : Text.IsEditDistance distance)
    (hreachable : Reachable distance r)
    (hfault : r.require distance key = .error fault) :
    ∃ suggestion,
      fault = .unknown key suggestion ∧
      (∀ s, suggestion = some s ↔ ∃ n, IsSuggestion (nameKey key) r.names s n) ∧
      (suggestion = none ↔
        ∀ t ∈ r.names, ∀ n, Text.Edits (nameKey key).toList t.toList n → reach t < n) ∧
      (∀ names, names.Perm r.names → closest? distance (nameKey key) names = suggestion) ∧
      ∀ s, suggestion = some s → ∃ c, r.require distance s = .ok c := by
  refine ⟨closest? distance (nameKey key) r.names, ?_, ?_, closest?_eq_none_iff hdistance, ?_, ?_⟩
  · unfold require at hfault
    split at hfault
    · cases hfault
    · cases hfault
      rfl
  · intro s
    exact closest?_eq_some_iff hdistance
  · intro names hperm
    exact closest?_congr fun n => hperm.mem_iff
  · intro s hs
    obtain ⟨n, hsuggestion⟩ := (closest?_eq_some_iff hdistance).mp hs
    exact hreachable.require_name hsuggestion.mem

/-- A registry in which two names are one edit from a key. -/
def carAndBar : Registry :=
  run Text.editDistance empty [.registerNames ["Car"] .xyPlane, .registerAlias " BAR " "car"]

/-- Of two names one edit from a key the first in order is suggested, and it finds the component. -/
theorem require_suggests_bar :
    Text.IsEditDistance Text.editDistance ∧
    Reachable Text.editDistance carAndBar ∧
    carAndBar.require Text.editDistance " Aar" = .error (.unknown " Aar" (some "bar")) ∧
    (∃ n, IsSuggestion "aar" carAndBar.names "bar" n) ∧
    ∃ c, carAndBar.require Text.editDistance "bar" = .ok c := by
  have hreachable : Reachable Text.editDistance carAndBar := ⟨_, Or.inl rfl⟩
  have hunknown : carAndBar.require Text.editDistance " Aar" =
      .error (.unknown " Aar" (some "bar")) := by
    decide
  obtain ⟨suggestion, hfault, hsuggestion, -, -, hfound⟩ :=
    require_suggests Text.editDistance_isEditDistance hreachable hunknown
  cases hfault
  exact ⟨Text.editDistance_isEditDistance, hreachable, hunknown, (hsuggestion "bar").mp rfl,
    hfound "bar" rfl⟩

end Registry

end FieldGeometry
