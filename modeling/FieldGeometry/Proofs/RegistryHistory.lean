import FieldGeometry.Registry

/-!
# Registries and their history

A registry is what was stored last.  This module writes down, beside the registry, the history of
what was stored: one entry for each identifier or name, in order.  A key stands for the component
that the last entry under it as an identifier holds or, where there is none, the last entry under it
as a name (`meaning?`).  A new name for a key stores the component that the key stands for at that
moment; a refused one stores nothing.

`Records` is the invariant: each of the two dictionaries answers with the last entry under a key.
One stored entry keeps it, hence every call does (`Records.after`), hence every sequence of calls
(`Records.run`).  `Records.resolve_eq`, `Records.require_eq` and `Records.mem_names_iff` read the
answers of a registry off its history.  A call answers beside the registry that it leaves, and one
that is refused leaves the registry as it was (`Records.refused`).
-/

namespace FieldGeometry

namespace Registry

/-- Something stored in a registry, with the key under which it is stored. -/
inductive Entry where
  | guid (key : String) (c : Component)
  | name (key : String) (c : Component)

/-- The component that an entry holds for an identifier. -/
def Entry.underGuid? (key : String) : Entry → Option Component
  | .guid k c => if k = key then some c else none
  | .name _ _ => none

/-- The component that an entry holds for a name. -/
def Entry.underName? (key : String) : Entry → Option Component
  | .guid _ _ => none
  | .name k c => if k = key then some c else none

/-- The component of the last entry that holds one. -/
def last? (held? : Entry → Option Component) (history : List Entry) : Option Component :=
  history.reverse.findSome? held?

/-- The component that a key stands for: the last one under it as an identifier, else the last one
under it as a name. -/
def meaning? (history : List Entry) (key : String) : Option Component :=
  last? (Entry.underGuid? (guidKey key)) history
    <|> last? (Entry.underName? (nameKey key)) history

/-- A change to a registry that a host asks for. -/
inductive Call where
  | registerGuid (guid : String) (c : Component)
  | registerNames (names : List String) (c : Component)
  | registerAlias (newName target : String)

namespace Call

/-- Whether a call is possible, and the registry that it leaves. -/
def perform (distance : String → String → Nat) (r : Registry) : Call → Except Fault Unit × Registry
  | .registerGuid guid c => (.ok (), r.registerGuid guid c)
  | .registerNames names c => (.ok (), r.registerNames names c)
  | .registerAlias newName target => r.registerAlias distance newName target

/-- The registry that a call leaves. -/
def after (distance : String → String → Nat) (r : Registry) (call : Call) : Registry :=
  (call.perform distance r).2

/-- What a call stores after a history. -/
def stored (history : List Entry) : Call → List Entry
  | .registerGuid guid c => [.guid (guidKey guid) c]
  | .registerNames names c => names.map fun name => .name (nameKey name) c
  | .registerAlias newName target =>
    if (Text.trim newName).isEmpty then []
    else
      match meaning? history target with
      | none => []
      | some c => [.name (nameKey newName) c]

end Call

/-- The registry after a sequence of calls. -/
def run (distance : String → String → Nat) (r : Registry) (calls : List Call) : Registry :=
  calls.foldl (Call.after distance) r

/-- The history after a sequence of calls. -/
def continued (history : List Entry) (calls : List Call) : List Entry :=
  calls.foldl (fun history call => history ++ call.stored history) history

/-- The history of the standard registry: each component under its identifiers and names. -/
def standardHistory : List Entry :=
  Component.all.flatMap fun c =>
    (c.guids.map fun guid => .guid (guidKey guid) c) ++
      c.names.map fun name => .name (nameKey name) c

section Histories

variable (held? : Entry → Option Component) (history : List Entry)

theorem last?_append_singleton (e : Entry) :
    last? held? (history ++ [e]) = (held? e <|> last? held? history) := by
  unfold last?
  rw [List.reverse_append, List.reverse_singleton, List.singleton_append, List.findSome?_cons]
  cases held? e with
  | none =>
      rfl
  | some c =>
      rfl

theorem exists_last?_iff :
    (∃ c, last? held? history = some c) ↔ ∃ e ∈ history, ∃ c, held? e = some c := by
  simp only [← Option.isSome_iff_exists]
  unfold last?
  rw [List.findSome?_isSome_iff]
  simp only [List.mem_reverse]

end Histories

/-- Each dictionary of the registry answers with the last entry under a key. -/
structure Records (history : List Entry) (r : Registry) : Prop where
  guid : ∀ key, r.byGuid.get? key = last? (Entry.underGuid? key) history
  name : ∀ key, r.byName.get? key = last? (Entry.underName? key) history

section Storing

variable {history : List Entry} {r : Registry}

theorem empty_records : Records [] empty :=
  ⟨fun _ => rfl, fun _ => rfl⟩

theorem Records.registerGuid
    (h : Records history r)
    (guid : String)
    (c : Component) :
    Records (history ++ [.guid (guidKey guid) c]) (r.registerGuid guid c) := by
  constructor
  · intro key
    show (r.byGuid.insert (guidKey guid) c).get? key = _
    rw [Dictionary.get?_insert, last?_append_singleton, h.guid]
    by_cases hkey : guidKey guid = key
    · simp [Entry.underGuid?, hkey]
    · simp [Entry.underGuid?, hkey]
  · intro key
    rw [last?_append_singleton]
    exact h.name key

theorem Records.registerName
    (h : Records history r)
    (name : String)
    (c : Component) :
    Records (history ++ [.name (nameKey name) c]) (r.registerName name c) := by
  constructor
  · intro key
    rw [last?_append_singleton]
    exact h.guid key
  · intro key
    show (r.byName.insert (nameKey name) c).get? key = _
    rw [Dictionary.get?_insert, last?_append_singleton, h.name]
    by_cases hkey : nameKey name = key
    · simp [Entry.underName?, hkey]
    · simp [Entry.underName?, hkey]

/-- If each item of a list stores its entries, the list stores them in order. -/
theorem Records.foldl
    {β : Type}
    {store : Registry → β → Registry}
    {entries : β → List Entry}
    (hstore : ∀ history r b, Records history r → Records (history ++ entries b) (store r b))
    (h : Records history r)
    (bs : List β) :
    Records (history ++ bs.flatMap entries) (bs.foldl store r) := by
  induction bs generalizing history r with
  | nil =>
      rw [List.flatMap_nil, List.append_nil]
      exact h
  | cons b bs ih =>
      rw [List.flatMap_cons, ← List.append_assoc]
      exact ih (hstore history r b h)

theorem Records.registerNames
    (h : Records history r)
    (names : List String)
    (c : Component) :
    Records (history ++ names.map fun name => .name (nameKey name) c)
      (r.registerNames names c) := by
  rw [List.map_eq_flatMap]
  exact h.foldl (fun _ _ name h => h.registerName name c) names

theorem Records.register
    (h : Records history r)
    (c : Component) :
    Records
      (history ++ ((c.guids.map fun guid => .guid (guidKey guid) c) ++
        c.names.map fun name => .name (nameKey name) c))
      (r.register c) := by
  rw [← List.append_assoc, List.map_eq_flatMap (l := c.guids)]
  exact (h.foldl (fun _ _ guid h => h.registerGuid guid c) c.guids).registerNames c.names c

theorem standard_records : Records standardHistory standard := by
  unfold standardHistory standard
  rw [← List.nil_append (Component.all.flatMap _)]
  exact empty_records.foldl (fun _ _ c h => h.register c) Component.all

end Storing

section Answers

variable (distance : String → String → Nat) {history : List Entry} {r : Registry}
  (h : Records history r)

include h

theorem Records.resolve_eq (key : String) :
    r.resolve (some key) (some key) none = meaning? history key := by
  unfold resolve meaning?
  simp [h.guid, h.name]

theorem Records.require_eq (key : String) :
    r.require distance key =
      match meaning? history key with
      | some c => .ok c
      | none => .error (.unknown key (closest? distance (nameKey key) r.names)) := by
  cases hmeaning : meaning? history key with
  | none =>
      simp only [require, h.resolve_eq, hmeaning]
  | some c =>
      simp only [require, h.resolve_eq, hmeaning]

theorem Records.mem_names_iff (name : String) :
    name ∈ r.names ↔ ∃ c, Entry.name name c ∈ history := by
  unfold names
  rw [Dictionary.mem_keys_iff, h.name, exists_last?_iff]
  constructor
  · rintro ⟨e, he, c, hc⟩
    cases e with
    | guid k d =>
        cases hc
    | name k d =>
        by_cases hk : k = name
        · exact ⟨d, hk ▸ he⟩
        · simp [Entry.underName?, hk] at hc
  · rintro ⟨c, hc⟩
    exact ⟨_, hc, c, if_pos rfl⟩

/-- A new name is refused when it is blank, and when its target stands for nothing. -/
theorem Records.registerAlias_eq (newName target : String) :
    r.registerAlias distance newName target =
      if (Text.trim newName).isEmpty then (.error .emptyAlias, r)
      else
        match meaning? history target with
        | some c => (.ok (), r.registerName newName c)
        | none => (.error (.unknown target (closest? distance (nameKey target) r.names)), r) := by
  unfold registerAlias
  rw [h.require_eq]
  cases meaning? history target with
  | none =>
      rfl
  | some c =>
      rfl

/-- **Step of the invariant.**  After any call the registry holds what the history says. -/
theorem Records.after (call : Call) :
    Records (history ++ call.stored history) (call.after distance r) := by
  cases call with
  | registerGuid guid c =>
      exact h.registerGuid guid c
  | registerNames names c =>
      exact h.registerNames names c
  | registerAlias newName target =>
      rw [Call.after, Call.perform, h.registerAlias_eq, Call.stored]
      by_cases hblank : (Text.trim newName).isEmpty = true
      · rw [if_pos hblank, if_pos hblank, List.append_nil]
        exact h
      · rw [if_neg hblank, if_neg hblank]
        cases meaning? history target with
        | none =>
            rw [List.append_nil]
            exact h
        | some c =>
            exact h.registerName newName c

/-- A refused call leaves the registry as it was, and stores nothing. -/
theorem Records.refused
    {call : Call}
    {fault : Fault}
    (hrefused : (call.perform distance r).1 = .error fault) :
    call.after distance r = r ∧ call.stored history = [] := by
  cases call with
  | registerGuid guid c =>
      cases hrefused
  | registerNames names c =>
      cases hrefused
  | registerAlias newName target =>
      rw [Call.perform, h.registerAlias_eq] at hrefused
      rw [Call.after, Call.perform, h.registerAlias_eq, Call.stored]
      by_cases hblank : (Text.trim newName).isEmpty = true
      · rw [if_pos hblank, if_pos hblank]
        exact ⟨rfl, rfl⟩
      · rw [if_neg hblank] at hrefused
        rw [if_neg hblank, if_neg hblank]
        cases hmeaning : meaning? history target with
        | none =>
            exact ⟨rfl, rfl⟩
        | some c =>
            rw [hmeaning] at hrefused
            cases hrefused

/-- **The invariant of a sequence of calls.** -/
theorem Records.run (calls : List Call) :
    Records (continued history calls) (run distance r calls) := by
  induction calls generalizing history r with
  | nil =>
      exact h
  | cons call calls ih =>
      exact ih (h.after distance call)

end Answers

/-- What a registry answers, in terms of a history. -/
structure AnswersFrom (distance : String → String → Nat) (history : List Entry) (r : Registry) :
    Prop where
  /-- A key, read as identifier and name, finds the component it stands for. -/
  resolve : ∀ key, r.resolve (some key) (some key) none = meaning? history key
  /-- The same component is required, and a key that stands for nothing is unknown. -/
  require : ∀ key, match meaning? history key with
    | some c => r.require distance key = .ok c
    | none => ∃ suggestion, r.require distance key = .error (.unknown key suggestion)
  /-- The names are in strict order. -/
  names_ascending : r.names.Pairwise fun a b => a < b
  /-- The names are those under which something was stored. -/
  mem_names : ∀ name, name ∈ r.names ↔ ∃ c, Entry.name name c ∈ history
  /-- A new name is refused exactly when it is blank or its target stands for nothing. -/
  alias_refused : ∀ newName target,
    (∃ fault, (r.registerAlias distance newName target).1 = .error fault) ↔
      (Text.trim newName).isEmpty = true ∨ meaning? history target = none
  /-- A refused call leaves the registry as it was, and the history too. -/
  refused_unchanged : ∀ (call : Call) (fault : Fault),
    (call.perform distance r).1 = .error fault →
      call.after distance r = r ∧ call.stored history = []

theorem Records.answersFrom
    {history : List Entry}
    {r : Registry}
    (h : Records history r)
    (distance : String → String → Nat) :
    AnswersFrom distance history r where
  resolve := h.resolve_eq
  require key := by
    rw [h.require_eq]
    cases meaning? history key with
    | none =>
        exact ⟨_, rfl⟩
    | some c =>
        rfl
  names_ascending := r.byName.keys_ascending
  mem_names := h.mem_names_iff
  alias_refused newName target := by
    rw [h.registerAlias_eq]
    by_cases hblank : (Text.trim newName).isEmpty = true
    · simp [hblank]
    · cases meaning? history target with
      | none =>
          simp [hblank]
      | some c =>
          simp [hblank]
  refused_unchanged _ _ hrefused := h.refused distance hrefused

/-- **A registry is its history.**  After any sequence of calls, from the empty registry and from
the standard one, a key finds the component registered last under it as an identifier, else the
component stored last under it as a name, where a new name stores what its target stood for at that
moment; the names are those stored so far, in order; and a refused call changes nothing. -/
theorem run_answersFrom (distance : String → String → Nat) (calls : List Call) :
    AnswersFrom distance (continued [] calls) (run distance empty calls) ∧
    AnswersFrom distance (continued standardHistory calls) (run distance standard calls) :=
  ⟨(empty_records.run distance calls).answersFrom distance,
    (standard_records.run distance calls).answersFrom distance⟩

/-- A new name keeps the component that its target stood for, whatever the target becomes later. -/
example (distance : String → String → Nat) (c d : Component) :
    (run distance empty [.registerNames ["Charge"] c, .registerAlias " Lading " "charge",
      .registerNames ["Charge"] d]).require distance "lading" = .ok c := by
  rfl

end Registry

end FieldGeometry
