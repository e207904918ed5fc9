/-!
# Dictionaries

Finite maps from texts, kept as a list of entries with strictly ascending keys. A dictionary is
therefore determined by what it answers for each key (`ext_get?`), and its keys come in order.
-/

namespace FieldGeometry

/-- A finite map from texts to `β`. -/
structure Dictionary (β : Type) where
  entries : List (String × β)
  /-- Each key comes before all later ones. -/
  ascending : entries.Pairwise fun a b => a.1 < b.1

namespace Dictionary

variable {β : Type}

def empty : Dictionary β := ⟨[], .nil⟩

def isEmpty (d : Dictionary β) : Bool :=
  d.entries.isEmpty

def keys (d : Dictionary β) : List String :=
  d.entries.map (·.1)

/-- What a list of entries holds under a key. -/
def find? (key : String) : List (String × β) → Option β
  | [] => none
  | (k, v) :: rest => if k = key then some v else find? key rest

/-- What the dictionary holds under a key. -/
def get? (d : Dictionary β) (key : String) : Option β :=
  find? key d.entries

/-- Puts an entry in its place among ascending ones, replacing one with the same key. -/
def place (key : String) (value : β) : List (String × β) → List (String × β)
  | [] => [(key, value)]
  | (k, v) :: rest =>
    if key < k then (key, value) :: (k, v) :: rest
    else if k = key then (key, value) :: rest
    else (k, v) :: place key value rest

theorem mem_place {key : String} {value : β} {l : List (String × β)} {e : String × β}
    (h : e ∈ place key value l) : e = (key, value) ∨ e ∈ l := by
  induction l with
  | nil => exact Or.inl (by simpa [place] using h)
  | cons head rest ih =>
    obtain ⟨k, v⟩ := head
    unfold place at h
    split at h
    · rcases List.mem_cons.1 h with rfl | h
      · exact Or.inl rfl
      · exact Or.inr h
    · split at h
      · rcases List.mem_cons.1 h with rfl | h
        · exact Or.inl rfl
        · exact Or.inr (List.mem_cons_of_mem _ h)
      · rcases List.mem_cons.1 h with rfl | h
        · exact Or.inr List.mem_cons_self
        · exact (ih h).imp_right (List.mem_cons_of_mem _)

/-- One of two different texts comes before the other. -/
theorem lt_of_not_lt_of_ne {a b : String} (hlt : ¬a < b) (hne : b ≠ a) : b < a := by
  rcases String.le_total a b with hab | hba
  · exact absurd (String.le_antisymm (String.not_lt.1 hlt) hab) hne
  · exact Classical.byContradiction fun h => hne (String.le_antisymm hba (String.not_lt.1 h))

theorem place_ascending (key : String) (value : β) {l : List (String × β)}
    (h : l.Pairwise fun a b => a.1 < b.1) :
    (place key value l).Pairwise fun a b => a.1 < b.1 := by
  induction l with
  | nil => exact List.pairwise_singleton _ _
  | cons head rest ih =>
    obtain ⟨k, v⟩ := head
    have hhead := (List.pairwise_cons.1 h).1
    have hrest := (List.pairwise_cons.1 h).2
    unfold place
    split
    · rename_i hlt
      refine List.pairwise_cons.2 ⟨fun e he => ?_, h⟩
      rcases List.mem_cons.1 he with rfl | he
      · exact hlt
      · exact String.lt_trans hlt (hhead e he)
    · rename_i hnlt
      split
      · rename_i heq
        exact List.pairwise_cons.2 ⟨fun e he => heq ▸ hhead e he, hrest⟩
      · rename_i hne
        refine List.pairwise_cons.2 ⟨fun e he => ?_, ih hrest⟩
        rcases mem_place he with rfl | he
        · exact lt_of_not_lt_of_ne hnlt hne
        · exact hhead e he

/-- The dictionary with a value under a key, in place of any earlier one. -/
def insert (d : Dictionary β) (key : String) (value : β) : Dictionary β :=
  ⟨place key value d.entries, place_ascending key value d.ascending⟩

/-- The entries of `e` put into `d` one after another. -/
def extend (d e : Dictionary β) : Dictionary β :=
  e.entries.foldl (fun d entry => d.insert entry.1 entry.2) d

/-- The dictionary of a list of entries, of which the last under a key counts. -/
def ofList (l : List (String × β)) : Dictionary β :=
  l.foldl (fun d entry => d.insert entry.1 entry.2) empty

theorem find?_eq_none {key : String} {l : List (String × β)} (h : ∀ e ∈ l, e.1 ≠ key) :
    find? key l = none := by
  induction l with
  | nil => rfl
  | cons head rest ih =>
    rw [find?, if_neg (h head List.mem_cons_self)]
    exact ih fun e he => h e (List.mem_cons_of_mem _ he)

theorem find?_place (key k : String) (value : β) {l : List (String × β)}
    (h : l.Pairwise fun a b => a.1 < b.1) :
    find? k (place key value l) = if key = k then some value else find? k l := by
  induction l with
  | nil => rfl
  | cons head rest ih =>
    obtain ⟨k', v⟩ := head
    have hrest := (List.pairwise_cons.1 h).2
    unfold place
    split
    · rfl
    · split
      · rename_i heq
        subst heq
        by_cases hk : k' = k <;> simp [find?, hk]
      · rename_i hne
        by_cases hk : k' = k
        · have : key ≠ k := fun hkey => hne (hk.trans hkey.symm)
          simp [find?, hk, this]
        · simp only [find?, if_neg hk]
          exact ih hrest

/-- A dictionary answers with the value put in last. -/
theorem get?_insert (d : Dictionary β) (key k : String) (value : β) :
    (d.insert key value).get? k = if key = k then some value else d.get? k :=
  find?_place key k value d.ascending

theorem find?_eq_some {key : String} {value : β} {l : List (String × β)}
    (h : l.Pairwise fun a b => a.1 < b.1) (hmem : (key, value) ∈ l) :
    find? key l = some value := by
  induction l with
  | nil => cases hmem
  | cons head rest ih =>
    obtain ⟨k, v⟩ := head
    rcases List.mem_cons.1 hmem with heq | hmem
    · cases heq
      simp [find?]
    · have hlt := (List.pairwise_cons.1 h).1 _ hmem
      have hne : k ≠ key := fun hk => String.lt_irrefl _ (hk ▸ hlt : key < key)
      rw [find?, if_neg hne]
      exact ih (List.pairwise_cons.1 h).2 hmem

theorem mem_of_find?_eq_some {key : String} {value : β} {l : List (String × β)}
    (h : find? key l = some value) : (key, value) ∈ l := by
  induction l with
  | nil => cases h
  | cons head rest ih =>
    obtain ⟨k, v⟩ := head
    rw [find?] at h
    split at h
    · rename_i hk
      cases h
      exact hk ▸ List.mem_cons_self
    · exact List.mem_cons_of_mem _ (ih h)

/-- The keys come in order. -/
theorem keys_ascending (d : Dictionary β) : d.keys.Pairwise fun a b => a < b :=
  List.pairwise_map.2 d.ascending

/-- The keys are those under which the dictionary holds something. -/
theorem mem_keys_iff (d : Dictionary β) (key : String) :
    key ∈ d.keys ↔ ∃ value, d.get? key = some value := by
  constructor
  · intro h
    obtain ⟨⟨k, v⟩, hmem, rfl⟩ := List.mem_map.1 h
    exact ⟨v, find?_eq_some d.ascending hmem⟩
  · rintro ⟨value, h⟩
    exact List.mem_map.2 ⟨(key, value), mem_of_find?_eq_some h, rfl⟩

theorem entries_eq_of_mem_iff {l m : List (String × β)}
    (hl : l.Pairwise fun a b => a.1 < b.1) (hm : m.Pairwise fun a b => a.1 < b.1)
    (h : ∀ e, e ∈ l ↔ e ∈ m) : l = m := by
  induction l generalizing m with
  | nil =>
    cases m with
    | nil => rfl
    | cons e m => exact absurd ((h e).2 List.mem_cons_self) (by simp)
  | cons a l ih =>
    cases m with
    | nil => exact absurd ((h a).1 List.mem_cons_self) (by simp)
    | cons b m =>
      have hla := List.pairwise_cons.1 hl
      have hmb := List.pairwise_cons.1 hm
      have hab : a = b := by
        rcases List.mem_cons.1 ((h a).1 List.mem_cons_self) with hab | ham
        · exact hab
        · rcases List.mem_cons.1 ((h b).2 List.mem_cons_self) with hba | hbl
          · exact hba.symm
          · exact absurd (hmb.1 a ham) (String.lt_asymm (hla.1 b hbl))
      subst hab
      refine congrArg _ (ih hla.2 hmb.2 fun e => ⟨fun he => ?_, fun he => ?_⟩)
      · rcases List.mem_cons.1 ((h e).1 (List.mem_cons_of_mem _ he)) with rfl | hem
        · exact absurd (hla.1 e he) (String.lt_irrefl _)
        · exact hem
      · rcases List.mem_cons.1 ((h e).2 (List.mem_cons_of_mem _ he)) with rfl | hel
        · exact absurd (hmb.1 e he) (String.lt_irrefl _)
        · exact hel

/-- Two dictionaries that answer alike are equal. -/
theorem ext_get? {d e : Dictionary β} (h : ∀ key, d.get? key = e.get? key) : d = e := by
  obtain ⟨l, hl⟩ := d
  obtain ⟨m, hm⟩ := e
  have hlm : l = m := entries_eq_of_mem_iff hl hm fun ⟨k, v⟩ =>
    ⟨fun hmem => mem_of_find?_eq_some ((h k).symm.trans (find?_eq_some hl hmem)),
      fun hmem => mem_of_find?_eq_some ((h k).trans (find?_eq_some hm hmem))⟩
  subst hlm
  rfl

end Dictionary

end FieldGeometry
