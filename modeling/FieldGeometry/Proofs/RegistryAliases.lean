import FieldGeometry.Engine
import FieldGeometry.Proofs.RegistryHistory
import FieldGeometry.Text.EditDistance

/-!
# New names and identifiers

A registry keeps names apart from identifiers and looks at identifiers first.  A new name for a
component is stored among the names, so it is found only where its text, read as an identifier,
finds nothing.  Where it does, the component under the identifier goes on being found, and the new
name changes nothing (`registerAlias_selects`).

Texts are read as identifiers without braces and as names with them, so a text may be stored among
the names under another key than the one under which it is looked up first.  The identifier of a
component is such a text: in a registry of one identifier and one name it is accepted as a new name
for the other component and does not find it (`registerAlias_hidden`).
-/

namespace FieldGeometry

namespace Registry

/-- The component that a text finds when it is read as an identifier only. -/
def identified? (r : Registry) (text : String) : Option Component :=
  r.resolve (some text) none none

section Lookup

variable (distance : String → String → Nat) (r : Registry) (key : String)

theorem identified?_eq : r.identified? key = r.byGuid.get? (guidKey key) := by
  unfold identified? resolve
  simp

/-- A text is looked up as an identifier first. -/
theorem resolve_eq_orElse :
    r.resolve (some key) (some key) none =
      (r.identified? key <|> r.byName.get? (nameKey key)) := by
  rw [identified?_eq]
  unfold resolve
  simp

/-- Storing a name leaves the identifiers as they were. -/
theorem identified?_registerName (name : String) (c : Component) :
    (r.registerName name c).identified? key = r.identified? key := by
  rw [identified?_eq, identified?_eq]
  rfl

theorem require_eq_ok
    {r : Registry}
    {key : String}
    {c : Component}
    (h : r.resolve (some key) (some key) none = some c) :
    r.require distance key = .ok c := by
  simp only [require, h]

/-- A name that was just stored finds its component, unless an identifier hides it. -/
theorem require_registerName (c : Component) :
    (r.registerName key c).require distance key = .ok ((r.identified? key).getD c) := by
  have hname : (r.registerName key c).byName.get? (nameKey key) = some c := by
    show (r.byName.insert (nameKey key) c).get? (nameKey key) = some c
    rw [Dictionary.get?_insert, if_pos rfl]
  apply require_eq_ok distance
  rw [resolve_eq_orElse, identified?_registerName, hname]
  cases r.identified? key with
  | none =>
      rfl
  | some d =>
      rfl

/-- A new name is stored with the component that its target finds. -/
theorem eq_registerName_of_registerAlias
    {r changed : Registry}
    {newName target : String}
    (h : r.registerAlias distance newName target = (.ok (), changed)) :
    ∃ c, r.require distance target = .ok c ∧ changed = r.registerName newName c := by
  unfold registerAlias at h
  by_cases hblank : (Text.trim newName).isEmpty = true
  · rw [if_pos hblank] at h
    cases h
  · rw [if_neg hblank] at h
    cases hrequire : r.require distance target with
    | error fault =>
        rw [hrequire] at h
        cases h
    | ok c =>
        rw [hrequire] at h
        cases h
        exact ⟨c, rfl, rfl⟩

/-- What is evaluated under a key is the component required under it. -/
theorem evaluate_eq_of_require
    {α δ : Type}
    [Scalar α]
    {r : Registry}
    {key : String}
    {c : Component}
    (h : r.require distance key = .ok c)
    (inputs : List (Value α δ)) :
    r.evaluate distance key inputs = (c.evaluate inputs).mapError (EngineError.component c) := by
  simp only [evaluate, h]
  cases c.evaluate inputs with
  | error failure =>
      rfl
  | ok outputs =>
      rfl

end Lookup

/-- **What a new name finds.**  After a registry has accepted a new name for a target, the name
finds the component that the target found before, provided that the text of the name finds nothing
as an identifier; where it does, it finds the component under that identifier, as before.  The same
component is evaluated. -/
theorem registerAlias_selects
    (distance : String → String → Nat)
    (r changed : Registry)
    (newName target : String)
    (h : r.registerAlias distance newName target = (.ok (), changed)) :
    ∃ c selected,
      r.require distance target = .ok c ∧
      changed.require distance newName = .ok selected ∧
      (r.identified? newName = none → selected = c) ∧
      (∀ d, r.identified? newName = some d → selected = d ∧ r.require distance newName = .ok d) ∧
      ∀ {α δ : Type} [Scalar α] (inputs : List (Value α δ)),
        changed.evaluate distance newName inputs =
          (selected.evaluate inputs).mapError (EngineError.component selected) := by
  obtain ⟨c, htarget, rfl⟩ := eq_registerName_of_registerAlias distance h
  have hselected := r.require_registerName distance newName c
  refine ⟨c, (r.identified? newName).getD c, htarget, hselected, ?_, ?_, ?_⟩
  · intro hnone
    rw [hnone, Option.getD_none]
  · intro d hd
    refine ⟨by rw [hd, Option.getD_some], require_eq_ok distance ?_⟩
    rw [resolve_eq_orElse, hd]
    rfl
  · intro α δ _ inputs
    exact evaluate_eq_of_require distance hselected inputs

/-- A registry with one component under an identifier and another under a name. -/
def planeAndCharge : Registry :=
  (empty.registerGuid "17b7" .xyPlane).registerName "Charge" .pointCharge

theorem planeAndCharge_records :
    Records [.guid (guidKey "17b7") .xyPlane, .name (nameKey "Charge") .pointCharge]
      planeAndCharge :=
  (empty_records.registerGuid "17b7" .xyPlane).registerName "Charge" .pointCharge

section Charge

variable (distance : String → String → Nat)

theorem planeAndCharge_require :
    planeAndCharge.require distance "charge" = .ok .pointCharge := by
  apply require_eq_ok
  rw [planeAndCharge_records.resolve_eq]
  decide

theorem planeAndCharge_registerAlias
    (newName : String)
    (h : (Text.trim newName).isEmpty = false) :
    planeAndCharge.registerAlias distance newName "charge" =
      (.ok (), planeAndCharge.registerName newName .pointCharge) := by
  unfold registerAlias
  rw [h, planeAndCharge_require]
  rfl

end Charge

/-- A new name that is no identifier finds the component of its target. -/
theorem registerAlias_selects_target :
    ∃ changed,
      planeAndCharge.registerAlias Text.editDistance "Lading" "charge" = (.ok (), changed) ∧
      planeAndCharge.require Text.editDistance "charge" = .ok .pointCharge ∧
      changed.require Text.editDistance "Lading" = .ok .pointCharge := by
  have haccepted := planeAndCharge_registerAlias Text.editDistance "Lading" (by decide)
  have hfree : planeAndCharge.identified? "Lading" = none := by
    rw [identified?_eq, planeAndCharge_records.guid]
    decide
  obtain ⟨c, selected, hc, hselected, hunhidden, -⟩ :=
    registerAlias_selects Text.editDistance planeAndCharge _ "Lading" "charge" haccepted
  rw [planeAndCharge_require] at hc
  cases hc
  exact ⟨_, haccepted, planeAndCharge_require _, by rw [hselected, hunhidden hfree]⟩

/-- A new name that is the identifier of another component is accepted and does not find the
component of its target. -/
theorem registerAlias_hidden :
    ∃ changed,
      planeAndCharge.registerAlias Text.editDistance "\x7b17B7\x7d" "charge" =
        (.ok (), changed) ∧
      planeAndCharge.require Text.editDistance "charge" = .ok .pointCharge ∧
      changed.require Text.editDistance "\x7b17B7\x7d" = .ok .xyPlane := by
  have haccepted := planeAndCharge_registerAlias Text.editDistance "\x7b17B7\x7d" (by decide)
  have hhidden : planeAndCharge.identified? "\x7b17B7\x7d" = some .xyPlane := by
    rw [identified?_eq, planeAndCharge_records.guid]
    decide
  refine ⟨_, haccepted, planeAndCharge_require _, ?_⟩
  rw [require_registerName, hhidden]
  rfl

end Registry

end FieldGeometry
