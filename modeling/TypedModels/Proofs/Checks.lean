import TypedModels.Schema.Validation

/-!
# Validation as a list of checks

Validation against a schema checks the elements of all fields, in order, and computes everything else
from what it finds. What its effects are, and which errors it can fail with, is therefore settled by
the checks of single elements.

## Main definitions

* `FieldSchema.checked` : the elements of a value that are checked.
* `FieldSchema.violations` : the violations of a value, given what is wrong with its elements.
* `Value.Within` : the values that a value is made of.
-/

namespace TypedModels

variable {m : Type → Type} [Monad m] [LawfulMonad m]

namespace FieldSchema

variable {types : TypeOracle m} {f : FieldSchema} {check : ElementCheck}

/-- The elements that are checked. Nothing is checked in a value that is absent or null. -/
def checked (f : FieldSchema) : Option Value → List Value
  | none | some .null => []
  | some value => f.elements value

/-- One violation for every element that fails, in order. -/
def failing : List Value → List (ElementReport Report) → List Violation
  | element :: elements, report :: reports =>
    if report.isEmpty then failing elements reports
    else .element element report :: failing elements reports
  | _, _ => []

/-- The violations of a value, given what is wrong with its elements. -/
def violations (f : FieldSchema) (value : Option Value) (reports : List (ElementReport Report)) :
    List Violation :=
  match value with
  | none | some .null => f.absentViolations
  | some value => f.listViolations value ++ failing (f.elements value) reports

theorem checked_some {v : Value} (h : v ≠ .null) :
    f.checked (some v) = f.elements v := by
  cases v <;> first | exact absurd rfl h | rfl

theorem violations_some {v : Value} {reports : List (ElementReport Report)} (h : v ≠ .null) :
    f.violations (some v) reports = f.listViolations v ++ failing (f.elements v) reports := by
  cases v <;> first | exact absurd rfl h | rfl

/-- The elements that fail are those with a report that is not empty. -/
theorem failing_eq (elements : List Value) (reports : List (ElementReport Report)) :
    failing elements reports =
      ((elements.zip reports).filter fun p => !p.2.isEmpty).map fun p => .element p.1 p.2 := by
  induction elements generalizing reports with
  | nil => rfl
  | cons e elements ih =>
    cases reports with
    | nil => rfl
    | cons r reports => cases h : r.isEmpty <;> simp [failing, h, ih]

/-- No element fails if no report has anything in it. -/
theorem failing_eq_nil_iff {elements : List Value} {reports : List (ElementReport Report)}
    (h : elements.length = reports.length) :
    failing elements reports = [] ↔ ∀ r ∈ reports, r.isEmpty = true := by
  induction elements generalizing reports with
  | nil => simp [failing, List.length_eq_zero_iff.1 h.symm]
  | cons e elements ih =>
    cases reports with
    | nil => cases h
    | cons r reports => cases hr : r.isEmpty <;> simp [failing, hr, ih (Nat.succ.inj h)]

theorem elementViolations_eq {elements : List Value} :
    elementViolations types check elements =
      failing elements <$> elements.mapM (check.report types) := by
  induction elements with
  | nil => simp [elementViolations, failing]
  | cons e elements ih => simp [elementViolations, failing, ih]

theorem validate_eq_checks {value : Option Value} : f.validate types value =
    f.violations value <$> (f.checked value).mapM (f.check.report types) := by
  unfold validate violations checked
  split <;> simp [elementViolations_eq]

end FieldSchema

/-- A fold whose steps do not depend on each other carries them out first. -/
theorem foldlM_eq_mapM {α β γ : Type} {f : α → m β} {g : γ → β → γ} {items : List α} {c : γ} :
    items.foldlM (fun c a => g c <$> f a) c = List.foldl g c <$> items.mapM f := by
  induction items generalizing c with
  | nil => simp
  | cons a items ih => simp [ih]

/-- The failing fields are recorded after all fields have been checked. -/
theorem TypeSchema.validate_eq_checks {types : TypeOracle m} {t : TypeSchema} {props : Value} :
    t.validate types props =
      List.foldl (fun (errors : Report) entry => errors.record entry.1 entry.2) [] <$>
        t.fields.mapM fun entry =>
          (entry.1, ·) <$> entry.2.validate types (props.get? entry.1) := by
  rw [← foldlM_eq_mapM]
  simp [validate]

/-! ## Parts of a value -/

/-- The values that a value is made of: itself, the items of arrays and the members of objects. -/
inductive Value.Within (v : Value) : Value → Prop
  | self : Within v v
  | item {e : Value} {items : List Value} : e ∈ items → Within v e → Within v (.arr items)
  | member {key : String} {e : Value} {members : List (String × Value)} : (key, e) ∈ members →
      Within v e → Within v (.obj members)

namespace Value

variable {u v w : Value}

theorem Within.trans (h : u.Within v) (g : v.Within w) : u.Within w := by
  induction g with
  | self => exact h
  | item he _ ih => exact .item he ih
  | member he _ ih => exact .member he ih

theorem within_of_get? {key : String} (h : v.get? key = some w) : w.Within v := by
  cases v with
  | obj members => exact .member (OrderedMap.mem_of_lookup h) .self
  | _ => simp [get?] at h

end Value

namespace FieldSchema

variable {f : FieldSchema} {e v : Value} {value : Option Value}

theorem within_of_mem_elements (h : e ∈ f.elements v) : e.Within v := by
  unfold elements at h
  split at h
  · split at h
    · exact .item h .self
    · exact List.mem_singleton.1 h ▸ .self
  · exact List.mem_singleton.1 h ▸ .self

/-- A checked element is an element of a value that is there. -/
theorem exists_of_mem_checked (h : e ∈ f.checked value) : ∃ v, value = some v ∧ e ∈ f.elements v := by
  unfold checked at h
  split at h
  · cases h
  · cases h
  · exact ⟨_, rfl, h⟩

/-- What is checked lies within the value of which the field is a part, and is less deep. -/
theorem within_of_mem_checked {props : Value} {name : String}
    (h : e ∈ f.checked (props.get? name)) : e.Within props ∧ e.depth < props.depth := by
  obtain ⟨v, hv, he⟩ := exists_of_mem_checked h
  exact ⟨(within_of_mem_elements he).trans (Value.within_of_get? hv),
    Nat.lt_of_le_of_lt (depth_le_of_mem_elements he) (Value.depth_lt_of_get? hv)⟩

end FieldSchema

end TypedModels
