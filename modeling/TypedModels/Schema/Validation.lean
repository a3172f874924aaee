import TypedModels.Schema.Basic

/-!
# Validation against a compiled schema

A value is validated field by field. What a custom type accepts is not known to the schema: it asks
the custom types, and only about elements that are objects. Their answers may have effects, so
validation runs in any monad.

An absent or null value violates a required field unless a resolver supplies it. A value of a list
field that is not an array is reported, and then checked as a single element.

## Main definitions

* `TypeOracle` : the declared types together with their answers.
* `FieldSchema.validate` : the violations of one field.
* `TypeSchema.validate` : the failing fields of a value.
-/

namespace TypedModels

/-- Custom types that can be asked about values. -/
structure TypeOracle (m : Type → Type) extends DeclaredTypes where
  /-- Validates an object against a concrete type. -/
  validateModel : String → Value → m Report
  /-- Validates an object against the implementation that an interface picks for it. -/
  validateImplementation : String → Value → m Report

/-- No custom types at all. -/
def TypeOracle.none : TypeOracle (Except ConfigError) where
  toDeclaredTypes := DeclaredTypes.none
  validateModel name _ := .error (.unknownModel name)
  validateImplementation name _ := .error (.unknownModel name)

variable {m : Type → Type} [Monad m]

/-- The error of an element of a custom type that is not an object. -/
def ElementCheck.notAnObject : ElementReport Report := .messages ["not an object"]

/-- What is wrong with an element. -/
def ElementCheck.report (types : TypeOracle m) (check : ElementCheck) (element : Value) :
    m (ElementReport Report) :=
  match check with
  | .builtin scalar => pure (.messages (scalar.problems element))
  | .model typeName =>
    if element.isObject then do return .fields (← types.validateModel typeName element)
    else pure notAnObject
  | .interface typeName =>
    if element.isObject then do return .fields (← types.validateImplementation typeName element)
    else pure notAnObject

namespace FieldSchema

/-- The elements of a value: the items of an array in a list field, or the value itself. -/
def elements (f : FieldSchema) (value : Value) : List Value :=
  match value with
  | .arr items => if f.isList then items else [value]
  | _ => [value]

/-- The violation of the list rule, if there is one. -/
def listViolations (f : FieldSchema) (value : Value) : List Violation :=
  if f.isList && value.items?.isNone then [.notAList] else []

/-- A list field takes an array apart into its items. Any other value is its only element. -/
theorem elements_eq_iff {f : FieldSchema} {v : Value} {es : List Value} : f.elements v = es ↔
    (f.isList = true ∧ v = .arr es) ∨ ((f.isList = true → v.items? = none) ∧ es = [v]) := by
  cases v with
  | arr items =>
    cases h : f.isList with
    | true => simp [elements, Value.items?, h]
    | false => simpa [elements, Value.items?, h] using eq_comm
  | _ => simpa [elements, Value.items?] using eq_comm

/-- A list field reports a value that is not an array. There is no other violation of the list
rule. -/
theorem listViolations_eq_iff {f : FieldSchema} {v : Value} {violations : List Violation} :
    f.listViolations v = violations ↔
      (f.isList = true ∧ v.items? = none ∧ violations = [.notAList]) ∨
        ((f.isList = true → v.items?.isSome = true) ∧ violations = []) := by
  rw [eq_comm, listViolations]
  cases f.isList <;> cases v.items? <;> simp

/-- One violation for every element that fails, in order. -/
def elementViolations (types : TypeOracle m) (check : ElementCheck) :
    List Value → m (List Violation)
  | [] => pure []
  | element :: rest => do
    let errors ← check.report types element
    let violations ← elementViolations types check rest
    return if errors.isEmpty then violations else .element element errors :: violations

/-- The violations of an absent or null value. -/
def absentViolations (f : FieldSchema) : List Violation :=
  if f.required && !f.hasResolver then [.required] else []

/-- The violations of the value of a field; `none` stands for an absent key. -/
def validate (types : TypeOracle m) (f : FieldSchema) : Option Value → m (List Violation)
  | none | some .null => pure f.absentViolations
  | some value => do
    let violations ← elementViolations types f.check (f.elements value)
    return f.listViolations value ++ violations

def isValid (types : TypeOracle m) (f : FieldSchema) (value : Option Value) : m Bool :=
  return (← f.validate types value).isEmpty

end FieldSchema

namespace TypeSchema

/-- The failing fields of a value. A value that is not an object has no keys. -/
def validate (types : TypeOracle m) (t : TypeSchema) (props : Value) : m Report :=
  t.fields.foldlM (fun errors (name, field) => do
    return errors.record name (← field.validate types (props.get? name))) []

end TypeSchema

/-! ## Which answers matter

Validation depends on the custom types only through their answers about elements of the value, and
those are less deep than the value. -/

theorem ElementCheck.report_congr {types types' : TypeOracle m} {check : ElementCheck}
    {element : Value}
    (hm : ∀ n, check = .model n → element.isObject →
      types.validateModel n element = types'.validateModel n element)
    (hi : ∀ n, check = .interface n → element.isObject →
      types.validateImplementation n element = types'.validateImplementation n element) :
    check.report types element = check.report types' element := by
  cases check with
  | builtin scalar => rfl
  | model n =>
    simp only [report]
    split
    · next h => rw [hm n rfl h]
    · rfl
  | interface n =>
    simp only [report]
    split
    · next h => rw [hi n rfl h]
    · rfl

namespace FieldSchema

theorem depth_le_of_mem_elements {f : FieldSchema} {value element : Value}
    (h : element ∈ f.elements value) : element.depth ≤ value.depth := by
  unfold elements at h
  split at h
  · split at h
    · exact Nat.le_of_lt (Value.depth_lt_of_mem h)
    · exact Nat.le_of_eq (congrArg Value.depth (List.mem_singleton.1 h))
  · exact Nat.le_of_eq (congrArg Value.depth (List.mem_singleton.1 h))

theorem elementViolations_congr {types types' : TypeOracle m} {check : ElementCheck}
    {elements : List Value}
    (h : ∀ e ∈ elements, check.report types e = check.report types' e) :
    elementViolations types check elements = elementViolations types' check elements := by
  induction elements with
  | nil => rfl
  | cons e es ih =>
    simp only [elementViolations]
    rw [h e List.mem_cons_self, ih fun e' he => h e' (List.mem_cons_of_mem e he)]

theorem validate_congr {types types' : TypeOracle m} {f : FieldSchema} {value : Option Value}
    (h : ∀ v, value = some v → ∀ e ∈ f.elements v,
      f.check.report types e = f.check.report types' e) :
    f.validate types value = f.validate types' value := by
  unfold validate
  split
  · rfl
  · rfl
  · rw [elementViolations_congr (h _ rfl)]

end FieldSchema

theorem TypeSchema.validate_congr {types types' : TypeOracle m} {t : TypeSchema} {props : Value}
    (hm : ∀ n e, e.depth < props.depth → types.validateModel n e = types'.validateModel n e)
    (hi : ∀ n e, e.depth < props.depth →
      types.validateImplementation n e = types'.validateImplementation n e) :
    t.validate types props = t.validate types' props := by
  have step : ∀ (errors : Report) (entry : String × FieldSchema),
      (do return errors.record entry.1 (← entry.2.validate types (props.get? entry.1))) =
        (do return errors.record entry.1 (← entry.2.validate types' (props.get? entry.1)) :
          m Report) := by
    intro errors entry
    rw [FieldSchema.validate_congr]
    intro v hv e he
    have hd : e.depth < props.depth :=
      Nat.lt_of_le_of_lt (FieldSchema.depth_le_of_mem_elements he) (Value.depth_lt_of_get? hv)
    exact ElementCheck.report_congr (fun n _ _ => hm n e hd) fun n _ _ => hi n e hd
  unfold validate
  congr 1
  funext errors entry
  exact step errors entry

end TypedModels
