import TypedModels.Json.Printer
import TypedModels.Model.Validation

/-!
# Instances

An instance is a value that a model accepted. It has exactly the fields of the schema: a value of a
custom type becomes a nested instance, item by item in a list, and any other value is kept as it is.
A field whose key is absent is kept as missing and left out of both renderings.

## Main definitions

* `Instance`, `Slot` : instances and the values of their fields.
* `Instance.toValue` : an instance as a JSON value.
* `Instance.write` : an instance handed over piece by piece, in the order of the schema.
* `Catalog.instantiate`, `Catalog.cast` : the instance of a value.
-/

namespace TypedModels

/-- The fields of an instance, whose values are of type `φ`. -/
structure InstanceOf (φ : Type) where
  /-- The name of the model that built the instance. -/
  model : String
  typeName : String
  fields : List (String × φ)

inductive Slot where
  /-- The key is absent. -/
  | missing
  /-- A value that is kept as it is. -/
  | raw (v : Value)
  | single (i : InstanceOf Slot)
  | many (items : List (InstanceOf Slot))

/-- A value that a model accepted, with its fields in the order of the schema. -/
abbrev Instance := InstanceOf Slot

def Slot.isMissing : Slot → Bool
  | .missing => true
  | _ => false

namespace Instance

def keys (i : Instance) : List String := OrderedMap.keys i.fields

def get? (i : Instance) (field : String) : Option Slot := i.fields.lookup field

end Instance

/-! ## As a value -/

mutual

/-- The value of a field as a JSON value; a missing one is null. -/
def Slot.toValue : Slot → Value
  | .missing => .null
  | .raw v => v
  | .single ⟨_, _, fields⟩ => Value.ofMembers (Slot.members fields)
  | .many items => .arr (Slot.toValues items)

/-- The members of the fields that are not missing. -/
def Slot.members : List (String × Slot) → List (String × Value)
  | [] => []
  | (_, .missing) :: fields => Slot.members fields
  | (name, .raw v) :: fields => (name, v) :: Slot.members fields
  | (name, .single ⟨_, _, nested⟩) :: fields =>
    (name, Value.ofMembers (Slot.members nested)) :: Slot.members fields
  | (name, .many items) :: fields =>
    (name, .arr (Slot.toValues items)) :: Slot.members fields

def Slot.toValues : List (InstanceOf Slot) → List Value
  | [] => []
  | ⟨_, _, fields⟩ :: items =>
    Value.ofMembers (Slot.members fields) :: Slot.toValues items

end

/-- An instance as an object, without its missing fields. -/
def Instance.toValue (i : Instance) : Value := Value.ofMembers (Slot.members i.fields)

/-! ## Piece by piece -/

/-- How many fields are not missing. -/
def Slot.presentCount (fields : List (String × Slot)) : Nat :=
  fields.countP fun f => !f.2.isMissing

mutual

/-- Hands over the value of a field. -/
def Slot.write : Slot → Written
  | .missing => .value .null
  | .raw v => .value v
  | .single ⟨_, _, fields⟩ => .map (presentCount fields) (Slot.writeFields fields)
  | .many items => .sequence items.length (Slot.writeItems items)

/-- Hands over the fields that are not missing. -/
def Slot.writeFields : List (String × Slot) → List (String × Written)
  | [] => []
  | (name, value) :: fields =>
    if value.isMissing then Slot.writeFields fields
    else (name, value.write) :: Slot.writeFields fields

def Slot.writeItems : List (InstanceOf Slot) → List Written
  | [] => []
  | ⟨_, _, fields⟩ :: items =>
    .map (presentCount fields) (Slot.writeFields fields) :: Slot.writeItems items

end

/-- Hands over an instance field by field, after announcing how many there are. -/
def Instance.write (i : Instance) : Written := Slot.write (.single i)

/-! ## Construction -/

section

variable {m : Type → Type} [Monad m] {τ : Type}

/-- The field value of a JSON value, `none` for an absent key. `target` finds the model of a custom
type, and `cast` builds a nested instance. -/
def FieldSchema.slot (target : m τ) (cast : τ → Value → m Instance) (f : FieldSchema) :
    Option Value → m Slot
  | none => pure .missing
  | some .null => pure (.raw .null)
  | some value =>
    if f.isCustom then do
      let t ← target
      match value with
      | .arr items =>
        if f.isList then return .many (← items.mapM (cast t))
        else return .single (← cast t value)
      | value => return .single (← cast t value)
    else pure (.raw value)

/-- The field values of all fields of a schema, in order. -/
def TypeSchema.slots (target : String → m τ) (cast : τ → Value → m Instance) (t : TypeSchema)
    (props : Value) : m (List (String × Slot)) :=
  t.fields.mapM fun f => do
    return (f.1, ← f.2.slot (target f.2.baseType) cast (props.get? f.1))

end

namespace Catalog

/-- The model that an instance of `m` is built by: the implementation that `m` picks for the value
if it is an interface, and `m` itself if not. -/
def concreteModel (cat : Catalog) (m : Model) (props : Value) : Session ConfigError Model := do
  if (← cat.compiled m).isInterface then cat.implementation m props else return m

/-- Validates a value and builds the instance of it, given how nested instances are built. -/
def instantiateWith (cat : Catalog) (cast : Model → Value → Session Failure Instance) (m : Model)
    (props : Value) : Session Failure Instance := do
  let errors ← cat.validate m props
  if errors.isEmpty then
    let compiled ← cat.compiled m
    let scope ← cat.scope m
    let fields ← compiled.schema.slots (fun typeName => liftM (scope.get typeName)) cast props
    return { model := m.name, typeName := m.typeName, fields }
  else throw (.rejected { errors, props, model := m.name })

/-- Validates a value and builds the instance of it. Nested instances are built from elements, which
are less deep than the value that they are part of. -/
def instantiate (cat : Catalog) (m : Model) (props : Value) : Session Failure Instance :=
  cat.instantiateWith
    (fun d element =>
      if element.depth < props.depth then do
        cat.instantiate (← cat.concreteModel d element) element
      else throw (.schema (.unknownModel d.name)))
    m props
termination_by props.depth

/-- The instance of a value by the model that `m` picks for it. -/
def cast (cat : Catalog) (m : Model) (props : Value) : Session Failure Instance := do
  cat.instantiate (← cat.concreteModel m props) props

end Catalog

/-! ## Which nested instances matter

Only elements of the value are cast, and those are less deep than the value. -/

theorem mapM_congr {m : Type → Type} [Monad m] {α β : Type} {f g : α → m β} {items : List α}
    (h : ∀ a ∈ items, f a = g a) : items.mapM f = items.mapM g := by
  have loop : ∀ done, List.mapM.loop f items done = List.mapM.loop g items done := by
    induction items with
    | nil => intro done; rfl
    | cons a items ih =>
      intro done
      simp only [List.mapM.loop]
      rw [h a List.mem_cons_self]
      congr 1; funext b
      exact ih (fun a' ha => h a' (List.mem_cons_of_mem a ha)) (b :: done)
  exact loop []

section

variable {m : Type → Type} [Monad m] {τ : Type} {cast cast' : τ → Value → m Instance}

theorem FieldSchema.slot_congr {target : m τ} {f : FieldSchema} {value : Option Value}
    (h : ∀ v, value = some v → ∀ t e, e.depth ≤ v.depth → cast t e = cast' t e) :
    f.slot target cast value = f.slot target cast' value := by
  unfold slot
  split
  · rfl
  · rfl
  · next v _ =>
    have self : ∀ t, cast t v = cast' t v := fun t => h v rfl t v (Nat.le_refl _)
    split
    · congr 1; funext t
      split
      · next items _ =>
        have each : items.mapM (cast t) = items.mapM (cast' t) :=
          mapM_congr fun e he => h _ rfl t e (Nat.le_of_lt (Value.depth_lt_of_mem he))
        rw [each, self t]
      · rw [self t]
    · rfl

theorem TypeSchema.slots_congr {target : String → m τ} {t : TypeSchema} {props : Value}
    (h : ∀ d e, e.depth < props.depth → cast d e = cast' d e) :
    t.slots target cast props = t.slots target cast' props := by
  unfold slots
  refine mapM_congr fun f _ => ?_
  rw [FieldSchema.slot_congr]
  intro v hv d e he
  exact h d e (Nat.lt_of_le_of_lt he (Value.depth_lt_of_get? hv))

end

namespace Catalog

theorem instantiateWith_congr (cat : Catalog)
    {cast cast' : Model → Value → Session Failure Instance} {m : Model} {props : Value}
    (h : ∀ d e, e.depth < props.depth → cast d e = cast' d e) :
    cat.instantiateWith cast m props = cat.instantiateWith cast' m props := by
  unfold instantiateWith
  simp only [TypeSchema.slots_congr h]

/-- An instance is built with the casts of its elements: the bound on their depth excludes
nothing. -/
theorem instantiate_eq (cat : Catalog) (m : Model) (props : Value) :
    cat.instantiate m props = cat.instantiateWith cat.cast m props := by
  rw [instantiate]
  refine cat.instantiateWith_congr fun d e h => ?_
  rw [if_pos h, cast]

end Catalog

end TypedModels
