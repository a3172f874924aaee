import TypedModels.Schema.Shape

/-!
# Models and their catalog

A model is a named view of a type definition, with the models that it depends on and with functions
that supply values from outside. A catalog holds models in order of registration, each name once.
The dependencies of a model need not be in the catalog when it is registered.

## Main definitions

* `Model` : a model as it is declared.
* `Catalog` : the registered models.
* `Catalog.register` : adds a model.
* `Catalog.model` : the model with a name.
-/

namespace TypedModels

/-- Picks the implementation of an interface for a value, by the name of its type. -/
abbrev Discriminator := Value → String

/-- Supplies the value of a field from the object that it belongs to. -/
abbrev Resolver := Value → Value

/-- The resolvers of a type, by field. -/
abbrev FieldResolvers := OrderedMap Resolver

/-- The resolvers of several types, by the name of the type. -/
abbrev ResolverTable := OrderedMap FieldResolvers

structure Model where
  name : String
  /-- The name of the definition that the model reads. -/
  typeName : String := name
  schema : Source := {}
  /-- The names of the models that this one depends on. -/
  dependencies : List String := []
  resolveType : Option Discriminator := none
  resolvers : FieldResolvers := []

namespace Model

/-- Whether a resolver supplies the value of a field. -/
def hasResolver (m : Model) (field : String) : Bool := (m.resolvers.lookup field).isSome

/-- Whether the definition of the model is an interface. -/
def isInterface (m : Model) : Except ConfigError Bool :=
  (m.schema.document.definitionNamed m.typeName).map (·.2)

end Model

/-- The registered models in order. -/
structure Catalog where
  models : List Model := []
  nodup : (models.map Model.name).Nodup := by exact List.nodup_nil

namespace Catalog

def names (cat : Catalog) : List String := cat.models.map Model.name

def contains (cat : Catalog) (name : String) : Bool := cat.names.contains name

def find? (cat : Catalog) (name : String) : Option Model := cat.models.find? (·.name = name)

/-- The model with a name. -/
def model (cat : Catalog) (name : String) : Except ConfigError Model :=
  match cat.find? name with
  | some m => .ok m
  | none => .error (.unknownModel name)

/-- Adds a model at the end, unless its name is taken. -/
def register (cat : Catalog) (m : Model) : Except ConfigError Catalog :=
  if h : m.name ∈ cat.names then .error (.duplicateModel m.name)
  else .ok {
    models := cat.models ++ [m]
    nodup := by
      rw [List.map_append]
      exact List.nodup_append.2 ⟨cat.nodup, by simp, by
        rintro a ha b hb rfl
        simp only [List.map_cons, List.map_nil, List.mem_singleton] at hb
        exact h (hb ▸ ha)⟩ }

/-! ## Laws -/

theorem name_of_find? {cat : Catalog} {name : String} {m : Model} (h : cat.find? name = some m) :
    m.name = name := by
  simpa using List.find?_some h

theorem mem_of_find? {cat : Catalog} {name : String} {m : Model} (h : cat.find? name = some m) :
    m ∈ cat.models := List.mem_of_find?_eq_some h

/-- A model can be found under its name, and under no other. -/
theorem find?_eq_some_iff {cat : Catalog} {name : String} {m : Model} :
    cat.find? name = some m ↔ m ∈ cat.models ∧ m.name = name := by
  refine ⟨fun h => ⟨mem_of_find? h, name_of_find? h⟩, fun ⟨hm, hn⟩ => ?_⟩
  have hu := cat.nodup
  unfold find?
  generalize cat.models = models at hm hu
  induction models with
  | nil => cases hm
  | cons a as ih =>
    obtain ⟨ha, has⟩ := List.nodup_cons.1 hu
    rcases List.mem_cons.1 hm with rfl | hm
    · simp [hn]
    · have : a.name ≠ name := by
        rintro rfl
        exact ha (hn ▸ List.mem_map_of_mem hm)
      simpa [List.find?_cons, this] using ih hm has

theorem model_eq_ok_iff {cat : Catalog} {name : String} {m : Model} :
    cat.model name = .ok m ↔ m ∈ cat.models ∧ m.name = name := by
  rw [← find?_eq_some_iff]
  unfold model
  split
  · next h => rw [h]; exact ⟨fun e => by cases e; rfl, fun e => by cases e; rfl⟩
  · next h => rw [h]; exact ⟨nofun, nofun⟩

/-- Registration adds one model at the end and nothing else. -/
theorem register_eq_ok_iff {cat cat' : Catalog} {m : Model} :
    cat.register m = .ok cat' ↔ m.name ∉ cat.names ∧ cat'.models = cat.models ++ [m] := by
  unfold register
  split
  · next h => simp [h]
  · next h =>
    obtain ⟨models, hu⟩ := cat'
    simp [h, eq_comm]

theorem find?_isSome_iff {cat : Catalog} {name : String} :
    (cat.find? name).isSome ↔ name ∈ cat.names := by
  simp [find?, names]

end Catalog

end TypedModels
