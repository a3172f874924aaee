import TypedModels.Model.Basic
import TypedModels.Schema.Validation

/-!
# Dependency scopes

The custom types that the definition of a model may refer to are the types of its declared
dependencies. A scope holds those models by the names of their types, in order of first declaration.
A dependency that is declared again does no harm; two models for one type do.

## Main definitions

* `Scope` : the dependencies of a model, by type.
* `Catalog.scope` : the scope of a model.
* `Scope.declared` : the scope as the declared types of a definition.
-/

namespace TypedModels

structure Scope where
  /-- The name of the model that declares the dependencies. -/
  owner : String
  /-- The dependencies, by the names of their types. -/
  models : OrderedMap Model

namespace Catalog

/-- The model that `m` declares as a dependency under the given name. -/
def dependency (cat : Catalog) (m : Model) (name : String) : Except ConfigError Model :=
  match cat.find? name with
  | some d => .ok d
  | none => .error (.unknownDependency m.name name)

/-- Adds the dependency of `m` with the given name to a scope. -/
def addDependency (cat : Catalog) (m : Model) (models : OrderedMap Model) (name : String) :
    Except ConfigError (OrderedMap Model) := do
  let d ← cat.dependency m name
  match models.lookup d.typeName with
  | some other =>
    if other.name = d.name then return models
    else throw (.duplicateDependency m.name d.typeName)
  | none => return OrderedMap.insert d.typeName d models

/-- The scope of a model. The first declaration that does not fit decides the error. -/
def scope (cat : Catalog) (m : Model) : Except ConfigError Scope := do
  return { owner := m.name, models := ← m.dependencies.foldlM (cat.addDependency m) [] }

end Catalog

namespace Scope

/-- The dependency for a type. -/
def get (s : Scope) (typeName : String) : Except ConfigError Model :=
  match s.models.lookup typeName with
  | some m => .ok m
  | none => .error (.unknownDependency s.owner typeName)

/-- The dependencies as the declared types of a definition. -/
def declared (s : Scope) : DeclaredTypes where
  contains typeName := (s.models.lookup typeName).isSome
  isInterface typeName := do (← s.get typeName).isInterface

/-- The names of the dependencies, by the names of their types. -/
def modelNames (s : Scope) : OrderedMap String := s.models.map fun e => (e.1, e.2.name)

end Scope

end TypedModels
