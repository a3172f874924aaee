import TypedModels.Model.Closure
import TypedModels.Model.Compilation

/-!
# Resolvers of a closure

The resolvers of a model and of everything that it depends on, by the names of their types. An
interface adds its discriminator under the name `__resolveType`. A model with neither adds nothing.

## Main definitions

* `Model.contribution` : the resolvers that one model adds.
* `Catalog.closureResolvers` : the resolvers of a closure.
-/

namespace TypedModels

/-- The field under which the discriminator of an interface is found. -/
def resolveTypeField : String := "__resolveType"

/-- The resolvers that a model adds: its own, and its discriminator if it is an interface. -/
def Model.contribution (m : Model) (compiled : Compiled) : FieldResolvers :=
  match compiled.dispatch with
  | .concrete => m.resolvers
  | .interface discriminator =>
    OrderedMap.insert resolveTypeField (fun props => .str (discriminator props)) m.resolvers

/-- Resolvers with the name of the model that added them. -/
structure Contribution where
  model : String
  resolvers : FieldResolvers

namespace Catalog

/-- Adds the resolvers of a model to those collected by type. Two models may not add resolvers for
one type. -/
def contribute (cat : Catalog) (collected : OrderedMap Contribution) (m : Model) :
    Session ConfigError (OrderedMap Contribution) := do
  let resolvers := m.contribution (← cat.compiled m)
  if resolvers.isEmpty then return collected
  else
    match collected.lookup m.typeName with
    | some first => throw (.conflictingResolvers m.typeName first.model m.name)
    | none => return OrderedMap.insert m.typeName { model := m.name, resolvers } collected

/-- The resolvers of a closure by type, in the order of the closure. Every model of it is
compiled. -/
def closureResolvers (cat : Catalog) (m : Model) : Session ConfigError ResolverTable := do
  let models ← cat.closure m
  let collected ← models.foldlM cat.contribute []
  return collected.map fun e => (e.1, e.2.resolvers)

end Catalog

end TypedModels
