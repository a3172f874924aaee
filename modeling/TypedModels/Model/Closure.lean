import TypedModels.Model.Basic
import TypedModels.Model.Scope

/-!
# Dependency closure

The closure of a model is the model itself and everything that it depends on, directly or not. It is
walked depth first in order of declaration, and every model is visited once.

## Main definitions

* `Catalog.walk` : the walk with an explicit stack.
* `Catalog.closure` : the closure of a model.
* `Catalog.closureSources` : the schema documents of the closure.
-/

namespace TypedModels

namespace Catalog

/-- The declared dependencies of a model. -/
def dependenciesOf (cat : Catalog) (m : Model) : Except ConfigError (List Model) :=
  m.dependencies.mapM (cat.dependency m)

/-- Visits the models on the stack that are still pending, and before the rest of the stack the
dependencies of each. All dependencies of a model are looked up before any of them is visited. -/
def walk (cat : Catalog) (pending : List String) (stack : List Model) :
    Except ConfigError (List Model) :=
  match stack with
  | [] => .ok []
  | m :: rest =>
    if _h : m.name ∈ pending then do
      let dependencies ← cat.dependenciesOf m
      let visited ← cat.walk (pending.erase m.name) (dependencies ++ rest)
      return m :: visited
    else cat.walk pending rest
termination_by (pending.length, stack.length)
decreasing_by
  · have := List.length_erase_of_mem _h
    have := List.length_pos_of_mem _h
    exact Prod.Lex.left _ _ (by omega)
  · exact Prod.Lex.right _ (by simp)

/-- A model and everything that it depends on, each model once, in the order of the walk. -/
def closure (cat : Catalog) (m : Model) : Except ConfigError (List Model) :=
  cat.walk cat.names [m]

/-- The schema documents of the closure, one for each model. -/
def closureSources (cat : Catalog) (m : Model) : Except ConfigError (List Source) :=
  return (← cat.closure m).map (·.schema)

end Catalog

end TypedModels
