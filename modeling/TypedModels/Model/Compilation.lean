import TypedModels.Model.Scope

/-!
# Compiling models

A model is compiled when it is first needed, after the models that it depends on, and the result is
kept in a cache. A model that is being compiled already is not entered again, so models may depend
on each other in cycles. A failure is not kept, but what was compiled before it stays.

## Main definitions

* `Compiled` : a compiled schema, the dependencies, and whether the model is an interface.
* `Model.compile` : compiles one model against its scope.
* `Cache`, `Session` : computations that fill a cache and may fail.
* `Catalog.compiled` : the compiled form of a model, from the cache if it is there.
* `Catalog.compileModels` : compiles every model.
-/

namespace TypedModels

inductive Dispatch where
  | concrete
  | interface (discriminator : Discriminator)

structure Compiled where
  schema : TypeSchema
  /-- The names of the dependencies, by the names of their types. -/
  dependencies : OrderedMap String
  dispatch : Dispatch

def Compiled.isInterface (c : Compiled) : Bool := c.schema.isInterface

/-- Whether a shape needs a discriminator, and which one it gets. A discriminator of a model that is
not an interface is not used. -/
def Model.dispatch (m : Model) (shape : TypeShape) : Except ConfigError Dispatch :=
  if shape.isInterface then
    match m.resolveType with
    | some discriminator => .ok (.interface discriminator)
    | none => .error (.missingDiscriminator m.name)
  else .ok .concrete

/-- Compiles a model against its scope. -/
def Model.compile (m : Model) (scope : Scope) : Except ConfigError Compiled := do
  let shape ← m.schema.document.shapeOf m.typeName scope.declared m.hasResolver
  let dispatch ← m.dispatch shape
  let schema ← shape.compile
  return { schema, dependencies := scope.modelNames, dispatch }

/-! ## Sessions -/

/-- The compiled models by name, in the order in which they were compiled. -/
abbrev Cache := OrderedMap Compiled

/-- A computation that may fill the cache and may fail. A failure keeps what was filled before. -/
abbrev Session (ε : Type) := ExceptT ε (StateM Cache)

instance : MonadLift (Session ConfigError) (Session Failure) where
  monadLift := ExceptT.adapt Failure.schema

instance : MonadLift (Except ConfigError) (Session Failure) where
  monadLift x := ExceptT.mk (pure (x.mapError Failure.schema))

namespace Catalog

/-- The compiled form of a model. `pending` lists the models that may be entered: the registered
ones that are not being compiled already. Dependencies come first, in the order of the scope. -/
def compilePending (cat : Catalog) (pending : List String) (m : Model) (_h : m.name ∈ pending) :
    Session ConfigError Compiled := do
  match (← get).lookup m.name with
  | some compiled => return compiled
  | none =>
    let scope ← cat.scope m
    scope.models.forM fun (_, d) =>
      if hd : d.name ∈ pending.erase m.name then
        discard (cat.compilePending (pending.erase m.name) d hd)
      else pure ()
    match (← get).lookup m.name with
    | some compiled => return compiled
    | none =>
      let compiled ← m.compile scope
      modify (OrderedMap.insert m.name compiled)
      return compiled
termination_by pending.length
decreasing_by
  have := List.length_erase_of_mem _h
  have := List.length_pos_of_mem _h
  omega

/-- The compiled form of a registered model. -/
def compiled (cat : Catalog) (m : Model) : Session ConfigError Compiled :=
  if h : m.name ∈ cat.names then cat.compilePending cat.names m h
  else throw (.unknownModel m.name)

/-- Compiles every model in order of registration, up to the first failure. -/
def compileModels (cat : Catalog) : Session ConfigError Unit :=
  cat.models.forM fun m => discard (cat.compiled m)

end Catalog

end TypedModels
