import TypedModels.Model.Resolvers

/-!
# Operations

An operation is a module of queries or mutations: its own type definitions, its resolvers, and the
models that its fields return. Several of them are merged into the type definitions and the
resolvers of one executable schema.

The resolvers of the root type are merged field by field. The resolvers of any other type are
replaced as a whole by a later operation.

## Main definitions

* `RootKind`, `Operation` : the root types and the modules that extend them.
* `Catalog.schemaSources` : the documents of all operations.
* `Catalog.schemaResolvers` : the merged resolvers of all operations.
-/

namespace TypedModels

/-- The root type that operations extend. -/
inductive RootKind where
  | query
  | mutation
deriving DecidableEq, Repr

def RootKind.typeName : RootKind → String
  | .query => "Query"
  | .mutation => "Mutation"

structure Operation where
  source : Source := {}
  /-- The resolvers by type, normally those of the root type among them. -/
  resolvers : ResolverTable := []
  /-- The names of the models that the fields return. -/
  models : List String := []

namespace Catalog

/-- The documents of an operation: its own, and those of its models. -/
def operationSources (cat : Catalog) (op : Operation) : Except ConfigError (List Source) := do
  let sources ← op.models.mapM fun name => do cat.closureSources (← cat.model name)
  return op.source :: sources.flatten

/-- A base document, and then the documents of all operations in order. -/
def schemaSources (cat : Catalog) (base : Source) (ops : List Operation) :
    Except ConfigError (List Source) := do
  return base :: (← ops.mapM cat.operationSources).flatten

/-- The resolvers of an operation: those of its models in order, and then its own. A later entry for
a type replaces an earlier one. -/
def operationResolvers (cat : Catalog) (op : Operation) : Session ConfigError ResolverTable := do
  let merged ← op.models.foldlM (fun merged name => do
    let collected ← cat.closureResolvers (← cat.model name)
    return OrderedMap.extend merged collected) []
  return OrderedMap.extend merged op.resolvers

/-- Resolvers that are being merged, those of the root type apart. -/
structure Merge where
  root : FieldResolvers := []
  others : ResolverTable := []

/-- Merges the resolvers of one more operation. -/
def Merge.add (merge : Merge) (kind : RootKind) (resolvers : ResolverTable) : Merge where
  root := OrderedMap.extend merge.root ((resolvers.lookup kind.typeName).getD [])
  others := OrderedMap.extend merge.others (OrderedMap.erase kind.typeName resolvers)

/-- The resolvers of all operations of one kind. Those of the root type come last and are there even
without any operation. -/
def schemaResolvers (cat : Catalog) (kind : RootKind) (ops : List Operation) :
    Session ConfigError ResolverTable := do
  let merge ← ops.foldlM (fun merge op => do
    return merge.add kind (← cat.operationResolvers op)) ({} : Merge)
  return OrderedMap.insert kind.typeName merge.root merge.others

end Catalog

end TypedModels
