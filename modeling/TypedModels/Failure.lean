import TypedModels.Document.Fault
import TypedModels.Report

/-!
# Failures

What can go wrong beside a document that cannot be read: a fault in the configuration of schemas and
models, or a value that a model does not accept.

## Main definitions

* `ConfigError` : faults of the configuration.
* `Rejection` : a value that a model does not accept.
* `Failure` : any of the errors of an operation.
-/

namespace TypedModels

inductive ConfigError where
  | unknownTypeDefinition (name : String)
  | duplicateTypeDefinition (name : String) (count : Nat)
  | unknownType (baseType field : String)
  | unknownWrapperKind (kind field typeName : String)
  | missingDiscriminator (model : String)
  | discriminatorResultMissing (resolved model : String)
  | notAnInterface (model : String)
  | unknownModel (name : String)
  | unknownDependency (model dependency : String)
  | duplicateDependency (model typeName : String)
  | conflictingResolvers (typeName first second : String)
  | duplicateModel (name : String)
deriving DecidableEq, Repr

def ConfigError.message : ConfigError → String
  | .unknownTypeDefinition name =>
    s!"could not find an object or interface definition for `{name}` in schema"
  | .duplicateTypeDefinition name count =>
    s!"found {count} object or interface definitions named `{name}` in schema"
  | .unknownType baseType field =>
    s!"unknown type `{baseType}` on field `{field}`: not a built-in scalar or a declared dependency"
  | .unknownWrapperKind kind field typeName =>
    s!"unknown type wrapper kind `{kind}` on field `{field}` of `{typeName}`"
  | .missingDiscriminator model =>
    s!"model `{model}` is an interface type but defines no resolve_type discriminator"
  | .discriminatorResultMissing resolved model =>
    s!"resolve_type of `{model}` returned `{resolved}`, which is not a declared dependency"
  | .notAnInterface model => s!"model `{model}` is not an interface type"
  | .unknownModel name => s!"no model named `{name}` is registered"
  | .unknownDependency model dependency =>
    s!"model `{model}` depends on unregistered model `{dependency}`"
  | .duplicateDependency model typeName =>
    s!"model `{model}` declares more than one dependency for type `{typeName}`"
  | .conflictingResolvers typeName first second =>
    s!"models `{first}` and `{second}` both contribute resolvers for type `{typeName}`"
  | .duplicateModel name => s!"a model named `{name}` is already registered"

/-- A value that a model does not accept, with the violations found in it. -/
structure Rejection where
  errors : Report
  props : Value
  model : String

def Rejection.message (r : Rejection) : String :=
  s!"invalid props for model `{r.model}`: " ++ r.errors.text

/-- Any of the errors of an operation. -/
inductive Failure where
  | schema (error : ConfigError)
  | rejected (rejection : Rejection)
  | document (error : DocumentError)

def Failure.message : Failure → String
  | .schema error => "schema error: " ++ error.message
  | .rejected rejection => rejection.message
  | .document error => error.message

end TypedModels
