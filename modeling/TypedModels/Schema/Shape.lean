import TypedModels.Document.Basic
import TypedModels.Failure
import TypedModels.Scalar

/-!
# Shapes of types

The definition of a type is flattened before it is compiled: for every field its base type, whether
it is required and whether it is a list. Where a wrapper stands in the chain makes no difference.

A base type that is declared as a custom type is custom, even under the name of a scalar; any other
base type has to be a scalar.

## Main definitions

* `DeclaredTypes` : the custom types that a definition may refer to.
* `TypeRef.flatten` : the base type of a chain and the wrappers around it.
* `Document.definitionNamed` : the only definition with a given name.
* `Document.shapeOf` : the shape of that definition.
-/

namespace TypedModels

/-- The custom types that a definition may refer to. -/
structure DeclaredTypes where
  contains : String → Bool
  /-- Whether a declared type is an interface. -/
  isInterface : String → Except ConfigError Bool

/-- No custom types at all. -/
def DeclaredTypes.none : DeclaredTypes where
  contains _ := false
  isInterface name := .error (.unknownModel name)

/-- A flattened field. -/
structure FieldShape where
  name : String
  baseType : String
  required : Bool
  isList : Bool
  isCustom : Bool
  isInterface : Bool
  /-- Whether a resolver supplies the value. -/
  hasResolver : Bool
deriving DecidableEq, Repr, Inhabited

/-- A flattened definition, with its fields in order. -/
structure TypeShape where
  typeName : String
  fields : List FieldShape
  isInterface : Bool
deriving DecidableEq, Repr, Inhabited

/-! ## Chains -/

/-- The base type of a chain, and which wrappers occur around it. -/
structure FlatType where
  base : String
  required : Bool := false
  isList : Bool := false
deriving DecidableEq, Repr

/-- Flattens a chain; an unknown link is returned as its kind. -/
def TypeRef.flatten : TypeRef → Except String FlatType
  | .named name => .ok { base := name }
  | .list inner => inner.flatten.map fun flat => { flat with isList := true }
  | .nonNull inner => inner.flatten.map fun flat => { flat with required := true }
  | .unrecognized kind => .error kind

/-! ## Definitions -/

/-- The only object or interface definition with a name; the flag marks an interface. -/
def Document.definitionNamed (doc : Document) (name : String) :
    Except ConfigError (TypeDef × Bool) :=
  match doc.typeDefs.filter (·.1.name = name) with
  | [] => .error (.unknownTypeDefinition name)
  | [found] => .ok found
  | found => .error (.duplicateTypeDefinition name found.length)

/-- The shape of a field of the type `typeName`. -/
def FieldDef.shape (declared : DeclaredTypes) (hasResolver : String → Bool) (typeName : String)
    (field : FieldDef) : Except ConfigError FieldShape :=
  match field.type.flatten with
  | .error kind => .error (.unknownWrapperKind kind field.name typeName)
  | .ok flat =>
    if declared.contains flat.base then do
      let isInterface ← declared.isInterface flat.base
      return {
        name := field.name, baseType := flat.base, required := flat.required
        isList := flat.isList, isCustom := true, isInterface
        hasResolver := hasResolver field.name }
    else if (Scalar.ofName? flat.base).isSome then
      .ok {
        name := field.name, baseType := flat.base, required := flat.required
        isList := flat.isList, isCustom := false, isInterface := false
        hasResolver := hasResolver field.name }
    else .error (.unknownType flat.base field.name)

/-- The shape of the definition with a name. The first field that has no shape decides the error. -/
def Document.shapeOf (doc : Document) (typeName : String) (declared : DeclaredTypes)
    (hasResolver : String → Bool) : Except ConfigError TypeShape := do
  let (body, isInterface) ← doc.definitionNamed typeName
  let fields ← body.fields.mapM (FieldDef.shape declared hasResolver typeName)
  return { typeName, fields, isInterface }

end TypedModels
