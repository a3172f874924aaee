import TypedModels.Schema.Shape

/-!
# Compiled schemas

A compiled schema says for every field of a type how an element of the field is checked.

## Main definitions

* `ElementCheck` : a scalar, a concrete custom type, or an interface.
* `FieldSchema`, `TypeSchema` : compiled fields and types.
* `FieldShape.compile`, `TypeShape.compile` : the compiled form of a shape.
-/

namespace TypedModels

/-- How an element of a field is checked. -/
inductive ElementCheck where
  /-- Against a built-in scalar. -/
  | builtin (scalar : Scalar)
  /-- Against a concrete custom type. -/
  | model (typeName : String)
  /-- Against the implementation that an interface picks for the element. -/
  | interface (typeName : String)
deriving DecidableEq, Repr

/-- The name of the type that an element is checked against. -/
def ElementCheck.typeName : ElementCheck → String
  | .builtin scalar => scalar.name
  | .model typeName | .interface typeName => typeName

structure FieldSchema extends FieldShape where
  check : ElementCheck
deriving DecidableEq, Repr

/-- A compiled type. Its fields are in order of declaration, each name once. -/
structure TypeSchema where
  typeName : String
  fields : OrderedMap FieldSchema
  isInterface : Bool
deriving DecidableEq, Repr

/-- The check that fits a shape. -/
def FieldShape.check (f : FieldShape) : Except ConfigError ElementCheck :=
  if f.isInterface then .ok (.interface f.baseType)
  else if f.isCustom then .ok (.model f.baseType)
  else
    match Scalar.ofName? f.baseType with
    | some scalar => .ok (.builtin scalar)
    | none => .error (.unknownType f.baseType f.name)

def FieldShape.compile (f : FieldShape) : Except ConfigError FieldSchema :=
  f.check.map fun check => { f with check }

/-- Compiles every field. A name that is declared again keeps its place and takes the later
field. -/
def TypeShape.compile (t : TypeShape) : Except ConfigError TypeSchema := do
  let fields ← t.fields.mapM FieldShape.compile
  return {
    typeName := t.typeName
    fields := OrderedMap.ofEntries (fields.map fun f => (f.name, f))
    isInterface := t.isInterface }

namespace TypeSchema

def fieldNames (t : TypeSchema) : List String := OrderedMap.keys t.fields

def field? (t : TypeSchema) (name : String) : Option FieldSchema := t.fields.lookup name

end TypeSchema

end TypedModels
