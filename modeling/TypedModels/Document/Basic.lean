import TypedModels.Document.TypeRef

/-!
# Schema documents

A document is a sequence of definitions. Object and interface definitions carry a body; definitions
of other kinds are kept as placeholders.

## Main definitions

* `Document`, `Definition`, `TypeDef`, `FieldDef` : documents and their parts.
* `Document.typeDefs` : the object and interface definitions in order.
* `Document.isGenuine` : whether every type reference can be told from its written form.
-/

namespace TypedModels

/-- A declaration `name: type`. -/
structure FieldDef where
  name : String
  type : TypeRef
deriving DecidableEq, Repr, Inhabited

/-- The body that object and interface definitions share. -/
structure TypeDef where
  name : String
  fields : List FieldDef := []
  /-- The interfaces that the type implements. -/
  interfaces : List TypeRef := []
deriving DecidableEq, Repr, Inhabited

inductive Definition where
  | object (body : TypeDef)
  | interface (body : TypeDef)
  | other
deriving DecidableEq, Repr, Inhabited

namespace Definition

/-- The body of an object or interface definition. -/
def body? : Definition → Option TypeDef
  | .object body | .interface body => some body
  | .other => none

def name? (d : Definition) : Option String := d.body?.map (·.name)

def isInterface : Definition → Bool
  | .interface _ => true
  | _ => false

/-- Whether no link of an unknown kind goes by the kind of a known link. -/
def isGenuine (d : Definition) : Bool :=
  match d.body? with
  | some body => body.fields.all (·.type.isGenuine) && body.interfaces.all (·.isGenuine)
  | none => true

end Definition

structure Document where
  definitions : List Definition
deriving DecidableEq, Repr, Inhabited

namespace Document

def empty : Document := ⟨[]⟩

/-- The object and interface definitions in order; the flag marks interfaces. -/
def typeDefs (doc : Document) : List (TypeDef × Bool) :=
  doc.definitions.filterMap fun d => d.body?.map fun body => (body, d.isInterface)

def isGenuine (doc : Document) : Bool := doc.definitions.all (·.isGenuine)

end Document

/-- A document together with the name that it is known by; `none` if it is anonymous. -/
structure Source where
  name : Option String := none
  document : Document := Document.empty
deriving DecidableEq, Repr, Inhabited

end TypedModels
