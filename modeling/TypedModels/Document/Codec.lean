import TypedModels.Document.Basic
import TypedModels.Json.Value

/-!
# Documents as JSON trees

Every node of a document is an object whose known members are its parts. Reading a node goes through
the members in order and stops at the first fault: members with unknown keys are passed over, and a
second member with a known key is a fault. A node may also be written as the array of its parts.

The kind of a definition is determined before its other parts are looked at, because only object and
interface definitions have any.

## Main definitions

* `Document.encode` : the tree of a document.
* `Document.decode` : the document of a tree.
-/

namespace TypedModels

open DocumentFault

/-! ## Encoding -/

/-- The node of a name. -/
def encodeName (name : String) : Value := .obj [("kind", .str "Name"), ("value", .str name)]

def RawTypeRef.encode : RawTypeRef → Value
  | .node kind name none =>
    .obj (("kind", .str kind) :: (name.map fun n => ("name", encodeName n)).toList)
  | .node kind name (some inner) =>
    .obj (("kind", .str kind) ::
      ((name.map fun n => ("name", encodeName n)).toList ++ [("type", inner.encode)]))

def TypeRef.encode (t : TypeRef) : Value := t.toRaw.encode

def FieldDef.encode (f : FieldDef) : Value :=
  .obj [("name", encodeName f.name), ("type", f.type.encode)]

/-- The members of a body; interfaces are left out if there are none. -/
def TypeDef.members (body : TypeDef) : List (String × Value) :=
  [("name", encodeName body.name), ("fields", .arr (body.fields.map FieldDef.encode))] ++
    if body.interfaces = [] then []
    else [("interfaces", .arr (body.interfaces.map TypeRef.encode))]

def Definition.encode : Definition → Value
  | .object body => .obj (("kind", .str "ObjectTypeDefinition") :: body.members)
  | .interface body => .obj (("kind", .str "InterfaceTypeDefinition") :: body.members)
  | .other => .obj [("kind", .str "Other")]

def Document.encode (doc : Document) : Value :=
  .obj [("definitions", .arr (doc.definitions.map Definition.encode))]

/-! ## Parts of a node -/

/-- Stores a part that may occur once. -/
def DocumentFault.once {α : Type} (name : String) (stored : Option α)
    (part : Except DocumentFault α) : Except DocumentFault (Option α) :=
  match stored with
  | some _ => .error (duplicateField name)
  | none => part.map some

def decodeString : Value → Except DocumentFault String
  | .str s => .ok s
  | _ => .error wrongShape

/-- Reads the items of an array in order. -/
def decodeList {α : Type} (item : Value → Except DocumentFault α) :
    Value → Except DocumentFault (List α)
  | .arr items => items.mapM item
  | _ => .error wrongShape

/-! ## Names -/

structure NameParts where
  kind : Option String := none
  value : Option String := none

def NameParts.add (p : NameParts) (m : String × Value) : Except DocumentFault NameParts :=
  if m.1 = "kind" then return { p with kind := ← once "kind" p.kind (decodeString m.2) }
  else if m.1 = "value" then return { p with value := ← once "value" p.value (decodeString m.2) }
  else return p

/-- Reads the node of a name. -/
def decodeName : Value → Except DocumentFault String
  | .obj members => do
    match (← members.foldlM NameParts.add {}).value with
    | some value => return value
    | none => throw (missingField "value")
  | .arr [kind, value] => do
    let _ ← decodeString kind
    decodeString value
  | .arr (kind :: _ :: _) => do
    let _ ← decodeString kind
    throw wrongShape
  | _ => throw wrongShape

/-- Reads the node of a name, which may be null. -/
def decodeName? : Value → Except DocumentFault (Option String)
  | .null => .ok none
  | v => (decodeName v).map some

/-! ## Type references -/

structure TypeParts where
  kind : Option String := none
  name : Option (Option String) := none
  inner : Option (Option RawTypeRef) := none

/-- The type node with the given parts. -/
def TypeParts.toNode (p : TypeParts) : Except DocumentFault RawTypeRef :=
  match p.kind with
  | some kind => .ok (.node kind p.name.join p.inner.join)
  | none => .error (missingField "kind")

mutual

/-- Reads a type node, which may be null. -/
def RawTypeRef.decode? : Value → Except DocumentFault (Option RawTypeRef)
  | .null => .ok none
  | .obj members => do
    let p ← RawTypeRef.decodeMembers {} members
    some <$> p.toNode
  | .arr [kind] => do
    return some (.node (← decodeString kind) none none)
  | .arr [kind, name] => do
    return some (.node (← decodeString kind) (← decodeName? name) none)
  | .arr [kind, name, inner] => do
    return some (.node (← decodeString kind) (← decodeName? name) (← RawTypeRef.decode? inner))
  | .arr (kind :: name :: inner :: _) => do
    let _ ← decodeString kind
    let _ ← decodeName? name
    let _ ← RawTypeRef.decode? inner
    throw wrongShape
  | _ => throw wrongShape

def RawTypeRef.decodeMembers (p : TypeParts) :
    List (String × Value) → Except DocumentFault TypeParts
  | [] => .ok p
  | (key, v) :: members => do
    let p ←
      if key = "kind" then pure { p with kind := ← once "kind" p.kind (decodeString v) }
      else if key = "name" then pure { p with name := ← once "name" p.name (decodeName? v) }
      else if key = "type" then
        pure { p with inner := ← once "type" p.inner (RawTypeRef.decode? v) }
      else pure p
    RawTypeRef.decodeMembers p members

end

/-- Reads a type node. -/
def RawTypeRef.decode (v : Value) : Except DocumentFault RawTypeRef := do
  match ← RawTypeRef.decode? v with
  | some raw => return raw
  | none => throw wrongShape

/-- Reads a chain: the whole node first, and then the part of it that matters. -/
def TypeRef.decode (v : Value) : Except DocumentFault TypeRef := do
  (← RawTypeRef.decode v).toTypeRef

/-! ## Fields -/

structure FieldParts where
  name : Option String := none
  type : Option TypeRef := none

def FieldParts.add (p : FieldParts) (m : String × Value) : Except DocumentFault FieldParts :=
  if m.1 = "name" then return { p with name := ← once "name" p.name (decodeName m.2) }
  else if m.1 = "type" then return { p with type := ← once "type" p.type (TypeRef.decode m.2) }
  else return p

/-- The field with the given parts. -/
def FieldParts.toField (p : FieldParts) : Except DocumentFault FieldDef :=
  match p.name, p.type with
  | none, _ => .error (missingField "name")
  | some _, none => .error (missingField "type")
  | some name, some type => .ok { name, type }

def FieldDef.decode : Value → Except DocumentFault FieldDef
  | .obj members => do (← members.foldlM FieldParts.add {}).toField
  | .arr [name] => do
    let _ ← decodeName name
    throw wrongShape
  | .arr [name, type] => do
    return { name := ← decodeName name, type := ← TypeRef.decode type }
  | .arr (name :: type :: _) => do
    let _ ← decodeName name
    let _ ← TypeRef.decode type
    throw wrongShape
  | _ => throw wrongShape

/-! ## Bodies -/

structure BodyParts where
  name : Option String := none
  fields : Option (List FieldDef) := none
  interfaces : Option (List TypeRef) := none

def BodyParts.add (p : BodyParts) (m : String × Value) : Except DocumentFault BodyParts :=
  if m.1 = "name" then return { p with name := ← once "name" p.name (decodeName m.2) }
  else if m.1 = "fields" then
    return { p with fields := ← once "fields" p.fields (decodeList FieldDef.decode m.2) }
  else if m.1 = "interfaces" then
    return { p with
      interfaces := ← once "interfaces" p.interfaces (decodeList TypeRef.decode m.2) }
  else return p

/-- The body with the given parts. Without fields or interfaces it has none of them. -/
def BodyParts.toBody (p : BodyParts) : Except DocumentFault TypeDef :=
  match p.name with
  | none => .error (missingField "name")
  | some name => .ok { name, fields := p.fields.getD [], interfaces := p.interfaces.getD [] }

/-- Reads a body from the members beside the kind. -/
def TypeDef.decodeMembers (members : List (String × Value)) : Except DocumentFault TypeDef := do
  (← members.foldlM BodyParts.add {}).toBody

/-- Reads a body from the items after the kind. -/
def TypeDef.decodeItems : List Value → Except DocumentFault TypeDef
  | [] => throw wrongShape
  | [name] => do return { name := ← decodeName name }
  | [name, fields] => do
    return { name := ← decodeName name, fields := ← decodeList FieldDef.decode fields }
  | [name, fields, interfaces] => do
    return {
      name := ← decodeName name
      fields := ← decodeList FieldDef.decode fields
      interfaces := ← decodeList TypeRef.decode interfaces }
  | name :: fields :: interfaces :: _ => do
    let _ ← decodeName name
    let _ ← decodeList FieldDef.decode fields
    let _ ← decodeList TypeRef.decode interfaces
    throw wrongShape

/-! ## Definitions -/

/-- Stores the kind of a definition if the member holds it. -/
def Definition.addKind (kind : Option String) (m : String × Value) :
    Except DocumentFault (Option String) :=
  if m.1 = "kind" then once "kind" kind (decodeString m.2) else return kind

/-- The kind among the members of a definition. -/
def Definition.decodeKind (members : List (String × Value)) : Except DocumentFault String := do
  match ← members.foldlM Definition.addKind none with
  | some kind => return kind
  | none => throw (missingField "kind")

/-- The definition of the given kind, whose body is read if it has one; `other` is the outcome for
every other kind. -/
def Definition.ofKind (kind : String) (body : Except DocumentFault TypeDef)
    (other : Except DocumentFault Definition) : Except DocumentFault Definition :=
  if kind = "ObjectTypeDefinition" then body.map .object
  else if kind = "InterfaceTypeDefinition" then body.map .interface
  else other

def Definition.decode : Value → Except DocumentFault Definition
  | .obj members => do
    let kind ← Definition.decodeKind members
    Definition.ofKind kind (TypeDef.decodeMembers (members.filter (·.1 ≠ "kind"))) (.ok .other)
  | .arr [] => throw (missingField "kind")
  | .arr (kind :: items) => do
    let kind ← decodeString kind
    Definition.ofKind kind (TypeDef.decodeItems items)
      (if items = [] then .ok .other else .error wrongShape)
  | _ => throw wrongShape

/-! ## Documents -/

/-- Stores the definitions of a document if the member holds them. -/
def Document.addDefinitions (definitions : Option (List Definition)) (m : String × Value) :
    Except DocumentFault (Option (List Definition)) :=
  if m.1 = "definitions" then
    once "definitions" definitions (decodeList Definition.decode m.2)
  else return definitions

/-- The document of a tree. Without definitions it is empty. -/
def Document.decode : Value → Except DocumentFault Document
  | .obj members => do
    return ⟨(← members.foldlM Document.addDefinitions none).getD []⟩
  | .arr [] => return Document.empty
  | .arr [definitions] => do return ⟨← decodeList Definition.decode definitions⟩
  | .arr (definitions :: _) => do
    let _ ← decodeList Definition.decode definitions
    throw wrongShape
  | _ => throw wrongShape

end TypedModels
