import TypedModels.Document.Fault

/-!
# Type references

The type of a field is a chain of list and non-null wrappers around the name of a type. A link of
an unknown kind ends a chain too, so that whoever resolves the chain can report it.

In a syntax tree every link is a node with a kind, an optional name and an optional inner node. Only
the path from the outermost node through the wrappers matters for the chain.

## Main definitions

* `TypeRef` : chains.
* `TypeRef.text` : the notation `[Int]!`.
* `RawTypeRef` : nodes of a syntax tree.
* `RawTypeRef.toTypeRef`, `TypeRef.toRaw` : the chain of a node, and the least node of a chain.
-/

namespace TypedModels

/-- A chain of wrappers. -/
inductive TypeRef where
  /-- The name of a type. -/
  | named (name : String)
  /-- `[inner]` -/
  | list (inner : TypeRef)
  /-- `inner!` -/
  | nonNull (inner : TypeRef)
  /-- A link of an unknown kind. -/
  | unrecognized (kind : String)
deriving DecidableEq, Repr, Inhabited

namespace TypeRef

/-- The kind of the outermost link. -/
def kind : TypeRef → String
  | .named _ => "NamedType"
  | .list _ => "ListType"
  | .nonNull _ => "NonNullType"
  | .unrecognized kind => kind

def chars : TypeRef → List Char
  | .named name => name.toList
  | .list inner => '[' :: (inner.chars ++ [']'])
  | .nonNull inner => inner.chars ++ ['!']
  | .unrecognized kind => '<' :: (kind.toList ++ ['>'])

/-- The chain in schema notation. -/
def text (t : TypeRef) : String := String.ofList t.chars

/-- Whether no link of an unknown kind goes by the kind of a known link. -/
def isGenuine : TypeRef → Bool
  | .named _ => true
  | .list inner => inner.isGenuine
  | .nonNull inner => inner.isGenuine
  | .unrecognized kind => kind ≠ "NamedType" && kind ≠ "ListType" && kind ≠ "NonNullType"

end TypeRef

/-! ## Nodes -/

/-- A type node of a syntax tree, as it is written. -/
inductive RawTypeRef where
  | node (kind : String) (name : Option String) (inner : Option RawTypeRef)
deriving Repr, Inhabited

namespace RawTypeRef

/-- The chain that starts at a node. The name of a wrapper, and whatever lies below a named or an
unknown node, are not looked at. -/
def toTypeRef : RawTypeRef → Except DocumentFault TypeRef
  | .node kind name none =>
    if kind = "NamedType" then
      match name with
      | some name => .ok (.named name)
      | none => .error .unnamedType
    else if kind = "ListType" ∨ kind = "NonNullType" then .error (.noInnerType kind)
    else .ok (.unrecognized kind)
  | .node kind name (some inner) =>
    if kind = "NamedType" then
      match name with
      | some name => .ok (.named name)
      | none => .error .unnamedType
    else if kind = "ListType" then inner.toTypeRef.map .list
    else if kind = "NonNullType" then inner.toTypeRef.map .nonNull
    else .ok (.unrecognized kind)

end RawTypeRef

/-- The node of a chain, without anything that the chain does not need. -/
def TypeRef.toRaw : TypeRef → RawTypeRef
  | .named name => .node "NamedType" (some name) none
  | .list inner => .node "ListType" none (some inner.toRaw)
  | .nonNull inner => .node "NonNullType" none (some inner.toRaw)
  | .unrecognized kind => .node kind none none

end TypedModels
