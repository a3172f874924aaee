/-!
# Faults of a schema document

What can be wrong with a document that is read from a text.

## Main definitions

* `DocumentFault` : why a tree or a text is not a document.
* `DocumentError` : a text in one of the two notations that holds no document.
-/

namespace TypedModels

/-- Why a tree or a text is not a schema document. -/
inductive DocumentFault where
  /-- A required member is absent. -/
  | missingField (name : String)
  /-- A known member occurs twice. -/
  | duplicateField (name : String)
  /-- A named type without a name. -/
  | unnamedType
  /-- A wrapper of the given kind around nothing. -/
  | noInnerType (kind : String)
  /-- A value of another shape than its place requires. The decoding library's own wording, which
  tells the two shapes, is left out. -/
  | wrongShape
  /-- A text that holds no tree. -/
  | unreadable
deriving DecidableEq, Repr

def DocumentFault.message : DocumentFault → String
  | .missingField name => s!"missing field `{name}`"
  | .duplicateField name => s!"duplicate field `{name}`"
  | .unnamedType => "NamedType node has no name"
  | .noInnerType kind => s!"{kind} node has no inner type"
  | .wrongShape => "invalid type"
  | .unreadable => "syntax"

/-- A text that holds no document, with the fault where the notation reports one. -/
inductive DocumentError where
  | json (fault : DocumentFault)
  | yaml
deriving DecidableEq, Repr

def DocumentError.message : DocumentError → String
  | .json fault => s!"document error: invalid JSON AST: {fault.message}"
  | .yaml => "document error: invalid YAML AST"

end TypedModels
