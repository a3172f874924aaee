import TypedModels.Model.Compilation

/-!
# Validation against a model

A value is validated against the compiled schema of a model, whose custom types are the dependencies
of the model: an element of a concrete type is validated against the dependency, and an element of
an interface against the implementation that its discriminator picks for the element.

## Main definitions

* `Catalog.implementation` : the implementation that an interface picks for a value.
* `Catalog.oracle` : the dependencies of a model as custom types.
* `Catalog.validate` : the failing fields of a value.
-/

namespace TypedModels

namespace Catalog

/-- The implementation that an interface picks for a value, among its declared dependencies. -/
def implementation (cat : Catalog) (m : Model) (props : Value) : Session ConfigError Model := do
  let compiled ← cat.compiled m
  match compiled.dispatch with
  | .concrete => throw (.notAnInterface m.name)
  | .interface discriminator =>
    match compiled.dependencies.lookup (discriminator props) with
    | some name => cat.model name
    | none => throw (.discriminatorResultMissing (discriminator props) m.name)

/-- The dependencies in a scope as custom types, given how a model validates an object. -/
def oracle (cat : Catalog) (scope : Scope)
    (validate : Model → Value → Session ConfigError Report) :
    TypeOracle (Session ConfigError) where
  toDeclaredTypes := scope.declared
  validateModel typeName element := do validate (← scope.get typeName) element
  validateImplementation typeName element := do
    validate (← cat.implementation (← scope.get typeName) element) element

/-- The failing fields of a value. The schema asks only about elements, which are less deep than the
value that they are part of. -/
def validate (cat : Catalog) (m : Model) (props : Value) : Session ConfigError Report := do
  let compiled ← cat.compiled m
  let scope ← cat.scope m
  compiled.schema.validate
    (cat.oracle scope fun d element =>
      if element.depth < props.depth then cat.validate d element else pure [])
    props
termination_by props.depth

/-- Every element is less deep than the value that it is part of, so the bound on the depth of
elements excludes nothing. -/
theorem validate_eq (cat : Catalog) (m : Model) (props : Value) :
    cat.validate m props = (do
      let compiled ← cat.compiled m
      let scope ← cat.scope m
      compiled.schema.validate (cat.oracle scope cat.validate) props) := by
  rw [validate]
  congr 1; funext compiled
  congr 1; funext scope
  refine TypeSchema.validate_congr ?_ ?_
  · intro n e h; simp [oracle, h]
  · intro n e h; simp [oracle, h]

def isValid (cat : Catalog) (m : Model) (props : Value) : Session ConfigError Bool :=
  return (← cat.validate m props).isEmpty

end Catalog

end TypedModels
