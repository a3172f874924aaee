import TypedModels.Proofs.Dependency

/-!
# What a compiled form says

The compiled form of a model names its dependencies by their types, knows whether the model is an
interface and how that interface picks an implementation, and checks the elements of every field
against a scalar or against one of the dependencies.

## Main definitions

* `FieldShape.Declared` : the flags of a field as they follow from the declared types.
* `Catalog.Fits` : how the check of a field follows from the dependencies of the model.
-/

namespace TypedModels

namespace Catalog

variable {cat : Catalog} {m : Model} {x : Compiled} {s : Scope}

theorem compile_eq_ok_iff : m.compile s = .ok x ↔ ∃ shape dispatch schema,
    m.schema.document.shapeOf m.typeName s.declared m.hasResolver = .ok shape ∧
      m.dispatch shape = .ok dispatch ∧ shape.compile = .ok schema ∧
      x = { schema, dependencies := s.modelNames, dispatch } := by
  simp only [Model.compile, bind_eq_ok_iff, pure, Except.pure, Except.ok.injEq]
  constructor
  · rintro ⟨shape, hshape, dispatch, hdispatch, schema, hschema, rfl⟩
    exact ⟨shape, dispatch, schema, hshape, hdispatch, hschema, rfl⟩
  · rintro ⟨shape, dispatch, schema, hshape, hdispatch, hschema, rfl⟩
    exact ⟨shape, hshape, dispatch, hdispatch, schema, hschema, rfl⟩

theorem shapeOf_eq_ok_iff {doc : Document} {typeName : String} {declared : DeclaredTypes}
    {hasResolver : String → Bool} {shape : TypeShape} :
    doc.shapeOf typeName declared hasResolver = .ok shape ↔ ∃ body fields,
      doc.definitionNamed typeName = .ok (body, shape.isInterface) ∧
        body.fields.mapM (FieldDef.shape declared hasResolver typeName) = .ok fields ∧
        shape.typeName = typeName ∧ shape.fields = fields := by
  obtain ⟨name, shapes, isInterface⟩ := shape
  simp only [Document.shapeOf, bind_eq_ok_iff, pure, Except.pure, Except.ok.injEq,
    TypeShape.mk.injEq]
  constructor
  · rintro ⟨⟨body, _⟩, hbody, fields, hfields, rfl, rfl, rfl⟩
    exact ⟨body, _, hbody, hfields, rfl, rfl⟩
  · rintro ⟨body, _, hbody, hfields, rfl, rfl⟩
    exact ⟨_, hbody, _, hfields, rfl, rfl, rfl⟩

theorem compileShape_eq_ok_iff {shape : TypeShape} {schema : TypeSchema} :
    shape.compile = .ok schema ↔ ∃ fields, shape.fields.mapM FieldShape.compile = .ok fields ∧
      schema = {
        typeName := shape.typeName
        fields := OrderedMap.ofEntries (fields.map fun f => (f.name, f))
        isInterface := shape.isInterface } := by
  simp only [TypeShape.compile, bind_eq_ok_iff, pure, Except.pure, Except.ok.injEq,
    eq_comm (a := schema)]

/-! ## The model as a whole -/

/-- A compiled form marks an interface exactly if the definition of the model is one. -/
theorem isInterface_of_alone (h : cat.alone m = .ok x) : m.isInterface = .ok x.isInterface := by
  obtain ⟨s, -, hx⟩ := alone_eq_ok_iff.1 h
  obtain ⟨shape, dispatch, schema, hshape, -, hschema, rfl⟩ := compile_eq_ok_iff.1 hx
  obtain ⟨body, fields, hbody, -⟩ := shapeOf_eq_ok_iff.1 hshape
  obtain ⟨_, -, rfl⟩ := compileShape_eq_ok_iff.1 hschema
  simp [Model.isInterface, hbody, Compiled.isInterface, Except.map]

/-- A compiled interface uses the discriminator of the model, and only an interface uses it. -/
theorem dispatch_of_alone (h : cat.alone m = .ok x) :
    (x.isInterface = false ∧ x.dispatch = .concrete) ∨
      ∃ disc, x.isInterface = true ∧ m.resolveType = some disc ∧ x.dispatch = .interface disc := by
  obtain ⟨s, -, hx⟩ := alone_eq_ok_iff.1 h
  obtain ⟨shape, dispatch, schema, -, hdispatch, hschema, rfl⟩ := compile_eq_ok_iff.1 hx
  obtain ⟨_, -, rfl⟩ := compileShape_eq_ok_iff.1 hschema
  unfold Model.dispatch at hdispatch
  cases hi : shape.isInterface with
  | false =>
    rw [hi] at hdispatch
    cases hdispatch
    exact .inl ⟨rfl, rfl⟩
  | true =>
    rw [hi, if_pos rfl] at hdispatch
    cases hr : m.resolveType with
    | none => rw [hr] at hdispatch; cases hdispatch
    | some disc =>
      rw [hr] at hdispatch
      cases hdispatch
      exact .inr ⟨disc, rfl, rfl, rfl⟩

theorem dispatch_eq_interface_iff (h : cat.alone m = .ok x) {disc : Discriminator} :
    x.dispatch = .interface disc ↔ x.isInterface = true ∧ m.resolveType = some disc := by
  rcases dispatch_of_alone h with ⟨hi, hdispatch⟩ | ⟨disc', hi, hdisc, hdispatch⟩
  · simp [hi, hdispatch]
  · simp [hi, hdisc, hdispatch]

/-- A compiled form finds the dependencies of the model by their types. -/
theorem lookup_dependencies_iff (h : cat.alone m = .ok x) {typeName name : String} :
    x.dependencies.lookup typeName = some name ↔
      ∃ d, cat.DependsOn m d ∧ d.typeName = typeName ∧ d.name = name := by
  obtain ⟨s, hs, hx⟩ := alone_eq_ok_iff.1 h
  obtain ⟨_, _, _, -, -, -, rfl⟩ := compile_eq_ok_iff.1 hx
  simp only [Scope.modelNames, OrderedMap.lookup_map Model.name, Option.map_eq_some_iff,
    lookup_scope_iff hs, and_assoc]

end Catalog

/-! ## The shape of a field -/

/-- The flags of a field say what is declared. The base type is custom if it is declared, and an
interface if it is declared as one. -/
structure FieldShape.Declared (f : FieldShape) (types : DeclaredTypes)
    (hasResolver : String → Bool) : Prop where
  custom : f.isCustom = types.contains f.baseType
  interface : f.isCustom = true → types.isInterface f.baseType = .ok f.isInterface
  plain : f.isCustom = false → f.isInterface = false
  resolver : f.hasResolver = hasResolver f.name

/-- An interface is a custom type. -/
theorem FieldShape.Declared.isCustom {f : FieldShape} {types : DeclaredTypes}
    {hasResolver : String → Bool} (h : f.Declared types hasResolver) (hi : f.isInterface = true) :
    f.isCustom = true := by
  cases hcustom : f.isCustom with
  | true => rfl
  | false =>
    rw [h.plain hcustom] at hi
    cases hi

theorem FieldDef.declared_of_shape {types : DeclaredTypes} {hasResolver : String → Bool}
    {typeName : String} {field : FieldDef} {f : FieldShape}
    (h : field.shape types hasResolver typeName = .ok f) : f.Declared types hasResolver := by
  unfold FieldDef.shape at h
  split at h
  · cases h
  next flat _ =>
    split at h
    · next hcontains =>
      obtain ⟨isInterface, hi, h⟩ := bind_eq_ok_iff.1 h
      cases h
      exact ⟨hcontains.symm, fun _ => hi, nofun, rfl⟩
    · next hcontains =>
      split at h
      · cases h
        exact ⟨by simpa using hcontains, nofun, fun _ => rfl, rfl⟩
      · cases h

/-- The check is that of an interface, of a concrete custom type, or of a scalar. -/
theorem FieldShape.check_eq_ok_iff {f : FieldShape} {check : ElementCheck} :
    f.check = .ok check ↔ (f.isInterface = true ∧ check = .interface f.baseType) ∨
      (f.isInterface = false ∧ f.isCustom = true ∧ check = .model f.baseType) ∨
      (f.isInterface = false ∧ f.isCustom = false ∧
        ∃ scalar, Scalar.ofName? f.baseType = some scalar ∧ check = .builtin scalar) := by
  unfold FieldShape.check
  cases f.isInterface <;> cases f.isCustom <;> cases Scalar.ofName? f.baseType <;>
    simp [eq_comm (a := check)]

theorem FieldShape.compile_eq_ok_iff {shape : FieldShape} {f : FieldSchema} :
    shape.compile = .ok f ↔ f.toFieldShape = shape ∧ shape.check = .ok f.check := by
  obtain ⟨fieldShape, check⟩ := f
  unfold FieldShape.compile
  cases shape.check <;> simp [Except.map, eq_comm]

namespace Catalog

variable {cat : Catalog} {m : Model} {x : Compiled} {s : Scope}

/-! ## The fields -/

/-- A field of a compiled form stands under its name, has the check that its flags ask for, and its
flags say what is declared in the scope of the model. -/
theorem field_of_alone (h : cat.alone m = .ok x) {name : String} {f : FieldSchema}
    (hf : (name, f) ∈ x.schema.fields) : name = f.name ∧ f.toFieldShape.check = .ok f.check ∧
      ∃ s, (cat.scope m = .ok s ∧ x.dependencies = s.modelNames) ∧
        f.toFieldShape.Declared s.declared m.hasResolver := by
  obtain ⟨s, hs, hx⟩ := alone_eq_ok_iff.1 h
  obtain ⟨shape, dispatch, schema, hshape, -, hschema, rfl⟩ := compile_eq_ok_iff.1 hx
  obtain ⟨body, shapes, -, hshapes, -, rfl⟩ := shapeOf_eq_ok_iff.1 hshape
  obtain ⟨fields, hfields, rfl⟩ := compileShape_eq_ok_iff.1 hschema
  obtain ⟨f', hf', he⟩ := List.mem_map.1 (OrderedMap.mem_of_mem_ofEntries hf)
  cases he
  obtain ⟨fieldShape, hmem, hcompile⟩ := (mem_mapM_iff hfields).1 hf'
  obtain ⟨field, -, hshape⟩ := (mem_mapM_iff hshapes).1 hmem
  obtain ⟨rfl, hcheck⟩ := FieldShape.compile_eq_ok_iff.1 hcompile
  exact ⟨rfl, hcheck, s, ⟨hs, rfl⟩, FieldDef.declared_of_shape hshape⟩

/-- A custom field points to the dependency that has its base type, and is marked as an interface
exactly if that dependency is one. -/
theorem exists_dependency_of_declared {f : FieldShape} {hasResolver : String → Bool}
    (h : f.Declared s.declared hasResolver) (hs : cat.scope m = .ok s)
    (hcustom : f.isCustom = true) :
    ∃ d, (cat.DependsOn m d ∧ d.typeName = f.baseType) ∧ d.isInterface = .ok f.isInterface := by
  obtain ⟨d, hd, hi⟩ := bind_eq_ok_iff.1 (h.interface hcustom)
  exact ⟨d, (get_eq_ok_iff hs).1 hd, hi⟩

/-- The elements of a field are checked against a scalar, or against the dependency that has the
type. Whether that dependency is an interface is read off its definition. -/
inductive Fits (cat : Catalog) (m : Model) (f : FieldSchema) : Prop
  | builtin (scalar : Scalar) : f.isCustom = false → f.check = .builtin scalar → Fits cat m f
  | model (d : Model) : f.isCustom = true → f.check = .model f.baseType → cat.DependsOn m d →
      d.typeName = f.baseType → d.isInterface = .ok false → Fits cat m f
  | interface (d : Model) : f.isCustom = true → f.check = .interface f.baseType →
      cat.DependsOn m d → d.typeName = f.baseType → d.isInterface = .ok true → Fits cat m f

/-- Every field of a compiled form fits its model. -/
theorem fits_of_alone (h : cat.alone m = .ok x) {name : String} {f : FieldSchema}
    (hf : (name, f) ∈ x.schema.fields) : cat.Fits m f := by
  obtain ⟨-, hcheck, s, ⟨hs, -⟩, hdeclared⟩ := field_of_alone h hf
  have target := exists_dependency_of_declared hdeclared hs
  rcases FieldShape.check_eq_ok_iff.1 hcheck with ⟨hi, hcheck⟩ | ⟨hi, hcustom, hcheck⟩ |
      ⟨-, hcustom, scalar, -, hcheck⟩
  · have hcustom := hdeclared.isCustom hi
    obtain ⟨d, ⟨hd, ht⟩, hdi⟩ := target hcustom
    exact .interface d hcustom hcheck hd ht (hdi.trans (by rw [hi]))
  · obtain ⟨d, ⟨hd, ht⟩, hdi⟩ := target hcustom
    exact .model d hcustom hcheck hd ht (hdi.trans (by rw [hi]))
  · exact .builtin scalar hcustom hcheck

end Catalog

end TypedModels
