import TypedModels.Proofs.Chains
import TypedModels.Proofs.CompiledForm
import TypedModels.Proofs.Entries

/-!
# Which definitions have a shape

A definition has a shape if it is the only one with its name, and every field has a chain that ends
in a type that is declared or built in. Otherwise the look-up decides the error, or else the first
field that has no shape. Definitions of other names do not matter, and every shape compiles.

## Main definitions

* `DeclaredTypes.Known` : the types that a field may have.
* `FieldDef.Resolves`, `FieldDef.Offends` : the shape of a field, and why a field has none.
* `Document.Padded` : documents with further definitions of other names.
-/

namespace TypedModels

/-! ## Chains -/

namespace TypeRef

variable {t : TypeRef}

theorem flatten_eq_error_iff {kind : String} :
    t.flatten = .error kind ↔ t.terminal = .unrecognized kind := by
  induction t with
  | named name => simp [flatten, terminal]
  | list t ih => rw [flatten, map_eq_error_iff, ih, terminal]
  | nonNull t ih => rw [flatten, map_eq_error_iff, ih, terminal]
  | unrecognized kind' => simp [flatten, terminal]

/-- What a chain is flattened to: the name at its end, and which wrappers occur in it. -/
structure Flattens (t : TypeRef) (flat : FlatType) : Prop where
  base : t.terminal = .named flat.base
  required_iff : flat.required = true ↔ ∃ u, nonNull u ∈ t.links
  isList_iff : flat.isList = true ↔ ∃ u, list u ∈ t.links

theorem flattens_of_flatten {flat : FlatType} (h : t.flatten = .ok flat) : t.Flattens flat := by
  induction t generalizing flat with
  | named name =>
    cases h
    exact ⟨rfl, by simp [links], by simp [links]⟩
  | list t ih =>
    obtain ⟨inner, ht, rfl⟩ := map_eq_ok_iff.1 h
    obtain ⟨hbase, hrequired, -⟩ := ih ht
    exact ⟨hbase, by simpa [links] using hrequired, by simp [links]⟩
  | nonNull t ih =>
    obtain ⟨inner, ht, rfl⟩ := map_eq_ok_iff.1 h
    obtain ⟨hbase, -, hlist⟩ := ih ht
    exact ⟨hbase, by simp [links], by simpa [links] using hlist⟩
  | unrecognized kind => cases h

theorem Flattens.unique {flat flat' : FlatType} (h : t.Flattens flat) (h' : t.Flattens flat') :
    flat = flat' := by
  have hbase : flat.base = flat'.base := TypeRef.named.inj (h.base.symm.trans h'.base)
  have hrequired : flat.required = flat'.required :=
    Bool.eq_iff_iff.2 (h.required_iff.trans h'.required_iff.symm)
  have hlist : flat.isList = flat'.isList :=
    Bool.eq_iff_iff.2 (h.isList_iff.trans h'.isList_iff.symm)
  cases flat
  cases flat'
  simp_all

theorem flatten_eq_ok_iff {flat : FlatType} : t.flatten = .ok flat ↔ t.Flattens flat := by
  constructor
  · exact flattens_of_flatten
  · intro h
    cases ht : t.flatten with
    | error kind =>
      have := flatten_eq_error_iff.1 ht
      cases h.base.symm.trans this
    | ok flat' => rw [(flattens_of_flatten ht).unique h]

theorem exists_flatten_iff {base : String} :
    (∃ flat, t.flatten = .ok flat ∧ flat.base = base) ↔ t.terminal = .named base := by
  constructor
  · rintro ⟨flat, hflat, rfl⟩
    exact (flattens_of_flatten hflat).base
  · intro h
    cases ht : t.flatten with
    | error kind => cases h.symm.trans (flatten_eq_error_iff.1 ht)
    | ok flat =>
      have hbase := (flattens_of_flatten ht).base
      exact ⟨flat, rfl, TypeRef.named.inj (hbase.symm.trans h)⟩

end TypeRef

/-! ## Fields -/

/-- The types that a field may have: those that are declared, if it can be told whether they are
interfaces, and the scalars under whose names nothing is declared. -/
inductive DeclaredTypes.Known (types : DeclaredTypes) (base : String) : Prop
  | custom {isInterface : Bool} : types.contains base = true →
      types.isInterface base = .ok isInterface → Known types base
  | scalar {scalar : Scalar} : types.contains base = false → Scalar.ofName? base = some scalar →
      Known types base

namespace FieldDef

variable {types : DeclaredTypes} {hasResolver : String → Bool} {typeName : String}
  {field : FieldDef} {f : FieldShape} {e : ConfigError}

/-- The shape of a field has its name, the base type of its chain, and flags that say which wrappers
occur in the chain and what is declared. -/
structure Resolves (types : DeclaredTypes) (hasResolver : String → Bool) (field : FieldDef)
    (f : FieldShape) : Prop where
  name : f.name = field.name
  base : field.type.terminal = .named f.baseType
  required_iff : f.required = true ↔ ∃ u, TypeRef.nonNull u ∈ field.type.links
  isList_iff : f.isList = true ↔ ∃ u, TypeRef.list u ∈ field.type.links
  declared : f.Declared types hasResolver
  scalar : f.isCustom = false → ∃ scalar, Scalar.ofName? f.baseType = some scalar

/-- Why a field has no shape. -/
inductive Offends (types : DeclaredTypes) (typeName : String) (field : FieldDef) :
    ConfigError → Prop
  | unrecognized {kind : String} : field.type.terminal = .unrecognized kind →
      Offends types typeName field (.unknownWrapperKind kind field.name typeName)
  | unknown {base : String} : field.type.terminal = .named base → types.contains base = false →
      Scalar.ofName? base = none → Offends types typeName field (.unknownType base field.name)
  | undecided {base : String} {e : ConfigError} : field.type.terminal = .named base →
      types.contains base = true → types.isInterface base = .error e →
      Offends types typeName field e

/-- A field whose chain can be flattened has the flags of the chain, and of its base type whatever
the declared types say. -/
theorem shape_of_flatten {flat : FlatType} (h : field.type.flatten = .ok flat) :
    field.shape types hasResolver typeName =
      if types.contains flat.base then (types.isInterface flat.base).map fun isInterface => {
        name := field.name, baseType := flat.base, required := flat.required
        isList := flat.isList, isCustom := true, isInterface
        hasResolver := hasResolver field.name }
      else if (Scalar.ofName? flat.base).isSome then .ok {
        name := field.name, baseType := flat.base, required := flat.required
        isList := flat.isList, isCustom := false, isInterface := false
        hasResolver := hasResolver field.name }
      else .error (.unknownType flat.base field.name) := by
  unfold shape
  rw [h]
  dsimp only
  split
  · cases types.isInterface flat.base <;> rfl
  · rfl

theorem resolves_of_shape (h : field.shape types hasResolver typeName = .ok f) :
    field.Resolves types hasResolver f := by
  have hdeclared := declared_of_shape h
  cases hflat : field.type.flatten with
  | error kind =>
    rw [shape, hflat] at h
    cases h
  | ok flat =>
    obtain ⟨hbase, hrequired, hlist⟩ := TypeRef.flattens_of_flatten hflat
    rw [shape_of_flatten hflat] at h
    split at h
    · obtain ⟨isInterface, -, rfl⟩ := map_eq_ok_iff.1 h
      exact ⟨rfl, hbase, hrequired, hlist, hdeclared, nofun⟩
    · split at h
      · next hscalar =>
        cases h
        exact ⟨rfl, hbase, hrequired, hlist, hdeclared, fun _ => Option.isSome_iff_exists.1 hscalar⟩
      · cases h

theorem Resolves.shape_eq (h : field.Resolves types hasResolver f) :
    field.shape types hasResolver typeName = .ok f := by
  have hflat : field.type.flatten = .ok ⟨f.baseType, f.required, f.isList⟩ :=
    TypeRef.flatten_eq_ok_iff.2 ⟨h.base, h.required_iff, h.isList_iff⟩
  rw [shape_of_flatten hflat]
  obtain ⟨hname, -, -, -, ⟨hcustom, hinterface, hplain, hresolver⟩, hscalar⟩ := h
  obtain ⟨name, base, required, isList, isCustom, isInterface, resolver⟩ := f
  dsimp only at *
  cases isCustom with
  | true => simp [← hcustom, hinterface rfl, Except.map, ← hname, hresolver]
  | false =>
    obtain ⟨scalar, hscalar⟩ := hscalar rfl
    simp [← hcustom, hscalar, hplain rfl, ← hname, hresolver]

theorem shape_eq_ok_iff :
    field.shape types hasResolver typeName = .ok f ↔ field.Resolves types hasResolver f :=
  ⟨resolves_of_shape, Resolves.shape_eq⟩

theorem shape_eq_error_iff :
    field.shape types hasResolver typeName = .error e ↔ field.Offends types typeName e := by
  constructor
  · intro h
    cases hflat : field.type.flatten with
    | error kind =>
      rw [shape, hflat] at h
      cases h
      exact .unrecognized (TypeRef.flatten_eq_error_iff.1 hflat)
    | ok flat =>
      have hbase := (TypeRef.flattens_of_flatten hflat).base
      rw [shape_of_flatten hflat] at h
      split at h
      · next hcontains => exact .undecided hbase hcontains (map_eq_error_iff.1 h)
      · next hcontains =>
        split at h
        · cases h
        · next hscalar =>
          cases h
          exact .unknown hbase (by simpa using hcontains) (by simpa using hscalar)
  · intro h
    cases h with
    | unrecognized hkind => rw [shape, TypeRef.flatten_eq_error_iff.2 hkind]
    | unknown hbase hcontains hscalar =>
      obtain ⟨flat, hflat, rfl⟩ := TypeRef.exists_flatten_iff.2 hbase
      simp [shape_of_flatten hflat, hcontains, hscalar]
    | undecided hbase hcontains hinterface =>
      obtain ⟨flat, hflat, rfl⟩ := TypeRef.exists_flatten_iff.2 hbase
      simp [shape_of_flatten hflat, hcontains, hinterface, Except.map]

theorem exists_shape_iff : (∃ f, field.shape types hasResolver typeName = .ok f) ↔
    ∃ base, field.type.terminal = .named base ∧ types.Known base := by
  constructor
  · rintro ⟨f, hf⟩
    have h := resolves_of_shape hf
    refine ⟨f.baseType, h.base, ?_⟩
    cases hc : f.isCustom with
    | true => exact .custom (h.declared.custom.symm.trans hc) (h.declared.interface hc)
    | false =>
      obtain ⟨scalar, hscalar⟩ := h.scalar hc
      exact .scalar (h.declared.custom.symm.trans hc) hscalar
  · rintro ⟨base, hbase, hknown⟩
    obtain ⟨flat, hflat, rfl⟩ := TypeRef.exists_flatten_iff.2 hbase
    rw [shape_of_flatten hflat]
    cases hknown with
    | custom hcontains hinterface =>
      rw [if_pos hcontains, hinterface]
      exact ⟨_, rfl⟩
    | scalar hcontains hscalar => simp [hcontains, hscalar]

end FieldDef

/-! ## Definitions -/

namespace Document

/-- Further definitions, of other names or other kinds, stand anywhere between the definitions. -/
inductive Padded (name : String) : List Definition → List Definition → Prop
  | nil : Padded name [] []
  | keep (d : Definition) {ds ds' : List Definition} : Padded name ds ds' →
      Padded name (d :: ds) (d :: ds')
  | insert {d : Definition} {ds ds' : List Definition} : d.name? ≠ some name →
      Padded name ds ds' → Padded name ds (d :: ds')

variable {doc : Document} {typeName : String} {types : DeclaredTypes}
  {hasResolver : String → Bool} {shape : TypeShape} {e : ConfigError}

/-- The object and interface definitions with a name; the flag marks interfaces. -/
def carriers (doc : Document) (name : String) : List (TypeDef × Bool) :=
  doc.typeDefs.filter (·.1.name = name)

theorem definitionNamed_eq : doc.definitionNamed typeName =
    match doc.carriers typeName with
    | [] => .error (.unknownTypeDefinition typeName)
    | [found] => .ok found
    | found => .error (.duplicateTypeDefinition typeName found.length) := rfl

theorem definitionNamed_eq_ok_iff {d : TypeDef × Bool} :
    doc.definitionNamed typeName = .ok d ↔ doc.carriers typeName = [d] := by
  rw [definitionNamed_eq]
  rcases doc.carriers typeName with _ | ⟨d', _ | ⟨d'', ds⟩⟩ <;> simp

theorem definitionNamed_eq_error_iff : doc.definitionNamed typeName = .error e ↔
    (doc.carriers typeName = [] ∧ e = .unknownTypeDefinition typeName) ∨
      (2 ≤ (doc.carriers typeName).length ∧
        e = .duplicateTypeDefinition typeName (doc.carriers typeName).length) := by
  rw [definitionNamed_eq]
  rcases doc.carriers typeName with _ | ⟨d', _ | ⟨d'', ds⟩⟩
  · simp [eq_comm]
  · simp
  · simp [eq_comm (a := e)]

theorem carriers_cons (d : Definition) (ds : List Definition) :
    carriers ⟨d :: ds⟩ typeName = carriers ⟨[d]⟩ typeName ++ carriers ⟨ds⟩ typeName := by
  simp only [carriers, typeDefs]
  rw [← List.filter_append, ← List.filterMap_append, List.singleton_append]

theorem carriers_singleton {d : Definition} (h : d.name? ≠ some typeName) :
    carriers ⟨[d]⟩ typeName = [] := by
  cases d <;> simp_all [carriers, typeDefs, Definition.name?, Definition.body?]

theorem Padded.carriers_eq {ds ds' : List Definition} (h : Padded typeName ds ds') :
    carriers ⟨ds⟩ typeName = carriers ⟨ds'⟩ typeName := by
  induction h with
  | nil => rfl
  | @keep d ds ds' _ ih => rw [carriers_cons d ds, carriers_cons d ds', ih]
  | @insert d _ ds' hd _ ih => rw [carriers_cons d ds', carriers_singleton hd, ih, List.nil_append]

/-- Definitions of other names or kinds do not matter. -/
theorem Padded.shapeOf_eq {ds ds' : List Definition} (h : Padded typeName ds ds') :
    shapeOf ⟨ds⟩ typeName types hasResolver = shapeOf ⟨ds'⟩ typeName types hasResolver := by
  simp only [shapeOf, definitionNamed_eq, h.carriers_eq]

theorem shapeOf_eq_ok_iff_resolves : doc.shapeOf typeName types hasResolver = .ok shape ↔
    shape.typeName = typeName ∧ ∃ body, doc.carriers typeName = [(body, shape.isInterface)] ∧
      List.Forall₂ (FieldDef.Resolves types hasResolver) body.fields shape.fields := by
  simp only [Catalog.shapeOf_eq_ok_iff, definitionNamed_eq_ok_iff, mapM_eq_ok_iff,
    FieldDef.shape_eq_ok_iff]
  constructor
  · rintro ⟨body, fields, hbody, hfields, hname, rfl⟩
    exact ⟨hname, body, hbody, hfields⟩
  · rintro ⟨hname, body, hbody, hfields⟩
    exact ⟨body, shape.fields, hbody, hfields, hname, rfl⟩

theorem shapeOf_eq_error_iff : doc.shapeOf typeName types hasResolver = .error e ↔
    doc.definitionNamed typeName = .error e ∨
      ∃ body isInterface, doc.carriers typeName = [(body, isInterface)] ∧
        body.fields.mapM (FieldDef.shape types hasResolver typeName) = .error e := by
  simp only [shapeOf, bind_eq_error_iff, ← definitionNamed_eq_ok_iff]
  constructor
  · rintro (h | ⟨⟨body, isInterface⟩, hbody, h | ⟨_, -, h⟩⟩)
    · exact .inl h
    · exact .inr ⟨body, isInterface, hbody, h⟩
    · cases h
  · rintro (h | ⟨body, isInterface, hbody, h⟩)
    · exact .inl h
    · exact .inr ⟨(body, isInterface), hbody, .inl h⟩

theorem exists_shapeOf_iff : (∃ shape, doc.shapeOf typeName types hasResolver = .ok shape) ↔
    ∃ body isInterface, doc.carriers typeName = [(body, isInterface)] ∧
      ∀ field ∈ body.fields, ∃ base, field.type.terminal = .named base ∧ types.Known base := by
  simp only [← @FieldDef.exists_shape_iff types hasResolver typeName, ← exists_mapM_iff,
    ← definitionNamed_eq_ok_iff, Catalog.shapeOf_eq_ok_iff]
  constructor
  · rintro ⟨shape, body, fields, hbody, hfields, -⟩
    exact ⟨body, shape.isInterface, hbody, fields, hfields⟩
  · rintro ⟨body, isInterface, hbody, fields, hfields⟩
    exact ⟨⟨typeName, fields, isInterface⟩, body, fields, hbody, hfields, rfl, rfl⟩

end Document

/-! ## Compiling a shape -/

/-- The last field of a shape that has the name. -/
def TypeShape.LastNamed (shape : TypeShape) (name : String) (f : FieldShape) : Prop :=
  ∃ before after, shape.fields = before ++ f :: after ∧ f.name = name ∧ ∀ g ∈ after, g.name ≠ name

theorem FieldDef.Resolves.exists_check {types : DeclaredTypes} {hasResolver : String → Bool}
    {field : FieldDef} {f : FieldShape} (h : field.Resolves types hasResolver f) :
    ∃ check, f.check = .ok check := by
  simp only [FieldShape.check_eq_ok_iff]
  cases hi : f.isInterface with
  | true => exact ⟨_, .inl ⟨rfl, rfl⟩⟩
  | false =>
    cases hc : f.isCustom with
    | true => exact ⟨_, .inr (.inl ⟨rfl, rfl, rfl⟩)⟩
    | false =>
      obtain ⟨scalar, hscalar⟩ := h.scalar hc
      exact ⟨_, .inr (.inr ⟨rfl, rfl, scalar, hscalar, rfl⟩)⟩

/-- The compiled fields by name: a name is bound to the last field that has it. -/
theorem lookup_named_iff {fields : List FieldSchema} {name : String} {f : FieldSchema} :
    (OrderedMap.ofEntries (fields.map fun f => (f.name, f))).lookup name = some f ↔
      ∃ before after, fields = before ++ f :: after ∧ f.name = name ∧
        ∀ g ∈ after, g.name ≠ name := by
  rw [OrderedMap.lookup_ofEntries_iff]
  constructor
  · rintro ⟨before, after, hsplit, hlast⟩
    obtain ⟨before, rest, rfl, rfl, hrest⟩ := List.map_eq_append_iff.1 hsplit
    obtain ⟨f', after, rfl, hf, rfl⟩ := List.map_eq_cons_iff.1 hrest
    obtain ⟨rfl, rfl⟩ := Prod.mk.inj hf
    refine ⟨before, after, rfl, rfl, fun g hg hname => ?_⟩
    exact hlast (List.mem_map.2 ⟨(g.name, g), List.mem_map_of_mem hg, hname⟩)
  · rintro ⟨before, after, rfl, rfl, hlast⟩
    refine ⟨_, after.map fun f => (f.name, f), by rw [List.map_append, List.map_cons], ?_⟩
    intro hkey
    obtain ⟨e, he, hname⟩ := List.mem_map.1 hkey
    obtain ⟨g, hg, rfl⟩ := List.mem_map.1 he
    exact hlast g hg hname

/-- Fields that can be checked compile. Each compiled field has the shape it was compiled from, and
the check that fits this shape. -/
theorem exists_mapM_compile {shapes : List FieldShape}
    (h : ∀ f ∈ shapes, ∃ check, f.check = .ok check) :
    ∃ fields, shapes.mapM FieldShape.compile = .ok fields ∧
      shapes = fields.map FieldSchema.toFieldShape ∧
      ∀ f ∈ fields, f.toFieldShape.check = .ok f.check := by
  have compiles : ∀ f ∈ shapes, ∃ g, f.compile = .ok g := by
    intro f hf
    obtain ⟨check, hcheck⟩ := h f hf
    exact ⟨{ f with check }, FieldShape.compile_eq_ok_iff.2 ⟨rfl, hcheck⟩⟩
  obtain ⟨fields, hfields⟩ := exists_mapM_iff.2 compiles
  refine ⟨fields, hfields, ?_, fun f hf => ?_⟩
  · have same := map_eq_of_mapM (g := id) (k := FieldSchema.toFieldShape) hfields
      fun f g hg => (FieldShape.compile_eq_ok_iff.1 hg).1.symm
    rwa [List.map_id] at same
  · obtain ⟨g, -, hg⟩ := (mem_mapM_iff hfields).1 hf
    obtain ⟨rfl, hcheck⟩ := FieldShape.compile_eq_ok_iff.1 hg
    exact hcheck

/-- The last compiled field with a name is the last shape with this name, with the check that fits
it. -/
theorem TypeShape.lastNamed_iff {shape : TypeShape} {fields : List FieldSchema} {name : String}
    {f : FieldSchema} (shapes : shape.fields = fields.map FieldSchema.toFieldShape)
    (checks : ∀ f ∈ fields, f.toFieldShape.check = .ok f.check) :
    (∃ before after, fields = before ++ f :: after ∧ f.name = name ∧
      ∀ g ∈ after, g.name ≠ name) ↔
    shape.LastNamed name f.toFieldShape ∧ f.toFieldShape.check = .ok f.check := by
  rw [LastNamed, shapes]
  constructor
  · rintro ⟨before, after, rfl, hname, hlast⟩
    refine ⟨⟨before.map FieldSchema.toFieldShape, after.map FieldSchema.toFieldShape,
      List.map_append, hname, ?_⟩, checks f (by simp)⟩
    simpa using hlast
  · rintro ⟨⟨before, after, hsplit, hname, hlast⟩, hcheck⟩
    obtain ⟨before, rest, rfl, rfl, hrest⟩ := List.map_eq_append_iff.1 hsplit
    obtain ⟨f', after, rfl, hf, rfl⟩ := List.map_eq_cons_iff.1 hrest
    -- The shape of a field determines its check.
    have hcheck' := checks f' (by simp)
    rw [hf, hcheck] at hcheck'
    obtain ⟨shape, check⟩ := f
    obtain ⟨shape', check'⟩ := f'
    cases hf
    cases hcheck'
    exact ⟨before, after, rfl, hname, by simpa using hlast⟩

/-- A shape whose fields can be checked compiles. Every name keeps its first place and takes the
last field. -/
theorem TypeShape.exists_compile {shape : TypeShape}
    (h : ∀ f ∈ shape.fields, ∃ check, f.check = .ok check) :
    ∃ schema, shape.compile = .ok schema ∧
      schema.fieldNames = (shape.fields.map (·.name)).eraseDups ∧
      ∀ name f, schema.field? name = some f ↔
        shape.LastNamed name f.toFieldShape ∧ f.toFieldShape.check = .ok f.check := by
  obtain ⟨fields, hfields, shapes, checks⟩ := exists_mapM_compile h
  refine ⟨_, Catalog.compileShape_eq_ok_iff.2 ⟨fields, hfields, rfl⟩, ?_, fun name f => ?_⟩
  · rw [TypeSchema.fieldNames, OrderedMap.keys_ofEntries, shapes]
    simp [OrderedMap.keys, Function.comp_def]
  · exact lookup_named_iff.trans (lastNamed_iff shapes checks)

/-- There is a shape exactly if one object or interface definition has the name and all of its
fields have chains that end in a known type. The shape lists the fields in order. Otherwise the
look-up decides the error, or else the first field that offends. Definitions of other names or kinds
do not matter. Every shape compiles, and a name that is declared again keeps its place and takes the
last field. -/
theorem Document.shapeOf_resolves (doc : Document) (typeName : String) (types : DeclaredTypes)
    (hasResolver : String → Bool) :
    ((∃ shape, doc.shapeOf typeName types hasResolver = .ok shape) ↔
      ∃ body isInterface, doc.carriers typeName = [(body, isInterface)] ∧
        ∀ field ∈ body.fields, ∃ base, field.type.terminal = .named base ∧ types.Known base) ∧
    (∀ shape, doc.shapeOf typeName types hasResolver = .ok shape ↔ shape.typeName = typeName ∧
      ∃ body, doc.carriers typeName = [(body, shape.isInterface)] ∧
        List.Forall₂ (FieldDef.Resolves types hasResolver) body.fields shape.fields) ∧
    (∀ e, doc.shapeOf typeName types hasResolver = .error e ↔
      (doc.carriers typeName = [] ∧ e = .unknownTypeDefinition typeName) ∨
      (2 ≤ (doc.carriers typeName).length ∧
        e = .duplicateTypeDefinition typeName (doc.carriers typeName).length) ∨
      ∃ body isInterface before field after, doc.carriers typeName = [(body, isInterface)] ∧
        body.fields = before ++ field :: after ∧
        (∀ b ∈ before, ∃ base, b.type.terminal = .named base ∧ types.Known base) ∧
        field.Offends types typeName e) ∧
    (∀ ds, Padded typeName doc.definitions ds →
      shapeOf ⟨ds⟩ typeName types hasResolver = doc.shapeOf typeName types hasResolver) ∧
    ∀ shape, doc.shapeOf typeName types hasResolver = .ok shape →
      ∃ schema, shape.compile = .ok schema ∧
        schema.fieldNames = (shape.fields.map (·.name)).eraseDups ∧
        ∀ name f, schema.field? name = some f ↔
          shape.LastNamed name f.toFieldShape ∧ f.toFieldShape.check = .ok f.check := by
  refine ⟨exists_shapeOf_iff, fun _ => shapeOf_eq_ok_iff_resolves, fun e => ?_,
    fun ds h => h.shapeOf_eq.symm, fun shape h => ?_⟩
  · rw [shapeOf_eq_error_iff, definitionNamed_eq_error_iff, or_assoc]
    simp only [mapM_eq_error_iff, FieldDef.exists_shape_iff, FieldDef.shape_eq_error_iff]
    grind
  · obtain ⟨-, body, -, hfields⟩ := shapeOf_eq_ok_iff_resolves.1 h
    exact TypeShape.exists_compile (forall_of_forall₂ hfields fun _ _ h => h.exists_check)

/-- A dog with two declarations of its tags. -/
def shelter : Document where
  definitions := [.other, .object {
    name := "Dog"
    fields := [
      { name := "tags", type := .list (.nonNull (.named "String")) },
      { name := "home", type := .named "Boolean" },
      { name := "tags", type := .named "Int" }] }]

/-- A home goes by the name of a scalar. -/
def homes : DeclaredTypes where
  contains name := name = "Boolean"
  isInterface _ := .ok false

theorem shapeOf_resolves_shelter :
    (∃ shape schema, shelter.shapeOf "Dog" homes (fun _ => false) = .ok shape ∧
      shape.compile = .ok schema ∧ schema.fieldNames = ["tags", "home"]) ∧
    shelter.shapeOf "Cat" homes (fun _ => false) = .error (.unknownTypeDefinition "Cat") ∧
    Document.shapeOf ⟨.interface { name := "Pet" } :: shelter.definitions⟩ "Dog" homes
      (fun _ => false) = shelter.shapeOf "Dog" homes (fun _ => false) := by
  obtain ⟨-, -, -, hpadded, hcompiles⟩ := shelter.shapeOf_resolves "Dog" homes (fun _ => false)
  refine ⟨?_, ?_, hpadded _ (.insert (by decide) (.keep _ (.keep _ .nil)))⟩
  · have hshape : shelter.shapeOf "Dog" homes (fun _ => false) = .ok {
        typeName := "Dog", isInterface := false
        fields := [
          ⟨"tags", "String", true, true, false, false, false⟩,
          ⟨"home", "Boolean", false, false, true, false, false⟩,
          ⟨"tags", "Int", false, false, false, false, false⟩] } := by rfl
    obtain ⟨schema, hschema, hnames, -⟩ := hcompiles _ hshape
    exact ⟨_, schema, hshape, hschema, hnames⟩
  · exact ((shelter.shapeOf_resolves "Cat" homes _).2.2.1 _).2 (.inl ⟨rfl, rfl⟩)

end TypedModels
