import TypedModels.Proofs.Blame

/-!
# Compiled fields and the models that they point to

The flags of a compiled field are taken from the definitions of the dependencies, which need not be
compiled at that time. Values are dispatched by the compiled forms of the dependencies. The two agree
in every workspace, so no model is ever taken for an interface that is not one.

## Main definitions

* `ConfigError.Definitional` : errors that are there without any value.
* `Workspace.Agrees` : a field whose flags agree with the models that it points to.
-/

namespace TypedModels

open Catalog Session

/-! ## Errors of definitions -/

/-- The errors that no value provokes: the definitions of the models are at fault. -/
def ConfigError.Definitional : ConfigError → Prop
  | .discriminatorResultMissing _ _ | .notAnInterface _ => False
  | _ => True

theorem Document.definitional_of_definitionNamed {doc : Document} {name : String} {e : ConfigError}
    (h : doc.definitionNamed name = .error e) : e.Definitional := by
  unfold definitionNamed at h
  split at h <;> cases h <;> trivial

theorem Model.definitional_of_isInterface {m : Model} {e : ConfigError}
    (h : m.isInterface = .error e) : e.Definitional :=
  Document.definitional_of_definitionNamed (map_eq_error_iff.1 h)

theorem FieldShape.definitional_of_check {f : FieldShape} {e : ConfigError}
    (h : f.check = .error e) : e.Definitional := by
  unfold check at h
  split at h
  · cases h
  · split at h
    · cases h
    · split at h <;> cases h
      trivial

theorem TypeShape.definitional_of_compile {t : TypeShape} {e : ConfigError}
    (h : t.compile = .error e) : e.Definitional := by
  rcases bind_eq_error_iff.1 h with h | ⟨_, -, h⟩
  · obtain ⟨f, -, h⟩ := exists_of_mapM_eq_error h
    exact FieldShape.definitional_of_check (map_eq_error_iff.1 h)
  · cases h

theorem Model.definitional_of_dispatch {m : Model} {shape : TypeShape} {e : ConfigError}
    (h : m.dispatch shape = .error e) : e.Definitional := by
  unfold dispatch at h
  split at h
  · split at h <;> cases h
    trivial
  · cases h

namespace Catalog

variable {cat : Catalog} {m d : Model} {s : Scope} {x : Compiled} {e : ConfigError} {name : String}

theorem definitional_of_scope (h : cat.scope m = .error e) : e.Definitional := by
  obtain ⟨before, name, after, -, -, hmisfit⟩ := scope_eq_error_iff.1 h
  cases hmisfit with
  | unknown _ => trivial
  | clash _ _ _ _ _ _ => trivial

theorem definitional_of_declared (h : s.declared.isInterface name = .error e) :
    e.Definitional := by
  rcases bind_eq_error_iff.1 h with h | ⟨d, -, h⟩
  · unfold Scope.get at h
    split at h <;> cases h
    trivial
  · exact Model.definitional_of_isInterface h

theorem definitional_of_fieldShape {field : FieldDef} {hasResolver : String → Bool}
    {typeName : String} (h : field.shape s.declared hasResolver typeName = .error e) :
    e.Definitional := by
  unfold FieldDef.shape at h
  split at h
  · cases h
    trivial
  · split at h
    · rcases bind_eq_error_iff.1 h with h | ⟨_, -, h⟩
      · exact definitional_of_declared h
      · cases h
    · split at h <;> cases h
      trivial

theorem definitional_of_shapeOf {doc : Document} {hasResolver : String → Bool} {typeName : String}
    (h : doc.shapeOf typeName s.declared hasResolver = .error e) : e.Definitional := by
  rcases bind_eq_error_iff.1 h with h | ⟨body, -, h⟩
  · exact Document.definitional_of_definitionNamed h
  · rcases bind_eq_error_iff.1 h with h | ⟨_, -, h⟩
    · obtain ⟨field, -, h⟩ := exists_of_mapM_eq_error h
      exact definitional_of_fieldShape h
    · cases h

/-- What keeps a model from being compiled is in its definition and in what it declares. -/
theorem definitional_of_alone (h : cat.alone m = .error e) : e.Definitional := by
  rcases alone_eq_error_iff.1 h with h | ⟨s, -, h⟩
  · exact definitional_of_scope h
  rcases bind_eq_error_iff.1 h with h | ⟨shape, -, h⟩
  · exact definitional_of_shapeOf h
  rcases bind_eq_error_iff.1 h with h | ⟨dispatch, -, h⟩
  · exact Model.definitional_of_dispatch h
  rcases bind_eq_error_iff.1 h with h | ⟨schema, -, h⟩
  · exact TypeShape.definitional_of_compile h
  · cases h

/-- Nothing that goes wrong with a value is that a model was taken for an interface. -/
theorem not_blamed_notAnInterface {props : Value} :
    ¬ cat.Blamed m props (.notAnInterface name) := by
  rintro (⟨⟨⟩⟩ | ⟨-, hfault⟩)
  exact definitional_of_alone hfault

/-! ## Custom fields -/

variable {f : FieldSchema} {field : String}

theorem isCustom_iff (hx : cat.alone m = .ok x) (hf : (field, f) ∈ x.schema.fields) :
    f.isCustom = true ↔ ∃ name, x.dependencies.lookup f.baseType = some name := by
  obtain ⟨-, -, s, ⟨hs, -⟩, hdeclared⟩ := field_of_alone hx hf
  rw [hdeclared.custom]
  simp only [Scope.declared, Option.isSome_iff_exists, lookup_scope_iff hs,
    lookup_dependencies_iff hx]
  grind

/-- The dependency that a compiled form finds under the base type of a field is the one that decided
the flag of the field. -/
theorem exists_dependency_of_lookup (hx : cat.alone m = .ok x) (hf : (field, f) ∈ x.schema.fields)
    (hname : x.dependencies.lookup f.baseType = some name) :
    ∃ d, (cat.DependsOn m d ∧ d.name = name) ∧ d.isInterface = .ok f.isInterface := by
  obtain ⟨-, -, s, ⟨hs, -⟩, hdeclared⟩ := field_of_alone hx hf
  have hcustom := (isCustom_iff hx hf).2 ⟨name, hname⟩
  obtain ⟨d, ⟨hd, ht⟩, hi⟩ := exists_dependency_of_declared hdeclared hs hcustom
  obtain ⟨d', hd', ht', hn⟩ := (lookup_dependencies_iff hx).1 hname
  have hwf := wellFormed_iff.2 ⟨x, hx⟩
  obtain rfl := hwf.distinct d d' hd hd' (ht.trans ht'.symm)
  exact ⟨d, ⟨hd, hn⟩, hi⟩

end Catalog

namespace Workspace

variable {w : Workspace} {m : Model} {x : Compiled} {f : FieldSchema} {name : String}

/-- The flags of a field of the compiled form `x` of `m` agree with the model that has its base
type, as it is declared and as it is compiled. -/
structure Agrees (w : Workspace) (m : Model) (x : Compiled) (f : FieldSchema) : Prop where
  custom_iff : f.isCustom = true ↔ f.baseType ∈ OrderedMap.keys x.dependencies
  interface_iff : f.isInterface = true ↔ f.isCustom = true ∧ ∃ name d,
    x.dependencies.lookup f.baseType = some name ∧ w.catalog.model name = .ok d ∧
      d.isInterface = .ok true
  /-- If the model that has the base type is compiled, it is dispatched as the field says. -/
  compiled_iff : ∀ name y, x.dependencies.lookup f.baseType = some name →
    w.cache.lookup name = some y →
      (f.isInterface = true ↔ y.isInterface = true ∧ ∃ disc, y.dispatch = .interface disc)
  interface_check : f.isInterface = true → f.check = .interface f.baseType
  model_check : f.isCustom = true → f.isInterface = false → f.check = .model f.baseType
  builtin_check : f.isCustom = false →
    ∃ scalar, Scalar.ofName? f.baseType = some scalar ∧ f.check = .builtin scalar
  resolver_iff : f.hasResolver = true ↔ f.name ∈ OrderedMap.keys m.resolvers

/-- In every workspace the fields of a compiled form agree with the models that they point to. -/
theorem Reachable.agrees (h : w.Reachable) (hm : m ∈ w.catalog.models)
    (hx : w.cache.lookup m.name = some x) (hf : (name, f) ∈ x.schema.fields) : w.Agrees m x f := by
  have halone := h.sound.alone hm hx
  have custom := isCustom_iff halone hf
  obtain ⟨-, hcheck, s, -, hdeclared⟩ := field_of_alone halone hf
  have check := FieldShape.check_eq_ok_iff.1 hcheck
  constructor
  case custom_iff => rw [custom, ← OrderedMap.isSome_lookup_iff, Option.isSome_iff_exists]
  case interface_iff =>
    constructor
    · intro hi
      have hcustom := hdeclared.isCustom hi
      obtain ⟨name, hname⟩ := custom.1 hcustom
      obtain ⟨d, ⟨hd, hn⟩, hdi⟩ := exists_dependency_of_lookup halone hf hname
      exact ⟨hcustom, name, d, hname, model_eq_ok_iff.2 ⟨hd.1, hn⟩, hdi.trans (by rw [hi])⟩
    · rintro ⟨-, name, d, hname, hd, hi⟩
      obtain ⟨d', ⟨hd', hn⟩, hdi⟩ := exists_dependency_of_lookup halone hf hname
      obtain ⟨hmem, hn'⟩ := model_eq_ok_iff.1 hd
      obtain rfl := eq_of_name_eq hmem hd'.1 (hn'.trans hn.symm)
      exact Except.ok.inj (hdi.symm.trans hi)
  case compiled_iff =>
    intro name y hname hy
    obtain ⟨d, ⟨hd, rfl⟩, hdi⟩ := exists_dependency_of_lookup halone hf hname
    have hflag := isInterface_of_alone (h.sound.alone hd.1 hy)
    have hdispatch := dispatch_of_alone (h.sound.alone hd.1 hy)
    grind
  case interface_check => grind
  case model_check => grind
  case builtin_check =>
    intro hcustom
    have hplain := hdeclared.plain hcustom
    grind
  case resolver_iff => rw [hdeclared.resolver, Model.hasResolver, OrderedMap.isSome_lookup_iff]

/-- What a compiled form says about the fields agrees with the models that they point to, and what
it says about the model itself agrees with the declaration. So neither validation nor construction
takes a model for an interface that is not one, whatever has happened before. -/
theorem Reachable.classification (h : w.Reachable) (hm : m ∈ w.catalog.models) :
    (∀ x, w.cache.lookup m.name = some x →
      (∀ name f, (name, f) ∈ x.schema.fields → name = f.name ∧ w.Agrees m x f) ∧
      (x.isInterface = true ↔ ∃ disc, x.dispatch = .interface disc) ∧
      ∀ disc, x.dispatch = .interface disc → m.resolveType = some disc) ∧
    ∀ props name,
      (w.run (·.validate m props)).1 ≠ .error (.notAnInterface name) ∧
      (w.run (·.instantiate m props)).1 ≠ .error (.schema (.notAnInterface name)) ∧
      (w.run (·.cast m props)).1 ≠ .error (.schema (.notAnInterface name)) := by
  refine ⟨fun x hx => ?_, fun props name => ⟨fun he => ?_, fun he => ?_, fun he => ?_⟩⟩
  · have halone := h.sound.alone hm hx
    refine ⟨fun name f hf => ⟨(field_of_alone halone hf).1, h.agrees hm hx hf⟩, ?_, ?_⟩
    · rcases dispatch_of_alone halone with ⟨hi, hdispatch⟩ | ⟨disc, hi, -, hdispatch⟩
      · simp [hi, hdispatch]
      · simp [hi, hdispatch]
    · exact fun disc hdisc => ((dispatch_eq_interface_iff halone).1 hdisc).2
  · exact not_blamed_notAnInterface ((ensures_validate m props hm).of_error h.sound he)
  · exact not_blamed_notAnInterface ((ensures_instantiate hm).of_error h.sound he)
  · exact not_blamed_notAnInterface ((ensures_cast hm).of_error h.sound he)

/-! ## A type with the name of a scalar -/

/-- Fishing tackle, where a `Float` is not a number. -/
def tackle : Source where
  document := ⟨[
    .interface { name := "Float", fields := [{ name := "weight", type := .named "Int" }] },
    .object { name := "Rod", fields := [
      { name := "float", type := .named "Float" }, { name := "length", type := .named "Int" }] }]⟩

def bobber : Model where
  name := "Bobber"
  typeName := "Float"
  schema := tackle
  resolveType := some fun _ => "Cork"

def rod : Model := { name := "Rod", schema := tackle, dependencies := ["Bobber"] }

/-- The rod has been asked for, so the float is compiled too. -/
def angler : Workspace :=
  Workspace.after { catalog := { models := [rod, bobber], nodup := by decide } } (.compile "Rod")

theorem classification_angler :
    (∃ x f, angler.cache.lookup "Rod" = some x ∧ angler.Agrees rod x f ∧
      f.baseType = Scalar.float.name ∧ f.check = .interface "Float") ∧
    (angler.run (·.validate rod (.obj [("float", .obj [])]))).1 ≠
      .error (.notAnInterface "Bobber") := by
  have reachable : angler.Reachable := (unbroken_of_fresh _).reachable.call _
  have hrod : rod ∈ angler.catalog.models := List.mem_cons_self
  have classified := reachable.classification hrod
  refine ⟨?_, (classified.2 _ _).1⟩
  have compiled : ((angler.cache.lookup "Rod").bind (·.schema.field? "float")).map
      (fun f => (f.baseType, f.isInterface)) = some ("Float", true) := by decide +kernel
  obtain ⟨f, hf, hflags⟩ := Option.map_eq_some_iff.1 compiled
  obtain ⟨x, hx, hfield⟩ := Option.bind_eq_some_iff.1 hf
  obtain ⟨hbase, hi⟩ := Prod.mk.inj hflags
  have hagrees := ((classified.1 x hx).1 "float" f (OrderedMap.mem_of_lookup hfield)).2
  exact ⟨x, f, hx, hagrees, hbase, hbase ▸ hagrees.interface_check hi⟩

end Workspace

end TypedModels
