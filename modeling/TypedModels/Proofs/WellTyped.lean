import TypedModels.Proofs.Conformance
import TypedModels.Proofs.Entries
import TypedModels.Proofs.Hydration
import TypedModels.Proofs.Success

/-!
# Instances are well typed

An instance belongs to the model that built it and has the fields that the definition declares. What
a field holds follows from its type and from the value that it is built from, and the same is true of
all instances inside, each of which is built by the model of its element. Only validation ensures
this: building alone would also take an array for a single object, or an object for a list.

## Main definitions

* `FieldSchema.Becomes` : which values become which fields of an instance.
* `Catalog.Target` : the model that builds the instance of an element.
* `Catalog.Typed`, `Catalog.FieldTyped`, `Catalog.Nested` : instances that are well typed at every
  depth.
-/

namespace TypedModels

open Session

/-- The names of the fields of the definition, each once, in order of declaration. -/
def Model.fieldNames (m : Model) : Except ConfigError (List String) :=
  (m.schema.document.definitionNamed m.typeName).map fun d => (d.1.fields.map (·.name)).eraseDups

/-- What kind of field of an instance a value becomes. -/
structure FieldSchema.Becomes (f : FieldSchema) (value : Option Value) (slot : Slot) : Prop where
  missing_iff : slot = .missing ↔ value = none
  null_iff : slot = .raw .null ↔ value = some .null
  raw_iff : ∀ v, v ≠ .null → (slot = .raw v ↔ value = some v ∧ f.isCustom = false)
  single_iff : (∃ i, slot = .single i) ↔
    f.isCustom = true ∧ f.isList = false ∧ ∃ v, value = some v ∧ v ≠ .null
  many_iff : (∃ is, slot = .many is) ↔
    f.isCustom = true ∧ f.isList = true ∧ ∃ v, value = some v ∧ v ≠ .null

namespace Catalog

/-- The dependency with the base type of the field builds the instance of an element. An interface
leaves it to the one of its own dependencies that its discriminator names. -/
inductive Target (cat : Catalog) (m : Model) (f : FieldSchema) (e : Value) : Model → Prop
  | concrete {t : Model} : cat.DependsOn m t → t.typeName = f.baseType → t.isInterface = .ok false →
      Target cat m f e t
  | interface {t d : Model} {disc : Discriminator} : cat.DependsOn m t → t.typeName = f.baseType →
      t.isInterface = .ok true → t.resolveType = some disc → cat.DependsOn t d →
      d.typeName = disc e → Target cat m f e d

mutual

/-- The instance of a value has the name and the type of the model and the fields of its schema,
which are those of the definition, and every field is well typed. -/
inductive Typed (cat : Catalog) : Model → Value → Instance → Prop
  | intro {m : Model} {props : Value} {i : Instance} {x : Compiled} : cat.alone m = .ok x →
      i.model = m.name → i.typeName = m.typeName →
      i.keys = x.schema.fieldNames → m.fieldNames = .ok i.keys →
      (∀ name f slot, (name, f) ∈ x.schema.fields → (name, slot) ∈ i.fields →
        FieldTyped cat m f (props.get? name) slot) → Typed cat m props i

/-- The value becomes a field of the right kind. A single instance is built from the value, and
several are built from the items of an array, one from each, in order. -/
inductive FieldTyped (cat : Catalog) : Model → FieldSchema → Option Value → Slot → Prop
  | intro {m : Model} {f : FieldSchema} {value : Option Value} {slot : Slot} :
      f.Becomes value slot →
      (∀ v i, value = some v → slot = .single i → Nested cat m f v i) →
      (∀ v is, value = some v → slot = .many is →
        ∃ items, v = .arr items ∧ items.length = is.length) →
      (∀ items is, value = some (.arr items) → slot = .many is →
        ∀ pair ∈ items.zip is, Nested cat m f pair.1 pair.2) → FieldTyped cat m f value slot

/-- Only an object becomes a nested instance, and only of its own model. -/
inductive Nested (cat : Catalog) : Model → FieldSchema → Value → Instance → Prop
  | intro {m d : Model} {f : FieldSchema} {e : Value} {i : Instance} : e.isObject = true →
      cat.Target m f e d → Typed cat d e i → Nested cat m f e i

end

end Catalog

/-! ## The fields of the definition -/

theorem FieldDef.name_of_shape {types : DeclaredTypes} {hasResolver : String → Bool}
    {typeName : String} {field : FieldDef} {f : FieldShape}
    (h : field.shape types hasResolver typeName = .ok f) : field.name = f.name := by
  unfold FieldDef.shape at h
  split at h
  · cases h
  · split at h
    · obtain ⟨_, -, h⟩ := bind_eq_ok_iff.1 h
      cases h
      rfl
    · split at h <;> cases h
      rfl

/-- The compiled fields of a model are those of its definition. -/
theorem fieldNames_of_alone {cat : Catalog} {m : Model} {x : Compiled} (h : cat.alone m = .ok x) :
    m.fieldNames = .ok x.schema.fieldNames := by
  obtain ⟨s, -, hx⟩ := Catalog.alone_eq_ok_iff.1 h
  obtain ⟨shape, _, schema, hshape, -, hschema, rfl⟩ := Catalog.compile_eq_ok_iff.1 hx
  obtain ⟨body, shapes, hbody, hshapes, -, rfl⟩ := Catalog.shapeOf_eq_ok_iff.1 hshape
  obtain ⟨fields, hfields, rfl⟩ := Catalog.compileShape_eq_ok_iff.1 hschema
  have shaped : body.fields.map (·.name) = shape.fields.map (·.name) :=
    map_eq_of_mapM hshapes fun _ _ hf => FieldDef.name_of_shape hf
  have compiled : shape.fields.map (·.name) = fields.map (·.name) :=
    map_eq_of_mapM hfields fun f g hg => by rw [← (FieldShape.compile_eq_ok_iff.1 hg).1]
  have keys : OrderedMap.keys (fields.map fun f => (f.name, f)) = fields.map (·.name) := by
    simp [OrderedMap.keys]
  rw [Model.fieldNames, hbody, TypeSchema.fieldNames, OrderedMap.keys_ofEntries, keys, ← compiled,
    ← shaped]
  rfl

/-! ## What validation rules out -/

namespace FieldSchema

variable {f : FieldSchema} {good : Value → Prop} {built : Value → Instance → Prop}
  {value : Option Value} {slot : Slot}

/-- A value that is in order becomes a field of the right kind. -/
theorem Holds.becomes (h : f.Holds built value slot) (hallows : f.Allows good value) :
    f.Becomes value slot := by
  cases h with
  | missing => constructor <;> simp
  | null => constructor <;> simp +contextual [Ne.symm]
  | raw hnull hcustom => constructor <;> simp [hcustom]
  | single hnull hcustom hself _ =>
    have hlist := hallows.isList_eq_false hnull hself
    constructor <;> simp [hnull, hcustom, hlist]
  | many hcustom hlist _ => constructor <;> simp [hcustom, hlist]

end FieldSchema

namespace Catalog

variable {cat : Catalog} {c : Cache} {m d : Model} {f : FieldSchema} {e : Value} {x : Compiled}

/-- The elements of a field of a custom type are objects. -/
theorem Passes.isObject {check : ElementCheck} (h : cat.Passes c m check e)
    (hcheck : ∀ scalar, check ≠ .builtin scalar) : e.isObject = true := by
  cases h with
  | builtin => exact absurd rfl (hcheck _)
  | model hobj | interface hobj => exact hobj

theorem Fits.check_ne_builtin (h : cat.Fits m f) (hcustom : f.isCustom = true) (scalar : Scalar) :
    f.check ≠ .builtin scalar := by
  cases h with
  | builtin _ hplain => rw [hcustom] at hplain; cases hplain
  | model _ _ hcheck | interface _ _ hcheck => rw [hcheck]; nofun

/-- The model that is found for an element is the one that has to build its instance. -/
theorem target_of_exec {t : Model} (ht : cat.DependsOn m t) (hname : t.typeName = f.baseType)
    (hc : cat.Sound c) (h : exec (cat.concreteModel t e) c = (.ok d, c)) :
    cat.Target m f e d := by
  obtain ⟨-, hreader⟩ := (exec_concreteModel_iff ht.1 hc).1 h
  obtain ⟨y, hy, hreader⟩ := bind_eq_ok_iff.1 hreader
  have hflag := isInterface_of_alone hy
  split at hreader
  · next hinterface =>
    obtain ⟨-, disc, hdisc, hd, htype⟩ := (picked_eq_ok_iff hy).1 hreader
    exact .interface ht hname (hflag.trans (congrArg _ hinterface)) hdisc hd htype
  · next hconcrete =>
    cases hreader
    exact .concrete ht hname (hflag.trans (congrArg _ (Bool.eq_false_iff.2 hconcrete)))

/-- The fields of an instance stand under the names of the fields that they were built for. -/
theorem Hydrates.holds {props : Value} {i : Instance} (h : cat.Hydrates c m x props i)
    (hn : x.schema.fieldNames.Nodup) {name : String} {slot : Slot}
    (hf : (name, f) ∈ x.schema.fields) (hslot : (name, slot) ∈ i.fields) :
    f.Holds (cat.Builds c m f) (props.get? name) slot := by
  obtain ⟨⟨name', f'⟩, hentry, hname, hholds⟩ := exists_of_forall₂ h.fields hslot
  cases hname
  have same := (OrderedMap.lookup_eq_some_iff hn).2 hentry
  rw [(OrderedMap.lookup_eq_some_iff hn).2 hf, Option.some.injEq] at same
  exact same ▸ hholds

/-- A field of the right kind is well typed if its instances are. -/
theorem fieldTyped_of_holds {built : Value → Instance → Prop} {value : Option Value} {slot : Slot}
    (hbecomes : f.Becomes value slot) (hholds : f.Holds built value slot)
    (hnested : ∀ e i, built e i → cat.Nested m f e i) : cat.FieldTyped m f value slot := by
  refine .intro hbecomes ?_ ?_ ?_
  · rintro v i rfl rfl
    cases hholds with
    | single _ _ _ hbuilt => exact hnested v i hbuilt
  · rintro v is rfl rfl
    cases hholds with
    | many _ _ hbuilt => exact ⟨_, rfl, hbuilt.length_eq⟩
  · rintro items is rfl rfl ⟨e, i⟩ hpair
    cases hholds with
    | many _ _ hbuilt => exact hnested e i ((List.forall₂_iff_zip.1 hbuilt).2 hpair)

/-- What is built without compiling anything is well typed. -/
theorem typed_of_exec {m : Model} {props : Value} {i : Instance} (hm : m ∈ cat.models)
    (hc : cat.Sound c) (h : exec (cat.instantiate m props) c = (.ok i, c)) :
    cat.Typed m props i := by
  obtain ⟨hvalid, hhydrate⟩ := (exec_instantiate_iff hm hc).1 h
  obtain ⟨x, hx, hfields⟩ := (exec_validate_iff hm hc).1 hvalid
  have halone := hc.alone_of_compiled hm hx
  have hydrates := (exec_hydrate_iff hm hc hx).1 hhydrate
  have hkeys := hydrates.keys_eq
  refine .intro halone hydrates.model hydrates.typeName hkeys
    (hkeys ▸ fieldNames_of_alone halone) fun name f slot hf hslot => ?_
  have hallows := hfields (name, f) hf
  have hcheck := (fits_of_alone halone hf).check_ne_builtin
  have hholds := hydrates.holds (nodup_fieldNames halone) hf hslot
  refine fieldTyped_of_holds (hholds.becomes hallows) hholds.checked ?_
  -- An element of a field is less deep than the value, and passing makes it an object.
  rintro e i ⟨⟨hcustom, he⟩, t, d, ⟨ht, hname⟩, hd, hi⟩
  have hlt : e.depth < props.depth := (FieldSchema.within_of_mem_checked he).2
  have hdm := mem_of_exec_concreteModel ht.1 hc hd
  exact .intro ((hallows.of_mem_checked he).isObject (hcheck hcustom))
    (target_of_exec ht hname hc hd) (typed_of_exec hdm hc hi)
termination_by props.depth

end Catalog

namespace Workspace

variable {w : Workspace} {m : Model} {props : Value} {i : Instance}

open Catalog

/-- An instance is well typed at every depth, whatever has happened before. -/
theorem Reachable.instantiate_wellTyped (h : w.Reachable) (hm : m ∈ w.catalog.models)
    (hi : (w.run (·.instantiate m props)).1 = .ok i) : w.catalog.Typed m props i := by
  have hP : ∀ y, w.catalog.Reaches m y → y ∈ w.catalog.models := fun _ hy => Reaches.mem hy hm
  have hs : w.catalog.Scripted _ _ _ _ := scripted_instantiate m props
  obtain ⟨hexec, hsound, -⟩ := h.settled hs hP hi
  exact typed_of_exec hm hsound hexec

/-- Rex is an animal, and so an instance of the dog. His home is a zoo again. -/
theorem wellTyped_wildlife :
    wildlife.catalog.Typed zoo (zooOf [.obj [("home", zooOf []), ("name", .str "Rex")]]) {
      model := "Zoo", typeName := "Zoo"
      fields := [("animals", .many [{
        model := "Dog", typeName := "Dog"
        fields := [("name", .raw (.str "Rex")), ("home", .single {
          model := "Zoo", typeName := "Zoo", fields := [("animals", .many [])] })] }])] } := by
  have reachable : wildlife.Reachable := (unbroken_of_fresh _).reachable
  have hzoo : zoo ∈ wildlife.catalog.models := List.mem_cons_self
  exact reachable.instantiate_wellTyped hzoo (by with_unfolding_all rfl)

end Workspace

end TypedModels
