import Mathlib.Data.List.Forall2
import TypedModels.Proofs.Checks
import TypedModels.Proofs.Construction

/-!
# What an instance holds

Where nothing is left to compile, the instance of a value is read off from the value field by field:
an absent key is missing, a null or a value of a scalar type is kept, and a value of a custom type
becomes the instances of its elements. As an object, an instance has exactly the fields that are not
missing.

## Main definitions

* `Slot.rendered` : the value under which a field of an instance is rendered, if it is.
* `FieldSchema.Holds` : the field of an instance that a value becomes.
* `Catalog.reader` : the model that an element is an instance of.
* `Catalog.Builds`, `Catalog.Hydrates` : the instances of elements, and of a whole value.
-/

namespace TypedModels

open Session

/-! ## Objects that are built -/

/-- Related entries have the same keys. -/
theorem OrderedMap.keys_eq_of_forall₂ {α β : Type} {R : String × α → String × β → Prop}
    {m : OrderedMap α} {n : OrderedMap β} (h : List.Forall₂ (fun d e => e.1 = d.1 ∧ R d e) m n) :
    keys n = keys m := by
  induction h with
  | nil => rfl
  | cons hentry _ ih => rw [keys_cons, keys_cons, hentry.1, ih]

namespace Value

variable {key name : String} {v : Value} {members sorted : List (String × Value)}

theorem lookup_insertMember : (insertMember key v members).lookup name =
    if name = key then some v else members.lookup name := by
  induction members with
  | nil => exact OrderedMap.lookup_cons
  | cons member members ih =>
    obtain ⟨k, w⟩ := member
    unfold insertMember
    split
    · exact OrderedMap.lookup_cons
    · split
      · next hk => grind [OrderedMap.lookup_cons]
      · next hk => grind [OrderedMap.lookup_cons]

theorem lookup_foldl_insertMember (h : (OrderedMap.keys members).Nodup) :
    (members.foldl (fun sorted m => insertMember m.1 m.2 sorted) sorted).lookup name =
      (members.lookup name).or (sorted.lookup name) := by
  induction members generalizing sorted with
  | nil => rfl
  | cons member members ih =>
    obtain ⟨k, w⟩ := member
    obtain ⟨hk, hrest⟩ := List.nodup_cons.1 h
    rw [List.foldl_cons, ih hrest, lookup_insertMember, OrderedMap.lookup_cons]
    split
    · next hn => simp [hn, OrderedMap.lookup_eq_none_iff.2 hk]
    · rfl

/-- An object with distinct keys has under each of them what it was given. -/
theorem get?_ofMembers (h : (OrderedMap.keys members).Nodup) :
    (ofMembers members).get? name = members.lookup name := by
  rw [ofMembers, get?, sortMembers, lookup_foldl_insertMember h, List.lookup_nil, Option.or_none]

end Value

/-- The value of a field in an object; a missing one is left out. -/
def Slot.rendered : Slot → Option Value
  | .missing => none
  | .raw v => some v
  | .single i => some (Instance.toValue i)
  | .many items => some (.arr (items.map Instance.toValue))

namespace Slot

variable {fields : List (String × Slot)} {name : String} {slot : Slot}

theorem toValues_eq (items : List Instance) : toValues items = items.map Instance.toValue := by
  induction items with
  | nil => rw [toValues, List.map_nil]
  | cons i items ih => rw [toValues, ih]; rfl

theorem members_cons :
    members ((name, slot) :: fields) =
      (slot.rendered.map (name, ·)).toList ++ members fields := by
  cases slot with
  | single i =>
    obtain ⟨model, typeName, nested⟩ := i
    rw [members]
    rfl
  | many items =>
    rw [members, toValues_eq]
    rfl
  | _ =>
    rw [members]
    rfl

theorem keys_members_sublist :
    (OrderedMap.keys (members fields)).Sublist (OrderedMap.keys fields) := by
  induction fields with
  | nil => rw [members]; exact .slnil
  | cons field fields ih =>
    obtain ⟨k, s⟩ := field
    rw [members_cons]
    cases s.rendered with
    | none => exact ih.cons _
    | some v => exact ih.cons_cons _

theorem lookup_members (hn : (OrderedMap.keys fields).Nodup) (hmem : (name, slot) ∈ fields) :
    (members fields).lookup name = slot.rendered := by
  induction fields with
  | nil => cases hmem
  | cons field fields ih =>
    obtain ⟨k, s⟩ := field
    obtain ⟨hk, hn⟩ := List.nodup_cons.1 hn
    rw [members_cons, List.lookup_append]
    rcases List.mem_cons.1 hmem with he | hmem
    · cases he
      have hnone := OrderedMap.lookup_eq_none_iff.2 fun h => hk (keys_members_sublist.subset h)
      cases slot.rendered <;> simp [hnone]
    · have hne : name ≠ k := fun he => hk (List.mem_map.2 ⟨(name, slot), hmem, he⟩)
      rw [ih hn hmem]
      cases s.rendered <;> simp [OrderedMap.lookup_cons, hne]

end Slot

/-- An instance as an object has the fields that are not missing. -/
theorem Instance.get?_toValue {i : Instance} (h : i.keys.Nodup) {name : String} {slot : Slot}
    (hmem : (name, slot) ∈ i.fields) : i.toValue.get? name = slot.rendered := by
  rw [toValue, Value.get?_ofMembers (h.sublist Slot.keys_members_sublist),
    Slot.lookup_members h hmem]

/-! ## The fields of an instance -/

/-- What the value of a field becomes in an instance, given the instances that elements become. -/
inductive FieldSchema.Holds (f : FieldSchema) (built : Value → Instance → Prop) :
    Option Value → Slot → Prop
  | missing : Holds f built none .missing
  | null : Holds f built (some .null) (.raw .null)
  | raw {v : Value} : v ≠ .null → f.isCustom = false → Holds f built (some v) (.raw v)
  | single {v : Value} {i : Instance} : v ≠ .null → f.isCustom = true →
      (f.isList = true → v.items? = none) → built v i → Holds f built (some v) (.single i)
  | many {items : List Value} {is : List Instance} : f.isCustom = true → f.isList = true →
      List.Forall₂ built items is → Holds f built (some (.arr items)) (.many is)

namespace FieldSchema

/-- A value that is in order is taken as a single element only where no list is expected. -/
theorem Allows.isList_eq_false {f : FieldSchema} {good : Value → Prop} {v : Value}
    (h : f.Allows good (some v)) (hnull : v ≠ .null) (hself : f.isList = true → v.items? = none) :
    f.isList = false := by
  cases hlist : f.isList with
  | false => rfl
  | true =>
    have harray := ((allows_some_iff hnull).1 h).1 hlist
    rw [hself hlist] at harray
    cases harray

/-- A value of a field without custom type is kept as it is. -/
theorem slot_plain {m : Type → Type} [Monad m] {τ : Type} {target : m τ}
    {build : τ → Value → m Instance} {f : FieldSchema} {v : Value} (h : f.isCustom = false) :
    f.slot target build (some v) = pure (.raw v) := by
  cases v <;> simp [slot, h]

end FieldSchema

namespace FieldSchema.Holds

variable {f : FieldSchema} {built built' : Value → Instance → Prop} {value : Option Value}
  {slot : Slot}

theorem mono (h : f.Holds built value slot) (hb : ∀ e i, built e i → built' e i) :
    f.Holds built' value slot := by
  cases h with
  | missing => exact .missing
  | null => exact .null
  | raw hnull hcustom => exact .raw hnull hcustom
  | single hnull hcustom hlist hi => exact .single hnull hcustom hlist (hb _ _ hi)
  | many hcustom hlist his => exact .many hcustom hlist (his.imp hb)

/-- Only elements that are checked become instances, and only in a field of a custom type. -/
theorem checked (h : f.Holds built value slot) :
    f.Holds (fun e i => (f.isCustom = true ∧ e ∈ f.checked value) ∧ built e i) value slot := by
  cases h with
  | missing => exact .missing
  | null => exact .null
  | raw hnull hcustom => exact .raw hnull hcustom
  | single hnull hcustom hlist hi =>
    refine .single hnull hcustom hlist ⟨⟨hcustom, ?_⟩, hi⟩
    rw [checked_some hnull]
    exact mem_elements_self hlist
  | @many items is hcustom hlist his =>
    refine .many hcustom hlist ((List.forall₂_and_left ..).2 ⟨fun e he => ⟨hcustom, ?_⟩, his⟩)
    rwa [checked_some (v := .arr items) (by simp), elements_arr hlist]

/-- A field of an instance is rendered as a value that becomes the same field again, if this is so
for the instances that it holds. -/
theorem rendered (h : f.Holds built value slot) (again : ∀ e i, built e i → built' i.toValue i) :
    f.Holds built' slot.rendered slot := by
  cases h with
  | missing => exact .missing
  | null => exact .null
  | raw hnull hcustom => exact .raw hnull hcustom
  | single hnull hcustom hlist hi => exact .single nofun hcustom (fun _ => rfl) (again _ _ hi)
  | many hcustom hlist his =>
    refine .many hcustom hlist (List.forall₂_map_left_iff.2 (List.forall₂_same.2 ?_))
    exact forall_of_forall₂ his again

/-- Rendering does not take away what makes the value of a field be in order. -/
theorem allows {good good' : Value → Prop} (h : f.Holds built value slot)
    (hallows : f.Allows good value) (hplain : f.isCustom = false → ∀ e, good e → good' e)
    (hbuilt : ∀ e i, built e i → good' i.toValue) : f.Allows good' slot.rendered := by
  cases h with
  | missing => exact hallows
  | null => exact hallows
  | raw hnull hcustom =>
    exact hallows.mono fun v _ e _ he => hplain hcustom e he
  | @single v i hnull hcustom hlist hi =>
    have hsingle := hallows.isList_eq_false hnull hlist
    refine (allows_some_iff (v := i.toValue) nofun).2 ⟨by simp [hsingle], ?_⟩
    rw [elements_of_not_isList hsingle]
    exact List.forall_mem_singleton.2 (hbuilt v i hi)
  | @many items is hcustom hlist his =>
    refine (allows_some_iff (v := .arr _) nofun).2 ⟨fun _ => rfl, ?_⟩
    rw [elements_arr hlist]
    exact List.forall_mem_map.2 (forall_of_forall₂ his hbuilt)

end FieldSchema.Holds

/-! ## Instances from a settled cache -/

theorem Catalog.Scripted.exec_liftFailure_bind_iff {cat : Catalog} {P : Model → Prop} {α β : Type}
    {R : α → Prop} {S : β → Prop} {s : Session ConfigError α} {k : α → Session Failure β}
    {c : Cache} {b : β} (h : cat.Scripted P id R s)
    (hk : ∀ a, R a → cat.Scripted P Failure.schema S (k a)) (hP : ∀ m, P m → m ∈ cat.models)
    (hc : cat.Sound c) : exec (liftM s >>= k) c = (.ok b, c) ↔
      ∃ a, exec s c = (.ok a, c) ∧ exec (k a) c = (.ok b, c) := by
  have lifted : ∀ {a}, exec (ExceptT.adapt Failure.schema s) c = (.ok a, c) ↔
      exec s c = (.ok a, c) := by
    intro a
    rw [exec_adapt]
    rcases exec s c with ⟨_ | _, _⟩ <;> simp [Except.mapError]
  have adapted : cat.Scripted P Failure.schema R (ExceptT.adapt Failure.schema s) := h.adapt
  have hbind := adapted.exec_bind_iff hk hP hc (b := b)
  simp only [lifted] at hbind
  exact hbind

namespace FieldSchema

variable {cat : Catalog} {P : Model → Prop} {ε τ : Type} {wrap : ConfigError → ε} {c : Cache}
  {f : FieldSchema} {value : Option Value} {slot : Slot} {target : Session ε τ} {t : τ}
  {build : τ → Value → Session ε Instance}

/-- The field of an instance is built without compiling anything exactly if its elements are. -/
theorem exec_slot_iff (hP : ∀ m, P m → m ∈ cat.models) (hc : cat.Sound c)
    (htarget : f.isCustom = true → exec target c = (.ok t, c))
    (hbuild : ∀ e ∈ f.checked value, cat.Scripted P wrap (fun _ => True) (build t e)) :
    exec (f.slot target build value) c = (.ok slot, c) ↔
      f.Holds (fun e i => exec (build t e) c = (.ok i, c)) value slot := by
  rcases value with _ | v
  · exact ⟨fun h => by cases h; exact .missing, fun h => by cases h; rfl⟩
  by_cases hnull : v = .null
  · subst hnull
    refine ⟨fun h => by cases h; exact .null, fun h => ?_⟩
    cases h with
    | null => rfl
    | raw hnull | single hnull => exact absurd rfl hnull
  cases hcustom : f.isCustom with
  | false =>
    rw [slot_plain hcustom]
    refine ⟨fun h => by cases h; exact .raw hnull hcustom, fun h => ?_⟩
    cases h with
    | null | raw => rfl
    | single _ h | many h => rw [hcustom] at h; cases h
  | true =>
    rw [checked_some hnull] at hbuild
    rcases Catalog.slot_custom target build hnull hcustom with
      ⟨items, rfl, hlist, helements, hslot⟩ | ⟨hself, hslot⟩
    · rw [helements] at hbuild
      rw [hslot, exec_bind_ok (htarget hcustom), (Catalog.Scripted.mapM hbuild).exec_bind_iff
        (S := fun _ => True) (fun _ _ => .pure trivial) hP hc]
      simp only [Catalog.Scripted.exec_mapM_iff hbuild hP hc]
      constructor
      · rintro ⟨is, his, hs⟩
        cases hs
        exact .many hcustom hlist his
      · intro h
        cases h with
        | raw _ h => rw [hcustom] at h; cases h
        | single _ _ hself => cases hself hlist
        | many _ _ his => exact ⟨_, his, rfl⟩
    · rw [hslot, exec_bind_ok (htarget hcustom),
        (hbuild v (mem_elements_self hself)).exec_bind_iff (S := fun _ => True)
          (fun _ _ => .pure trivial) hP hc]
      constructor
      · rintro ⟨i, hi, hs⟩
        cases hs
        exact .single hnull hcustom hself hi
      · intro h
        cases h with
        | null => exact absurd rfl hnull
        | raw _ h => rw [hcustom] at h; cases h
        | single _ _ _ hi => exact ⟨_, hi, rfl⟩
        | many _ hlist => cases hself hlist

end FieldSchema

namespace Catalog

variable {cat : Catalog} {c : Cache} {m t d : Model} {f : FieldSchema} {e props : Value}
  {x : Compiled} {i : Instance}

/-- The model that an element of the type of `t` is an instance of: `t` itself, or the dependency
that it picks for the element if it is an interface. -/
def reader (cat : Catalog) (t : Model) (e : Value) : Except ConfigError Model := do
  let x ← cat.alone t
  if x.isInterface then cat.picked t x e else return t

/-- The model of an element is found without compiling anything exactly if the model that is asked
is compiled. -/
theorem exec_concreteModel_iff (ht : t ∈ cat.models) (hc : cat.Sound c) :
    exec (cat.concreteModel t e) c = (.ok d, c) ↔ Cached c t ∧ cat.reader t e = .ok d := by
  have hP : ∀ y, cat.Reaches t y → y ∈ cat.models := fun _ hy => hy.mem ht
  have later : ∀ x, cat.alone t = .ok x → cat.Scripted (cat.Reaches t) id (fun _ => True)
      (if x.isInterface then cat.implementation t e else return t) := by
    intro x _
    split
    · exact scripted_implementation.mono (fun _ h => h) fun _ _ => trivial
    · exact .pure trivial
  have read : ∀ {x}, exec (cat.compiled t) c = (.ok x, c) →
      (exec (cat.concreteModel t e) c = (.ok d, c) ↔ cat.reader t e = .ok d) := by
    intro x hx
    have hreader : cat.reader t e = if x.isInterface then cat.picked t x e else .ok t := by
      rw [reader, hc.alone_of_compiled ht hx]
      rfl
    rw [exec_concreteModel hx, hreader]
    split
    · rw [exec_implementation_iff, hx]
      simp
    · simp
  constructor
  · intro h
    obtain ⟨x, hx, -⟩ := ((Scripted.compiled .refl).exec_bind_iff later hP hc).1 h
    exact ⟨⟨x, (fills_of_compiled_ok ht hx).2⟩, (read hx).1 h⟩
  · rintro ⟨⟨x, hx⟩, hreader⟩
    exact (read (exec_compiled_of_cached ht hx)).2 hreader

theorem mem_of_exec_concreteModel {c' : Cache} (ht : t ∈ cat.models) (hc : cat.Sound c)
    (h : exec (cat.concreteModel t e) c = (.ok d, c')) : d ∈ cat.models :=
  have hreach := (scripted_concreteModel.of_exec (fun _ hy => Reaches.mem hy ht) hc h).1
  hreach.mem ht

/-- An element of the type of `t` is cast without compiling anything exactly if its model is found
and builds its instance so. -/
theorem exec_cast_iff (ht : t ∈ cat.models) (hc : cat.Sound c) :
    exec (cat.cast t e) c = (.ok i, c) ↔ ∃ d, exec (cat.concreteModel t e) c = (.ok d, c) ∧
      exec (cat.instantiate d e) c = (.ok i, c) := by
  have hP : ∀ y, cat.Reaches t y → y ∈ cat.models := fun _ hy => hy.mem ht
  exact scripted_concreteModel.exec_liftFailure_bind_iff (fun d hd =>
    (scripted_instantiate d e).mono (fun _ hy => hd.trans hy) fun _ h => h) hP hc

section Fields

variable {s : Scope} {value : Option Value} {slot : Slot}

theorem scripted_fieldSlot (hs : cat.scope m = .ok s) :
    cat.Scripted (cat.Reaches m) Failure.schema (fun _ => True)
      (f.slot (liftM (s.get f.baseType) : Session Failure Model) cat.cast value) := by
  refine scripted_slot (R := cat.DependsOn m) ?_ fun v _ t ht e _ => ?_
  · exact (Scripted.lift fun d hd => ((get_eq_ok_iff hs).1 hd).1).adapt
  · exact scripted_cast.mono (fun y hy => .head ht hy) fun _ h => h

theorem scripted_slots_cast (hs : cat.scope m = .ok s) (t : TypeSchema) (props : Value) :
    ∀ entry ∈ t.fields, cat.Scripted (cat.Reaches m) Failure.schema (fun _ => True) (do
      return (entry.1, ← entry.2.slot (liftM (s.get entry.2.baseType) : Session Failure Model)
        cat.cast (props.get? entry.1))) :=
  fun _ _ => (scripted_fieldSlot hs).bind fun _ _ => .pure trivial

theorem scripted_hydrate :
    cat.Scripted (cat.Reaches m) Failure.schema (fun _ => True) (cat.hydrate m props) := by
  refine (Scripted.compiled .refl).adapt.bind fun x hx => ?_
  refine (Scripted.lift fun s hs => hs).adapt.bind fun s hs => ?_
  exact (Scripted.mapM (scripted_slots_cast hs x.schema props)).bind fun _ _ => .pure trivial

/-- A field of a custom type points to the dependency that has the type. -/
theorem Fits.exists_dependency (h : cat.Fits m f) (hcustom : f.isCustom = true) :
    ∃ t, cat.DependsOn m t ∧ t.typeName = f.baseType := by
  cases h with
  | builtin _ hplain => rw [hcustom] at hplain; cases hplain
  | model t _ _ ht hname | interface t _ _ ht hname => exact ⟨t, ht, hname⟩

/-- The instance that an element of a field becomes, with nothing left to compile. -/
def Builds (cat : Catalog) (c : Cache) (m : Model) (f : FieldSchema) (e : Value) (i : Instance) :
    Prop :=
  ∃ t d, (cat.DependsOn m t ∧ t.typeName = f.baseType) ∧
    exec (cat.concreteModel t e) c = (.ok d, c) ∧ exec (cat.instantiate d e) c = (.ok i, c)

theorem exec_fieldSlot_iff (hm : m ∈ cat.models) (hc : cat.Sound c) (hs : cat.scope m = .ok s)
    (hfits : cat.Fits m f) :
    exec (f.slot (liftM (s.get f.baseType) : Session Failure Model) cat.cast value) c =
      (.ok slot, c) ↔ f.Holds (cat.Builds c m f) value slot := by
  have hP : ∀ y, cat.Reaches m y → y ∈ cat.models := fun _ hy => hy.mem hm
  -- Without a custom type no model is looked up, and any model will do.
  obtain ⟨t, hreach, hget⟩ : ∃ t, cat.Reaches m t ∧
      (f.isCustom = true → s.get f.baseType = .ok t) := by
    cases hcustom : f.isCustom with
    | false => exact ⟨m, .refl, nofun⟩
    | true =>
      obtain ⟨t, ht⟩ := hfits.exists_dependency hcustom
      exact ⟨t, .single ht.1, fun _ => (get_eq_ok_iff hs).2 ht⟩
  have hbuild : ∀ e, cat.Scripted (cat.Reaches m) Failure.schema (fun _ => True)
      (cat.cast t e) := fun e => scripted_cast.mono (fun _ hy => hreach.trans hy) fun _ h => h
  rw [FieldSchema.exec_slot_iff (t := t) hP hc (fun hcustom => by rw [hget hcustom]; rfl)
    fun e _ => hbuild e]
  simp only [exec_cast_iff (hreach.mem hm) hc]
  constructor
  · intro h
    refine h.checked.mono ?_
    rintro e i ⟨⟨hcustom, -⟩, d, hd, hi⟩
    exact ⟨t, d, (get_eq_ok_iff hs).1 (hget hcustom), hd, hi⟩
  · intro h
    refine h.checked.mono ?_
    rintro e i ⟨⟨hcustom, -⟩, t', d, ht', hd, hi⟩
    obtain rfl := Except.ok.inj ((hget hcustom).symm.trans ((get_eq_ok_iff hs).2 ht'))
    exact ⟨d, hd, hi⟩

end Fields

/-- An instance has the name and the type of its model, and holds what the values of the fields of
the schema become. -/
structure Hydrates (cat : Catalog) (c : Cache) (m : Model) (x : Compiled) (props : Value)
    (i : Instance) : Prop where
  model : i.model = m.name
  typeName : i.typeName = m.typeName
  fields : List.Forall₂ (fun entry field => field.1 = entry.1 ∧
    entry.2.Holds (cat.Builds c m entry.2) (props.get? entry.1) field.2) x.schema.fields i.fields

theorem Hydrates.keys_eq (h : cat.Hydrates c m x props i) : i.keys = x.schema.fieldNames :=
  OrderedMap.keys_eq_of_forall₂ h.fields

/-- No field of a compiled form occurs twice. -/
theorem nodup_fieldNames (h : cat.alone m = .ok x) : x.schema.fieldNames.Nodup := by
  obtain ⟨s, -, hx⟩ := alone_eq_ok_iff.1 h
  obtain ⟨_, _, schema, -, -, hschema, rfl⟩ := compile_eq_ok_iff.1 hx
  obtain ⟨fields, -, rfl⟩ := compileShape_eq_ok_iff.1 hschema
  exact OrderedMap.nodup_keys_ofEntries _

/-- A value becomes an instance without compiling anything exactly if the model is compiled and the
values of its fields do. -/
theorem exec_hydrate_iff (hm : m ∈ cat.models) (hc : cat.Sound c)
    (hx : exec (cat.compiled m) c = (.ok x, c)) :
    exec (cat.hydrate m props) c = (.ok i, c) ↔ cat.Hydrates c m x props i := by
  have hP : ∀ y, cat.Reaches m y → y ∈ cat.models := fun _ hy => hy.mem hm
  have halone := hc.alone_of_compiled hm hx
  obtain ⟨s, hs, -⟩ := alone_eq_ok_iff.1 halone
  have compiled : exec (liftM (cat.compiled m) : Session Failure Compiled) c = (.ok x, c) := by
    rw [exec_liftFailure, hx]
    rfl
  have scope : exec (liftM (cat.scope m) : Session Failure Scope) c = (.ok s, c) := by
    rw [hs]
    rfl
  have each : ∀ entry ∈ x.schema.fields, ∀ field : String × Slot,
      exec (do
        return (entry.1, ← entry.2.slot (liftM (s.get entry.2.baseType) : Session Failure Model)
          cat.cast (props.get? entry.1))) c = (.ok field, c) ↔
      field.1 = entry.1 ∧
        entry.2.Holds (cat.Builds c m entry.2) (props.get? entry.1) field.2 := by
    intro entry hentry field
    rw [← exec_fieldSlot_iff hm hc hs (fits_of_alone halone hentry),
      (scripted_fieldSlot hs).exec_bind_iff (S := fun _ => True) (fun _ _ => .pure trivial) hP hc]
    constructor
    · rintro ⟨slot, hslot, h⟩
      cases h
      exact ⟨rfl, hslot⟩
    · rintro ⟨hname, hslot⟩
      exact ⟨field.2, hslot, by rw [← hname]; rfl⟩
  have hslots := scripted_slots_cast hs x.schema props
  rw [hydrate, exec_bind_ok compiled, exec_bind_ok scope]
  change exec (List.mapM _ x.schema.fields >>= _) c = _ ↔ _
  rw [(Scripted.mapM hslots).exec_bind_iff (S := fun _ => True) (fun _ _ => .pure trivial) hP hc]
  simp only [Scripted.exec_mapM_iff hslots hP hc, forall₂_congr_of_mem each]
  constructor
  · rintro ⟨fields, hfields, h⟩
    cases h
    exact ⟨rfl, rfl, hfields⟩
  · rintro ⟨hmodel, htype, hfields⟩
    exact ⟨i.fields, hfields, by rw [← hmodel, ← htype]; rfl⟩

/-- An instance is built without compiling anything exactly if the value passes validation so and
its fields become those of the instance. -/
theorem exec_instantiate_iff (hm : m ∈ cat.models) (hc : cat.Sound c) :
    exec (cat.instantiate m props) c = (.ok i, c) ↔
      exec (cat.validate m props) c = (.ok [], c) ∧ exec (cat.hydrate m props) c = (.ok i, c) := by
  have hP : ∀ y, cat.Reaches m y → y ∈ cat.models := fun _ hy => hy.mem hm
  have unfolded : cat.instantiate m props = (do
      let errors ← cat.validate m props
      if errors.isEmpty then cat.hydrate m props
      else throw (.rejected { errors, props, model := m.name })) := by
    rw [instantiate_eq]
    rfl
  have later : ∀ errors : Report, True → cat.Scripted (cat.Reaches m) Failure.schema
      (fun _ => True) (if errors.isEmpty then cat.hydrate m props
        else throw (.rejected { errors, props, model := m.name })) := by
    intro errors _
    split
    · exact scripted_hydrate
    · exact .throw _
  rw [unfolded, (scripted_validate m props).exec_liftFailure_bind_iff later hP hc]
  constructor
  · rintro ⟨errors, hvalid, h⟩
    split at h
    · next hempty =>
      rw [List.isEmpty_iff.1 hempty] at hvalid
      exact ⟨hvalid, h⟩
    · cases h
  · rintro ⟨hvalid, h⟩
    exact ⟨[], hvalid, h⟩

/-- An object that becomes an instance passes the check of its field. -/
theorem passes_of_builds (hc : cat.Sound c) (halone : cat.alone m = .ok x) (hfits : cat.Fits m f)
    (hcustom : f.isCustom = true) (hobj : e.isObject = true) (h : cat.Builds c m f e i) :
    cat.Passes c m f.check e := by
  have distinct := (wellFormed_iff.2 ⟨x, halone⟩).distinct
  obtain ⟨t, d, ⟨ht, hname⟩, hd, hi⟩ := h
  obtain ⟨⟨y, hy⟩, -⟩ := (exec_concreteModel_iff ht.1 hc).1 hd
  have hcompiled := exec_compiled_of_cached ht.1 hy
  have hflag := isInterface_of_alone (hc.alone ht.1 hy)
  have hvalid := ((exec_instantiate_iff (mem_of_exec_concreteModel ht.1 hc hd) hc).1 hi).1
  rw [exec_concreteModel hcompiled] at hd
  cases hfits with
  | builtin _ hplain => rw [hcustom] at hplain; cases hplain
  | model t' _ hcheck ht' hname' hconcrete =>
    obtain rfl := distinct t t' ht ht' (hname.trans hname'.symm)
    rw [hconcrete, Except.ok.injEq] at hflag
    rw [← hflag] at hd
    cases hd
    rw [hcheck]
    exact .model hobj ht hname hvalid
  | interface t' _ hcheck ht' hname' hinterface =>
    obtain rfl := distinct t t' ht ht' (hname.trans hname'.symm)
    rw [hinterface, Except.ok.injEq] at hflag
    rw [← hflag] at hd
    rw [hcheck]
    exact .interface hobj ht hname hd hvalid

end Catalog

end TypedModels
