import TypedModels.Proofs.Conformance
import TypedModels.Proofs.Hydration
import TypedModels.Proofs.Persistence

/-!
# Instances keep what is declared

An instance is rendered as the value that it was built from, without the keys that are not declared:
in the value itself, and in every element that has become an instance. Building an instance of the
rendering gives the same instance again, unless a discriminator looks at a key that is left out.

## Main definitions

* `Catalog.prune` : a value without the keys that are not declared.
* `Catalog.Meets` : the elements of a value that become instances.
* `Catalog.Steady` : no discriminator misses what is left out.
-/

namespace TypedModels

open Session

/-! ## Leaving out what is not declared -/

section

variable {ε : Type}

/-- What is kept of the value of a field, given what is kept of its elements. An absent key stays
absent. -/
def FieldSchema.prune (element : Value → Except ε Value) (f : FieldSchema) :
    Option Value → Except ε (Option Value)
  | none => return none
  | some .null => return some .null
  | some value =>
    if f.isCustom then
      match value with
      | .arr items =>
        if f.isList then return some (.arr (← items.mapM element))
        else return some (← element value)
      | value => return some (← element value)
    else return some value

/-- The members that are declared, each with what is kept of its value. `element` prunes an element
of the type with a name. -/
def TypeSchema.prune (element : String → Value → Except ε Value) (t : TypeSchema) (props : Value) :
    Except ε Value := do
  let members ← t.fields.filterMapM fun entry => do
    let value ← entry.2.prune (element entry.2.baseType) (props.get? entry.1)
    return value.map (entry.1, ·)
  return Value.ofMembers members

end

namespace Catalog

/-- The value without the keys that `m` does not declare. An element of a custom type is pruned as a
value of its model, which is chosen by the element as it stands. -/
def prune (cat : Catalog) (m : Model) (props : Value) : Except ConfigError Value := do
  let x ← cat.alone m
  let s ← cat.scope m
  x.schema.prune
    (fun typeName element =>
      if element.depth < props.depth then do
        cat.prune (← cat.reader (← s.get typeName) element) element
      else .ok element)
    props
termination_by props.depth

end Catalog

section

variable {ε : Type} {f : FieldSchema} {t : TypeSchema} {value : Option Value} {slot : Slot}
  {props : Value}

theorem FieldSchema.prune_congr {element element' : Value → Except ε Value}
    (h : ∀ v, value = some v → ∀ e, e.depth ≤ v.depth → element e = element' e) :
    f.prune element value = f.prune element' value := by
  unfold prune
  split
  · rfl
  · rfl
  · next v _ =>
    have self : element v = element' v := h v rfl v (Nat.le_refl _)
    split
    · split
      · next items _ =>
        have each : items.mapM element = items.mapM element' :=
          mapM_congr fun e he => h _ rfl e (Nat.le_of_lt (Value.depth_lt_of_mem he))
        rw [each, self]
      · rw [self]
    · rfl

theorem TypeSchema.prune_congr {element element' : String → Value → Except ε Value}
    (h : ∀ n e, e.depth < props.depth → element n e = element' n e) :
    t.prune element props = t.prune element' props := by
  have same : ∀ entry : String × FieldSchema,
      entry.2.prune (element entry.2.baseType) (props.get? entry.1) =
        entry.2.prune (element' entry.2.baseType) (props.get? entry.1) := by
    refine fun entry => FieldSchema.prune_congr fun v hv e he => ?_
    exact h _ e (Nat.lt_of_le_of_lt he (Value.depth_lt_of_get? hv))
  simp only [prune, same]

/-- What is kept of the value of a field is what the field of the instance is rendered as. -/
theorem FieldSchema.Holds.prune {element : Value → Except ε Value} {built : Value → Instance → Prop}
    (h : f.Holds built value slot) (hb : ∀ e i, built e i → element e = .ok i.toValue) :
    f.prune element value = .ok slot.rendered := by
  cases h with
  | missing => rfl
  | null => rfl
  | @raw v hnull hcustom => cases v <;> simp [FieldSchema.prune, hcustom] <;> rfl
  | @single v i hnull hcustom hself hi =>
    have hone := hb v i hi
    cases v with
    | null => exact absurd rfl hnull
    | arr items =>
      have hlist : f.isList = false := by
        by_contra h
        cases hself (by simpa using h)
      simp [FieldSchema.prune, hcustom, hlist, hone]
      rfl
    | _ =>
      simp [FieldSchema.prune, hcustom, hone]
      rfl
  | @many items is hcustom hlist his =>
    have each : List.Forall₂ (fun e v => element e = .ok v) items (is.map Instance.toValue) :=
      List.forall₂_map_right_iff.2 (his.imp hb)
    simp [FieldSchema.prune, hcustom, hlist, mapM_eq_ok_iff.2 each]
    rfl

/-- What is kept of a value is what an instance is rendered as, if this is so field by field. -/
theorem TypeSchema.prune_eq_ok {element : String → Value → Except ε Value}
    {fields : List (String × Slot)}
    (h : List.Forall₂ (fun entry field => field.1 = entry.1 ∧
      entry.2.prune (element entry.2.baseType) (props.get? entry.1) = .ok field.2.rendered)
      t.fields fields) : t.prune element props = .ok (Value.ofMembers (Slot.members fields)) := by
  have members : (t.fields.filterMapM fun entry => do
      let value ← entry.2.prune (element entry.2.baseType) (props.get? entry.1)
      return value.map (entry.1, ·)) = .ok (Slot.members fields) := by
    generalize t.fields = entries at h
    induction h with
    | nil =>
      rw [Slot.members]
      rfl
    | @cons entry field entries fields hfield _ ih =>
      obtain ⟨_, slot⟩ := field
      obtain ⟨rfl, hslot⟩ := hfield
      rw [List.filterMapM_cons, ih, Slot.members_cons, hslot]
      cases slot.rendered <;> rfl
  rw [TypeSchema.prune, members]
  rfl

end

namespace Catalog

variable {cat : Catalog} {c : Cache} {m t d : Model} {e props : Value} {i : Instance}

/-- Every element is less deep than the value that it is part of, so the bound on the depth of
elements excludes nothing. -/
theorem prune_eq (cat : Catalog) (m : Model) (props : Value) :
    cat.prune m props = (do
      let x ← cat.alone m
      let s ← cat.scope m
      x.schema.prune (fun typeName element => do
        cat.prune (← cat.reader (← s.get typeName) element) element) props) := by
  rw [prune]
  congr 1; funext x
  congr 1; funext s
  exact TypeSchema.prune_congr fun n e h => if_pos h

/-- The rendering of an instance is what is kept of the value. -/
theorem prune_of_exec {m : Model} {props : Value} {i : Instance} (hm : m ∈ cat.models)
    (hc : cat.Sound c) (h : exec (cat.instantiate m props) c = (.ok i, c)) :
    cat.prune m props = .ok i.toValue := by
  obtain ⟨hvalid, hhydrate⟩ := (exec_instantiate_iff hm hc).1 h
  obtain ⟨x, hx, -⟩ := (exec_validate_iff hm hc).1 hvalid
  have halone := hc.alone_of_compiled hm hx
  obtain ⟨s, hs, -⟩ := alone_eq_ok_iff.1 halone
  have hfields := ((exec_hydrate_iff hm hc hx).1 hhydrate).fields
  rw [prune_eq]
  refine bind_eq_ok_iff.2 ⟨x, halone, bind_eq_ok_iff.2 ⟨s, hs, ?_⟩⟩
  refine TypeSchema.prune_eq_ok (hfields.imp fun entry field ⟨hname, hslot⟩ => ⟨hname, ?_⟩)
  refine hslot.checked.prune ?_
  rintro e j ⟨⟨-, he⟩, t, d, ht, hd, hj⟩
  have hlt := (FieldSchema.within_of_mem_checked he).2
  have hprune := prune_of_exec (mem_of_exec_concreteModel ht.1.1 hc hd) hc hj
  have hreader := ((exec_concreteModel_iff ht.1.1 hc).1 hd).2
  exact bind_eq_ok_iff.2 ⟨t, (get_eq_ok_iff hs).2 ht, bind_eq_ok_iff.2 ⟨d, hreader, hprune⟩⟩
termination_by props.depth

/-! ## Building an instance again -/

/-- Casting the fields of a value of `m` meets an element of the type of `t`, perhaps within other
elements. -/
inductive Meets (cat : Catalog) : Model → Value → Model → Value → Prop
  | field {m t : Model} {props e : Value} {x : Compiled} {name : String} {f : FieldSchema} :
      cat.alone m = .ok x → (name, f) ∈ x.schema.fields → f.isCustom = true →
      cat.DependsOn m t → t.typeName = f.baseType → e ∈ f.checked (props.get? name) →
      Meets cat m props t e
  | within {m t d t' : Model} {props e e' : Value} : Meets cat m props t e →
      cat.reader t e = .ok d → Meets cat d e t' e' → Meets cat m props t' e'

theorem Meets.mem (h : cat.Meets m props t e) : t ∈ cat.models := by
  induction h with
  | field _ _ _ ht => exact ht.1
  | within _ _ _ _ ih => exact ih

/-- The discriminator of every interface that is met gives the same answer for the element and for
what is kept of it. -/
def Steady (cat : Catalog) (m : Model) (props : Value) : Prop :=
  ∀ t e disc d v, cat.Meets m props t e → t.isInterface = .ok true → t.resolveType = some disc →
    cat.reader t e = .ok d → cat.prune d e = .ok v → disc v = disc e

/-- The same model is chosen for what is kept of an element. -/
theorem reader_of_discriminator {x : Compiled} {v : Value} (hx : cat.alone t = .ok x)
    (hd : cat.reader t e = .ok d)
    (hsame : ∀ disc, t.isInterface = .ok true → t.resolveType = some disc → disc v = disc e) :
    cat.reader t v = .ok d := by
  have unfolded : ∀ e, cat.reader t e = if x.isInterface then cat.picked t x e else .ok t := by
    intro e
    rw [reader, hx]
    rfl
  rw [unfolded] at hd ⊢
  split at hd
  · next hi =>
    obtain ⟨-, disc, hdisc, hdep, htype⟩ := (picked_eq_ok_iff hx).1 hd
    have hflag : t.isInterface = .ok true := by rw [isInterface_of_alone hx, hi]
    rw [if_pos hi, picked_eq_ok_iff hx]
    exact ⟨hi, disc, hdisc, hdep, htype.trans (hsame disc hflag hdisc).symm⟩
  · next hi => rwa [if_neg hi]

/-- The rendering of an instance is a value of the same instance, if its elements become the
instances that they are rendered from. -/
theorem exec_instantiate_rendered {x : Compiled} (hm : m ∈ cat.models) (hc : cat.Sound c)
    (hx : exec (cat.compiled m) c = (.ok x, c))
    (hallows : ∀ entry ∈ x.schema.fields,
      entry.2.Allows (cat.Passes c m entry.2.check) (props.get? entry.1))
    (hhydrates : cat.Hydrates c m x props i)
    (again : ∀ entry ∈ x.schema.fields, ∀ e ∈ entry.2.checked (props.get? entry.1), ∀ j,
      entry.2.isCustom = true → cat.Builds c m entry.2 e j →
        cat.Builds c m entry.2 j.toValue j) :
    exec (cat.instantiate m i.toValue) c = (.ok i, c) := by
  have halone := hc.alone_of_compiled hm hx
  have hslots : List.Forall₂ (fun entry field =>
      entry.2.Allows (cat.Passes c m entry.2.check) (i.toValue.get? entry.1) ∧
      field.1 = entry.1 ∧
        entry.2.Holds (cat.Builds c m entry.2) (i.toValue.get? entry.1) field.2)
      x.schema.fields i.fields := by
    refine List.forall₂_iff_zip.2 ⟨hhydrates.fields.length_eq, fun {entry field} hzip => ?_⟩
    obtain ⟨hentry, hfield⟩ := List.of_mem_zip hzip
    obtain ⟨hname, hslot⟩ := List.forall₂_zip hhydrates.fields hzip
    have hnodup : i.keys.Nodup := hhydrates.keys_eq ▸ nodup_fieldNames halone
    have hget : i.toValue.get? entry.1 = field.2.rendered :=
      i.get?_toValue hnodup (hname ▸ hfield)
    have hfits := fits_of_alone halone hentry
    rw [hget]
    refine ⟨hslot.checked.allows (hallows entry hentry) (fun _ _ h => h) ?_, hname,
      hslot.checked.rendered ?_⟩
    · rintro e j ⟨⟨hcustom, he⟩, hj⟩
      exact passes_of_builds hc halone hfits hcustom rfl (again entry hentry e he j hcustom hj)
    · rintro e j ⟨⟨hcustom, he⟩, hj⟩
      exact again entry hentry e he j hcustom hj
  obtain ⟨hallows', hfields⟩ := (List.forall₂_and_left _ _).1 hslots
  refine (exec_instantiate_iff hm hc).2 ⟨(exec_validate_iff hm hc).2 ⟨x, hx, hallows'⟩, ?_⟩
  exact (exec_hydrate_iff hm hc hx).2 ⟨hhydrates.model, hhydrates.typeName, hfields⟩

/-- The rendering of an instance is a value of the same instance, if no discriminator misses what is
left out. -/
theorem exec_instantiate_toValue {m : Model} {props : Value} {i : Instance} (hm : m ∈ cat.models)
    (hc : cat.Sound c) (hsteady : cat.Steady m props)
    (h : exec (cat.instantiate m props) c = (.ok i, c)) :
    exec (cat.instantiate m i.toValue) c = (.ok i, c) := by
  obtain ⟨hvalid, hhydrate⟩ := (exec_instantiate_iff hm hc).1 h
  obtain ⟨x, hx, hallows⟩ := (exec_validate_iff hm hc).1 hvalid
  have halone := hc.alone_of_compiled hm hx
  refine exec_instantiate_rendered hm hc hx hallows ((exec_hydrate_iff hm hc hx).1 hhydrate) ?_
  rintro entry hentry e he j hcustom ⟨t, d, ht, hd, hj⟩
  have hdm := mem_of_exec_concreteModel ht.1.1 hc hd
  obtain ⟨hcached, hreader⟩ := (exec_concreteModel_iff ht.1.1 hc).1 hd
  have hmeets : cat.Meets m props t e := .field halone hentry hcustom ht.1 ht.2 he
  have hlt := (FieldSchema.within_of_mem_checked he).2
  have hnested : cat.Steady d e := fun t' e' disc d' v hmeets' =>
    hsteady t' e' disc d' v (.within hmeets hreader hmeets')
  refine ⟨t, d, ht, (exec_concreteModel_iff ht.1.1 hc).2 ⟨hcached, ?_⟩,
    exec_instantiate_toValue hdm hc hnested hj⟩
  -- The same model is chosen for the rendering of the element.
  obtain ⟨y, hy⟩ := hcached
  refine reader_of_discriminator (hc.alone ht.1.1 hy) hreader fun disc hflag hdisc => ?_
  exact hsteady t e disc d j.toValue hmeets hflag hdisc hreader (prune_of_exec hdm hc hj)
termination_by props.depth

end Catalog

namespace Workspace

variable {w : Workspace} {m : Model} {props : Value} {i : Instance}

open Catalog

theorem after_instantiate (hm : m ∈ w.catalog.models) :
    w.after (.instantiate m.name props) = (w.run (·.instantiate m props)).2 := by
  have left : (w.after (.instantiate m.name props)).cache =
      (exec (w.catalog.instantiate m props) w.cache).2 :=
    exec_model (model_eq_ok_iff.2 ⟨hm, rfl⟩) w.cache
  exact congrArg (fun c => { w with cache := c }) left

/-- An instance is rendered as what is declared of the value that it was built from. Building an
instance of that gives the same instance, whatever has been asked in between, if no discriminator
misses what is left out. -/
theorem Reachable.instantiate_prunes (h : w.Reachable) (hm : m ∈ w.catalog.models)
    (hi : (w.run (·.instantiate m props)).1 = .ok i) :
    w.catalog.prune m props = .ok i.toValue ∧
    (w.catalog.Steady m props → ∀ calls,
      (((w.run (·.instantiate m props)).2.afterAll calls).run (·.instantiate m i.toValue)).1 =
        .ok i) := by
  have hP : ∀ y, w.catalog.Reaches m y → y ∈ w.catalog.models := fun _ hy => Reaches.mem hy hm
  have hs : w.catalog.Scripted _ _ _ _ := scripted_instantiate m props
  have hexec : exec (w.catalog.instantiate m props) w.cache =
      (.ok i, (w.run (·.instantiate m props)).2.cache) := Prod.ext hi rfl
  obtain ⟨-, -, hagain⟩ := hs.of_exec hP h.sound hexec
  have later : (w.run (·.instantiate m props)).2.Reachable :=
    after_instantiate hm ▸ h.call (.instantiate m.name props)
  refine ⟨prune_of_exec hm later.sound (hagain _ List.prefix_rfl), fun hsteady calls => ?_⟩
  have hlast := (later.afterAll calls).sound
  have hcat : ((w.run (·.instantiate m props)).2.afterAll calls).catalog = w.catalog :=
    afterAll_catalog
  rw [hcat] at hlast
  rw [exec_eq_run, hcat]
  exact congrArg Prod.fst
    (exec_instantiate_toValue hm hlast hsteady (hagain _ (later.grows calls)))

/-! ## A zoo with things that nobody asked for -/

/-- A zoo that sells tickets, with a dog that has a chip and lives in an empty zoo. -/
def menagerie : Value := .obj [
  ("animals", .arr [.obj [("chip", .num (.int 7)), ("home", zooOf []), ("name", .str "Rex")]]),
  ("ticket", .null)]

/-- The chip and the ticket are left out. -/
theorem instantiate_prunes_menagerie :
    wildlife.catalog.prune zoo menagerie =
      .ok (zooOf [.obj [("home", zooOf []), ("name", .str "Rex")]]) ∧
    ∀ calls, (((wildlife.run (·.instantiate zoo menagerie)).2.afterAll calls).run
      (·.instantiate zoo (zooOf [.obj [("home", zooOf []), ("name", .str "Rex")]]))).1 =
        (wildlife.run (·.instantiate zoo menagerie)).1 := by
  have reachable : wildlife.Reachable := (unbroken_of_fresh _).reachable
  have hzoo : zoo ∈ wildlife.catalog.models := List.mem_cons_self
  have builds : ∃ i, (wildlife.run (·.instantiate zoo menagerie)).1 = .ok i ∧
      i.toValue = zooOf [.obj [("home", zooOf []), ("name", .str "Rex")]] :=
    ⟨_, by with_unfolding_all rfl, by decide +kernel⟩
  have steady : wildlife.catalog.Steady zoo menagerie := by
    intro t e disc d v hmeets _ hdisc _ _
    have hmem : t ∈ [zoo, animal, dog] := hmeets.mem
    have honly : t = animal := by
      simp only [List.mem_cons, List.not_mem_nil, or_false] at hmem
      rcases hmem with rfl | rfl | rfl
      · cases hdisc
      · rfl
      · cases hdisc
    subst honly
    cases hdisc
    rfl
  obtain ⟨i, hi, hvalue⟩ := builds
  obtain ⟨hprune, hagain⟩ := reachable.instantiate_prunes hzoo hi
  rw [hi, ← hvalue]
  exact ⟨hprune, hagain steady⟩

end Workspace

end TypedModels
