import TypedModels.Proofs.Acceptance
import TypedModels.Proofs.History

/-!
# Validation means conformance

A value conforms to a model if the values of all fields of the schema do, and those are judged by
their elements: scalars belong to their type, and objects conform to the dependency that has the
type, or to the one that this dependency picks if it is an interface. Where all models that are
reached are well formed, validation finds nothing wrong with exactly the values that conform.

## Main definitions

* `Catalog.Conforms`, `Catalog.FieldConforms`, `Catalog.Good` : conformance of values, of the values
  of fields, and of elements.
* `Catalog.full` : the cache with all well formed models.
-/

namespace TypedModels

open Session

namespace Catalog

variable {cat : Catalog} {c : Cache} {m d i : Model} {f : FieldSchema} {e props : Value}

mutual

/-- Every field of the schema has a value that conforms. -/
inductive Conforms (cat : Catalog) : Model → Value → Prop
  | intro {m : Model} {props : Value} {x : Compiled} : cat.alone m = .ok x →
      (∀ entry ∈ x.schema.fields, FieldConforms cat m entry.2 (props.get? entry.1)) →
      Conforms cat m props

/-- A value that is absent or null need not be there. Any other value is an array of good elements
in a list field, and is itself good in a field that is not a list. -/
inductive FieldConforms (cat : Catalog) : Model → FieldSchema → Option Value → Prop
  | absent {m : Model} {f : FieldSchema} {value : Option Value} :
      value = none ∨ value = some .null → f.required = false ∨ f.hasResolver = true →
      FieldConforms cat m f value
  | list {m : Model} {f : FieldSchema} {items : List Value} : f.isList = true →
      (∀ e ∈ items, Good cat m f.check e) → FieldConforms cat m f (some (.arr items))
  | single {m : Model} {f : FieldSchema} {v : Value} : f.isList = false → v ≠ .null →
      Good cat m f.check v → FieldConforms cat m f (some v)

/-- A scalar belongs to its type. A value of a concrete custom type is an object that conforms to
the dependency with that type. A value of an interface is an object that conforms to the dependency
of the interface that its discriminator picks. -/
inductive Good (cat : Catalog) : Model → ElementCheck → Value → Prop
  | builtin {m : Model} {scalar : Scalar} {e : Value} : scalar.Accepts e →
      Good cat m (.builtin scalar) e
  | model {m d : Model} {n : String} {e : Value} : e.isObject = true → cat.DependsOn m d →
      d.typeName = n → Conforms cat d e → Good cat m (.model n) e
  | interface {m i d : Model} {n : String} {e : Value} {disc : Discriminator} :
      e.isObject = true → cat.DependsOn m i → i.typeName = n → i.resolveType = some disc →
      cat.DependsOn i d → d.typeName = disc e → Conforms cat d e → Good cat m (.interface n) e

end

theorem fieldConforms_iff {value : Option Value} :
    cat.FieldConforms m f value ↔ f.Allows (cat.Good m f.check) value := by
  have absent : (f.required = false ∨ f.hasResolver = true) ↔
      (f.required = true → f.hasResolver = true) := by
    cases f.required <;> simp
  constructor
  · rintro (⟨rfl | rfl, h⟩ | ⟨hlist, hitems⟩ | ⟨hlist, hnull, hv⟩)
    · exact absent.1 h
    · exact absent.1 h
    · refine (FieldSchema.allows_some_iff (v := .arr _) nofun).2 ⟨fun _ => rfl, ?_⟩
      rwa [FieldSchema.elements_arr hlist]
    · refine (FieldSchema.allows_some_iff hnull).2 ⟨by simp [hlist], ?_⟩
      rw [FieldSchema.elements_of_not_isList hlist]
      exact List.forall_mem_singleton.2 hv
  · intro h
    rcases value with _ | v
    · exact .absent (.inl rfl) (absent.2 h)
    by_cases hnull : v = .null
    · subst hnull
      exact .absent (.inr rfl) (absent.2 h)
    obtain ⟨harray, helements⟩ := (FieldSchema.allows_some_iff hnull).1 h
    cases hlist : f.isList with
    | false =>
      rw [FieldSchema.elements_of_not_isList hlist] at helements
      exact .single hlist hnull (helements v List.mem_cons_self)
    | true =>
      cases v with
      | arr items =>
        rw [FieldSchema.elements_arr hlist] at helements
        exact .list hlist helements
      | _ => exact absurd (harray hlist) nofun

/-! ## Where everything is compiled -/

/-- The cache has everything that a model reaches. -/
def Saturated (cat : Catalog) (c : Cache) (m : Model) : Prop := ∀ y, cat.Reaches m y → Cached c y

theorem Saturated.exec_compiled (h : cat.Saturated c m) (hm : m ∈ cat.models) :
    ∃ x, exec (cat.compiled m) c = (.ok x, c) := by
  obtain ⟨x, hx⟩ := h m .refl
  exact ⟨x, exec_compiled_of_cached hm hx⟩

theorem Saturated.dependsOn (h : cat.Saturated c m) (hd : cat.DependsOn m d) :
    cat.Saturated c d := fun y hy => h y (.head hd hy)

/-- An element passes its check exactly if it is good, given the same of validation against the
models that are reached. -/
theorem passes_iff_good (hm : m ∈ cat.models) (hc : cat.Sound c) (hsat : cat.Saturated c m)
    (hfits : cat.Fits m f)
    (ih : ∀ d, cat.Reaches m d →
      (exec (cat.validate d e) c = (.ok [], c) ↔ cat.Conforms d e)) :
    cat.Passes c m f.check e ↔ cat.Good m f.check e := by
  constructor
  · generalize f.check = check
    rintro (haccepts | ⟨hobj, hd, ht, hpass⟩ | ⟨hobj, hi, ht, himpl, hpass⟩)
    · exact .builtin haccepts
    · exact .model hobj hd ht ((ih _ (.single hd)).1 hpass)
    · obtain ⟨x, hx, hpicked⟩ := exec_implementation_iff.1 himpl
      obtain ⟨-, disc, hdisc, hd, htd⟩ :=
        (picked_eq_ok_iff (hc.alone_of_compiled hi.1 hx)).1 hpicked
      exact .interface hobj hi ht hdisc hd htd ((ih _ (.head hi (.single hd))).1 hpass)
  · intro hgood
    obtain ⟨x, hx⟩ := hsat m .refl
    have distinct := (wellFormed_iff.2 ⟨x, hc.alone hm hx⟩).distinct
    cases hfits with
    | builtin scalar _ hcheck =>
      rw [hcheck] at hgood ⊢
      cases hgood with
      | builtin haccepts => exact .builtin haccepts
    | model d _ hcheck hd ht _ =>
      rw [hcheck] at hgood ⊢
      cases hgood with
      | model hobj hd ht hconf => exact .model hobj hd ht ((ih _ (.single hd)).2 hconf)
    | interface i _ hcheck hi ht hinterface =>
      rw [hcheck] at hgood ⊢
      cases hgood with
      | @interface _ i' d _ _ disc hobj hi' ht' hdisc hd htd hconf =>
        obtain rfl := distinct i i' hi hi' (ht.trans ht'.symm)
        obtain ⟨xi, hxi⟩ := (hsat.dependsOn hi).exec_compiled hi.1
        have halone := hc.alone_of_compiled hi.1 hxi
        have hflag := Except.ok.inj ((isInterface_of_alone halone).symm.trans hinterface)
        have hpicked := (picked_eq_ok_iff halone).2 ⟨hflag, disc, hdisc, hd, htd⟩
        exact .interface hobj hi ht (exec_implementation_iff.2 ⟨xi, hxi, hpicked⟩)
          ((ih _ (.head hi (.single hd))).2 hconf)

/-- Where everything is compiled, validation passes exactly if the value conforms. -/
theorem exec_validate_iff_conforms {m : Model} {props : Value} (hm : m ∈ cat.models)
    (hc : cat.Sound c) (hsat : cat.Saturated c m) :
    exec (cat.validate m props) c = (.ok [], c) ↔ cat.Conforms m props := by
  rw [exec_validate_iff hm hc]
  have elements : ∀ {x}, cat.alone m = .ok x → ∀ entry ∈ x.schema.fields, ∀ v,
      props.get? entry.1 = some v → ∀ e ∈ entry.2.elements v,
        (cat.Passes c m entry.2.check e ↔ cat.Good m entry.2.check e) := by
    intro x hx entry hentry v hv e he
    have hlt : e.depth < props.depth := Nat.lt_of_le_of_lt
      (FieldSchema.depth_le_of_mem_elements he) (Value.depth_lt_of_get? hv)
    refine passes_iff_good hm hc hsat (fits_of_alone hx hentry) fun d hd => ?_
    exact exec_validate_iff_conforms (hd.mem hm) hc fun y hy => hsat y (hd.trans hy)
  constructor
  · rintro ⟨x, hx, hfields⟩
    have halone := hc.alone_of_compiled hm hx
    refine .intro halone fun entry hentry => fieldConforms_iff.2 ?_
    exact (hfields entry hentry).mono fun v hv e he =>
      (elements halone entry hentry v hv e he).1
  · rintro ⟨halone, hfields⟩
    obtain ⟨x, hx⟩ := hsat.exec_compiled hm
    obtain rfl := Except.ok.inj (halone.symm.trans (hc.alone_of_compiled hm hx))
    refine ⟨_, hx, fun entry hentry => ?_⟩
    exact (fieldConforms_iff.1 (hfields entry hentry)).mono fun v hv e he =>
      (elements halone entry hentry v hv e he).2
termination_by props.depth

/-! ## The full cache -/

/-- The compiled forms of all well formed models. -/
def full (cat : Catalog) : Cache :=
  cat.models.filterMap fun m => (cat.alone m).toOption.map (m.name, ·)

theorem mem_full_iff {name : String} {x : Compiled} :
    (name, x) ∈ cat.full ↔ ∃ m ∈ cat.models, cat.alone m = .ok x ∧ m.name = name := by
  have toOption : ∀ m, (cat.alone m).toOption = some x ↔ cat.alone m = .ok x := by
    intro m
    cases cat.alone m <;> simp [Except.toOption]
  simp only [full, List.mem_filterMap, Option.map_eq_some_iff, Prod.mk.injEq]
  constructor
  · rintro ⟨m, hm, y, hy, hn, rfl⟩
    exact ⟨m, hm, (toOption m).1 hy, hn⟩
  · rintro ⟨m, hm, hx, hn⟩
    exact ⟨m, hm, x, (toOption m).2 hx, hn, rfl⟩

theorem sound_full : cat.Sound cat.full := by
  intro name x hx
  obtain ⟨m, hm, hx, hn⟩ := mem_full_iff.1 (OrderedMap.mem_of_lookup hx)
  exact ⟨m, ⟨hm, hn⟩, hx⟩

theorem cached_full (hm : m ∈ cat.models) (hwf : cat.WellFormed m) : Cached cat.full m := by
  obtain ⟨x, hx⟩ := wellFormed_iff.1 hwf
  have hmem : (m.name, x) ∈ cat.full := mem_full_iff.2 ⟨m, hm, hx, rfl⟩
  by_contra hc
  exact OrderedMap.lookup_eq_none_iff.1 (not_cached_iff.1 hc) (List.mem_map_of_mem hmem)

end Catalog

namespace Workspace

variable {w : Workspace} {m : Model}

open Catalog

/-- Where all models that are reached are well formed, validation finds nothing wrong exactly if
the value conforms, whatever has happened before. -/
theorem Reachable.validate_iff_conforms (h : w.Reachable) (hm : m ∈ w.catalog.models)
    (hwf : ∀ y, w.catalog.Reaches m y → w.catalog.WellFormed y) (props : Value) :
    (w.run (·.validate m props)).1 = .ok [] ↔ w.catalog.Conforms m props := by
  have hP : ∀ y, w.catalog.Reaches m y → y ∈ w.catalog.models := fun _ hy => Reaches.mem hy hm
  have hsat : w.catalog.Saturated w.catalog.full m := fun y hy => cached_full (hP y hy) (hwf y hy)
  have hs : w.catalog.Scripted _ _ _ _ := scripted_validate m props
  have settled : (exec (w.catalog.validate m props) w.catalog.full).1 = .ok [] ↔
      exec (w.catalog.validate m props) w.catalog.full = (.ok [], w.catalog.full) := by
    have hcache := hs.exec_snd_of_cached hP sound_full hsat
    exact ⟨fun hr => Prod.ext hr hcache, fun hr => congrArg Prod.fst hr⟩
  rw [← exec_validate_iff_conforms hm sound_full hsat, exec_eq_run, ← settled,
    hs.exec_fst_eq hP (fun y hy z hz => hwf z (hy.trans hz)) h.sound sound_full]

/-! ## An interface and its implementation -/

def fauna : Source where
  document := ⟨[
    .object { name := "Zoo", fields := [{ name := "animals", type := .list (.named "Animal") }] },
    .interface { name := "Animal", fields := [{ name := "name", type := .named "String" }] },
    .object { name := "Dog", fields := [
      { name := "name", type := .nonNull (.named "String") },
      { name := "home", type := .named "Zoo" }] }]⟩

def zoo : Model := { name := "Zoo", schema := fauna, dependencies := ["Animal"] }

/-- Every animal is a dog. -/
def animal : Model where
  name := "Animal"
  schema := fauna
  dependencies := ["Dog"]
  resolveType := some fun _ => "Dog"

/-- Dogs may live in a zoo, so the three models form a cycle. -/
def dog : Model := { name := "Dog", schema := fauna, dependencies := ["Zoo"] }

def wildlife : Workspace where
  catalog := { models := [zoo, animal, dog], nodup := by decide }

def zooOf (animals : List Value) : Value := .obj [("animals", .arr animals)]

theorem validate_wildlife :
    wildlife.catalog.Conforms zoo (zooOf [.obj [("name", .str "Rex"), ("home", zooOf [])]]) ∧
    ¬ wildlife.catalog.Conforms zoo (zooOf [.obj [("name", .null)]]) := by
  have reachable : wildlife.Reachable := (unbroken_of_fresh _).reachable
  have hzoo : zoo ∈ wildlife.catalog.models := List.mem_cons_self
  have wellFormed : ∀ y ∈ [zoo, animal, dog], wildlife.catalog.WellFormed y := by
    simp only [List.forall_mem_cons, wellFormed_iff]
    exact ⟨⟨_, rfl⟩, ⟨_, rfl⟩, ⟨_, rfl⟩, by simp⟩
  have hwf : ∀ y, wildlife.catalog.Reaches zoo y → wildlife.catalog.WellFormed y :=
    fun y hy => wellFormed y (Reaches.mem hy hzoo)
  refine ⟨(reachable.validate_iff_conforms hzoo hwf _).1 ?_, fun hconf => ?_⟩
  · with_unfolding_all rfl
  have hvalid := (reachable.validate_iff_conforms hzoo hwf _).2 hconf
  have hfails : (wildlife.run (·.validate zoo (zooOf [.obj [("name", .null)]]))).1 =
      .ok [("animals", [.element (.obj [("name", .null)]) (.fields [("name", [.required])])])] := by
    with_unfolding_all rfl
  rw [hfails] at hvalid
  cases hvalid

end Workspace

end TypedModels
