import TypedModels.Proofs.Entries
import TypedModels.Proofs.History

/-!
# Scopes and the implementations found in them

A scope holds the declared dependencies of a model, each of them once and in order of first
declaration. Two different models of one type do not fit into a scope. So the type that a
discriminator answers with belongs to one dependency at most, and that dependency is the one that is
found.

## Main definitions

* `Scope.Exact` : a scope that holds the dependencies of a model and nothing else.
* `Workspace.Dispatches` : an interface that finds the dependency that its discriminator asks for.
-/

namespace TypedModels

open Catalog Session

/-- The scope holds the dependencies of `m` by their types: one entry for each of them, in order of
first declaration. -/
structure Scope.Exact (cat : Catalog) (m : Model) (s : Scope) : Prop where
  owner : s.owner = m.name
  order : s.models.map (·.2.name) = m.dependencies.eraseDups
  mem_iff : ∀ typeName d, (typeName, d) ∈ s.models ↔ cat.DependsOn m d ∧ d.typeName = typeName
  lookup_iff : ∀ typeName d,
    s.models.lookup typeName = some d ↔ cat.DependsOn m d ∧ d.typeName = typeName

namespace Catalog

variable {cat : Catalog} {m d : Model} {s : Scope} {names rest : List String} {name : String}
  {models models' : OrderedMap Model}

/-! ## The order of a scope -/

/-- A dependency that is added goes to the end, unless it is there already. -/
theorem Covers.names_of_addDependency (h : cat.Covers names models)
    (ho : models.map (·.2.name) = names.eraseDups)
    (ha : cat.addDependency m models name = .ok models') :
    models'.map (·.2.name) = (names ++ [name]).eraseDups := by
  obtain ⟨d, ⟨hd, rfl⟩, ⟨o, hl, hn, rfl⟩ | ⟨hl, rfl⟩⟩ := addDependency_eq_ok_iff.1 ha
  · have hmem : d.name ∈ names := hn ▸ (h.lookup_iff.1 hl).1.2
    rw [ho, eraseDups_append_cons hmem, List.append_nil]
  · have hfresh : d.name ∉ names := by
      intro hmem
      rw [h.lookup_iff.2 ⟨⟨hd, hmem⟩, rfl⟩] at hl
      cases hl
    rw [OrderedMap.insert_of_lookup_eq_none hl, List.map_append, ho, List.eraseDups_append,
      List.cons_removeAll]
    simp [hfresh, eraseDups_of_nodup (List.nodup_singleton d.name)]

theorem Covers.names_of_foldlM (h : cat.Covers names models)
    (ho : models.map (·.2.name) = names.eraseDups)
    (hr : rest.foldlM (cat.addDependency m) models = .ok models') :
    models'.map (·.2.name) = (names ++ rest).eraseDups := by
  induction rest generalizing names models with
  | nil =>
    cases hr
    rwa [List.append_nil]
  | cons name rest ih =>
    rw [List.foldlM_cons] at hr
    obtain ⟨models₁, ha, hr⟩ := bind_eq_ok_iff.1 hr
    have hrest := ih (h.addDependency ha).2 (h.names_of_addDependency ho ha) hr
    rwa [List.append_assoc, List.singleton_append] at hrest

theorem exact_of_scope (h : cat.scope m = .ok s) : s.Exact cat m where
  owner := (scope_eq_ok_iff.1 h).1
  order := covers_nil.names_of_foldlM rfl (scope_eq_ok_iff.1 h).2
  mem_iff _ _ := mem_scope_iff h
  lookup_iff _ _ := lookup_scope_iff h

end Catalog

namespace Workspace

variable {w : Workspace} {m : Model} {x : Compiled} {disc : Discriminator}

/-! ## Finding an implementation -/

/-- The interface `m` finds an implementation for a value exactly if a dependency has the type that
the discriminator answers with. What it finds is the only such dependency, and otherwise the answer
is the error. -/
structure Dispatches (w : Workspace) (m : Model) (disc : Discriminator) (props : Value) :
    Prop where
  found_iff : (∃ d, (w.run (·.implementation m props)).1 = .ok d) ↔
    ∃ d, w.catalog.DependsOn m d ∧ d.typeName = disc props
  only : ∀ d, (w.run (·.implementation m props)).1 = .ok d →
    ∀ e, w.catalog.DependsOn m e ∧ e.typeName = disc props ↔ e = d
  missing : ∀ err, (w.run (·.implementation m props)).1 = .error err →
    err = .discriminatorResultMissing (disc props) m.name

/-- A model that compiles finds the implementation that its compiled form picks. -/
theorem run_implementation {props : Value} (hx : (w.run (·.compiled m)).1 = .ok x) :
    (w.run (·.implementation m props)).1 = w.catalog.picked m x props := by
  have hexec : exec (w.catalog.compiled m) w.cache = (.ok x, _) := Prod.ext hx rfl
  rw [exec_eq_run, implementation_eq, exec_bind_ok hexec, exec_lift]

theorem dispatches_of_alone (halone : w.catalog.alone m = .ok x)
    (hx : (w.run (·.compiled m)).1 = .ok x) (hdispatch : x.dispatch = .interface disc)
    (props : Value) : w.Dispatches m disc props := by
  have distinct := (wellFormed_iff.2 ⟨x, halone⟩).distinct
  have found : ∀ d, (w.run (·.implementation m props)).1 = .ok d ↔
      w.catalog.DependsOn m d ∧ d.typeName = disc props := by
    obtain ⟨hinterface, hdisc⟩ := (dispatch_eq_interface_iff halone).1 hdispatch
    simp [run_implementation hx, picked_eq_ok_iff halone, hinterface, hdisc]
  constructor
  case found_iff => exact exists_congr found
  case only =>
    intro d hd e
    obtain ⟨hdep, ht⟩ := (found d).1 hd
    -- Two dependencies of one type would not fit into the scope that the model compiles against.
    exact ⟨fun ⟨he, het⟩ => distinct e d he hdep (het.trans ht.symm), fun he => he ▸ ⟨hdep, ht⟩⟩
  case missing =>
    intro err herr
    rw [run_implementation hx] at herr
    exact ((picked_eq_error_iff halone hdispatch).1 herr).2

/-- A model has a scope exactly if its dependencies fit into one, and then the scope is exact; if
not, the first declaration that does not fit decides the error. So an interface that compiles finds
the one dependency that its discriminator asks for, whatever has happened before. -/
theorem scope_exact_and_dispatches (w : Workspace) (m : Model) :
    ((∃ s, w.catalog.scope m = .ok s) ↔ w.catalog.Compatible m.dependencies) ∧
    (∀ s, w.catalog.scope m = .ok s → s.Exact w.catalog m) ∧
    (∀ e, w.catalog.scope m = .error e ↔ ∃ before name after,
      m.dependencies = before ++ name :: after ∧ w.catalog.Compatible before ∧
        w.catalog.Misfit m before name e) ∧
    (w.Reachable → m ∈ w.catalog.models → ∀ x, (w.run (·.compiled m)).1 = .ok x →
      x.isInterface = true → ∃ disc, m.resolveType = some disc ∧
        ∀ props, w.Dispatches m disc props) := by
  refine ⟨exists_scope_iff_compatible, fun s hs => exact_of_scope hs,
    fun e => scope_eq_error_iff, fun h hm x hx hinterface => ?_⟩
  have halone := h.sound.alone_of_compiled hm (Prod.ext hx rfl)
  rcases dispatch_of_alone halone with ⟨hconcrete, -⟩ | ⟨disc, -, hdisc, hdispatch⟩
  · rw [hconcrete] at hinterface
    cases hinterface
  · exact ⟨disc, hdisc, dispatches_of_alone halone hx hdispatch⟩

/-! ## Two models for cars -/

def traffic : Source where
  document := ⟨[
    .interface { name := "Vehicle", fields := [{ name := "engine", type := .named "Boolean" }] },
    .object { name := "Car", fields := [{ name := "seats", type := .named "Int" }] },
    .object { name := "Bike", fields := [{ name := "gears", type := .named "Int" }] },
    .object { name := "Lot", fields := [{ name := "cars", type := .list (.named "Car") }] }]⟩

/-- Vehicles are told apart by whether they have an engine. -/
def vehicle : Model where
  name := "Vehicle"
  schema := traffic
  dependencies := ["Sedan", "Bike", "Sedan"]
  resolveType := some fun props =>
    match props.get? "engine" with
    | some (.bool true) => "Car"
    | some (.bool false) => "Bike"
    | _ => "Kite"

def sedan : Model := { name := "Sedan", typeName := "Car", schema := traffic }

def wagon : Model := { name := "Wagon", typeName := "Car", schema := traffic }

def bike : Model := { name := "Bike", schema := traffic }

/-- The third declaration is the first that does not fit. Its model has the type of the first. -/
def lot : Model where
  name := "Lot"
  schema := traffic
  dependencies := ["Sedan", "Sedan", "Wagon", "Kite"]

def garage : Workspace where
  catalog := { models := [vehicle, sedan, wagon, bike, lot], nodup := by decide }

def motorized : Value := .obj [("engine", .bool true)]

theorem scope_exact_and_dispatches_garage :
    (∃ s, garage.catalog.scope vehicle = .ok s ∧ s.models.map (·.2.name) = ["Sedan", "Bike"]) ∧
    garage.catalog.scope lot = .error (.duplicateDependency "Lot" "Car") ∧
    (garage.run (·.implementation vehicle motorized)).1 = .ok sedan ∧
    (garage.run (·.implementation vehicle .null)).1 =
      .error (.discriminatorResultMissing "Kite" "Vehicle") := by
  have reachable : garage.Reachable := (unbroken_of_fresh _).reachable
  have hvehicle : vehicle ∈ garage.catalog.models := List.mem_cons_self
  have hsedan : garage.catalog.DependsOn vehicle sedan := ⟨by simp [garage], by decide⟩
  have hwagon : wagon ∈ garage.catalog.models := by simp [garage]
  have noKite : ∀ d ∈ garage.catalog.models, d.typeName ≠ "Kite" := by decide
  have compatible : garage.catalog.Compatible ["Sedan", "Sedan"] := by
    refine ⟨by decide, fun d hd e he hdn hen _ => eq_of_name_eq hd he ?_⟩
    simp_all
  have compiled : (·.isInterface) <$> (garage.run (·.compiled vehicle)).1 = .ok true := by
    decide +kernel
  obtain ⟨x, hx, hinterface⟩ := map_eq_ok_iff.1 compiled
  obtain ⟨-, -, fails, -⟩ := garage.scope_exact_and_dispatches lot
  obtain ⟨-, hexact, -, dispatches⟩ := garage.scope_exact_and_dispatches vehicle
  obtain ⟨disc, hdisc, found⟩ := dispatches reachable hvehicle x hx hinterface
  cases hdisc
  refine ⟨?_, ?_, ?_, ?_⟩
  · obtain ⟨s, hs⟩ : ∃ s, garage.catalog.scope vehicle = .ok s := ⟨_, rfl⟩
    exact ⟨s, hs, (hexact s hs).order⟩
  · exact (fails _).2 ⟨["Sedan", "Sedan"], "Wagon", ["Kite"], rfl, compatible,
      .clash hwagon rfl hsedan.1 (by decide) (by simp [sedan, wagon]) rfl⟩
  · obtain ⟨d, hd⟩ := (found motorized).found_iff.2 ⟨sedan, hsedan, rfl⟩
    rw [hd, ((found motorized).only d hd sedan).1 ⟨hsedan, rfl⟩]
  · cases hrun : (garage.run (·.implementation vehicle .null)).1 with
    | ok d =>
      obtain ⟨e, ⟨he, -⟩, ht⟩ := (found .null).found_iff.1 ⟨d, hrun⟩
      exact absurd ht (noKite e he)
    | error err => exact congrArg _ ((found .null).missing err hrun)

end Workspace

end TypedModels
