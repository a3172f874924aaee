import TypedModels.Proofs.Acceptance
import TypedModels.Proofs.History

/-!
# Construction agrees with validation

An instance is built from a value that passed validation, in a second run over the value that looks
up the same models again. Everything that this run needs was compiled by the first one, and every
element that it casts has passed the check of its field, so it cannot fail.
-/

namespace TypedModels

open Session

namespace Catalog

variable {cat : Catalog} {c : Cache} {m d : Model} {f : FieldSchema} {e props : Value}

/-! ## Casting -/

theorem exec_concreteModel {x : Compiled} (hx : exec (cat.compiled m) c = (.ok x, c)) :
    exec (cat.concreteModel m props) c =
      if x.isInterface then exec (cat.implementation m props) c else (.ok m, c) := by
  rw [concreteModel, exec_bind_ok hx]
  cases x.isInterface <;> rfl

theorem exec_cast (h : exec (cat.concreteModel m props) c = (.ok d, c)) :
    exec (cat.cast m props) c = exec (cat.instantiate d props) c := by
  rw [cast, exec_bind, exec_liftFailure, h]
  rfl

/-- A value that passes validation against a concrete model is cast to that model. -/
theorem exec_cast_of_concrete (hc : cat.Sound c) (hm : m ∈ cat.models)
    (hconcrete : m.isInterface = .ok false)
    (hvalid : exec (cat.validate m props) c = (.ok [], c)) :
    exec (cat.cast m props) c = exec (cat.instantiate m props) c := by
  obtain ⟨x, hx, -⟩ := (exec_validate_iff hm hc).1 hvalid
  have hflag := isInterface_of_alone (hc.alone_of_compiled hm hx)
  rw [hconcrete, Except.ok.injEq] at hflag
  refine exec_cast ?_
  rw [exec_concreteModel hx, ← hflag]
  rfl

/-- A value for which an interface picks an implementation is cast to that implementation. -/
theorem exec_cast_of_interface (hc : cat.Sound c) (hm : m ∈ cat.models)
    (hinterface : m.isInterface = .ok true)
    (himpl : exec (cat.implementation m props) c = (.ok d, c)) :
    exec (cat.cast m props) c = exec (cat.instantiate d props) c := by
  obtain ⟨x, hx, -⟩ := exec_implementation_iff.1 himpl
  have hflag := isInterface_of_alone (hc.alone_of_compiled hm hx)
  rw [hinterface, Except.ok.injEq] at hflag
  refine exec_cast ?_
  rw [exec_concreteModel hx, ← hflag]
  exact himpl

/-- The elements of a field that passed their check can be cast to the model of the field, given
that instances can be built from what passes validation. -/
theorem exists_exec_cast {s : Scope} (hc : cat.Sound c) (hs : cat.scope m = .ok s)
    (hfits : cat.Fits m f) (hcustom : f.isCustom = true) :
    ∃ t, s.get f.baseType = .ok t ∧ ∀ e, cat.Passes c m f.check e →
      (∀ d ∈ cat.models, exec (cat.validate d e) c = (.ok [], c) →
        ∃ i, exec (cat.instantiate d e) c = (.ok i, c)) →
      ∃ i, exec (cat.cast t e) c = (.ok i, c) := by
  have unique : ∀ {d d' n}, cat.DependsOn m d → d.typeName = n → cat.DependsOn m d' →
      d'.typeName = n → d = d' := by
    intro d d' n hd ht hd' ht'
    have hget := (get_eq_ok_iff hs).2 ⟨hd, ht⟩
    rw [(get_eq_ok_iff hs).2 ⟨hd', ht'⟩] at hget
    exact (Except.ok.inj hget).symm
  cases hfits with
  | builtin _ hnot _ => rw [hcustom] at hnot; cases hnot
  | model t _ hcheck ht hname hconcrete =>
    refine ⟨t, (get_eq_ok_iff hs).2 ⟨ht, hname⟩, fun e hpass build => ?_⟩
    rw [hcheck] at hpass
    cases hpass with
    | model _ hd hdt hvalid =>
      obtain rfl := unique ht hname hd hdt
      rw [exec_cast_of_concrete hc ht.1 hconcrete hvalid]
      exact build t ht.1 hvalid
  | interface t _ hcheck ht hname hinterface =>
    refine ⟨t, (get_eq_ok_iff hs).2 ⟨ht, hname⟩, fun e hpass build => ?_⟩
    rw [hcheck] at hpass
    cases hpass with
    | @interface _ _ d _ _ hi hit himpl hvalid =>
      obtain rfl := unique ht hname hi hit
      obtain ⟨x, hx, hpicked⟩ := exec_implementation_iff.1 himpl
      obtain ⟨-, _, -, hd, -⟩ := (picked_eq_ok_iff (hc.alone_of_compiled ht.1 hx)).1 hpicked
      rw [exec_cast_of_interface hc ht.1 hinterface himpl]
      exact build d hd.1 hvalid

/-! ## Building -/

/-- Builds the instance of a value that passed validation. -/
def hydrate (cat : Catalog) (m : Model) (props : Value) : Session Failure Instance := do
  let compiled ← cat.compiled m
  let scope ← cat.scope m
  let fields ← compiled.schema.slots (fun typeName => liftM (scope.get typeName)) cat.cast props
  return { model := m.name, typeName := m.typeName, fields }

/-- Construction validates the value, and builds the instance if nothing is wrong. -/
theorem exec_instantiate : exec (cat.instantiate m props) c =
    match exec (cat.validate m props) c with
    | (.error e, c') => (.error (.schema e), c')
    | (.ok errors, c') =>
      if errors.isEmpty then exec (cat.hydrate m props) c'
      else (.error (.rejected { errors, props, model := m.name }), c') := by
  rw [instantiate_eq, instantiateWith, exec_bind, exec_liftFailure]
  rcases exec (cat.validate m props) c with ⟨e | errors, c'⟩
  · rfl
  · dsimp only [Except.mapError]
    split <;> rfl

/-- A value of a custom type becomes one instance, or one for each item of the array in a list
field. -/
theorem slot_custom {m : Type → Type} [Monad m] {τ : Type} (target : m τ)
    (build : τ → Value → m Instance) {v : Value} (hnull : v ≠ .null)
    (hcustom : f.isCustom = true) :
    (∃ items, v = .arr items ∧ f.isList = true ∧ f.elements v = items ∧
      f.slot target build (some v) = (do
        let t ← target
        return .many (← items.mapM (build t)))) ∨
    ((f.isList = true → v.items? = none) ∧ f.slot target build (some v) = (do
      let t ← target
      return .single (← build t v))) := by
  cases v with
  | null => exact absurd rfl hnull
  | arr items =>
    cases hlist : f.isList with
    | true => exact .inl ⟨items, rfl, rfl, if_pos hlist, by simp [FieldSchema.slot, hcustom, hlist]⟩
    | false => exact .inr ⟨nofun, by simp [FieldSchema.slot, hcustom, hlist]⟩
  | _ => exact .inr ⟨fun _ => rfl, by simp [FieldSchema.slot, hcustom]⟩

/-- The value of a field that is in order can be turned into the field of an instance. -/
theorem exists_exec_slot {τ : Type} {target : Session Failure τ}
    {build : τ → Value → Session Failure Instance} {value : Option Value} {good : Value → Prop}
    (hallows : f.Allows good value)
    (hcast : f.isCustom = true → ∃ t, exec target c = (.ok t, c) ∧ ∀ v, value = some v →
      ∀ e ∈ f.elements v, good e → ∃ i, exec (build t e) c = (.ok i, c)) :
    ∃ slot, exec (f.slot target build value) c = (.ok slot, c) := by
  rcases value with _ | v
  · exact ⟨_, rfl⟩
  by_cases hnull : v = .null
  · subst hnull
    exact ⟨_, rfl⟩
  obtain ⟨-, hgood⟩ := (FieldSchema.allows_some_iff hnull).1 hallows
  cases hcustom : f.isCustom with
  | false => cases v <;> simp [FieldSchema.slot, hcustom]
  | true =>
    obtain ⟨t, ht, hbuild⟩ := hcast hcustom
    have each : ∀ e ∈ f.elements v, ∃ i, exec (build t e) c = (.ok i, c) :=
      fun e he => hbuild v rfl e he (hgood e he)
    rcases slot_custom target build hnull hcustom with ⟨items, -, -, helements, hslot⟩ | ⟨hself, hslot⟩
    · obtain ⟨is, his⟩ := exists_exec_mapM (helements ▸ each)
      exact ⟨.many is, by rw [hslot, exec_bind_ok ht, exec_bind_ok his, exec_pure]⟩
    · obtain ⟨i, hi⟩ := each v (FieldSchema.mem_elements_self hself)
      exact ⟨.single i, by rw [hslot, exec_bind_ok ht, exec_bind_ok hi, exec_pure]⟩

/-- A value that passes validation, with nothing left to compile, has an instance. -/
theorem exists_exec_instantiate {m : Model} {props : Value} (hm : m ∈ cat.models)
    (hc : cat.Sound c) (h : exec (cat.validate m props) c = (.ok [], c)) :
    ∃ i, exec (cat.instantiate m props) c = (.ok i, c) := by
  obtain ⟨x, hx, hfields⟩ := (exec_validate_iff hm hc).1 h
  have halone := hc.alone_of_compiled hm hx
  obtain ⟨s, hs, -⟩ := alone_eq_ok_iff.1 halone
  have slots : ∃ slots, exec (x.schema.slots (fun n => (liftM (s.get n) : Session Failure Model))
      cat.cast props) c = (.ok slots, c) := by
    refine exists_exec_mapM fun entry hentry => ?_
    have slot : ∃ slot, exec (entry.2.slot (liftM (s.get entry.2.baseType) : Session Failure Model)
        cat.cast (props.get? entry.1)) c = (.ok slot, c) := by
      refine exists_exec_slot (hfields entry hentry) fun hcustom => ?_
      obtain ⟨t, ht, hcast⟩ := exists_exec_cast hc hs (fits_of_alone halone hentry) hcustom
      refine ⟨t, by rw [ht]; rfl, fun v hv e he hpass => hcast e hpass fun d hd hvalid => ?_⟩
      have hlt : e.depth < props.depth := Nat.lt_of_le_of_lt
        (FieldSchema.depth_le_of_mem_elements he) (Value.depth_lt_of_get? hv)
      exact exists_exec_instantiate hd hc hvalid
    obtain ⟨slot, hslot⟩ := slot
    exact ⟨(entry.1, slot), by rw [exec_bind_ok hslot, exec_pure]⟩
  obtain ⟨fields, hslots⟩ := slots
  refine ⟨{ model := m.name, typeName := m.typeName, fields }, ?_⟩
  have hcompiled : exec (liftM (cat.compiled m) : Session Failure Compiled) c = (.ok x, c) := by
    rw [exec_liftFailure, hx]
    rfl
  have hscope : exec (liftM (cat.scope m) : Session Failure Scope) c = (.ok s, c) := by
    rw [hs]
    rfl
  rw [exec_instantiate, h]
  change exec (cat.hydrate m props) c = _
  rw [hydrate, exec_bind_ok hcompiled, exec_bind_ok hscope, exec_bind_ok hslots, exec_pure]
termination_by props.depth

end Catalog

namespace Workspace

variable {w : Workspace} {m : Model}

open Catalog

/-- Construction does what validation says, whatever has happened before: it fails with the same
error, rejects the value with the violations that were found, or succeeds. -/
theorem Reachable.instantiate_agrees (h : w.Reachable) (hm : m ∈ w.catalog.models)
    (props : Value) :
    (∀ e, (w.run (·.validate m props)).1 = .error e →
      (w.run (·.instantiate m props)).1 = .error (.schema e)) ∧
    (∀ errors, (w.run (·.validate m props)).1 = .ok errors → errors ≠ [] →
      (w.run (·.instantiate m props)).1 = .error (.rejected { errors, props, model := m.name })) ∧
    ((w.run (·.validate m props)).1 = .ok [] →
      ∃ i, (w.run (·.instantiate m props)).1 = .ok i) := by
  simp only [exec_eq_run]
  have hP : ∀ y, w.catalog.Reaches m y → y ∈ w.catalog.models := fun _ hy => Reaches.mem hy hm
  rw [exec_instantiate]
  rcases hv : exec (w.catalog.validate m props) w.cache with ⟨e | errors, c⟩
  · exact ⟨fun _ he => by cases he; rfl, nofun, nofun⟩
  refine ⟨nofun, fun errors' he hne => ?_, fun he => ?_⟩
  · cases he
    simp [hne]
  · cases he
    -- Everything that validation compiled is in the cache that it left.
    have hs : w.catalog.Scripted _ _ _ _ := scripted_validate m props
    obtain ⟨-, -, hagain⟩ := hs.of_exec hP h.sound hv
    have hsound := hs.sound hP h.sound
    rw [hv] at hsound
    have hvalid := hagain c List.prefix_rfl
    obtain ⟨i, hi⟩ := exists_exec_instantiate hm hsound hvalid
    rw [exec_instantiate, hvalid] at hi
    exact ⟨i, congrArg Prod.fst hi⟩

/-! ## A model that depends on itself -/

def node : Model where
  name := "Node"
  schema := { document := ⟨[.object { name := "Node", fields := [
    { name := "id", type := .nonNull (.named "Int") },
    { name := "next", type := .named "Node" }] }]⟩ }
  dependencies := ["Node"]

/-- A model whose dependency is not registered. -/
def leaf : Model := { name := "Leaf", dependencies := ["Twig"] }

def chain : Workspace where
  catalog := { models := [node, leaf], nodup := by decide }

/-- A node with the given one after it. -/
def linkedTo (next : Value) : Value := .obj [("id", .num (.int 1)), ("next", next)]

def nameless : Value := .obj [("id", .str "two")]

def namelessErrors : Report :=
  [("next", [.element nameless
    (.fields [("id", [.element (.str "two") (.messages ["not a number"])])])])]

theorem instantiate_chain :
    (chain.run (·.instantiate leaf .null)).1 =
      .error (.schema (.unknownDependency "Leaf" "Twig")) ∧
    (chain.run (·.instantiate node (linkedTo nameless))).1 =
      .error (.rejected { errors := namelessErrors, props := linkedTo nameless, model := "Node" }) ∧
    ∃ i, (chain.run (·.instantiate node (linkedTo (linkedTo .null)))).1 = .ok i := by
  have reachable : chain.Reachable := (unbroken_of_fresh _).reachable
  have hnode : node ∈ chain.catalog.models := List.mem_cons_self
  have hleaf : leaf ∈ chain.catalog.models := List.mem_cons_of_mem _ List.mem_cons_self
  refine ⟨?_, ?_, ?_⟩
  · exact (reachable.instantiate_agrees hleaf .null).1 _ (by decide +kernel)
  · exact (reachable.instantiate_agrees hnode (linkedTo nameless)).2.1 namelessErrors
      (by with_unfolding_all rfl) (List.cons_ne_nil _ _)
  · exact (reachable.instantiate_agrees hnode (linkedTo (linkedTo .null))).2.2
      (by with_unfolding_all rfl)

end Workspace

end TypedModels
