import TypedModels.Model.Instance
import TypedModels.Model.Operation
import TypedModels.Proofs.Closure
import TypedModels.Proofs.CompiledForm
import TypedModels.Proofs.Script

/-!
# The operations are scripts

Every operation over a catalog does nothing to the cache but compile models, and only models that
the ones it was asked about can reach.
-/

namespace TypedModels

namespace Catalog

open Session

variable {cat : Catalog} {P : Model → Prop} {ε : Type} {wrap : ConfigError → ε} {m d : Model}
  {props : Value}

/-! ## Finding an implementation -/

/-- The implementation that a compiled model picks for a value. -/
def picked (cat : Catalog) (m : Model) (x : Compiled) (props : Value) : Except ConfigError Model :=
  match x.dispatch with
  | .concrete => .error (.notAnInterface m.name)
  | .interface discriminator =>
    match x.dependencies.lookup (discriminator props) with
    | some name => cat.model name
    | none => .error (.discriminatorResultMissing (discriminator props) m.name)

theorem implementation_eq :
    cat.implementation m props = (do
      let x ← cat.compiled m
      liftM (cat.picked m x props)) := by
  unfold implementation picked
  congr 1
  funext x
  cases x.dispatch with
  | concrete => rfl
  | interface discriminator =>
    dsimp only
    cases x.dependencies.lookup (discriminator props) <;> rfl

/-- An interface picks the dependency whose type its discriminator names. -/
theorem picked_eq_ok_iff {x : Compiled} (hx : cat.alone m = .ok x) :
    cat.picked m x props = .ok d ↔ x.isInterface = true ∧
      ∃ disc, m.resolveType = some disc ∧ cat.DependsOn m d ∧ d.typeName = disc props := by
  unfold picked
  rcases dispatch_of_alone hx with ⟨hconcrete, hdispatch⟩ | ⟨disc, hinterface, hdisc, hdispatch⟩
  · simp [hdispatch, hconcrete]
  · simp only [hdispatch, hinterface, hdisc, true_and, Option.some.injEq, exists_eq_left']
    constructor
    · intro h
      split at h
      · next name hname =>
        obtain ⟨d', hd', ht, rfl⟩ := (lookup_dependencies_iff hx).1 hname
        obtain ⟨hmem, hn⟩ := model_eq_ok_iff.1 h
        obtain rfl := eq_of_name_eq hmem hd'.1 hn
        exact ⟨hd', ht⟩
      · cases h
    · rintro ⟨hd, ht⟩
      rw [(lookup_dependencies_iff hx).2 ⟨d, hd, ht, rfl⟩]
      exact model_eq_ok_iff.2 ⟨hd.1, rfl⟩

/-- An interface fails to pick a dependency if none has the type that its discriminator names. -/
theorem picked_eq_error_iff {x : Compiled} {disc : Discriminator} {e : ConfigError}
    (hx : cat.alone m = .ok x) (hdisc : x.dispatch = .interface disc) :
    cat.picked m x props = .error e ↔ (∀ d, cat.DependsOn m d → d.typeName ≠ disc props) ∧
      e = .discriminatorResultMissing (disc props) m.name := by
  simp only [picked, hdisc]
  cases hname : x.dependencies.lookup (disc props) with
  | none =>
    have hnone : ∀ d, cat.DependsOn m d → d.typeName ≠ disc props := by
      intro d hd ht
      rw [(lookup_dependencies_iff hx).2 ⟨d, hd, ht, rfl⟩] at hname
      cases hname
    rw [Except.error.injEq, eq_comm]
    exact ⟨fun he => ⟨hnone, he⟩, And.right⟩
  | some name =>
    obtain ⟨d, hd, ht, rfl⟩ := (lookup_dependencies_iff hx).1 hname
    have hfound : cat.model d.name = .ok d := model_eq_ok_iff.2 ⟨hd.1, rfl⟩
    simp only [hfound, reduceCtorEq, false_iff]
    exact fun ⟨hnone, _⟩ => hnone d hd ht

/-- Finding an implementation compiles the model that is asked, and nothing more. -/
theorem exec_implementation_iff {c c' : Cache} :
    exec (cat.implementation m props) c = (.ok d, c') ↔
      ∃ x, exec (cat.compiled m) c = (.ok x, c') ∧ cat.picked m x props = .ok d := by
  simp only [implementation_eq, exec_bind_eq_ok_iff, exec_lift, Prod.mk.injEq]
  constructor
  · rintro ⟨x, _, hx, hd, rfl⟩
    exact ⟨x, hx, hd⟩
  · rintro ⟨x, hx, hd⟩
    exact ⟨x, c', hx, hd, rfl⟩

theorem scripted_implementation :
    cat.Scripted (cat.Reaches m) id
      (fun d => ∃ disc, m.resolveType = some disc ∧ cat.DependsOn m d ∧ d.typeName = disc props)
      (cat.implementation m props) := by
  rw [implementation_eq]
  refine (Scripted.compiled .refl).bind fun x hx => .lift fun d hd => ?_
  exact ((picked_eq_ok_iff hx).1 hd).2

/-! ## Validation -/

section Schema

variable {types : TypeOracle (Session ε)}

theorem scripted_field {f : FieldSchema} {value : Option Value}
    (h : ∀ v, value = some v → ∀ e ∈ f.elements v,
      cat.Scripted P wrap (fun _ => True) (f.check.report types e)) :
    cat.Scripted P wrap (fun _ => True) (f.validate types value) :=
  Scripted.compositional.field types types h

/-- Validation against a schema compiles what the checks of the elements compile. -/
theorem scripted_schema {t : TypeSchema}
    (h : ∀ entry ∈ t.fields, ∀ e, e.depth < props.depth →
      cat.Scripted P wrap (fun _ => True) (entry.2.check.report types e)) :
    cat.Scripted P wrap (fun _ => True) (t.validate types props) :=
  Scripted.compositional.schema types types h

end Schema

section Oracle

variable {s : Scope} {validate : Model → Value → Session ConfigError Report} {n : String}
  {e : Value}

theorem scripted_validateModel (hs : cat.scope m = .ok s)
    (h : ∀ d, cat.Scripted (cat.Reaches d) id (fun _ => True) (validate d e)) :
    cat.Scripted (cat.Reaches m) id (fun _ => True)
      ((cat.oracle s validate).validateModel n e) := by
  refine (Scripted.lift fun d hd => ((get_eq_ok_iff hs).1 hd).1).bind fun d hd => ?_
  exact (h d).mono (fun y hy => .head hd hy) fun _ h => h

theorem scripted_validateImplementation (hs : cat.scope m = .ok s)
    (h : ∀ d, cat.Scripted (cat.Reaches d) id (fun _ => True) (validate d e)) :
    cat.Scripted (cat.Reaches m) id (fun _ => True)
      ((cat.oracle s validate).validateImplementation n e) := by
  refine (Scripted.lift fun i hi => ((get_eq_ok_iff hs).1 hi).1).bind fun i hi => ?_
  refine (scripted_implementation.mono (fun y hy => .head hi hy) fun _ h => h).bind ?_
  rintro d ⟨_, -, hd, -⟩
  exact (h d).mono (fun y hy => .head hi (.head hd hy)) fun _ h => h

/-- Checking an element compiles what its validation against custom types compiles. -/
theorem scripted_element (hs : cat.scope m = .ok s) {check : ElementCheck}
    (h : ∀ d, cat.Scripted (cat.Reaches d) id (fun _ => True) (validate d e)) :
    cat.Scripted (cat.Reaches m) id (fun _ => True) (check.report (cat.oracle s validate) e) :=
  Scripted.compositional.report _ (cat.oracle s validate) (fun _ _ _ => scripted_validateModel hs h)
    fun _ _ _ => scripted_validateImplementation hs h

end Oracle

theorem scripted_validate (m : Model) (props : Value) :
    cat.Scripted (cat.Reaches m) id (fun _ => True) (cat.validate m props) := by
  rw [validate_eq]
  refine (Scripted.compiled .refl).bind fun x _ => ?_
  refine (Scripted.lift fun s hs => hs).bind fun s hs => ?_
  exact scripted_schema fun entry _ e he => scripted_element hs fun d => scripted_validate d e
termination_by props.depth

theorem scripted_isValid :
    cat.Scripted (cat.Reaches m) id (fun _ => True) (cat.isValid m props) :=
  (scripted_validate m props).bind fun _ _ => .pure trivial

/-! ## Construction -/

section Schema

variable {τ : Type} {R : τ → Prop} {target : Session ε τ} {build : τ → Value → Session ε Instance}

theorem scripted_slot {f : FieldSchema} {value : Option Value}
    (ht : cat.Scripted P wrap R target)
    (hb : ∀ v, value = some v → ∀ t, R t → ∀ e, e.depth ≤ v.depth →
      cat.Scripted P wrap (fun _ => True) (build t e)) :
    cat.Scripted P wrap (fun _ => True) (f.slot target build value) :=
  Scripted.compositional.slot build build target target ht hb

/-- Building the fields of an instance looks up custom types and builds nested instances. -/
theorem scripted_slots {target : String → Session ε τ} {t : TypeSchema}
    (ht : ∀ n, cat.Scripted P wrap R (target n))
    (hb : ∀ t, R t → ∀ e, e.depth < props.depth →
      cat.Scripted P wrap (fun _ => True) (build t e)) :
    cat.Scripted P wrap (fun _ => True) (t.slots target build props) :=
  Scripted.compositional.slots build build target target ht hb

end Schema

theorem scripted_concreteModel :
    cat.Scripted (cat.Reaches m) id (cat.Reaches m) (cat.concreteModel m props) := by
  refine (Scripted.compiled .refl).bind fun x _ => ?_
  split
  · refine scripted_implementation.mono (fun _ h => h) ?_
    rintro d ⟨_, -, hd, -⟩
    exact .single hd
  · exact .pure .refl

theorem scripted_instantiate (m : Model) (props : Value) :
    cat.Scripted (cat.Reaches m) Failure.schema (fun _ => True) (cat.instantiate m props) := by
  rw [instantiate_eq]
  refine (scripted_validate m props).adapt.bind fun errors _ => ?_
  split
  · refine (Scripted.compiled .refl).adapt.bind fun x hx => ?_
    refine (Scripted.lift fun s hs => hs).adapt.bind fun s hs => ?_
    refine (scripted_slots (R := cat.DependsOn m) (fun n => ?_) fun d hd e he => ?_).bind
      fun _ _ => .pure trivial
    · exact (Scripted.lift fun d hd => ((get_eq_ok_iff hs).1 hd).1).adapt
    · refine (scripted_concreteModel.adapt.mono (fun y hy => .head hd hy) fun _ h => h).bind ?_
      intro y hy
      exact (scripted_instantiate y e).mono (fun z hz => .head hd (hy.trans hz)) fun _ h => h
  · exact .throw _
termination_by props.depth

theorem scripted_cast :
    cat.Scripted (cat.Reaches m) Failure.schema (fun _ => True) (cat.cast m props) :=
  scripted_concreteModel.adapt.bind fun d hd =>
    (scripted_instantiate d props).mono (fun _ hy => hd.trans hy) fun _ h => h

/-! ## Collecting -/

theorem scripted_compileModels :
    cat.Scripted (· ∈ cat.models) id (fun _ => True) cat.compileModels :=
  Scripted.forM fun _ hm => (Scripted.compiled hm).discard

theorem scripted_contribute {collected : OrderedMap Contribution} (hm : P m) :
    cat.Scripted P id (fun _ => True) (cat.contribute collected m) := by
  refine (Scripted.compiled hm).bind fun x _ => ?_
  dsimp only
  split
  · exact .pure trivial
  · split
    · exact .throw _
    · exact .pure trivial

theorem scripted_closureResolvers (hm : m ∈ cat.models) :
    cat.Scripted (cat.Reaches m) id (fun _ => True) (cat.closureResolvers m) := by
  refine (Scripted.lift fun ms hms => hms).bind fun ms hms => ?_
  refine (Scripted.foldlM fun collected y hy => ?_).bind fun _ _ => .pure trivial
  exact scripted_contribute ((mem_closure_iff hm hms).1 hy)

theorem scripted_operationResolvers {op : Operation} :
    cat.Scripted (cat.ReachesFrom op.models) id (fun _ => True) (cat.operationResolvers op) := by
  refine (Scripted.foldlM fun merged name hname => ?_).bind fun _ _ => .pure trivial
  refine (Scripted.lift fun m hm => model_eq_ok_iff.1 hm).bind fun m ⟨hm, hn⟩ => ?_
  have asked : m.name ∈ op.models := hn ▸ hname
  exact ((scripted_closureResolvers hm).mono (fun _ hy => ⟨m, hm, asked, hy⟩) fun _ h => h).bind
    fun _ _ => .pure trivial

theorem scripted_schemaResolvers {kind : RootKind} {ops : List Operation} :
    cat.Scripted (cat.ReachesFrom (ops.flatMap (·.models))) id (fun _ => True)
      (cat.schemaResolvers kind ops) := by
  refine (Scripted.foldlM fun merge op hop => ?_).bind fun _ _ => .pure trivial
  refine (scripted_operationResolvers.mono (fun _ hy => hy.mono fun name hn => ?_) fun _ h => h).bind
    fun _ _ => .pure trivial
  exact List.mem_flatMap.2 ⟨op, hop, hn⟩

end Catalog

end TypedModels
