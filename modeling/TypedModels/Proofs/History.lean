import Mathlib.Data.List.Induction
import Mathlib.Logic.Relation
import TypedModels.Model.Workspace
import TypedModels.Proofs.Operations

/-!
# Histories of a workspace

A workspace starts empty. Models are registered in it, and it is asked about them by their names.
Every answer may fill the cache, whether it is a success or a failure, and nothing else changes.

## Main definitions

* `Call`, `Workspace.after` : requests, and what is left when they are answered.
* `Workspace.Reachable` : the workspaces that registrations and calls lead to.
* `Workspace.Unbroken` : those with a history in which no compilation failed.
-/

namespace TypedModels

open Catalog Session

/-- A request to a workspace. Models are asked about by their names. -/
inductive Call where
  | compile (model : String)
  | compileAll
  | validate (model : String) (props : Value)
  | isValid (model : String) (props : Value)
  | implementation (model : String) (props : Value)
  | instantiate (model : String) (props : Value)
  | cast (model : String) (props : Value)
  | closure (model : String)
  | closureSources (model : String)
  | closureResolvers (model : String)
  | schemaSources (base : Source) (ops : List Operation)
  | schemaResolvers (kind : RootKind) (ops : List Operation)

/-- What is run to answer a request; the answer itself is left out. -/
def Call.session (cat : Catalog) : Call → Session Failure PUnit
  | .compile name => do let _ ← cat.compiled (← cat.model name)
  | .compileAll => do let _ ← cat.compileModels
  | .validate name props => do let _ ← cat.validate (← cat.model name) props
  | .isValid name props => do let _ ← cat.isValid (← cat.model name) props
  | .implementation name props => do let _ ← cat.implementation (← cat.model name) props
  | .instantiate name props => do let _ ← cat.instantiate (← cat.model name) props
  | .cast name props => do let _ ← cat.cast (← cat.model name) props
  | .closure name => do let _ ← cat.closure (← cat.model name)
  | .closureSources name => do let _ ← cat.closureSources (← cat.model name)
  | .closureResolvers name => do let _ ← cat.closureResolvers (← cat.model name)
  | .schemaSources base ops => do let _ ← cat.schemaSources base ops
  | .schemaResolvers kind ops => do let _ ← cat.schemaResolvers kind ops

/-- The names of the models that a request is about. -/
def Call.asked (cat : Catalog) : Call → List String
  | .compile name | .validate name _ | .isValid name _ | .implementation name _
  | .instantiate name _ | .cast name _ | .closure name | .closureSources name
  | .closureResolvers name => [name]
  | .compileAll => cat.names
  | .schemaSources _ ops | .schemaResolvers _ ops => ops.flatMap (·.models)

namespace Workspace

/-- The workspace that is left when a request has been answered. -/
def after (w : Workspace) (call : Call) : Workspace := (w.run call.session).2

def afterAll (w : Workspace) (calls : List Call) : Workspace := calls.foldl after w

/-- The workspaces that registrations and requests lead to. -/
inductive Reachable : Workspace → Prop
  | empty : Reachable {}
  | register {w w' : Workspace} {m : Model} : Reachable w → w.register m = .ok w' → Reachable w'
  | call {w : Workspace} (call : Call) : Reachable w → Reachable (w.after call)

/-- A request changes the cache in no other way than successful compilations do. -/
def Smooth (w : Workspace) (call : Call) : Prop :=
  Relation.ReflTransGen (w.catalog.Compiles (· ∈ w.catalog.models)) w.cache (w.after call).cache

/-- The workspaces that are reached without a failed compilation. -/
inductive Unbroken : Workspace → Prop
  | empty : Unbroken {}
  | register {w w' : Workspace} {m : Model} : Unbroken w → w.register m = .ok w' → Unbroken w'
  | call {w : Workspace} {call : Call} : Unbroken w → w.Smooth call → Unbroken (w.after call)

end Workspace

/-! ## What a request does -/

section

variable {cat : Catalog} {name : String} {α : Type}

theorem scripted_model {s : Model → Session Failure α}
    (h : ∀ m ∈ cat.models, cat.Scripted (cat.Reaches m) Failure.schema (fun _ => True) (s m)) :
    cat.Scripted (cat.ReachesFrom [name]) Failure.schema (fun _ => True)
      (do let _ ← s (← cat.model name)) := by
  refine (Scripted.lift fun m hm => model_eq_ok_iff.1 hm).adapt.bind fun m ⟨hm, hn⟩ => ?_
  have asked : m.name ∈ [name] := List.mem_singleton.2 hn
  exact ((h m hm).mono (fun _ hy => ⟨m, hm, asked, hy⟩) fun _ h => h).bind fun _ _ => .pure trivial

/-- Asking about a registered model leaves what is left of the session about the model. -/
theorem exec_model {s : Model → Session Failure α} {m : Model} (h : cat.model name = .ok m)
    (c : Cache) :
    (exec (do let _ ← s (← cat.model name) : Session Failure PUnit) c).2 = (exec (s m) c).2 := by
  rw [h, exec_bind]
  change (exec (s m >>= fun _ => (pure ⟨⟩ : Session Failure PUnit)) c).2 = _
  rw [exec_bind]
  rcases exec (s m) c with ⟨_ | _, _⟩ <;> rfl

/-- A request does nothing to the cache but compile the models that it is about, and what these
depend on. -/
theorem Call.scripted_asked (call : Call) :
    cat.Scripted (cat.ReachesFrom (call.asked cat)) Failure.schema (fun _ => True)
      (call.session cat) := by
  have plain : ∀ {β : Type} {P : Model → Prop} {x : Except ConfigError β},
      cat.Scripted P Failure.schema (fun _ => True) (liftM x : Session Failure β) :=
    (Scripted.lift fun _ _ => trivial).adapt
  cases call with
  | compile name =>
    exact scripted_model fun m _ => ((Scripted.compiled .refl).mono (fun _ h => h)
      fun _ _ => trivial).adapt
  | compileAll =>
    refine (scripted_compileModels.adapt.mono (fun m hm => ?_) fun _ h => h).bind
      fun _ _ => .pure trivial
    exact ⟨m, hm, name_mem hm, .refl⟩
  | validate name props => exact scripted_model fun m _ => (scripted_validate m props).adapt
  | isValid name props => exact scripted_model fun m _ => scripted_isValid.adapt
  | implementation name props =>
    exact scripted_model fun m _ => (scripted_implementation.mono (fun _ h => h)
      fun _ _ => trivial).adapt
  | instantiate name props => exact scripted_model fun m _ => scripted_instantiate m props
  | cast name props => exact scripted_model fun m _ => scripted_cast
  | closure name => exact scripted_model fun _ _ => plain
  | closureSources name => exact scripted_model fun _ _ => plain
  | closureResolvers name => exact scripted_model fun m hm => (scripted_closureResolvers hm).adapt
  | schemaSources base ops => exact plain.bind fun _ _ => .pure trivial
  | schemaResolvers kind ops => exact scripted_schemaResolvers.adapt.bind fun _ _ => .pure trivial

theorem Call.scripted (call : Call) :
    cat.Scripted (· ∈ cat.models) Failure.schema (fun _ => True) (call.session cat) :=
  call.scripted_asked.mono (fun _ hy => hy.mem) fun _ h => h

end

namespace Workspace

variable {w w' : Workspace} {call : Call} {calls : List Call} {m : Model}

theorem register_eq_ok_iff :
    w.register m = .ok w' ↔ w.catalog.register m = .ok w'.catalog ∧ w'.cache = w.cache := by
  obtain ⟨cat', c'⟩ := w'
  unfold Workspace.register
  cases w.catalog.register m <;> simp [bind, Except.bind, pure, Except.pure, eq_comm]

theorem after_compile (hm : m ∈ w.catalog.models) :
    w.after (.compile m.name) = (w.run (·.compiled m)).2 := by
  have left : (w.after (.compile m.name)).cache = (exec (w.catalog.compiled m) w.cache).2 :=
    exec_model (model_eq_ok_iff.2 ⟨hm, rfl⟩) w.cache
  exact congrArg (fun c => { w with cache := c }) left

@[simp] theorem afterAll_catalog : (w.afterAll calls).catalog = w.catalog := by
  induction calls generalizing w with
  | nil => rfl
  | cons call calls ih => exact ih

theorem Reachable.afterAll (h : w.Reachable) (calls : List Call) :
    (w.afterAll calls).Reachable := by
  induction calls generalizing w with
  | nil => exact h
  | cons call calls ih => exact ih (h.call call)

/-- In every workspace the cache holds compiled forms of registered models. -/
theorem Reachable.sound (h : w.Reachable) : w.catalog.Sound w.cache := by
  induction h with
  | empty => exact sound_nil
  | register _ hr ih =>
    obtain ⟨hcat, hcache⟩ := register_eq_ok_iff.1 hr
    exact hcache ▸ ih.of_register hcat
  | call call _ ih => exact call.scripted.sound (fun _ h => h) ih

/-- A request adds to the cache what compilations of registered models add. -/
theorem Reachable.fills (h : w.Reachable) (call : Call) :
    w.catalog.Fills (· ∈ w.catalog.models) (fun _ => True) w.cache (w.after call).cache :=
  call.scripted.fills (fun _ h => h) h.sound

theorem Unbroken.reachable (h : w.Unbroken) : w.Reachable := by
  induction h with
  | empty => exact .empty
  | register _ hr ih => exact ih.register hr
  | call _ _ ih => exact ih.call _

/-- A request is smooth unless it is answered with the error of a compilation that failed. -/
theorem Reachable.smooth_or (h : w.Reachable) (call : Call) :
    w.Smooth call ∨ ∃ m e c, m ∈ w.catalog.models ∧
      exec (w.catalog.compiled m) c = (.error e, (w.after call).cache) ∧
      (w.run call.session).1 = .error (.schema e) := by
  rcases call.scripted.compiles_or (fun _ h => h) h.sound with hs | ⟨m, e, c, hm, -, he, hr⟩
  · exact .inl hs
  · refine .inr ⟨m, e, c, hm, he, ?_⟩
    cases hx : (exec (call.session w.catalog) w.cache).1 with
    | ok u => rw [hx] at hr; cases hr
    | error f => rw [hx] at hr; cases hr; exact hx

/-- Models that have only been registered make an unbroken workspace. -/
theorem unbroken_of_fresh (cat : Catalog) : Unbroken { catalog := cat } := by
  obtain ⟨models, nodup⟩ := cat
  induction models using List.reverseRecOn with
  | nil => exact .empty
  | append_singleton models m ih =>
    have split := nodup
    rw [List.map_append, List.map_singleton, List.nodup_append] at split
    have fresh : m.name ∉ models.map Model.name :=
      fun h => split.2.2 _ h _ (List.mem_singleton.2 rfl) rfl
    exact (ih split.1).register
      (register_eq_ok_iff.2 ⟨Catalog.register_eq_ok_iff.2 ⟨fresh, rfl⟩, rfl⟩)

end Workspace

end TypedModels
