import TypedModels.Proofs.Blame
import TypedModels.Proofs.Coverage
import TypedModels.Proofs.Freshness

/-!
# After everything has been compiled

A model is complete when everything that it reaches is compiled. A complete model stays complete,
whatever is registered and asked for later. Once all models have been compiled they are complete, so
nothing can go wrong with a value any more but the answer of a discriminator.

## Main definitions

* `Workspace.Complete` : everything that the model reaches is compiled.
-/

namespace TypedModels

open Catalog Session

namespace Catalog

variable {cat cat' : Catalog} {c c' : Cache} {m n y : Model}

/-- A loop of compilations that gets to its end leaves all its models compiled. -/
theorem cached_of_forM {models : List Model} (hmodels : ∀ m ∈ models, m ∈ cat.models)
    (hc : cat.Sound c)
    (h : exec (models.forM fun m => discard (cat.compiled m)) c = (.ok ⟨⟩, c')) :
    c <+: c' ∧ ∀ m ∈ models, Cached c' m := by
  induction models generalizing c with
  | nil =>
    cases h
    exact ⟨List.prefix_rfl, by simp⟩
  | cons m models ih =>
    obtain ⟨hm, hrest⟩ := List.forall_mem_cons.1 hmodels
    obtain ⟨_, d, hd, h⟩ := exec_bind_eq_ok_iff.1 h
    rcases hx : exec (cat.compiled m) c with ⟨e | x, c₁⟩
    · simp [hx, Except.map] at hd
    · rw [exec_discard, hx] at hd
      cases hd
      obtain ⟨hfill, hcached⟩ := fills_of_compiled_ok hm hx
      obtain ⟨hgrows, hall⟩ := ih hrest (hc.compiled hm hx) h
      have first : Cached c' m := ⟨x, OrderedMap.lookup_of_prefix hgrows hcached⟩
      exact ⟨hfill.grows.trans hgrows, List.forall_mem_cons.2 ⟨first, hall⟩⟩

/-- Where all that a model reaches is compiled, a new model is not among it. -/
theorem reaches_of_register (hc : cat.Sound c) (hr : cat.register n = .ok cat')
    (hm : m ∈ cat.models) (hcached : ∀ y, cat.Reaches m y → Cached c y) (hy : cat'.Reaches m y) :
    cat.Reaches m y := by
  induction hy with
  | refl => exact .refl
  | tail _ hd ih =>
    have hwf := hc.wellFormed (Reaches.mem ih hm) (hcached _ ih)
    exact ih.tail ((dependsOn_of_register_iff hr hwf.registered).1 hd)

end Catalog

namespace Workspace

variable {w w' : Workspace} {m n : Model} {props : Value} {err : ConfigError}

/-- Everything that the model reaches is compiled. -/
def Complete (w : Workspace) (m : Model) : Prop :=
  ∀ y, w.catalog.Reaches m y → Cached w.cache y

theorem Complete.register (hcomplete : w.Complete m) (h : w.Reachable) (hm : m ∈ w.catalog.models)
    (hr : w.register n = .ok w') : w'.Complete m := by
  obtain ⟨hcat, hcache⟩ := register_eq_ok_iff.1 hr
  intro y hy
  rw [hcache]
  exact hcomplete y (reaches_of_register h.sound hcat hm hcomplete hy)

theorem Complete.after (hcomplete : w.Complete m) (h : w.Reachable) (call : Call) :
    (w.after call).Complete m := by
  intro y hy
  exact (hcomplete y hy).mono (h.fills call).grows

theorem Later.mem (hl : w.Later w') (hm : m ∈ w.catalog.models) : m ∈ w'.catalog.models := by
  induction hl with
  | refl => exact hm
  | register _ hr ih => exact mem_of_register (register_eq_ok_iff.1 hr).1 ih
  | call _ _ ih => exact ih

/-- A complete model stays complete. -/
theorem Later.complete (hl : w.Later w') (h : w.Reachable) (hm : m ∈ w.catalog.models)
    (hcomplete : w.Complete m) : w'.Complete m := by
  induction hl with
  | refl => exact hcomplete
  | register hl hr ih => exact ih.register (hl.reachable h) (hl.mem hm) hr
  | call call hl ih => exact ih.after (hl.reachable h) call

theorem after_compileAll : w.after .compileAll = (w.run (·.compileModels)).2 := by
  have left : (w.after .compileAll).cache = (exec w.catalog.compileModels w.cache).2 := by
    change (exec ((liftM w.catalog.compileModels : Session Failure Unit) >>=
      fun _ => (pure ⟨⟩ : Session Failure PUnit)) w.cache).2 = _
    rw [exec_bind, exec_liftFailure]
    rcases exec w.catalog.compileModels w.cache with ⟨_ | _, _⟩ <;> rfl
  exact congrArg (fun c => { w with cache := c }) left

/-- When all models have been compiled, each of them is complete. -/
theorem Reachable.complete_of_compileModels (h : w.Reachable)
    (hall : (w.run (·.compileModels)).1 = .ok ⟨⟩) (hm : m ∈ w.catalog.models) :
    (w.run (·.compileModels)).2.Complete m := by
  intro y hy
  have hloop := cached_of_forM (fun _ h => h) h.sound (Prod.ext hall rfl)
  exact hloop.2 y (Reaches.mem hy hm)

theorem Complete.wellFormed (hcomplete : w.Complete m) (h : w.Reachable)
    (hm : m ∈ w.catalog.models) : ∀ y, w.catalog.Reaches m y → w.catalog.WellFormed y :=
  fun y hy => h.sound.wellFormed (hy.mem hm) (hcomplete y hy)

/-- No fault is left within the reach of a complete model. -/
theorem Complete.unmatched (hcomplete : w.Complete m) (h : w.Reachable)
    (hm : m ∈ w.catalog.models) (herr : w.catalog.Blamed m props err) :
    w.catalog.Unmatched m props err := by
  cases herr with
  | unmatched herr => exact herr
  | fault hy he =>
    exact absurd (hcomplete.wellFormed h hm _ hy) (not_wellFormed_of_alone he)

/-- A complete model is refused as an interface exactly if its definition is not one. -/
theorem Complete.notAnInterface_iff (hcomplete : w.Complete m) (h : w.Reachable)
    (hm : m ∈ w.catalog.models) :
    (w.run (·.implementation m props)).1 = .error (.notAnInterface m.name) ↔
      m.isInterface = .ok false := by
  obtain ⟨x, hx⟩ := hcomplete m .refl
  have halone := h.sound.alone hm hx
  have hpicked : (w.run (·.implementation m props)).1 = w.catalog.picked m x props := by
    rw [exec_eq_run, implementation_eq, exec_bind_ok (exec_compiled_of_cached hm hx), exec_lift]
  rw [hpicked]
  constructor
  · intro herr
    rcases unmatched_of_picked halone herr with hun | ⟨hnot, -⟩
    · cases hun
    · exact hnot
  · intro hnot
    rcases dispatch_of_alone halone with ⟨-, hdispatch⟩ | ⟨_, hinterface, -⟩
    · simp [picked, hdispatch]
    · simp [isInterface_of_alone halone, hinterface] at hnot

/-- After all models have been compiled, whatever is registered and asked for later, the only error
of the configuration that is left is an answer that fits no dependency. Asking a model that is not an
interface for an implementation is an error of its own. -/
theorem Reachable.only_unmatched_after_compileModels (h : w.Reachable)
    (hall : (w.run (·.compileModels)).1 = .ok ⟨⟩)
    (hlater : (w.run (·.compileModels)).2.Later w') (hm : m ∈ w.catalog.models) (props : Value) :
    (∃ ms, w'.catalog.closure m = .ok ms ∧ ∀ d, d ∈ ms ↔ w'.catalog.Reaches m d) ∧
    (∀ e, (w'.run (·.validate m props)).1 = .error e → w'.catalog.Unmatched m props e) ∧
    (∀ f, (w'.run (·.instantiate m props)).1 = .error f →
      f.RejectedOr (w'.catalog.Unmatched m props)) ∧
    (∀ f, (w'.run (·.cast m props)).1 = .error f →
      f.RejectedOr (w'.catalog.Unmatched m props)) ∧
    (∀ e, (w'.run (·.implementation m props)).1 = .error e →
      w'.catalog.Unmatched m props e ∨ e = .notAnInterface m.name) ∧
    ((w'.run (·.implementation m props)).1 = .error (.notAnInterface m.name) ↔
      m.isInterface = .ok false) := by
  have started : (w.run (·.compileModels)).2.Reachable := after_compileAll ▸ h.call .compileAll
  have hw' : w'.Reachable := hlater.reachable started
  have hm' : m ∈ w'.catalog.models := hlater.mem hm
  have hcomplete : w'.Complete m :=
    hlater.complete started hm (h.complete_of_compileModels hall hm)
  have settle : ∀ e, w'.catalog.Blamed m props e → w'.catalog.Unmatched m props e :=
    fun e he => hcomplete.unmatched hw' hm' he
  refine ⟨?_, fun e he => ?_, fun f hf => ?_, fun f hf => ?_, fun e he => ?_,
    hcomplete.notAnInterface_iff hw' hm'⟩
  · obtain ⟨ms, hms⟩ := (exists_closure_iff hm').2 fun y hy =>
      (hcomplete.wellFormed hw' hm' y hy).registered
    exact ⟨ms, hms, fun d => mem_closure_iff hm' hms⟩
  · exact settle e ((ensures_validate m props hm').of_error hw'.sound he)
  · exact ((ensures_instantiate hm').of_error hw'.sound hf).mono settle
  · exact ((ensures_cast hm').of_error hw'.sound hf).mono settle
  · exact ((ensures_implementation hm').of_error hw'.sound he).imp (settle e) (·.2)

/-! ## A shape that came too late -/

def geometry : Source where
  document := ⟨[
    .interface { name := "Shape", fields := [{ name := "kind", type := .named "String" }] },
    .object { name := "Circle", fields := [{ name := "radius", type := .named "Float" }] },
    .object { name := "Square", fields := [{ name := "side", type := .named "Float" }] },
    .object { name := "Drawing", fields := [{ name := "shapes", type := .list (.named "Shape") }] }]⟩

def drawing : Model := { name := "Drawing", schema := geometry, dependencies := ["Shape"] }

/-- An interface that picks the implementation by the member `kind`. -/
def shape : Model where
  name := "Shape"
  schema := geometry
  dependencies := ["Circle"]
  resolveType := some fun props =>
    match props.get? "kind" with
    | some (.str kind) => kind
    | _ => "Circle"

def circle : Model := { name := "Circle", schema := geometry }

def square : Model := { name := "Square", schema := geometry }

def atelier : Workspace where
  catalog := { models := [drawing, shape, circle], nodup := by decide }

/-- The models with the one that is registered when all others have been compiled. -/
def enlarged : Workspace where
  catalog := { models := [drawing, shape, circle, square], nodup := by decide }
  cache := (atelier.run (·.compileModels)).2.cache

def drawingOf (kind : String) : Value := .obj [("shapes", .arr [.obj [("kind", .str kind)]])]

theorem only_unmatched_atelier :
    (enlarged.run (·.validate drawing (drawingOf "Square"))).1 =
      .error (.discriminatorResultMissing "Square" "Shape") ∧
    enlarged.catalog.Unmatched drawing (drawingOf "Square")
      (.discriminatorResultMissing "Square" "Shape") ∧
    (enlarged.run (·.implementation circle .null)).1 = .error (.notAnInterface "Circle") := by
  have reachable : atelier.Reachable := (unbroken_of_fresh _).reachable
  have compiles : (atelier.run (·.compileModels)).1 = .ok ⟨⟩ := by decide +kernel
  have later : (atelier.run (·.compileModels)).2.Later enlarged :=
    Later.refl.register (m := square) (register_eq_ok_iff.2 ⟨by rfl, rfl⟩)
  have fails : (enlarged.run (·.validate drawing (drawingOf "Square"))).1 =
      .error (.discriminatorResultMissing "Square" "Shape") := by decide +kernel
  have hdrawing : drawing ∈ atelier.catalog.models := List.mem_cons_self
  have hcircle : circle ∈ atelier.catalog.models := by simp [atelier]
  have drawn := reachable.only_unmatched_after_compileModels compiles later hdrawing
    (drawingOf "Square")
  have asked := reachable.only_unmatched_after_compileModels compiles later hcircle .null
  exact ⟨fails, drawn.2.1 _ fails, asked.2.2.2.2.2.2 rfl⟩

end Workspace

end TypedModels
