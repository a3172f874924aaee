import TypedModels.Proofs.History

/-!
# Compiled forms never go stale

A model that is compiled once stays compiled, and compiling it anew gives the form that the cache
holds, whatever has been registered since. A request fills the cache for nothing but the models that
it is about and those that they depend on, and a model whose compilation fails is not filled at all.

## Main definitions

* `Workspace.Later` : the workspaces that further registrations and requests lead to.
-/

namespace TypedModels

open Catalog Session

namespace Workspace

/-- `w'` is what is left of `w` after further registrations and requests. -/
inductive Later (w : Workspace) : Workspace → Prop
  | refl : Later w w
  | register {w' w'' : Workspace} {m : Model} : Later w w' → w'.register m = .ok w'' → Later w w''
  | call {w' : Workspace} (call : Call) : Later w w' → Later w (w'.after call)

variable {w w' : Workspace} {m : Model} {name : String} {x : Compiled} {e : ConfigError}

theorem isCompiled_iff : w.isCompiled m.name = true ↔ Cached w.cache m := Option.isSome_iff_exists

theorem Later.reachable (hl : w.Later w') (h : w.Reachable) : w'.Reachable := by
  induction hl with
  | refl => exact h
  | register _ hr ih => exact ih.register hr
  | call call _ ih => exact ih.call call

/-! ## One step -/

/-- What the cache holds is what compiling the model against the present catalog gives. -/
theorem Reachable.recompiles (h : w.Reachable) (hx : w.cache.lookup name = some x) :
    ∃ m, w.catalog.model name = .ok m ∧
      ∃ s, w.catalog.scope m = .ok s ∧ m.compile s = .ok x := by
  obtain ⟨m, hm, halone⟩ := h.sound name x hx
  exact ⟨m, model_eq_ok_iff.2 hm, alone_eq_ok_iff.1 halone⟩

/-- A request overwrites nothing. -/
theorem Reachable.lookup_after (h : w.Reachable) (call : Call)
    (hx : w.cache.lookup name = some x) : (w.after call).cache.lookup name = some x :=
  OrderedMap.lookup_of_prefix (h.fills call).grows hx

/-- A request compiles only what the models that it is about reach. -/
theorem Reachable.reachesFrom_of_after (h : w.Reachable) (call : Call) (hm : m ∈ w.catalog.models)
    (hbefore : ¬ Cached w.cache m) (hafter : Cached (w.after call).cache m) :
    w.catalog.ReachesFrom (call.asked w.catalog) m := by
  obtain ⟨x, hx⟩ := hafter
  have hfill := call.scripted_asked.fills_reached (fun _ hy => hy.mem) h.sound
  rcases hfill.new m.name x hx with hx | ⟨y, ⟨hn, ⟨z, ⟨a, ha, hasked, haz⟩, hzy⟩, -⟩, -⟩
  · exact absurd ⟨x, hx⟩ hbefore
  · have hay : w.catalog.Reaches a y := haz.trans hzy
    obtain rfl := eq_of_name_eq (hay.mem ha) hm hn
    exact ⟨a, ha, hasked, hay⟩

/-- A model whose compilation fails is not in the cache that is left. -/
theorem not_cached_of_compiled_error (hm : m ∈ w.catalog.models)
    (he : (w.run (·.compiled m)).1 = .error e) : ¬ Cached (w.run (·.compiled m)).2.cache m :=
  (fills_of_compiled_error hm (Prod.ext he rfl)).2.not_cached

/-! ## Any number of steps -/

/-- A compiled form is kept forever. -/
theorem Later.lookup (hl : w.Later w') (h : w.Reachable) (hx : w.cache.lookup name = some x) :
    w'.cache.lookup name = some x := by
  induction hl with
  | refl => exact hx
  | register _ hr ih => rwa [(register_eq_ok_iff.1 hr).2]
  | call call hl ih => exact (hl.reachable h).lookup_after call ih

/-- The cache is written once and never goes stale. What it holds for a model can be compiled anew,
registrations do not touch it, requests fill only what they are about and overwrite nothing, and a
failed compilation leaves its model out. -/
theorem Reachable.cache_written_once (h : w.Reachable) :
    (∀ name x, w.cache.lookup name = some x → ∃ m, w.catalog.model name = .ok m ∧
      ∃ s, w.catalog.scope m = .ok s ∧ m.compile s = .ok x) ∧
    (∀ m w', w.register m = .ok w' → w'.cache = w.cache) ∧
    (∀ call : Call,
      (∀ name x, w.cache.lookup name = some x → (w.after call).cache.lookup name = some x) ∧
      ∀ m ∈ w.catalog.models, w.isCompiled m.name = false →
        (w.after call).isCompiled m.name = true → w.catalog.ReachesFrom (call.asked w.catalog) m) ∧
    (∀ m ∈ w.catalog.models, ∀ e, (w.run (·.compiled m)).1 = .error e →
      (w.run (·.compiled m)).2.isCompiled m.name = false) := by
  refine ⟨fun name x hx => h.recompiles hx, fun m w' hr => (register_eq_ok_iff.1 hr).2,
    fun call => ⟨fun name x hx => h.lookup_after call hx, fun m hm hbefore hafter => ?_⟩,
    fun m hm e he => ?_⟩
  · rw [← Bool.not_eq_true, isCompiled_iff] at hbefore
    exact h.reachesFrom_of_after call hm hbefore (isCompiled_iff.1 hafter)
  · rw [← Bool.not_eq_true, isCompiled_iff]
    exact not_cached_of_compiled_error hm he

/-! ## A failure that fills the cache in part -/

def menu : Source where
  document := ⟨[
    .object { name := "Meal", fields := [
      { name := "dish", type := .named "Dish" }, { name := "guest", type := .named "Guest" }] },
    .object { name := "Dish", fields := [{ name := "price", type := .named "Float" }] },
    .object { name := "Guest", fields := [{ name := "birthday", type := .named "Date" }] }]⟩

def meal : Model := { name := "Meal", schema := menu, dependencies := ["Dish", "Guest"] }

def dish : Model := { name := "Dish", schema := menu }

/-- A guest whose birthday is of no known type. -/
def guest : Model := { name := "Guest", schema := menu }

def restaurant : Workspace where
  catalog := { models := [meal, dish, guest], nodup := by decide }

/-- A meal was asked for. It failed because of the guest, after the dish had been compiled. -/
def served : Workspace := restaurant.after (.compile "Meal")

theorem cache_written_once_served :
    (∃ x s, served.cache.lookup "Dish" = some x ∧ served.catalog.scope dish = .ok s ∧
      dish.compile s = .ok x) ∧
    restaurant.catalog.ReachesFrom ["Meal"] dish ∧
    (served.run (·.compiled meal)).2.isCompiled "Meal" = false := by
  have fresh : restaurant.Reachable := (unbroken_of_fresh _).reachable
  have hmeal : meal ∈ restaurant.catalog.models := List.mem_cons_self
  have hdish : dish ∈ restaurant.catalog.models := List.mem_cons_of_mem _ List.mem_cons_self
  have first := fresh.cache_written_once
  have second := (fresh.call (.compile "Meal")).cache_written_once
  refine ⟨?_, ?_, ?_⟩
  · have filled : served.isCompiled "Dish" = true := by decide +kernel
    obtain ⟨x, hx⟩ := Option.isSome_iff_exists.1 filled
    obtain ⟨m, hm, s, hs, hcompile⟩ := second.1 "Dish" x hx
    have hname := model_eq_ok_iff.1 hm
    obtain rfl := eq_of_name_eq hname.1 hdish hname.2
    exact ⟨x, s, hx, hs, hcompile⟩
  · exact (first.2.2.1 (.compile "Meal")).2 dish hdish rfl (by decide +kernel)
  · have fails : (served.run (·.compiled meal)).1 = .error (.unknownType "Date" "birthday") := by
      decide +kernel
    exact second.2.2.2 meal hmeal _ fails

end Workspace

end TypedModels
