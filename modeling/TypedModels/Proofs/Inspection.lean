import Mathlib.Data.List.Perm.Basic
import TypedModels.Proofs.Completion
import TypedModels.Proofs.Persistence

/-!
# Compiling all models inspects all models

All models compile exactly if each of them is well formed. Whatever was compiled before, in whatever
order and with whatever failures, no model that is not well formed is ever in the cache, so none can
hide behind what is compiled already. Being well formed does not depend on the order of registration
either.
-/

namespace TypedModels

open Catalog Session

namespace Catalog

variable {cat cat' : Catalog} {c c' : Cache} {m d : Model}

/-! ## The order of registration -/

/-- A name finds the same model wherever the model was registered. -/
theorem find?_of_perm (h : cat.models.Perm cat'.models) : cat.find? = cat'.find? := by
  funext name
  ext m
  rw [find?_eq_some_iff, find?_eq_some_iff, h.mem_iff]

theorem scope_of_perm (h : cat.models.Perm cat'.models) (m : Model) :
    cat.scope m = cat'.scope m := by
  have same : cat.addDependency m = cat'.addDependency m := by
    funext models name
    unfold addDependency dependency
    rw [find?_of_perm h]
  unfold scope
  rw [same]

/-- Whether a model is well formed does not depend on the order of registration. -/
theorem wellFormed_of_perm (h : cat.models.Perm cat'.models) (m : Model) :
    cat.WellFormed m ↔ cat'.WellFormed m := by
  rw [wellFormed_iff, wellFormed_iff, alone, alone, scope_of_perm h]

/-! ## The loop over the models -/

/-- Compilations of models that reach no fault all succeed. -/
theorem exec_forM_of_wellFormed {models : List Model} (hmodels : ∀ m ∈ models, m ∈ cat.models)
    (hwf : ∀ m ∈ cat.models, cat.WellFormed m) (hc : cat.Sound c) :
    (exec (models.forM fun m => discard (cat.compiled m)) c).1 = .ok ⟨⟩ := by
  induction models generalizing c with
  | nil => rfl
  | cons m models ih =>
    obtain ⟨hm, hrest⟩ := List.forall_mem_cons.1 hmodels
    change (exec (discard (cat.compiled m) >>= fun _ =>
      models.forM fun m => discard (cat.compiled m)) c).1 = .ok ⟨⟩
    rw [exec_bind, exec_discard]
    rcases hx : exec (cat.compiled m) c with ⟨e | x, c'⟩
    · obtain ⟨y, hy, he⟩ := exists_alone_of_compiled_error hm hx
      exact absurd (hwf y (hy.mem hm)) (not_wellFormed_of_alone he)
    · exact ih hrest (hc.compiled hm hx)

/-- From a sound cache all models compile exactly if all of them are well formed, and then all of
them are compiled. -/
theorem Sound.compileModels_iff (hc : cat.Sound c) :
    (exec cat.compileModels c).1 = .ok ⟨⟩ ↔ ∀ m ∈ cat.models, cat.WellFormed m := by
  refine ⟨fun h m hm => ?_, fun hwf => exec_forM_of_wellFormed (fun _ h => h) hwf hc⟩
  have hs : cat.Scripted _ _ _ _ := scripted_compileModels
  have hsound := hs.sound (fun _ h => h) hc
  have hcached := (cached_of_forM (fun _ h => h) hc (Prod.ext h rfl)).2 m hm
  exact hsound.wellFormed hm hcached

end Catalog

namespace Workspace

variable {w : Workspace}

/-- Compiling all models is an exact check. It succeeds exactly if all models are well formed, and
leaves all of them compiled. So it gives the same verdict on workspaces with the same models, in
whatever order they were registered and whatever happened before. -/
theorem Reachable.compileModels_iff_wellFormed (h : w.Reachable) :
    ((w.run (·.compileModels)).1 = .ok ⟨⟩ ↔ ∀ m ∈ w.catalog.models, w.catalog.WellFormed m) ∧
    ((w.run (·.compileModels)).1 = .ok ⟨⟩ → ∀ m ∈ w.catalog.models,
      (w.run (·.compileModels)).2.isCompiled m.name = true) ∧
    ∀ w' : Workspace, w'.Reachable → w'.catalog.models.Perm w.catalog.models →
      ((w'.run (·.compileModels)).1 = .ok ⟨⟩ ↔ (w.run (·.compileModels)).1 = .ok ⟨⟩) := by
  have exact_check : ∀ {w : Workspace}, w.Reachable → ((w.run (·.compileModels)).1 = .ok ⟨⟩ ↔
      ∀ m ∈ w.catalog.models, w.catalog.WellFormed m) := fun h => h.sound.compileModels_iff
  refine ⟨exact_check h, fun hall m hm => ?_, fun w' h' hperm => ?_⟩
  · exact isCompiled_iff.2 (h.complete_of_compileModels hall hm m .refl)
  · rw [exact_check h', exact_check h]
    constructor
    · intro hwf m hm
      exact (wellFormed_of_perm hperm m).1 (hwf m (hperm.mem_iff.2 hm))
    · intro hwf m hm
      exact (wellFormed_of_perm hperm m).2 (hwf m (hperm.mem_iff.1 hm))

/-! ## A fault behind a compiled model -/

/-- The henhouse with its models in the other order. -/
def coop : Workspace where
  catalog := { models := [egg, chicken], nodup := by decide }

/-- The egg was asked for and failed, and left the chicken compiled. -/
def laid : Workspace := coop.after (.compile "Egg")

theorem compileModels_coop :
    laid.isCompiled "Chicken" = true ∧ (laid.run (·.compileModels)).1 ≠ .ok ⟨⟩ ∧
    (henhouse.run (·.compileModels)).1 ≠ .ok ⟨⟩ ∧
    ∀ m ∈ library.catalog.models, (library.run (·.compileModels)).2.isCompiled m.name = true := by
  have fresh : coop.Reachable := (unbroken_of_fresh _).reachable
  have left : laid.Reachable := fresh.call (.compile "Egg")
  have check := left.compileModels_iff_wellFormed
  have broken : ¬ ∀ m ∈ laid.catalog.models, laid.catalog.WellFormed m := by
    intro hwf
    have fault : laid.catalog.alone egg = .error (.missingDiscriminator "Egg") := rfl
    exact not_wellFormed_of_alone fault (hwf egg List.mem_cons_self)
  have fails : (laid.run (·.compileModels)).1 ≠ .ok ⟨⟩ := fun h => broken (check.1.1 h)
  refine ⟨by decide +kernel, fails, fun h => fails ?_, ?_⟩
  · exact (check.2.2 henhouse (unbroken_of_fresh _).reachable (List.Perm.swap ..)).1 h
  · exact (unbroken_of_fresh library.catalog).reachable.compileModels_iff_wellFormed.2.1
      (by decide +kernel)

end Workspace

end TypedModels
