import TypedModels.Model.Closure
import TypedModels.Proofs.Dependency

/-!
# The closure is what a model reaches

The walk enters every model that is still pending and puts its dependencies before the rest of the
stack. What it visits is closed under dependency, up to the models that were not pending when it
began, so the closure of a model holds exactly the models that it reaches.

## Main definitions

* `Catalog.Walked` : what a walk has visited when it ends.
-/

namespace TypedModels

namespace Catalog

variable {cat : Catalog} {m : Model} {pending : List String} {stack visited : List Model}

theorem walk_nil : cat.walk pending [] = .ok [] := by rw [walk]

theorem walk_cons_of_mem {rest : List Model} (h : m.name ∈ pending) :
    cat.walk pending (m :: rest) = (do
      let dependencies ← cat.dependenciesOf m
      let visited ← cat.walk (pending.erase m.name) (dependencies ++ rest)
      return m :: visited) := by
  rw [walk, dif_pos h]

theorem walk_cons_of_notMem {rest : List Model} (h : m.name ∉ pending) :
    cat.walk pending (m :: rest) = cat.walk pending rest := by
  rw [walk, dif_neg h]

theorem mem_dependenciesOf_iff {dependencies : List Model}
    (h : cat.dependenciesOf m = .ok dependencies) {d : Model} :
    d ∈ dependencies ↔ cat.DependsOn m d := by
  rw [mem_mapM_iff h]
  simp only [dependency_eq_ok_iff]
  constructor
  · rintro ⟨name, hname, hd, rfl⟩
    exact ⟨hd, hname⟩
  · rintro ⟨hd, hname⟩
    exact ⟨d.name, hname, hd, rfl⟩

theorem exists_dependenciesOf_iff :
    (∃ dependencies, cat.dependenciesOf m = .ok dependencies) ↔
      ∀ name ∈ m.dependencies, name ∈ cat.names := by
  rw [dependenciesOf, exists_mapM_iff]
  refine forall₂_congr fun name _ => ?_
  simp only [dependency_eq_ok_iff]
  exact List.mem_map.symm

/-- What a walk has visited when it ends. -/
structure Walked (cat : Catalog) (pending : List String) (stack visited : List Model) : Prop where
  entered : ∀ s ∈ stack, s.name ∈ pending → s ∈ visited
  reached : ∀ y ∈ visited, ∃ s ∈ stack, cat.Reaches s y
  registered : ∀ y ∈ visited, ∀ name ∈ y.dependencies, name ∈ cat.names
  closed : ∀ y ∈ visited, ∀ d, cat.DependsOn y d → d.name ∈ pending → d ∈ visited

/-- Entering a model leaves a walk over its dependencies and the rest. -/
theorem Walked.cons {dependencies rest : List Model}
    (h : cat.Walked (pending.erase m.name) (dependencies ++ rest) visited)
    (hdeps : cat.dependenciesOf m = .ok dependencies)
    (hstack : ∀ s ∈ m :: rest, s ∈ cat.models) : cat.Walked pending (m :: rest) (m :: visited) := by
  have hm := hstack m List.mem_cons_self
  have enter : ∀ s, s ∈ cat.models → s ∈ dependencies ++ rest → s.name ∈ pending →
      s ∈ m :: visited := by
    intro s hs hmem hp
    by_cases hn : s.name = m.name
    · exact eq_of_name_eq hs hm hn ▸ List.mem_cons_self
    · exact List.mem_cons_of_mem _ (h.entered s hmem ((List.mem_erase_of_ne hn).2 hp))
  constructor
  case entered =>
    intro s hs hp
    rcases List.mem_cons.1 hs with rfl | hs
    · exact List.mem_cons_self
    · exact enter s (hstack s (List.mem_cons_of_mem _ hs)) (List.mem_append_right _ hs) hp
  case reached =>
    refine List.forall_mem_cons.2 ⟨⟨m, List.mem_cons_self, .refl⟩, fun y hy => ?_⟩
    obtain ⟨s, hs, hr⟩ := h.reached y hy
    rcases List.mem_append.1 hs with hs | hs
    · exact ⟨m, List.mem_cons_self, .head ((mem_dependenciesOf_iff hdeps).1 hs) hr⟩
    · exact ⟨s, List.mem_cons_of_mem _ hs, hr⟩
  case registered =>
    exact List.forall_mem_cons.2 ⟨exists_dependenciesOf_iff.1 ⟨_, hdeps⟩, h.registered⟩
  case closed =>
    refine List.forall_mem_cons.2 ⟨fun d hd hp => ?_, fun y hy d hd hp => ?_⟩
    · have := (mem_dependenciesOf_iff hdeps).2 hd
      exact enter d hd.1 (List.mem_append_left _ this) hp
    · by_cases hn : d.name = m.name
      · exact eq_of_name_eq hd.1 hm hn ▸ List.mem_cons_self
      · exact List.mem_cons_of_mem _ (h.closed y hy d hd ((List.mem_erase_of_ne hn).2 hp))

theorem walked (hstack : ∀ s ∈ stack, s ∈ cat.models) (h : cat.walk pending stack = .ok visited) :
    cat.Walked pending stack visited := by
  induction pending, stack using walk.induct generalizing visited with
  | case1 pending =>
    rw [walk_nil] at h
    cases h
    exact ⟨by simp, by simp, by simp, by simp⟩
  | case2 pending m rest hp ih =>
    rw [walk_cons_of_mem hp] at h
    obtain ⟨dependencies, hdeps, h⟩ := bind_eq_ok_iff.1 h
    obtain ⟨visited, hvisited, h⟩ := bind_eq_ok_iff.1 h
    cases h
    refine (ih dependencies (fun s hs => ?_) hvisited).cons hdeps hstack
    rcases List.mem_append.1 hs with hs | hs
    · exact ((mem_dependenciesOf_iff hdeps).1 hs).1
    · exact hstack s (List.mem_cons_of_mem _ hs)
  | case3 pending m rest hp ih =>
    rw [walk_cons_of_notMem hp] at h
    have hw := ih (fun s hs => hstack s (List.mem_cons_of_mem _ hs)) h
    refine ⟨?_, fun y hy => ?_, hw.registered, hw.closed⟩
    · exact List.forall_mem_cons.2 ⟨fun h => absurd h hp, hw.entered⟩
    · obtain ⟨s, hs, hr⟩ := hw.reached y hy
      exact ⟨s, List.mem_cons_of_mem _ hs, hr⟩

/-- A walk does not fail where all dependencies are registered. -/
theorem exists_walk (h : ∀ s ∈ stack, ∀ y, cat.Reaches s y →
    ∀ name ∈ y.dependencies, name ∈ cat.names) :
    ∃ visited, cat.walk pending stack = .ok visited := by
  induction pending, stack using walk.induct with
  | case1 pending => exact ⟨[], walk_nil⟩
  | case2 pending m rest hp ih =>
    obtain ⟨hm, hrest⟩ := List.forall_mem_cons.1 h
    obtain ⟨dependencies, hdeps⟩ := exists_dependenciesOf_iff.2 (hm m .refl)
    obtain ⟨visited, hvisited⟩ := ih dependencies fun s hs => by
      rcases List.mem_append.1 hs with hs | hs
      · exact fun y hy => hm y (.head ((mem_dependenciesOf_iff hdeps).1 hs) hy)
      · exact hrest s hs
    refine ⟨m :: visited, ?_⟩
    rw [walk_cons_of_mem hp]
    exact bind_eq_ok_iff.2 ⟨dependencies, hdeps, bind_eq_ok_iff.2 ⟨visited, hvisited, rfl⟩⟩
  | case3 pending m rest hp ih =>
    rw [walk_cons_of_notMem hp]
    exact ih (List.forall_mem_cons.1 h).2

/-! ## The closure -/

/-- The closure of a model holds what the model reaches. -/
theorem mem_closure_iff (hm : m ∈ cat.models) (h : cat.closure m = .ok visited) {y : Model} :
    y ∈ visited ↔ cat.Reaches m y := by
  have hw := walked (by simpa using hm) h
  constructor
  · intro hy
    obtain ⟨s, hs, hr⟩ := hw.reached y hy
    exact List.mem_singleton.1 hs ▸ hr
  · intro hr
    induction hr with
    | refl => exact hw.entered m List.mem_cons_self (name_mem hm)
    | tail _ hd ih => exact hw.closed _ ih _ hd (name_mem hd.1)

theorem mem_models_of_closure (hm : m ∈ cat.models) (h : cat.closure m = .ok visited) :
    ∀ y ∈ visited, y ∈ cat.models := fun _ hy => ((mem_closure_iff hm h).1 hy).mem hm

/-- There is a closure exactly if all models that are reached have registered dependencies. -/
theorem exists_closure_iff (hm : m ∈ cat.models) :
    (∃ visited, cat.closure m = .ok visited) ↔
      ∀ y, cat.Reaches m y → ∀ name ∈ y.dependencies, name ∈ cat.names := by
  constructor
  · rintro ⟨visited, h⟩ y hr
    exact (walked (by simpa using hm) h).registered y ((mem_closure_iff hm h).2 hr)
  · intro h
    exact exists_walk fun s hs => by rwa [List.mem_singleton.1 hs]

end Catalog

end TypedModels
