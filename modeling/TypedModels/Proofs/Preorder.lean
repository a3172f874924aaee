import Mathlib.Data.List.Basic
import TypedModels.Proofs.Closure

/-!
# The closure in preorder

The walk with a stack visits models in the order of a recursive descent. A model comes first, and
then, for each of its dependencies in turn, whatever lies below it and has not been visited before.
All dependencies of a model are looked up before the descent goes on with the first of them. So the
first model in this order that declares a dependency which is not registered decides the error.

## Main definitions

* `descend`, `descendAll` : the recursive descent, given how the models below a model are found.
* `Catalog.registeredOf` : the registered dependencies of a model.
* `Catalog.FirstMissing` : the first missing dependency in a sequence of models.
-/

namespace TypedModels

/-! ## The descent -/

section

variable {ε : Type} (next : Model → Except ε (List Model))

mutual

/-- Visits a model if it is still pending, and then everything below it. All models below it are
looked up before any of them is visited. -/
def descend (pending : List String) (m : Model) : Except ε (List Model) :=
  if _h : m.name ∈ pending then do
    let below ← next m
    return m :: (← descendAll (pending.erase m.name) below)
  else return []
termination_by (pending.length, 0)
decreasing_by
  have := List.length_erase_of_mem _h
  have := List.length_pos_of_mem _h
  exact Prod.Lex.left _ _ (by omega)

/-- Visits the models in order. What was visited for one of them is not pending for the next. -/
def descendAll (pending : List String) (stack : List Model) : Except ε (List Model) :=
  match stack with
  | [] => return []
  | m :: rest => do
    let visited ← descend pending m
    return visited ++ (← descendAll (pending.diff (visited.map Model.name)) rest)
termination_by (pending.length, stack.length + 1)
decreasing_by
  · exact Prod.Lex.right _ (by simp)
  · exact Prod.Lex.right' _ (List.diff_sublist ..).length_le (by simp)

end

variable {next} {pending : List String} {m : Model} {stack visited : List Model}

theorem descend_of_mem (h : m.name ∈ pending) :
    descend next pending m = (do
      let below ← next m
      return m :: (← descendAll next (pending.erase m.name) below)) := by
  rw [descend, dif_pos h]

theorem descend_of_notMem (h : m.name ∉ pending) : descend next pending m = pure [] := by
  rw [descend, dif_neg h]

theorem descendAll_nil : descendAll next pending [] = pure [] := by rw [descendAll]

theorem descendAll_cons {rest : List Model} :
    descendAll next pending (m :: rest) = (do
      let visited ← descend next pending m
      return visited ++ (← descendAll next (pending.diff (visited.map Model.name)) rest)) := by
  rw [descendAll]

theorem descendAll_singleton : descendAll next pending [m] = descend next pending m := by
  simp [descendAll_cons, descendAll_nil]

/-- What was visited for the first models is not pending for the others. -/
theorem descendAll_append {rest : List Model} :
    descendAll next pending (stack ++ rest) = (do
      let visited ← descendAll next pending stack
      return visited ++ (← descendAll next (pending.diff (visited.map Model.name)) rest)) := by
  induction stack generalizing pending with
  | nil => simp [descendAll_nil]
  | cons m stack ih =>
    simp only [List.cons_append, descendAll_cons, ih, bind_assoc, pure_bind, List.map_append,
      List.diff_append, List.append_assoc]

/-! ### Descents that look nothing up -/

variable {below : Model → List Model}

mutual

/-- A descent visits the models that a descent without any look-up visits, and fails at the first of
them for which a look-up fails. -/
theorem exists_descend (h : ∀ m ms, next m = .ok ms → ms = below m) (pending : List String)
    (m : Model) : ∃ order,
      descend (fun d => (.ok (below d) : Except ε _)) pending m = .ok order ∧
        descend next pending m = (do forM order fun d => discard (next d); return order) := by
  by_cases hp : m.name ∈ pending
  · obtain ⟨order, horder, hnext⟩ := exists_descendAll h (pending.erase m.name) (below m)
    refine ⟨m :: order, ?_, ?_⟩
    · simp [descend_of_mem hp, horder, bind, Except.bind, pure, Except.pure]
    rw [descend_of_mem hp, List.forM_cons]
    cases hm : next m with
    | error e => rfl
    | ok ms =>
      obtain rfl := h m ms hm
      have passes : discard (Except.ok (below m) : Except ε _) = pure ⟨⟩ := rfl
      rw [passes, pure_bind]
      change (do return m :: (← descendAll next (pending.erase m.name) (below m))) = _
      simp [hnext]
  · exact ⟨[], by rw [descend_of_notMem hp]; rfl, by rw [descend_of_notMem hp]; rfl⟩
termination_by (pending.length, 0)
decreasing_by
  have := List.length_erase_of_mem hp
  have := List.length_pos_of_mem hp
  exact Prod.Lex.left _ _ (by omega)

theorem exists_descendAll (h : ∀ m ms, next m = .ok ms → ms = below m) (pending : List String)
    (stack : List Model) : ∃ order,
      descendAll (fun d => (.ok (below d) : Except ε _)) pending stack = .ok order ∧
        descendAll next pending stack =
          (do forM order fun d => discard (next d); return order) := by
  cases stack with
  | nil => exact ⟨[], by rw [descendAll_nil]; rfl, by rw [descendAll_nil]; rfl⟩
  | cons m rest =>
    obtain ⟨first, hfirst, hm⟩ := exists_descend h pending m
    obtain ⟨second, hsecond, hrest⟩ :=
      exists_descendAll h (pending.diff (first.map Model.name)) rest
    refine ⟨first ++ second, ?_, ?_⟩
    · simp [descendAll_cons, hfirst, hsecond, bind, Except.bind, pure, Except.pure]
    · simp [descendAll_cons, hm, hrest]
termination_by (pending.length, stack.length + 1)
decreasing_by
  · exact Prod.Lex.right _ (by simp)
  · exact Prod.Lex.right' _ (List.diff_sublist ..).length_le (by simp)

end

end

/-! ## The walk is the descent -/

namespace Catalog

variable {cat : Catalog} {m : Model} {pending : List String} {stack visited : List Model}

/-- The models on the stack are those that the descent still has to visit. -/
theorem walk_eq_descendAll (cat : Catalog) (pending : List String) (stack : List Model) :
    cat.walk pending stack = descendAll cat.dependenciesOf pending stack := by
  induction pending, stack using walk.induct with
  | case1 pending =>
    rw [walk_nil, descendAll_nil]
    rfl
  | case2 pending m rest hp ih =>
    simp only [walk_cons_of_mem hp, ih, descendAll_cons, descend_of_mem hp, descendAll_append,
      bind_assoc, pure_bind, List.map_cons, List.diff_cons, List.cons_append]
  | case3 pending m rest hp ih =>
    simp [walk_cons_of_notMem hp, descendAll_cons, descend_of_notMem hp, ih]

theorem closure_eq_descend (cat : Catalog) (m : Model) :
    cat.closure m = descend cat.dependenciesOf cat.names m := by
  rw [closure, walk_eq_descendAll, descendAll_singleton]

/-- What a walk visits was pending, and is visited once. -/
theorem nodup_names_of_walk (hp : pending.Nodup) (h : cat.walk pending stack = .ok visited) :
    (visited.map Model.name).Nodup ∧ ∀ d ∈ visited, d.name ∈ pending := by
  induction pending, stack using walk.induct generalizing visited with
  | case1 pending =>
    rw [walk_nil] at h
    cases h
    simp
  | case2 pending m rest hm ih =>
    rw [walk_cons_of_mem hm] at h
    obtain ⟨dependencies, -, h⟩ := bind_eq_ok_iff.1 h
    obtain ⟨visited, hvisited, h⟩ := bind_eq_ok_iff.1 h
    cases h
    obtain ⟨hnodup, hmem⟩ := ih dependencies (hp.erase _) hvisited
    have fresh : m.name ∉ visited.map Model.name := by
      intro hname
      obtain ⟨d, hd, hn⟩ := List.mem_map.1 hname
      exact hp.not_mem_erase (hn ▸ hmem d hd)
    refine ⟨List.nodup_cons.2 ⟨fresh, hnodup⟩, List.forall_mem_cons.2 ⟨hm, fun d hd => ?_⟩⟩
    exact List.mem_of_mem_erase (hmem d hd)
  | case3 pending m rest hm ih =>
    rw [walk_cons_of_notMem hm] at h
    exact ih hp h

/-! ## The first dependency that is missing -/

/-- The registered dependencies of a model. Names that are not registered are passed over. -/
def registeredOf (cat : Catalog) (m : Model) : List Model := m.dependencies.filterMap cat.find?

/-- `d` is the first of the models that declares a dependency which is not registered, and `name` is
the first such dependency of `d`. -/
structure FirstMissing (cat : Catalog) (order : List Model) (d : Model) (name : String) : Prop where
  model : ∃ before after, order = before ++ d :: after ∧
    ∀ b ∈ before, ∀ n ∈ b.dependencies, n ∈ cat.names
  dependency : ∃ before after, d.dependencies = before ++ name :: after ∧
    (∀ n ∈ before, n ∈ cat.names) ∧ name ∉ cat.names

theorem registeredOf_eq (h : cat.dependenciesOf m = .ok visited) :
    visited = cat.registeredOf m := by
  unfold dependenciesOf at h
  unfold registeredOf
  generalize m.dependencies = names at h
  induction names generalizing visited with
  | nil =>
    cases h
    rfl
  | cons name names ih =>
    rw [List.mapM_cons] at h
    obtain ⟨d, hd, h⟩ := bind_eq_ok_iff.1 h
    obtain ⟨rest, hrest, h⟩ := bind_eq_ok_iff.1 h
    cases h
    have hfind := find?_eq_some_iff.2 (dependency_eq_ok_iff.1 hd)
    rw [List.filterMap_cons_some hfind, ih hrest]

/-- A look-up fails for the first name that is not registered. -/
theorem dependenciesOf_eq_error_iff {e : ConfigError} :
    cat.dependenciesOf m = .error e ↔ ∃ name, e = .unknownDependency m.name name ∧
      ∃ before after, m.dependencies = before ++ name :: after ∧
        (∀ n ∈ before, n ∈ cat.names) ∧ name ∉ cat.names := by
  simp only [dependenciesOf, mapM_eq_error_iff, dependency_eq_error_iff, dependency_eq_ok_iff]
  constructor
  · rintro ⟨before, name, after, hsplit, hbefore, hname, rfl⟩
    exact ⟨name, rfl, before, after, hsplit, fun n hn => List.mem_map.2 (hbefore n hn), hname⟩
  · rintro ⟨name, rfl, before, after, hsplit, hbefore, hname⟩
    exact ⟨before, name, after, hsplit, fun n hn => List.mem_map.1 (hbefore n hn), hname, rfl⟩

/-- The closure fails for the first dependency that is missing, in the order of a descent that
passes over what is missing. -/
theorem exists_order (cat : Catalog) (m : Model) : ∃ order,
    descend (fun d => (.ok (cat.registeredOf d) : Except ConfigError _)) cat.names m = .ok order ∧
      ∀ e, cat.closure m = .error e ↔
        ∃ d name, e = .unknownDependency d.name name ∧ cat.FirstMissing order d name := by
  obtain ⟨order, horder, hclosure⟩ :=
    exists_descend (fun _ _ h => registeredOf_eq h) cat.names m
  refine ⟨order, horder, fun e => ?_⟩
  have fails : cat.closure m = .error e ↔
      forM order (fun d => discard (cat.dependenciesOf d)) = .error e := by
    rw [closure_eq_descend, hclosure]
    cases forM order (fun d => discard (cat.dependenciesOf d)) <;>
      simp [bind, Except.bind, pure, Except.pure]
  rw [fails, forM_eq_error_iff]
  simp only [dependenciesOf_eq_error_iff, exists_dependenciesOf_iff]
  constructor
  · rintro ⟨before, d, after, hsplit, hbefore, name, rfl, hname⟩
    exact ⟨d, name, rfl, ⟨before, after, hsplit, hbefore⟩, hname⟩
  · rintro ⟨d, name, rfl, ⟨before, after, hsplit, hbefore⟩, hname⟩
    exact ⟨before, d, after, hsplit, hbefore, name, rfl, hname⟩

/-- The closure is the recursive preorder. It starts with the model, holds what the model reaches,
each model once, and fails exactly if something that is reached declares a dependency which is not
registered: the first one in preorder decides the error. -/
theorem closure_preorder (hm : m ∈ cat.models) :
    cat.closure m = descend cat.dependenciesOf cat.names m ∧
    (∀ ms, cat.closure m = .ok ms →
      ms.head? = some m ∧ ms.Nodup ∧ ∀ d, d ∈ ms ↔ cat.Reaches m d) ∧
    ((∃ e, cat.closure m = .error e) ↔
      ∃ d, cat.Reaches m d ∧ ∃ name ∈ d.dependencies, name ∉ cat.names) ∧
    ∃ order, descend (fun d => (.ok (cat.registeredOf d) : Except ConfigError _)) cat.names m =
        .ok order ∧
      ∀ e, cat.closure m = .error e ↔
        ∃ d name, e = .unknownDependency d.name name ∧ cat.FirstMissing order d name := by
  refine ⟨closure_eq_descend cat m, fun ms h => ⟨?_, ?_, fun d => mem_closure_iff hm h⟩, ?_,
    exists_order cat m⟩
  · rw [closure, walk_cons_of_mem (name_mem hm)] at h
    obtain ⟨_, -, h⟩ := bind_eq_ok_iff.1 h
    obtain ⟨_, -, h⟩ := bind_eq_ok_iff.1 h
    cases h
    rfl
  · exact (nodup_names_of_walk cat.nodup h).1.of_map _
  · have fails : (∃ e, cat.closure m = .error e) ↔ ¬ ∃ ms, cat.closure m = .ok ms := by
      cases cat.closure m <;> simp
    rw [fails, exists_closure_iff hm]
    simp

/-! ## A record and a debut -/

def album : Model := { name := "Album", dependencies := ["Song", "Band", "Song"] }

def song : Model := { name := "Song", dependencies := ["Singer"] }

/-- A band is part of a cycle with its album and its singer. -/
def band : Model := { name := "Band", dependencies := ["Singer", "Album", "Manager"] }

def manager : Model := { name := "Manager" }

def singer : Model := { name := "Singer", dependencies := ["Band"] }

/-- A singer with dependencies that nobody registered. -/
def newcomer : Model := { name := "Singer", dependencies := ["Band", "Agent", "Fan"] }

def record : Catalog := { models := [manager, singer, band, song, album], nodup := by decide }

/-- Neither the manager of the band nor the agent of the singer is registered. -/
def debut : Catalog := { models := [newcomer, band, song, album], nodup := by decide }

theorem closure_preorder_album :
    (∀ d, d ∈ [album, song, singer, band, manager] ↔ record.Reaches album d) ∧
    ∃ order d name, debut.FirstMissing order d name ∧ d.name = "Singer" ∧ name = "Agent" := by
  have hrecord : album ∈ record.models := by simp [record]
  have hdebut : album ∈ debut.models := by simp [debut]
  have complete : record.closure album = .ok [album, song, singer, band, manager] := by cbv
  have incomplete : debut.closure album = .error (.unknownDependency "Singer" "Agent") := by cbv
  refine ⟨((closure_preorder hrecord).2.1 _ complete).2.2, ?_⟩
  obtain ⟨order, -, hfirst⟩ := (closure_preorder hdebut).2.2.2
  obtain ⟨d, name, he, hmissing⟩ := (hfirst _).1 incomplete
  injection he with hd hname
  exact ⟨order, d, name, hmissing, hd.symm, hname.symm⟩

end Catalog

end TypedModels
