import TypedModels.Proofs.Checks
import TypedModels.Proofs.Collection
import TypedModels.Proofs.Entries
import TypedModels.Proofs.Hydration
import TypedModels.Proofs.Success

/-!
# Merged resolvers

The resolvers of several operations are merged by one rule. The fields of the root type are those of
all operations, and a later operation overrides single fields. Of any other type the last operation
with an entry has the whole entry. The rule does not depend on how the operations are grouped.

## Main definitions

* `Workspace.Own` : the resolvers of one operation.
* `RootKind.merge` : the rule, as a function.
* `RootKind.Merged` : the rule, as the order of the keys and the origin of the values.
-/

namespace TypedModels

open Catalog Session

namespace RootKind

variable {kind : RootKind} {tables tables' : List ResolverTable} {table : ResolverTable}

/-- The resolvers of the root type. -/
def rootFields (kind : RootKind) (table : ResolverTable) : FieldResolvers :=
  (table.lookup kind.typeName).getD []

/-- The root type takes the fields of all tables, and any other type takes whole entries. The root
type comes last. -/
def merge (kind : RootKind) (tables : List ResolverTable) : ResolverTable :=
  OrderedMap.insert kind.typeName ((tables.map kind.rootFields).foldl OrderedMap.extend [])
    ((tables.map (OrderedMap.erase kind.typeName)).foldl OrderedMap.extend [])

/-- The root type comes last, after the other types in order of first occurrence. Its fields are in
order of first occurrence too, each from the last table in which the root type has it. The entry of
any other type is that of the last table with the type. -/
structure Merged (kind : RootKind) (tables : List ResolverTable) (table : ResolverTable) :
    Prop where
  keys : OrderedMap.keys table =
    ((tables.flatMap OrderedMap.keys).filter (· ≠ kind.typeName)).eraseDups ++ [kind.typeName]
  root : ∃ fields, table.lookup kind.typeName = some fields ∧
    OrderedMap.keys fields =
      (tables.flatMap fun t => OrderedMap.keys (kind.rootFields t)).eraseDups ∧
    ∀ field resolver, fields.lookup field = some resolver →
      OrderedMap.LastBinds (tables.map kind.rootFields) field resolver
  others : ∀ typeName ≠ kind.typeName, ∀ entry, table.lookup typeName = some entry →
    OrderedMap.LastBinds tables typeName entry

/-! ## The rule -/

/-- The merged entries of the types other than the root. -/
theorem keys_others :
    OrderedMap.keys ((tables.map (OrderedMap.erase kind.typeName)).foldl OrderedMap.extend []) =
      ((tables.flatMap OrderedMap.keys).filter (· ≠ kind.typeName)).eraseDups := by
  rw [OrderedMap.joins_foldl_extend.keys_eq, List.flatMap_map, List.filter_flatMap]
  simp only [OrderedMap.keys_erase]

theorem notMem_keys_others : kind.typeName ∉
    OrderedMap.keys ((tables.map (OrderedMap.erase kind.typeName)).foldl OrderedMap.extend []) := by
  simp [keys_others, List.mem_eraseDups]

theorem rootFields_merge : kind.rootFields (kind.merge tables) =
    (tables.map kind.rootFields).foldl OrderedMap.extend [] := by
  simp [rootFields, merge, OrderedMap.lookup_insert]

theorem erase_merge : OrderedMap.erase kind.typeName (kind.merge tables) =
    (tables.map (OrderedMap.erase kind.typeName)).foldl OrderedMap.extend [] :=
  OrderedMap.erase_insert notMem_keys_others

/-- Merging what has been merged in two groups is merging all at once. -/
theorem merge_append : kind.merge (tables ++ tables') =
    kind.merge [kind.merge tables, kind.merge tables'] := by
  rw [merge, merge, List.map_append, List.map_append, OrderedMap.foldl_extend_append,
    OrderedMap.foldl_extend_append, List.map_cons, List.map_cons, List.map_nil, List.map_cons,
    List.map_cons, List.map_nil, rootFields_merge, rootFields_merge, erase_merge, erase_merge]

theorem merged_merge : kind.Merged tables (kind.merge tables) := by
  constructor
  case keys =>
    rw [merge, OrderedMap.keys_insert, if_neg notMem_keys_others, keys_others]
  case root =>
    have joins : OrderedMap.Joins (tables.map kind.rootFields) _ := OrderedMap.joins_foldl_extend
    refine ⟨_, ?_, joins.keys_eq.trans (by rw [List.flatMap_map]), joins.lastBinds⟩
    simp [merge, OrderedMap.lookup_insert]
  case others =>
    intro typeName hne entry hlookup
    rw [merge, OrderedMap.lookup_insert, if_neg hne] at hlookup
    exact (OrderedMap.joins_foldl_extend.lastBinds _ _ hlookup).of_erase hne

/-- Merging operation by operation keeps the fields of the root type apart from the other types. -/
theorem foldl_add {merge : Merge} : tables.foldl (fun merge table => merge.add kind table) merge = {
    root := (tables.map kind.rootFields).foldl OrderedMap.extend merge.root
    others := (tables.map (OrderedMap.erase kind.typeName)).foldl OrderedMap.extend merge.others
    } := by
  induction tables generalizing merge with
  | nil => rfl
  | cons table tables ih => exact ih

end RootKind

/-! ## As lists of sessions -/

namespace Catalog

variable {cat : Catalog}

/-- The tables of the models are collected first, and then put together with the own one. -/
theorem operationResolvers_eq {op : Operation} : cat.operationResolvers op =
    (fun tables => (tables ++ [op.resolvers]).foldl OrderedMap.extend []) <$>
      op.models.mapM (fun name => do cat.closureResolvers (← cat.model name)) := by
  have folded : cat.operationResolvers op = (OrderedMap.extend · op.resolvers) <$>
      op.models.foldlM (fun merged name => OrderedMap.extend merged <$>
        (do cat.closureResolvers (← cat.model name) : Session ConfigError ResolverTable)) [] := by
    simp [operationResolvers]
  rw [folded, foldlM_eq_mapM, Functor.map_map]
  simp only [List.foldl_append, List.foldl_cons, List.foldl_nil]

/-- The operations are collected first, and then merged. -/
theorem schemaResolvers_eq {kind : RootKind} {ops : List Operation} :
    cat.schemaResolvers kind ops = kind.merge <$> ops.mapM cat.operationResolvers := by
  have folded : cat.schemaResolvers kind ops =
      (fun merge => OrderedMap.insert kind.typeName merge.root merge.others) <$>
        ops.foldlM (fun merge op => (Merge.add merge kind) <$> cat.operationResolvers op)
          ({} : Merge) := by
    simp [schemaResolvers]
  rw [folded, foldlM_eq_mapM, Functor.map_map]
  simp only [RootKind.foldl_add]
  rfl

/-- The operations of a list are asked for their resolvers one after the other. -/
theorem scripted_operations {ops : List Operation} :
    cat.Scripted (· ∈ cat.models) id (fun _ => True) (ops.mapM cat.operationResolvers) :=
  .mapM fun _ _ => scripted_operationResolvers.mono (fun _ hy => hy.mem) fun _ h => h

theorem exec_schemaResolvers_eq_ok_iff {c c' : Cache} {kind : RootKind} {ops : List Operation}
    {table : ResolverTable} : exec (cat.schemaResolvers kind ops) c = (.ok table, c') ↔
      ∃ own, exec (ops.mapM cat.operationResolvers) c = (.ok own, c') ∧ kind.merge own = table := by
  rw [schemaResolvers_eq, exec_map_eq_ok_iff]

theorem scripted_modelResolvers {name : String} :
    cat.Scripted (cat.ReachesFrom [name]) id (fun _ => True)
      (do cat.closureResolvers (← cat.model name)) := by
  refine (Scripted.lift fun m hm => model_eq_ok_iff.1 hm).bind fun m ⟨hm, hn⟩ => ?_
  have asked : m.name ∈ [name] := List.mem_singleton.2 hn
  exact (scripted_closureResolvers hm).mono (fun _ hy => ⟨m, hm, asked, hy⟩) fun _ h => h

end Catalog

namespace Workspace

variable {w : Workspace} {kind : RootKind}

/-- The resolvers of an operation: those that are collected for its models, in order, and then its
own. A later entry for a type replaces an earlier one. -/
def Own (w : Workspace) (op : Operation) (own : ResolverTable) : Prop :=
  ∃ tables, List.Forall₂ (fun name table => ∃ m, w.catalog.model name = .ok m ∧
      w.Returns (·.closureResolvers m) table) op.models tables ∧
    own = (tables ++ [op.resolvers]).foldl OrderedMap.extend []

/-- The types of an operation are in order of first occurrence. The entry of each is that of the last
table with the type, where the resolvers that the operation brings itself come last. -/
theorem Own.joins {op : Operation} {own : ResolverTable} (h : w.Own op own) :
    ∃ tables, List.Forall₂ (fun name table => ∃ m, w.catalog.model name = .ok m ∧
        w.Returns (·.closureResolvers m) table) op.models tables ∧
      OrderedMap.Joins (tables ++ [op.resolvers]) own := by
  obtain ⟨tables, htables, rfl⟩ := h
  exact ⟨tables, htables, OrderedMap.joins_foldl_extend⟩

/-- What an operation has with nothing left to compile is its own. -/
theorem Reachable.own_of_exec {c : Cache} {op : Operation} {own : ResolverTable}
    (h : w.Reachable) (hc : w.catalog.Sound c) (hext : w.catalog.Extends w.cache c)
    (ho : exec (w.catalog.operationResolvers op) c = (.ok own, c)) : w.Own op own := by
  have each : ∀ name ∈ op.models, w.catalog.Scripted (· ∈ w.catalog.models) id (fun _ => True)
      (do w.catalog.closureResolvers (← w.catalog.model name)) := fun name _ =>
    scripted_modelResolvers.mono (fun _ hy => hy.mem) fun _ h => h
  rw [operationResolvers_eq, exec_map_eq_ok_iff] at ho
  obtain ⟨tables, htables, rfl⟩ := ho
  rw [Scripted.exec_mapM_iff each (fun _ h => h) hc] at htables
  refine ⟨tables, htables.imp fun name table htable => ?_, rfl⟩
  obtain ⟨m, _, hfound, htable⟩ := exec_bind_eq_ok_iff.1 htable
  obtain ⟨hmodel, rfl⟩ := Prod.mk.inj hfound
  have hm := (model_eq_ok_iff.1 hmodel).1
  have hs : w.catalog.Scripted _ _ _ _ := scripted_closureResolvers hm
  exact ⟨m, hmodel, h.returns_of_exec hs (fun _ hy => hy.mem hm) hc hext htable⟩

/-- What the operations of a list have is merged by the rule. -/
theorem Reachable.merged_of_schemaResolvers {ops : List Operation} {table : ResolverTable}
    (h : w.Reachable) (htable : (w.run (·.schemaResolvers kind ops)).1 = .ok table) :
    ∃ own, List.Forall₂ w.Own ops own ∧ table = kind.merge own ∧ kind.Merged own table := by
  obtain ⟨own, hown, rfl⟩ := exec_schemaResolvers_eq_ok_iff.1 (Prod.ext htable rfl)
  obtain ⟨hagain, hc, hext⟩ := scripted_operations.settled (fun _ h => h) h.sound hown
  rw [Scripted.exec_mapM_iff (fun _ _ => scripted_operationResolvers.mono (fun _ hy => hy.mem)
    fun _ h => h) (fun _ h => h) hc] at hagain
  exact ⟨own, hagain.imp fun op o ho => h.own_of_exec hc hext ho, rfl, RootKind.merged_merge⟩

/-- Two lists of operations that can be merged can be merged together. -/
theorem Reachable.schemaResolvers_append {ops ops' : List Operation} {table table' : ResolverTable}
    (h : w.Reachable) (htable : (w.run (·.schemaResolvers kind ops)).1 = .ok table)
    (htable' : (w.run (·.schemaResolvers kind ops')).1 = .ok table') :
    (w.run (·.schemaResolvers kind (ops ++ ops'))).1 = .ok (kind.merge [table, table']) := by
  obtain ⟨own, hown, rfl⟩ := exec_schemaResolvers_eq_ok_iff.1 (Prod.ext htable rfl)
  obtain ⟨own', hown', rfl⟩ := exec_schemaResolvers_eq_ok_iff.1 (Prod.ext htable' rfl)
  obtain ⟨d, hd⟩ := scripted_operations.exec_of_exec scripted_operations (fun _ h => h) h.sound
    hown hown'
  have happend : exec ((ops ++ ops').mapM w.catalog.operationResolvers) w.cache =
      (.ok (own ++ own'), d) := by
    rw [List.mapM_append, exec_bind_ok hown, exec_bind_ok hd, exec_pure]
  rw [← RootKind.merge_append, exec_eq_run]
  exact congrArg Prod.fst (exec_schemaResolvers_eq_ok_iff.2 ⟨_, happend, rfl⟩)

/-- The resolvers of several operations are merged by one rule, and those of two lists of operations
are merged by the same rule. -/
theorem Reachable.schemaResolvers_merge (h : w.Reachable) (kind : RootKind) :
    (∀ ops table, (w.run (·.schemaResolvers kind ops)).1 = .ok table →
      ∃ own, List.Forall₂ w.Own ops own ∧ table = kind.merge own ∧ kind.Merged own table) ∧
    ∀ ops ops' table table', (w.run (·.schemaResolvers kind ops)).1 = .ok table →
      (w.run (·.schemaResolvers kind ops')).1 = .ok table' →
      ∃ joined, (w.run (·.schemaResolvers kind (ops ++ ops'))).1 = .ok joined ∧
        joined = kind.merge [table, table'] ∧ kind.Merged [table, table'] joined := by
  refine ⟨fun ops table htable => h.merged_of_schemaResolvers htable, ?_⟩
  intro ops ops' table table' htable htable'
  exact ⟨_, h.schemaResolvers_append htable htable', rfl, RootKind.merged_merge⟩

/-! ## Two operations on dogs -/

/-- The only dog is the puppy. -/
def adopt : Operation where
  models := ["Puppy"]
  resolvers := [("Query", [("dog", fun _ => .str "Bo")])]

/-- There are more dogs, and they have other names. -/
def breed : Operation where
  resolvers := [
    ("Dog", [("name", fun _ => .str "Max")]),
    ("Query", [("dogs", fun _ => .arr []), ("dog", fun _ => .str "Max")])]

theorem schemaResolvers_litter :
    ∃ table table' joined,
      (∃ own, List.Forall₂ litter.Own [adopt] own ∧ RootKind.query.Merged own table) ∧
      (∃ own, List.Forall₂ litter.Own [breed] own ∧ RootKind.query.Merged own table') ∧
      (litter.run (·.schemaResolvers .query [adopt, breed])).1 = .ok joined ∧
      RootKind.query.Merged [table, table'] joined := by
  have reachable : litter.Reachable := (unbroken_of_fresh _).reachable
  have found : litter.catalog.model "Puppy" = .ok puppy := rfl
  have hmodels : litter.catalog.closure puppy = .ok [puppy] := by cbv
  obtain ⟨table, htable⟩ :
      ∃ table, (litter.run (·.schemaResolvers .query [adopt])).1 = .ok table := by
    simp only [exec_eq_run, schemaResolvers_eq, operationResolvers_eq, adopt, List.mapM_cons,
      List.mapM_nil, found, lift_ok_bind, closureResolvers_of_closure hmodels]
    decide +kernel
  obtain ⟨table', htable'⟩ :
      ∃ table, (litter.run (·.schemaResolvers .query [breed])).1 = .ok table := by decide +kernel
  obtain ⟨hmerged, happend⟩ := reachable.schemaResolvers_merge .query
  obtain ⟨own, hown, -, hrule⟩ := hmerged _ _ htable
  obtain ⟨own', hown', -, hrule'⟩ := hmerged _ _ htable'
  obtain ⟨joined, hjoined, -, hrule''⟩ := happend _ _ _ _ htable htable'
  exact ⟨table, table', joined, ⟨own, hown, hrule⟩, ⟨own', hown', hrule'⟩, hjoined, hrule''⟩

end Workspace

end TypedModels
