import Mathlib.Data.List.Nodup
import Mathlib.Logic.Relation
import TypedModels.Model.Compilation
import TypedModels.Proofs.Results

/-!
# The dependency graph of a catalog

A model depends on the registered models whose names it declares. A model is well formed if all of
its dependencies are registered, no two of them share a type, and its own definition compiles
against them. This asks nothing of the dependencies themselves.

## Main definitions

* `Catalog.DependsOn`, `Catalog.Reaches` : direct and indirect dependency.
* `Catalog.ReachesFrom` : what the models with certain names reach.
* `Catalog.Compatible` : names whose models fit into one scope.
* `Catalog.Misfit` : the error of a name that does not fit after others.
* `Catalog.alone` : compiles a model and leaves its dependencies aside.
* `Catalog.WellFormed` : models whose own definition is in order.
-/

namespace TypedModels

namespace Catalog

variable {cat cat' : Catalog} {m d e : Model}

/-- `d` is registered under a name that `m` declares. -/
def DependsOn (cat : Catalog) (m d : Model) : Prop := d ∈ cat.models ∧ d.name ∈ m.dependencies

/-- `d` is `m` itself, or `m` depends on it directly or indirectly. -/
abbrev Reaches (cat : Catalog) : Model → Model → Prop := Relation.ReflTransGen cat.DependsOn

/-- `y` has one of the names, or a model with one of the names depends on it. -/
def ReachesFrom (cat : Catalog) (names : List String) (y : Model) : Prop :=
  ∃ m ∈ cat.models, m.name ∈ names ∧ cat.Reaches m y

/-- The names are registered, and no two different models with such names have one type. -/
structure Compatible (cat : Catalog) (names : List String) : Prop where
  registered : ∀ name ∈ names, name ∈ cat.names
  distinct : ∀ d ∈ cat.models, ∀ e ∈ cat.models, d.name ∈ names → e.name ∈ names →
    d.typeName = e.typeName → d = e

/-- The error of a name that `m` declares after others: it is not registered, or its model has the
type of a different model before. -/
inductive Misfit (cat : Catalog) (m : Model) (before : List String) (name : String) :
    ConfigError → Prop
  | unknown : name ∉ cat.names → Misfit cat m before name (.unknownDependency m.name name)
  | clash {d other : Model} : d ∈ cat.models → d.name = name → other ∈ cat.models →
      other.name ∈ before → other ≠ d → other.typeName = d.typeName →
      Misfit cat m before name (.duplicateDependency m.name d.typeName)

/-- The compiled form of a model, whether its dependencies compile or not. -/
def alone (cat : Catalog) (m : Model) : Except ConfigError Compiled := do
  m.compile (← cat.scope m)

/-- The dependencies of a model are registered, those with one type are one model, and the
definition of the model compiles against them. -/
structure WellFormed (cat : Catalog) (m : Model) : Prop where
  registered : ∀ name ∈ m.dependencies, name ∈ cat.names
  distinct : ∀ d e, cat.DependsOn m d → cat.DependsOn m e → d.typeName = e.typeName → d = e
  compiles : ∀ s, cat.scope m = .ok s → ∃ x, m.compile s = .ok x

/-! ## Names -/

theorem name_mem (h : m ∈ cat.models) : m.name ∈ cat.names := List.mem_map_of_mem h

theorem eq_of_name_eq (hd : d ∈ cat.models) (he : e ∈ cat.models) (h : d.name = e.name) :
    d = e := List.inj_on_of_nodup_map cat.nodup hd he h

theorem Reaches.mem (h : cat.Reaches m d) (hm : m ∈ cat.models) : d ∈ cat.models := by
  induction h with
  | refl => exact hm
  | tail _ hd _ => exact hd.1

theorem ReachesFrom.mem {names : List String} (h : cat.ReachesFrom names d) : d ∈ cat.models := by
  obtain ⟨m, hm, -, hr⟩ := h
  exact Reaches.mem hr hm

theorem ReachesFrom.mono {names names' : List String} (h : cat.ReachesFrom names d)
    (hn : ∀ name ∈ names, name ∈ names') : cat.ReachesFrom names' d := by
  obtain ⟨m, hm, hmem, hr⟩ := h
  exact ⟨m, hm, hn m.name hmem, hr⟩

/-! ## Scopes -/

/-- The map holds the registered models with the given names, by their types. -/
structure Covers (cat : Catalog) (names : List String) (models : OrderedMap Model) : Prop where
  nodup : (OrderedMap.keys models).Nodup
  mem_iff : ∀ t d, (t, d) ∈ models ↔ (d ∈ cat.models ∧ d.name ∈ names) ∧ d.typeName = t

theorem Covers.lookup_iff {names : List String} {models : OrderedMap Model}
    (h : cat.Covers names models) {t : String} :
    models.lookup t = some d ↔ (d ∈ cat.models ∧ d.name ∈ names) ∧ d.typeName = t := by
  rw [OrderedMap.lookup_eq_some_iff h.nodup, h.mem_iff]

theorem covers_nil : cat.Covers [] [] := ⟨List.nodup_nil, by simp⟩

theorem dependency_eq_ok_iff {name : String} :
    cat.dependency m name = .ok d ↔ d ∈ cat.models ∧ d.name = name := by
  rw [← find?_eq_some_iff]
  unfold dependency
  split
  · next h => simp [h]
  · next h => simp [h]

theorem dependency_eq_error_iff {name : String} {e : ConfigError} :
    cat.dependency m name = .error e ↔ name ∉ cat.names ∧ e = .unknownDependency m.name name := by
  rw [← find?_isSome_iff]
  unfold dependency
  cases cat.find? name <;> simp [eq_comm]

/-- A dependency is added under its type, and one that is there already changes nothing. -/
theorem addDependency_eq_ok_iff {models models' : OrderedMap Model} {name : String} :
    cat.addDependency m models name = .ok models' ↔
      ∃ d, (d ∈ cat.models ∧ d.name = name) ∧
        ((∃ o, models.lookup d.typeName = some o ∧ o.name = d.name ∧ models' = models) ∨
          (models.lookup d.typeName = none ∧ models' = OrderedMap.insert d.typeName d models)) := by
  simp only [← find?_eq_some_iff]
  unfold addDependency dependency
  cases cat.find? name with
  | none => simp [bind, Except.bind]
  | some d =>
    simp only [bind, Except.bind, Option.some.injEq, exists_eq_left']
    cases models.lookup d.typeName with
    | none => exact ⟨fun h => by cases h; simp, by rintro (⟨o, h, -⟩ | ⟨-, rfl⟩) <;> trivial⟩
    | some o =>
      by_cases hn : o.name = d.name
      · simp only [hn, if_true]
        exact ⟨fun h => by cases h; simp [hn], by rintro (⟨o, -, -, rfl⟩ | ⟨h, -⟩) <;> trivial⟩
      · simp [hn, throw, throwThe, MonadExceptOf.throw]

/-- Adding a dependency covers one more name. -/
theorem Covers.addDependency {names : List String} {models models' : OrderedMap Model}
    {name : String} (h : cat.Covers names models)
    (ha : cat.addDependency m models name = .ok models') :
    name ∈ cat.names ∧ cat.Covers (names ++ [name]) models' := by
  obtain ⟨d, ⟨hd, rfl⟩, ⟨o, hl, hn, rfl⟩ | ⟨hl, rfl⟩⟩ := addDependency_eq_ok_iff.1 ha
  · refine ⟨name_mem hd, h.nodup, fun t e => ?_⟩
    obtain ⟨⟨ho, hon⟩, -⟩ := h.lookup_iff.1 hl
    obtain rfl := eq_of_name_eq ho hd hn
    rw [h.mem_iff, List.mem_append, List.mem_singleton]
    constructor
    · rintro ⟨⟨he, hen⟩, ht⟩
      exact ⟨⟨he, .inl hen⟩, ht⟩
    · rintro ⟨⟨he, hen | hen⟩, ht⟩
      · exact ⟨⟨he, hen⟩, ht⟩
      · exact ⟨⟨he, hen ▸ hon⟩, ht⟩
  · refine ⟨name_mem hd, OrderedMap.nodup_keys_insert h.nodup, fun t e => ?_⟩
    rw [OrderedMap.insert_of_lookup_eq_none hl, List.mem_append, h.mem_iff, List.mem_append]
    simp only [List.mem_singleton, Prod.mk.injEq]
    constructor
    · rintro (⟨⟨he, hen⟩, ht⟩ | ⟨rfl, rfl⟩)
      · exact ⟨⟨he, .inl hen⟩, ht⟩
      · exact ⟨⟨hd, .inr rfl⟩, rfl⟩
    · rintro ⟨⟨he, hen | hen⟩, ht⟩
      · exact .inl ⟨⟨he, hen⟩, ht⟩
      · obtain rfl := eq_of_name_eq he hd hen
        exact .inr ⟨ht.symm, rfl⟩

/-- A registered dependency can be added unless another model has its type. -/
theorem Covers.exists_addDependency {names : List String} {models : OrderedMap Model}
    (h : cat.Covers names models) (hd : d ∈ cat.models)
    (unique : ∀ e ∈ cat.models, e.name ∈ names → e.typeName = d.typeName → e = d) :
    ∃ models', cat.addDependency m models d.name = .ok models' := by
  cases hl : models.lookup d.typeName with
  | none => exact ⟨_, addDependency_eq_ok_iff.2 ⟨d, ⟨hd, rfl⟩, .inr ⟨hl, rfl⟩⟩⟩
  | some o =>
    obtain ⟨⟨ho, hon⟩, ht⟩ := h.lookup_iff.1 hl
    obtain rfl := unique o ho hon ht
    exact ⟨_, addDependency_eq_ok_iff.2 ⟨o, ⟨hd, rfl⟩, .inl ⟨o, hl, rfl, rfl⟩⟩⟩

theorem Covers.foldlM {names rest : List String} {models models' : OrderedMap Model}
    (h : cat.Covers names models) (hr : rest.foldlM (cat.addDependency m) models = .ok models') :
    (∀ name ∈ rest, name ∈ cat.names) ∧ cat.Covers (names ++ rest) models' := by
  induction rest generalizing names models with
  | nil =>
    cases hr
    exact ⟨by simp, by simpa using h⟩
  | cons name rest ih =>
    rw [List.foldlM_cons] at hr
    obtain ⟨models₁, ha, hr⟩ := bind_eq_ok_iff.1 hr
    obtain ⟨hn, h₁⟩ := h.addDependency ha
    obtain ⟨hrest, h₂⟩ := ih h₁ hr
    exact ⟨List.forall_mem_cons.2 ⟨hn, hrest⟩, by simpa using h₂⟩

theorem Covers.exists_foldlM {names rest : List String} {models : OrderedMap Model}
    (h : cat.Covers names models) (registered : ∀ name ∈ rest, name ∈ cat.names)
    (distinct : ∀ d ∈ cat.models, ∀ e ∈ cat.models, d.name ∈ names ++ rest →
      e.name ∈ names ++ rest → d.typeName = e.typeName → d = e) :
    ∃ models', rest.foldlM (cat.addDependency m) models = .ok models' := by
  induction rest generalizing names models with
  | nil => exact ⟨models, rfl⟩
  | cons name rest ih =>
    obtain ⟨hn, hrest⟩ := List.forall_mem_cons.1 registered
    obtain ⟨d, hd, rfl⟩ := List.mem_map.1 hn
    obtain ⟨models₁, ha⟩ := h.exists_addDependency (m := m) hd fun e he hen =>
      distinct e he d hd (List.mem_append_left _ hen) (by simp)
    obtain ⟨models', hr⟩ := ih (h.addDependency ha).2 hrest (by simpa using distinct)
    refine ⟨models', ?_⟩
    rw [List.foldlM_cons]
    exact bind_eq_ok_iff.2 ⟨models₁, ha, hr⟩

theorem exists_foldlM_iff {names : List String} :
    (∃ models, names.foldlM (cat.addDependency m) [] = .ok models) ↔ cat.Compatible names := by
  constructor
  · rintro ⟨models, h⟩
    obtain ⟨registered, hc⟩ := covers_nil.foldlM h
    refine ⟨registered, fun d hd e he hdn hen ht => ?_⟩
    have hd' := hc.lookup_iff.2 ⟨⟨hd, hdn⟩, ht⟩
    have he' := hc.lookup_iff.2 ⟨⟨he, hen⟩, rfl⟩
    exact Option.some.inj (hd'.symm.trans he')
  · intro h
    exact covers_nil.exists_foldlM h.registered h.distinct

theorem scope_eq_ok_iff {s : Scope} :
    cat.scope m = .ok s ↔ s.owner = m.name ∧
      m.dependencies.foldlM (cat.addDependency m) [] = .ok s.models := by
  obtain ⟨owner, models⟩ := s
  simp only [scope, bind_eq_ok_iff, pure, Except.pure, Except.ok.injEq, Scope.mk.injEq]
  constructor
  · rintro ⟨_, hfold, rfl, rfl⟩
    exact ⟨rfl, hfold⟩
  · rintro ⟨rfl, hfold⟩
    exact ⟨models, hfold, rfl, rfl⟩

theorem covers_of_scope {s : Scope} (h : cat.scope m = .ok s) :
    (∀ name ∈ m.dependencies, name ∈ cat.names) ∧ cat.Covers m.dependencies s.models := by
  simpa using covers_nil.foldlM (scope_eq_ok_iff.1 h).2

/-- A scope holds the dependencies of its model by their types. -/
theorem lookup_scope_iff {s : Scope} (h : cat.scope m = .ok s) {t : String} :
    s.models.lookup t = some d ↔ cat.DependsOn m d ∧ d.typeName = t :=
  (covers_of_scope h).2.lookup_iff

theorem mem_scope_iff {s : Scope} (h : cat.scope m = .ok s) {t : String} :
    (t, d) ∈ s.models ↔ cat.DependsOn m d ∧ d.typeName = t :=
  (covers_of_scope h).2.mem_iff t d

theorem get_eq_ok_iff {s : Scope} (h : cat.scope m = .ok s) {t : String} :
    s.get t = .ok d ↔ cat.DependsOn m d ∧ d.typeName = t := by
  rw [← lookup_scope_iff h, Scope.get]
  cases s.models.lookup t <;> simp

theorem exists_scope_iff_compatible :
    (∃ s, cat.scope m = .ok s) ↔ cat.Compatible m.dependencies := by
  rw [← exists_foldlM_iff (m := m)]
  constructor
  · rintro ⟨s, hs⟩
    exact ⟨s.models, (scope_eq_ok_iff.1 hs).2⟩
  · rintro ⟨models, h⟩
    exact ⟨⟨m.name, models⟩, scope_eq_ok_iff.2 ⟨rfl, h⟩⟩

/-- There is a scope exactly if the dependencies are registered and no two share a type. -/
theorem exists_scope_iff :
    (∃ s, cat.scope m = .ok s) ↔ (∀ name ∈ m.dependencies, name ∈ cat.names) ∧
      ∀ d e, cat.DependsOn m d → cat.DependsOn m e → d.typeName = e.typeName → d = e := by
  rw [exists_scope_iff_compatible]
  constructor
  · intro h
    exact ⟨h.registered, fun d e hd he => h.distinct d hd.1 e he.1 hd.2 he.2⟩
  · rintro ⟨registered, distinct⟩
    exact ⟨registered, fun d hd e he hdn hen => distinct d e ⟨hd, hdn⟩ ⟨he, hen⟩⟩

/-! ## Why there is no scope -/

theorem Covers.addDependency_eq_error_iff {names : List String} {models : OrderedMap Model}
    {name : String} {e : ConfigError} (h : cat.Covers names models) :
    cat.addDependency m models name = .error e ↔ cat.Misfit m names name e := by
  unfold Catalog.addDependency
  simp only [bind_eq_error_iff, dependency_eq_error_iff, dependency_eq_ok_iff]
  constructor
  · rintro (⟨hname, rfl⟩ | ⟨d, ⟨hd, rfl⟩, he⟩)
    · exact .unknown hname
    · split at he
      · next other hother =>
        obtain ⟨⟨hmem, hbefore⟩, ht⟩ := h.lookup_iff.1 hother
        split at he
        · cases he
        · next hne =>
          cases he
          exact .clash hd rfl hmem hbefore (fun heq => hne (congrArg Model.name heq)) ht
      · cases he
  · rintro (hname | ⟨hd, rfl, hmem, hbefore, hne, ht⟩)
    · exact .inl ⟨hname, rfl⟩
    · have hother := h.lookup_iff.2 ⟨⟨hmem, hbefore⟩, ht⟩
      -- Models are compared by their names, which tell registered models apart.
      have hnames : ¬ _ = _ := fun hn => hne (eq_of_name_eq hmem hd hn)
      refine .inr ⟨_, ⟨hd, rfl⟩, ?_⟩
      simp only [hother, if_neg hnames]
      rfl

/-- The first name that does not fit decides the error. -/
theorem scope_eq_error_iff {e : ConfigError} :
    cat.scope m = .error e ↔ ∃ before name after, m.dependencies = before ++ name :: after ∧
      cat.Compatible before ∧ cat.Misfit m before name e := by
  have hfold : cat.scope m = .error e ↔
      m.dependencies.foldlM (cat.addDependency m) [] = .error e := by
    simp [scope, bind_eq_error_iff, pure, Except.pure]
  rw [hfold, foldlM_eq_error_iff]
  constructor
  · rintro ⟨before, name, after, models, hsplit, hmodels, he⟩
    have hcovers := (covers_nil.foldlM hmodels).2
    exact ⟨before, name, after, hsplit, exists_foldlM_iff.1 ⟨models, hmodels⟩,
      hcovers.addDependency_eq_error_iff.1 he⟩
  · rintro ⟨before, name, after, hsplit, hbefore, he⟩
    obtain ⟨models, hmodels⟩ := exists_foldlM_iff.2 hbefore
    have hcovers := (covers_nil.foldlM hmodels).2
    exact ⟨before, name, after, models, hsplit, hmodels, hcovers.addDependency_eq_error_iff.2 he⟩

/-! ## Well-formed models -/

theorem alone_eq_ok_iff {x : Compiled} :
    cat.alone m = .ok x ↔ ∃ s, cat.scope m = .ok s ∧ m.compile s = .ok x := bind_eq_ok_iff

theorem alone_eq_error_iff {e : ConfigError} :
    cat.alone m = .error e ↔
      cat.scope m = .error e ∨ ∃ s, cat.scope m = .ok s ∧ m.compile s = .error e :=
  bind_eq_error_iff

theorem wellFormed_iff : cat.WellFormed m ↔ ∃ x, cat.alone m = .ok x := by
  constructor
  · intro h
    obtain ⟨s, hs⟩ := exists_scope_iff.2 ⟨h.registered, h.distinct⟩
    obtain ⟨x, hx⟩ := h.compiles s hs
    exact ⟨x, alone_eq_ok_iff.2 ⟨s, hs, hx⟩⟩
  · rintro ⟨x, h⟩
    obtain ⟨s, hs, hx⟩ := alone_eq_ok_iff.1 h
    obtain ⟨registered, distinct⟩ := exists_scope_iff.1 ⟨s, hs⟩
    refine ⟨registered, distinct, fun s' hs' => ⟨x, ?_⟩⟩
    rw [hs] at hs'
    cases hs'
    exact hx

theorem not_wellFormed_of_alone {e : ConfigError} (h : cat.alone m = .error e) :
    ¬ cat.WellFormed m := by
  intro hw
  obtain ⟨x, hx⟩ := wellFormed_iff.1 hw
  rw [h] at hx
  cases hx

/-! ## Registration -/

/-- A later catalog finds every model that was registered before. -/
theorem find?_of_register {n : Model} {name : String} (h : cat.register n = .ok cat')
    (hm : cat.find? name = some m) : cat'.find? name = some m := by
  rw [find?_eq_some_iff] at hm ⊢
  rw [(register_eq_ok_iff.1 h).2]
  exact ⟨List.mem_append_left _ hm.1, hm.2⟩

theorem mem_of_register {n : Model} (h : cat.register n = .ok cat') (hm : m ∈ cat.models) :
    m ∈ cat'.models := by
  rw [(register_eq_ok_iff.1 h).2]
  exact List.mem_append_left _ hm

theorem dependsOn_of_register {n : Model} (h : cat.register n = .ok cat')
    (hd : cat.DependsOn m d) : cat'.DependsOn m d := ⟨mem_of_register h hd.1, hd.2⟩

/-- A model whose dependencies are registered gets no new ones. -/
theorem dependsOn_of_register_iff {n : Model} (h : cat.register n = .ok cat')
    (registered : ∀ name ∈ m.dependencies, name ∈ cat.names) :
    cat'.DependsOn m d ↔ cat.DependsOn m d := by
  refine ⟨fun hd => ?_, dependsOn_of_register h⟩
  obtain ⟨d', hd', hn⟩ := List.mem_map.1 (registered d.name hd.2)
  obtain rfl := eq_of_name_eq (mem_of_register h hd') hd.1 hn
  exact ⟨hd', hd.2⟩

theorem addDependency_of_register {n : Model} {models models' : OrderedMap Model} {name : String}
    (h : cat.register n = .ok cat') (ha : cat.addDependency m models name = .ok models') :
    cat'.addDependency m models name = .ok models' := by
  obtain ⟨d, hd, hcase⟩ := addDependency_eq_ok_iff.1 ha
  refine addDependency_eq_ok_iff.2 ⟨d, ?_, hcase⟩
  rw [← find?_eq_some_iff] at hd ⊢
  exact find?_of_register h hd

/-- The scope of a model whose dependencies are registered never changes. -/
theorem scope_of_register {n : Model} {s : Scope} (h : cat.register n = .ok cat')
    (hs : cat.scope m = .ok s) : cat'.scope m = .ok s := by
  obtain ⟨howner, hfold⟩ := scope_eq_ok_iff.1 hs
  refine scope_eq_ok_iff.2 ⟨howner, ?_⟩
  generalize ([] : OrderedMap Model) = start at hfold ⊢
  generalize m.dependencies = names at hfold ⊢
  induction names generalizing start with
  | nil => exact hfold
  | cons name rest ih =>
    rw [List.foldlM_cons] at hfold ⊢
    obtain ⟨models, ha, hfold⟩ := bind_eq_ok_iff.1 hfold
    exact bind_eq_ok_iff.2 ⟨models, addDependency_of_register h ha, ih models hfold⟩

theorem alone_of_register {n : Model} {x : Compiled} (h : cat.register n = .ok cat')
    (hx : cat.alone m = .ok x) : cat'.alone m = .ok x := by
  obtain ⟨s, hs, hc⟩ := alone_eq_ok_iff.1 hx
  exact alone_eq_ok_iff.2 ⟨s, scope_of_register h hs, hc⟩

end Catalog

end TypedModels
