import TypedModels.Proofs.Coverage

/-!
# When failures last

A compilation that fails leaves behind what it compiled on the way. In a cycle of different models
this may be a model that was waiting for the one at fault. It counts as compiled from then on, and
the models that depend on it compile although the fault is still there.

Where no two different models depend on each other this cannot happen, and a failure lasts whatever
is asked in between. Every other graph of dependencies has models for which a failure is lost.

## Main definitions

* `Catalog.Untangled` : a model that reaches no cycle of different models.
* `Catalog.graph` : the models and their dependencies by name.
* `Catalog.hollow` : models that have nothing but dependencies, with a fault in one of them.
-/

namespace TypedModels

open Catalog Session

namespace Catalog

variable {cat cat' : Catalog} {c : Cache} {m d a b : Model}

/-- No two different models that `m` reaches depend on each other. -/
def Untangled (cat : Catalog) (m : Model) : Prop :=
  ∀ a b, cat.Reaches m a → cat.Reaches a b → cat.Reaches b a → a = b

theorem Untangled.dependsOn (h : cat.Untangled m) (hd : cat.DependsOn m d) : cat.Untangled d :=
  fun a b ha => h a b (.head hd ha)

theorem Untangled.of_register {n : Model} (hr : cat.register n = .ok cat')
    (h : cat'.Untangled m) : cat.Untangled m := by
  have lift : ∀ {a b}, cat.Reaches a b → cat'.Reaches a b :=
    fun h => h.lift id fun _ _ => dependsOn_of_register hr
  exact fun a b ha hab hba => h a b (lift ha) (lift hab) (lift hba)

end Catalog

namespace Workspace

variable {w : Workspace} {m d : Model} {e : ConfigError}

/-- In every workspace the cache is closed under dependency as far as models are untangled. -/
theorem Reachable.closed (h : w.Reachable) : w.catalog.Closed w.catalog.Untangled w.cache := by
  induction h with
  | empty => exact closed_nil
  | register hw hr ih =>
    obtain ⟨hcat, hcache⟩ := register_eq_ok_iff.1 hr
    exact hcache ▸ ih.of_register hw.sound hcat fun y => Untangled.of_register hcat
  | call call hw ih =>
    refine ih.fills (fun _ h => h) (fun y d hU hd _ hr => ?_) (hw.fills call)
    exact (hU y d .refl (.single hd) hr).symm

/-- An untangled model that reaches a fault is never compiled. -/
theorem Reachable.not_cached (h : w.Reachable) (hm : m ∈ w.catalog.models)
    (hU : w.catalog.Untangled m) (hd : w.catalog.Reaches m d) (hfault : ¬ w.catalog.WellFormed d) :
    ¬ Cached w.cache m := by
  intro hc
  have := h.closed.cached (fun _ _ => Untangled.dependsOn) hm hU hc hd
  exact hfault (h.sound.wellFormed (Reaches.mem hd hm) this)

theorem Reachable.grows (h : w.Reachable) (calls : List Call) :
    w.cache <+: (w.afterAll calls).cache := by
  induction calls generalizing w with
  | nil => exact List.prefix_rfl
  | cons call calls ih => exact (h.fills call).grows.trans (ih (h.call call))

/-- An untangled model that is stuck is still stuck after any requests. -/
theorem Reachable.stuck (h : w.Reachable) (hm : m ∈ w.catalog.models)
    (hU : w.catalog.Untangled m) (hs : w.catalog.Stuck w.cache w.catalog.names m e)
    (calls : List Call) : w.catalog.Stuck (w.afterAll calls).cache w.catalog.names m e := by
  refine hs.of_grows (h.grows calls) (name_mem hm) fun y hy ⟨z, hz, hfault⟩ => ?_
  have hlater := h.afterAll calls
  have hcat : (w.afterAll calls).catalog = w.catalog := afterAll_catalog
  have hUy : w.catalog.Untangled y := fun a b ha => hU a b (hy.trans ha)
  rw [← hcat] at hm hy hUy hz hfault
  exact hlater.not_cached (Reaches.mem hy hm) hUy hz hfault

/-- The failure of an untangled model lasts, whatever is asked in between. -/
theorem Reachable.fails_again (h : w.Reachable) (hm : m ∈ w.catalog.models)
    (hU : w.catalog.Untangled m) (he : (w.run (·.compiled m)).1 = .error e) (calls : List Call) :
    (((w.run (·.compiled m)).2.afterAll calls).run (·.compiled m)).1 = .error e := by
  have hfirst : (w.run (·.compiled m)).2.Reachable := after_compile hm ▸ h.call _
  have hs := (fills_of_compiled_error hm (Prod.ext he rfl)).2
  have hlast := hfirst.stuck hm hU hs calls
  have hcat : ((w.run (·.compiled m)).2.afterAll calls).catalog = w.catalog := afterAll_catalog
  rw [exec_eq_run, hcat]
  exact congrArg Prod.fst (hlast.exec_compiled hm)

end Workspace

/-! ## Graphs -/

/-- The models and their registered dependencies, by name. -/
def Catalog.graph (cat : Catalog) : List (String × List String) :=
  cat.models.map fun m => (m.name, m.dependencies.filter (· ∈ cat.names))

namespace Catalog

variable {cat cat' : Catalog} {m d a b : Model}

theorem names_eq_graph : cat.names = cat.graph.map (·.1) := by
  simp [names, graph, Function.comp_def]

/-- Two catalogs with one graph have the same dependencies. -/
theorem dependsOn_of_graph_eq {m' : Model} (h : cat.graph = cat'.graph) (hm : m ∈ cat.models)
    (hm' : m' ∈ cat'.models) (hn : m.name = m'.name) (hd : cat.DependsOn m d) :
    ∃ d', d.name = d'.name ∧ cat'.DependsOn m' d' := by
  have hnames : cat.names = cat'.names := by rw [names_eq_graph, names_eq_graph, h]
  have hentry : (m.name, m.dependencies.filter (· ∈ cat.names)) ∈ cat'.graph :=
    h ▸ List.mem_map_of_mem hm
  obtain ⟨y, hy, he⟩ := List.mem_map.1 hentry
  obtain ⟨hyn, hdeps⟩ := Prod.mk.inj he
  obtain rfl := eq_of_name_eq hy hm' (hyn.trans hn)
  have hdn : d.name ∈ y.dependencies.filter (· ∈ cat'.names) := by
    rw [hdeps]
    simpa using ⟨hd.2, name_mem hd.1⟩
  obtain ⟨hdn, hreg⟩ := List.mem_filter.1 hdn
  obtain ⟨d', hd', hn'⟩ := List.mem_map.1 (of_decide_eq_true hreg)
  exact ⟨d', hn'.symm, hd', hn' ▸ hdn⟩

theorem reaches_of_graph_eq {m' : Model} (h : cat.graph = cat'.graph) (hm : m ∈ cat.models)
    (hm' : m' ∈ cat'.models) (hn : m.name = m'.name) (hr : cat.Reaches m d) :
    ∃ d', d.name = d'.name ∧ cat'.Reaches m' d' := by
  induction hr with
  | refl => exact ⟨m', hn, .refl⟩
  | tail hmb hbd ih =>
    obtain ⟨b', hb, hmb'⟩ := ih
    obtain ⟨d', hd, hbd'⟩ := dependsOn_of_graph_eq h (Reaches.mem hmb hm) (hmb'.mem hm') hb hbd
    exact ⟨d', hd, hmb'.tail hbd'⟩

/-- What an untangled model reaches is untangled in every catalog with the graph. -/
theorem Untangled.of_graph_eq {m' : Model} (h : cat.graph = cat'.graph) (hm : m ∈ cat.models)
    (hm' : m' ∈ cat'.models) (hd : cat.Reaches m d) (hn : d.name = m'.name)
    (hU : cat.Untangled m) : cat'.Untangled m' := by
  intro a' b' ha' hab' hba'
  have hd' := Reaches.mem hd hm
  have hamem := Reaches.mem ha' hm'
  obtain ⟨a, han, ha⟩ := reaches_of_graph_eq h.symm hm' hd' hn.symm ha'
  obtain ⟨b, hbn, hab⟩ := reaches_of_graph_eq h.symm hamem (Reaches.mem ha hd') han hab'
  obtain ⟨c, hcn, hbc⟩ := reaches_of_graph_eq h.symm (Reaches.mem hab' hamem)
    (Reaches.mem hab (Reaches.mem ha hd')) hbn hba'
  obtain rfl : c = a := eq_of_name_eq (Reaches.mem hbc (Reaches.mem hab (Reaches.mem ha hd')))
    (Reaches.mem ha hd') (hcn.symm.trans han)
  obtain rfl := hU c b (hd.trans ha) hab hbc
  exact eq_of_name_eq hamem (Reaches.mem hab' hamem) (han.trans hbn.symm)

end Catalog

/-! ## Hollow models -/

/-- A model that has nothing but the given dependencies. If its name is `fault`, it has no
definition either. -/
def Model.hollow (names : List String) (fault : String) (m : Model) : Model where
  name := m.name
  dependencies := m.dependencies.filter (· ∈ names)
  schema := if m.name = fault then {} else { document := ⟨[.object { name := m.name }]⟩ }

namespace Catalog

variable {cat : Catalog} {fault : String} {c : Cache} {m d a b : Model}

/-- Hollow models with the same graph. -/
def hollow (cat : Catalog) (fault : String) : Catalog where
  models := cat.models.map (Model.hollow cat.names fault)
  nodup := by
    rw [List.map_map]
    exact cat.nodup

theorem names_hollow : (cat.hollow fault).names = cat.names := by
  simp [names, hollow, Model.hollow, Function.comp_def]

theorem graph_hollow : (cat.hollow fault).graph = cat.graph := by
  rw [graph, names_hollow]
  simp [graph, hollow, Model.hollow, Function.comp_def]

theorem DependsOn.hollow (h : cat.DependsOn m d) :
    (cat.hollow fault).DependsOn (m.hollow cat.names fault) (d.hollow cat.names fault) :=
  ⟨List.mem_map_of_mem h.1,
    List.mem_filter.2 ⟨h.2, decide_eq_true (show d.name ∈ cat.names from name_mem h.1)⟩⟩

theorem exists_scope_hollow (cat : Catalog) (fault : String) (m : Model) :
    ∃ s, (cat.hollow fault).scope (m.hollow cat.names fault) = .ok s := by
  refine exists_scope_iff.2 ⟨fun name hname => ?_, ?_⟩
  · rw [names_hollow]
    exact of_decide_eq_true (List.mem_filter.1 hname).2
  · rintro d e ⟨hd, -⟩ ⟨he, -⟩ ht
    obtain ⟨d, -, rfl⟩ := List.mem_map.1 hd
    obtain ⟨e, -, rfl⟩ := List.mem_map.1 he
    exact eq_of_name_eq hd he ht

theorem definitionNamed_hollow {names : List String} :
    (m.hollow names fault).schema.document.definitionNamed m.name =
      if m.name = fault then .error (.unknownTypeDefinition m.name)
      else .ok ({ name := m.name }, false) := by
  unfold Model.hollow
  by_cases h : m.name = fault
  · rw [if_pos h, if_pos h]
    rfl
  · rw [if_neg h, if_neg h]
    simp [Document.definitionNamed, Document.typeDefs, Definition.body?, Definition.isInterface]

theorem not_wellFormed_hollow (m : Model) :
    ¬ (cat.hollow m.name).WellFormed (m.hollow cat.names m.name) := by
  intro h
  obtain ⟨s, hs⟩ := exists_scope_hollow cat m.name m
  obtain ⟨x, hx⟩ := h.compiles s hs
  obtain ⟨shape, _, _, hshape, -⟩ := compile_eq_ok_iff.1 hx
  obtain ⟨body, _, hbody, -⟩ := shapeOf_eq_ok_iff.1 hshape
  have := hbody.symm.trans definitionNamed_hollow
  rw [if_pos rfl] at this
  cases this

theorem wellFormed_hollow (hne : m.name ≠ fault) :
    (cat.hollow fault).WellFormed (m.hollow cat.names fault) := by
  obtain ⟨s, hs⟩ := exists_scope_hollow cat fault m
  refine wellFormed_iff.2 ⟨_, alone_eq_ok_iff.2 ⟨s, hs, compile_eq_ok_iff.2
    ⟨⟨m.name, [], false⟩, .concrete, ⟨m.name, [], false⟩, ?_, rfl, rfl, rfl⟩⟩⟩
  refine shapeOf_eq_ok_iff.2 ⟨{ name := m.name }, [], ?_, rfl, rfl, rfl⟩
  exact definitionNamed_hollow.trans (if_neg hne)

/-- A path that ends in another model gets there from another model. -/
theorem exists_prev (hr : cat.Reaches b a) (hne : b ≠ a) :
    ∃ p, p ≠ a ∧ cat.Reaches b p ∧ cat.DependsOn p a := by
  induction hr with
  | refl => exact absurd rfl hne
  | @tail p a hbp hpa ih =>
    by_cases h : p = a
    · subst h
      exact ih hne
    · exact ⟨p, h, hbp, hpa⟩

/-- A model that is the only one at fault leaves all its other dependencies compiled. -/
theorem cached_of_compiled_error {c' : Cache} {e : ConfigError} {s : Scope} (hm : m ∈ cat.models)
    (hs : cat.scope m = .ok s) (hothers : ∀ y, cat.Reaches m y → y ≠ m → cat.WellFormed y)
    (he : exec (cat.compiled m) c = (.error e, c')) (hd : cat.DependsOn m d) (hne : d ≠ m) :
    Cached c' d := by
  have others : ∀ y, y ∈ cat.models → y.name ∈ cat.names.erase m.name → y ≠ m := by
    rintro y - hy rfl
    exact (cat.nodup.mem_erase_iff.1 hy).1 rfl
  cases (fills_of_compiled_error hm he).2 with
  | scope _ hs' => rw [hs] at hs'; cases hs'
  | dependency _ hs' hsplit _ hp hstuck =>
    obtain ⟨y, ⟨hy, hyp⟩, hfault⟩ := hstuck.exists_alone hp
    have hr := Relation.ReflTransGen.head (dependsOn_of_scope_append hs' hsplit) hy
    exact absurd (hothers y hr (others y (Reaches.mem hr hm) hyp)) (not_wellFormed_of_alone hfault)
  | definition _ hs' hpass _ =>
    have hentry := (mem_scope_iff hs' (t := d.typeName)).2 ⟨hd, rfl⟩
    have hname : d.name ≠ m.name := fun h => hne (eq_of_name_eq hd.1 hm h)
    exact hpass _ hentry ((List.mem_erase_of_ne hname).2 (name_mem hd.1))

end Catalog

namespace Workspace

variable {cat : Catalog} {a b : Model}

/-- Where two different models depend on each other, a failure of either can be lost. The fault is
in a model that depends on it directly: compiling that one makes the difference. -/
theorem exists_lost_failure (hne : a ≠ b) (hab : cat.Reaches a b)
    (hba : cat.Reaches b a) :
    ∃ w : Workspace, w.Reachable ∧ w.catalog.graph = cat.graph ∧
      ∃ m ∈ w.catalog.models, m.name = a.name ∧ ∃ e, (w.run (·.compiled m)).1 = .error e ∧
        ∃ calls x, (((w.run (·.compiled m)).2.afterAll calls).run (·.compiled m)).1 = .ok x := by
  obtain ⟨p, hpa, hbp, hdep⟩ := exists_prev hba hne.symm
  have hp : p ∈ cat.models := Reaches.mem (hab.trans hbp) hdep.1
  set cat' := cat.hollow p.name
  set a' := a.hollow cat.names p.name
  set p' := p.hollow cat.names p.name
  have hp' : p' ∈ cat'.models := List.mem_map_of_mem hp
  have hdep' : cat'.DependsOn p' a' := hdep.hollow
  have hne' : a' ≠ p' := by
    intro h
    have hname : a'.name = p'.name := by rw [h]
    exact hpa (eq_of_name_eq hdep.1 hp hname).symm
  have hfault : ¬ cat'.WellFormed p' := not_wellFormed_hollow p
  have hothers : ∀ y ∈ cat'.models, y ≠ p' → cat'.WellFormed y := by
    intro y hy hyp
    obtain ⟨z, hz, rfl⟩ := List.mem_map.1 hy
    exact wellFormed_hollow fun h => hyp (by rw [eq_of_name_eq hz hp h])
  have hreach : cat'.Reaches a' p' :=
    (hab.trans hbp).lift (Model.hollow cat.names p.name) fun _ _ => DependsOn.hollow
  -- The model fails first, because the fault is within its reach.
  rcases h₁ : exec (cat'.compiled a') [] with ⟨e₁ | x₁, c₁⟩
  case ok =>
    have hc := closed_nil.cached_of_compiled hdep'.1 h₁ hreach
    exact absurd ((sound_nil.compiled hdep'.1 h₁).wellFormed hp' hc) hfault
  have hs := sound_nil.compiled hdep'.1 h₁
  -- Then the one at fault fails, but the model is compiled on the way.
  rcases h₂ : exec (cat'.compiled p') c₁ with ⟨e₂ | x₂, c₂⟩
  case ok => exact absurd (wellFormed_iff.2 ⟨x₂, hs.alone_of_compiled hp' h₂⟩) hfault
  obtain ⟨s, hscope⟩ := exists_scope_hollow cat p.name p
  obtain ⟨x, hx⟩ := cached_of_compiled_error hp' hscope
    (fun y hy => hothers y (Reaches.mem hy hp')) h₂ hdep' hne'
  refine ⟨{ catalog := cat' }, (unbroken_of_fresh cat').reachable, graph_hollow, a', hdep'.1, rfl,
    e₁, congrArg Prod.fst h₁, [.compile p'.name], x, ?_⟩
  have left₁ : (({ catalog := cat' } : Workspace).run (·.compiled a')).2 =
      { catalog := cat', cache := c₁ } := by rw [exec_eq_run, h₁]
  have left₂ : ({ catalog := cat', cache := c₁ } : Workspace).after (.compile p'.name) =
      { catalog := cat', cache := c₂ } := by rw [after_compile hp', exec_eq_run, h₂]
  rw [left₁, afterAll, List.foldl_cons, List.foldl_nil, left₂, exec_eq_run]
  exact congrArg Prod.fst (exec_compiled_of_cached hdep'.1 hx)

/-- The failures of all that a model reaches last, whatever is asked in between, exactly if it
reaches no cycle of different models. This is as much as the graph of dependencies says. -/
theorem failures_last_iff_untangled {m : Model} (hm : m ∈ cat.models) :
    cat.Untangled m ↔ ∀ w : Workspace, w.Reachable → w.catalog.graph = cat.graph →
      ∀ y ∈ w.catalog.models, (∃ d, cat.Reaches m d ∧ d.name = y.name) →
        ∀ e, (w.run (·.compiled y)).1 = .error e →
          ∀ calls, (((w.run (·.compiled y)).2.afterAll calls).run (·.compiled y)).1 = .error e := by
  constructor
  · rintro hU w hw hgraph y hy ⟨d, hd, hn⟩ e he calls
    exact hw.fails_again hy (hU.of_graph_eq hgraph.symm hm hy hd hn) he calls
  · intro hlast a b ha hab hba
    by_contra hne
    obtain ⟨w, hw, hgraph, y, hy, hn, e, he, calls, x, hx⟩ := exists_lost_failure hne hab hba
    rw [hlast w hw hgraph y hy ⟨a, ha, hn.symm⟩ e he calls] at hx
    cases hx

/-! ## A lost failure -/

def poultry : Source where
  document := ⟨[
    .object { name := "Chicken", fields := [{ name := "egg", type := .named "Egg" }] },
    .interface { name := "Egg", fields := [{ name := "chicken", type := .named "Chicken" }] }]⟩

def chicken : Model := { name := "Chicken", schema := poultry, dependencies := ["Egg"] }

/-- An interface that does not say how it picks an implementation. -/
def egg : Model := { name := "Egg", schema := poultry, dependencies := ["Chicken"] }

def henhouse : Workspace where
  catalog := { models := [chicken, egg], nodup := by decide }

/-- Failures do not last in general. The chicken fails because of the egg. When the egg itself is
asked for, it fails as well, but the chicken is compiled on the way. -/
theorem not_failures_last : ¬ ∀ w : Workspace, w.Reachable → ∀ m ∈ w.catalog.models,
    ∀ e, (w.run (·.compiled m)).1 = .error e →
      ∀ calls, (((w.run (·.compiled m)).2.afterAll calls).run (·.compiled m)).1 = .error e := by
  intro h
  have fails : (henhouse.run (·.compiled chicken)).1 = .error (.missingDiscriminator "Egg") := by
    decide +kernel
  have succeeds : (((henhouse.run (·.compiled chicken)).2.afterAll [.compile "Egg"]).run
      (·.compiled chicken)).1.isOk = true := by decide +kernel
  have lasts := h henhouse (unbroken_of_fresh _).reachable chicken List.mem_cons_self _ fails
    [.compile "Egg"]
  rw [lasts] at succeeds
  cases succeeds

/-- An interface that depends on itself alone. -/
def person : Model where
  name := "Person"
  schema := { document := ⟨[
    .interface { name := "Person", fields := [{ name := "friend", type := .named "Person" }] }]⟩ }
  dependencies := ["Person"]

def society : Workspace where
  catalog := { models := [person], nodup := by decide }

theorem failures_last_society :
    person ∈ society.catalog.models ∧ ∀ calls,
      (((society.run (·.compiled person)).2.afterAll calls).run (·.compiled person)).1 =
        .error (.missingDiscriminator "Person") := by
  have hm : person ∈ society.catalog.models := List.mem_cons_self
  have untangled : society.catalog.Untangled person := fun a b ha hab _ => by
    have ha' : a ∈ [person] := Reaches.mem ha hm
    have hb' : b ∈ [person] := Reaches.mem hab ha'
    rw [List.mem_singleton.1 ha', List.mem_singleton.1 hb']
  have reachable : society.Reachable := (unbroken_of_fresh _).reachable
  exact ⟨hm, (failures_last_iff_untangled hm).1 untangled society reachable rfl person hm
    ⟨person, .refl, rfl⟩ _ (by decide +kernel)⟩

end Workspace

end TypedModels
