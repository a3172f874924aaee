import TypedModels.Proofs.Freshness
import TypedModels.Proofs.Entries
import TypedModels.Proofs.Preorder
import TypedModels.Proofs.Success

/-!
# Collected resolvers

The resolvers of a closure have one entry for every model that adds something, under the name of its
type and in the order of the closure. So nothing is lost and nothing is overwritten. Where all models
compile, collecting fails exactly if two of them would need the same entry.

## Main definitions

* `Model.contributes` : whether a model adds resolvers.
* `Model.Supplies` : the entry that a model adds.
* `FirstClash` : the first model in a list whose type an earlier one has.
* `Catalog.Collected` : the resolvers of a list of models, by type.
-/

namespace TypedModels

open Catalog Session

namespace Model

/-- A model adds resolvers if it declares some, or if it is an interface. -/
def contributes (m : Model) : Bool :=
  match m.isInterface with
  | .ok true => true
  | _ => !m.resolvers.isEmpty

/-- The entry that a model adds: its resolvers as they are declared, and for an interface also its
discriminator. The discriminator goes to the end, unless its name is declared: then it takes the
place of that resolver. -/
structure Supplies (m : Model) (entry : FieldResolvers) : Prop where
  plain : m.isInterface = .ok false → entry = m.resolvers
  keys : m.isInterface = .ok true → OrderedMap.keys entry =
    if resolveTypeField ∈ OrderedMap.keys m.resolvers then OrderedMap.keys m.resolvers
    else OrderedMap.keys m.resolvers ++ [resolveTypeField]
  declared : m.isInterface = .ok true → ∀ field ≠ resolveTypeField,
    entry.lookup field = m.resolvers.lookup field
  discriminator : m.isInterface = .ok true → ∃ disc, m.resolveType = some disc ∧
    entry.lookup resolveTypeField = some fun props => .str (disc props)

/-- The resolvers that a model adds, as they follow from its declaration. -/
def contributed (m : Model) : FieldResolvers :=
  match m.isInterface, m.resolveType with
  | .ok true, some disc =>
    OrderedMap.insert resolveTypeField (fun props => .str (disc props)) m.resolvers
  | _, _ => m.resolvers

/-- The entry of a model among those that are collected. -/
def entry (m : Model) : String × Contribution :=
  (m.typeName, { model := m.name, resolvers := m.contributed })

end Model

/-- The second model is the first in the list whose type an earlier one has, and the first model is
that earlier one. -/
def FirstClash (models : List Model) (first second : Model) : Prop :=
  ∃ before after, models = before ++ second :: after ∧ first ∈ before ∧
    first.typeName = second.typeName ∧ (before.map (·.typeName)).Nodup

/-- The resolvers of a list of models: one entry for each that adds something, under a type that no
other has, and so a resolver for every field that says it has one. -/
structure Catalog.Collected (cat : Catalog) (models : List Model) (resolvers : ResolverTable) :
    Prop where
  distinct : ((models.filter Model.contributes).map (·.typeName)).Nodup
  keys : OrderedMap.keys resolvers = (models.filter Model.contributes).map (·.typeName)
  entries : ∀ d ∈ models, d.contributes = true →
    ∃ entry, resolvers.lookup d.typeName = some entry ∧ d.Supplies entry
  fields : ∀ d ∈ models, ∀ x, cat.alone d = .ok x → ∀ name f, (name, f) ∈ x.schema.fields →
    f.hasResolver = true → ∃ entry resolver,
      resolvers.lookup d.typeName = some entry ∧ entry.lookup name = some resolver

/-! ## What one model adds -/

section

variable {cat : Catalog} {m : Model} {x : Compiled}

theorem contribution_of_alone (h : cat.alone m = .ok x) : m.contribution x = m.contributed := by
  have hflag := isInterface_of_alone h
  unfold Model.contribution Model.contributed
  rcases dispatch_of_alone h with ⟨hi, hdispatch⟩ | ⟨disc, hi, hdisc, hdispatch⟩
  · simp [hflag, hi, hdispatch]
  · simp [hflag, hi, hdisc, hdispatch]

theorem contributed_eq_nil_iff (h : cat.alone m = .ok x) :
    m.contributed = [] ↔ m.contributes = false := by
  have hflag := isInterface_of_alone h
  unfold Model.contributed Model.contributes
  rcases dispatch_of_alone h with ⟨hi, -⟩ | ⟨disc, hi, hdisc, -⟩
  · simp [hflag, hi]
  · simp [hflag, hi, hdisc, OrderedMap.insert_ne_nil]

theorem supplies_contributed (h : cat.alone m = .ok x) : m.Supplies m.contributed := by
  have hflag := isInterface_of_alone h
  unfold Model.contributed
  rcases dispatch_of_alone h with ⟨hi, -⟩ | ⟨disc, hi, hdisc, -⟩
  · rw [hi] at hflag
    constructor <;> simp [hflag]
  · rw [hi] at hflag
    constructor <;> simp +contextual [hflag, hdisc, OrderedMap.keys_insert, OrderedMap.lookup_insert]

/-- Every declared resolver is there, unless the discriminator has taken its place. -/
theorem exists_lookup_contributed {m : Model} {name : String}
    (hname : m.hasResolver name = true) : ∃ resolver, m.contributed.lookup name = some resolver := by
  obtain ⟨resolver, hresolver⟩ := Option.isSome_iff_exists.1 hname
  unfold Model.contributed
  split
  · rw [OrderedMap.lookup_insert]
    split
    · exact ⟨_, rfl⟩
    · exact ⟨resolver, hresolver⟩
  · exact ⟨resolver, hresolver⟩

end

/-! ## Clashes -/

section

variable {models : List Model} {first second : Model}

/-- Without distinct types there is a first clash. -/
theorem exists_firstClash (h : ¬ (models.map (·.typeName)).Nodup) :
    ∃ first second, FirstClash models first second := by
  induction models using List.reverseRecOn with
  | nil => exact absurd List.nodup_nil h
  | append_singleton models m ih =>
    by_cases hn : (models.map (·.typeName)).Nodup
    · have hmem : m.typeName ∈ models.map (·.typeName) := by
        by_contra hm
        refine h ?_
        rw [List.map_append, List.nodup_append]
        exact ⟨hn, by simp, by grind⟩
      obtain ⟨first, hfirst, htype⟩ := List.mem_map.1 hmem
      exact ⟨first, m, models, [], rfl, hfirst, htype, hn⟩
    · obtain ⟨first, second, before, after, rfl, hclash⟩ := ih hn
      exact ⟨first, second, before, after ++ [m], by simp, hclash⟩

/-- There is a clash exactly if two different models have one type. -/
theorem exists_firstClash_iff (hn : (models.map Model.name).Nodup) :
    (∃ first second, FirstClash models first second) ↔
      ∃ a ∈ models, ∃ b ∈ models, a.name ≠ b.name ∧ a.typeName = b.typeName := by
  constructor
  · rintro ⟨first, second, before, after, rfl, hfirst, htype, -⟩
    refine ⟨first, by simp [hfirst], second, by simp, fun he => ?_, htype⟩
    rw [List.map_append, List.nodup_append] at hn
    exact hn.2.2 _ (List.mem_map_of_mem hfirst) _ (by simp) he
  · rintro ⟨a, ha, b, hb, hne, htype⟩
    refine exists_firstClash fun h => hne ?_
    rw [List.inj_on_of_nodup_map h ha hb htype]

end

/-! ## Collecting -/

/-- Adds the resolvers of one model to those collected. -/
def collect (collected : OrderedMap Contribution) (m : Model) :
    Except ConfigError (OrderedMap Contribution) :=
  if m.contributed.isEmpty then .ok collected
  else
    match collected.lookup m.typeName with
    | some first => .error (.conflictingResolvers m.typeName first.model m.name)
    | none => .ok (OrderedMap.insert m.typeName m.entry.2 collected)

section

variable {models done : List Model} {m first second : Model}

theorem keys_entries : OrderedMap.keys (done.map Model.entry) = done.map (·.typeName) := by
  simp [OrderedMap.keys, Model.entry]

theorem lookup_entries (hn : (done.map (·.typeName)).Nodup) (hm : m ∈ done) :
    (done.map Model.entry).lookup m.typeName = some m.entry.2 :=
  (OrderedMap.lookup_eq_some_iff (keys_entries ▸ hn)).2 (List.mem_map_of_mem hm)

/-- A model is collected if it adds something, as the last one. -/
theorem collect_eq_ok (hm : m.contributed = [] ↔ m.contributes = false)
    (hn : m.contributes = true → m.typeName ∉ done.map (·.typeName)) :
    collect (done.map Model.entry) m = .ok ((done ++ [m].filter Model.contributes).map Model.entry) := by
  unfold collect
  cases hadds : m.contributes with
  | false => simp [hm.2 hadds, hadds]
  | true =>
    have hnone : (done.map Model.entry).lookup m.typeName = none :=
      OrderedMap.lookup_eq_none_iff.2 (keys_entries ▸ hn hadds)
    have hsome : m.contributed ≠ [] := by simp [hm, hadds]
    simp [hadds, hsome, hnone, OrderedMap.insert_of_lookup_eq_none, Model.entry]

/-- Models are collected in order as long as no two that add something have one type. -/
theorem foldlM_collect_eq_ok
    (hmodels : ∀ m ∈ models, m.contributed = [] ↔ m.contributes = false)
    (hn : ((done ++ models.filter Model.contributes).map (·.typeName)).Nodup) :
    models.foldlM collect (done.map Model.entry) =
      .ok ((done ++ models.filter Model.contributes).map Model.entry) := by
  induction models generalizing done with
  | nil => simp [pure, Except.pure]
  | cons m models ih =>
    obtain ⟨hm, hrest⟩ := List.forall_mem_cons.1 hmodels
    have split : (m :: models).filter Model.contributes =
        [m].filter Model.contributes ++ models.filter Model.contributes := by
      rw [← List.filter_append, List.singleton_append]
    rw [split, ← List.append_assoc] at hn ⊢
    have hnew : m.contributes = true → m.typeName ∉ done.map (·.typeName) := by
      intro hadds hmem
      have hfirst : ((done ++ [m]).map (·.typeName)).Nodup := by
        rw [List.filter_cons_of_pos hadds, List.filter_nil, List.map_append] at hn
        exact (List.nodup_append.1 hn).1
      rw [List.map_append, List.nodup_append] at hfirst
      exact hfirst.2.2 _ hmem _ (by simp) rfl
    rw [List.foldlM_cons, collect_eq_ok hm hnew]
    exact ih hrest hn

/-- All models that add something are collected if they have distinct types. -/
theorem foldlM_collect_of_nodup
    (hmodels : ∀ m ∈ models, m.contributed = [] ↔ m.contributes = false)
    (hn : ((models.filter Model.contributes).map (·.typeName)).Nodup) :
    models.foldlM collect [] = .ok ((models.filter Model.contributes).map Model.entry) := by
  have h : models.foldlM collect (([] : List Model).map Model.entry) = _ :=
    foldlM_collect_eq_ok hmodels (by rwa [List.nil_append])
  rwa [List.map_nil, List.nil_append] at h

/-- The first clash decides the error. -/
theorem foldlM_collect_of_firstClash
    (hmodels : ∀ m ∈ models, m.contributed = [] ↔ m.contributes = false)
    (h : FirstClash (models.filter Model.contributes) first second) :
    models.foldlM collect [] =
      .error (.conflictingResolvers second.typeName first.name second.name) := by
  obtain ⟨before, after, hsplit, hfirst, htype, hn⟩ := h
  obtain ⟨early, rest, rfl, hbefore, hrest⟩ := List.filter_eq_append_iff.1 hsplit
  obtain ⟨skipped, late, rfl, hskipped, hadds, -⟩ := List.filter_eq_cons_iff.1 hrest
  have hfilter : (early ++ skipped).filter Model.contributes = before := by
    rw [List.filter_append, hbefore, List.filter_eq_nil_iff.2 hskipped, List.append_nil]
  have hcollected : (early ++ skipped).foldlM collect [] = .ok (before.map Model.entry) := by
    rw [foldlM_collect_of_nodup (fun m hm => hmodels m (by grind)) (by rwa [hfilter]), hfilter]
  have hclash : collect (before.map Model.entry) second =
      .error (.conflictingResolvers second.typeName first.name second.name) := by
    have hsome : second.contributed ≠ [] := by
      rw [ne_eq, hmodels second (by simp), hadds]
      simp
    have hlookup := lookup_entries hn hfirst
    rw [htype] at hlookup
    simp [collect, hsome, hlookup, Model.entry]
  rw [← List.append_assoc, List.foldlM_append, hcollected]
  change (collect (before.map Model.entry) second >>= fun c => late.foldlM collect c) = _
  rw [hclash]
  rfl

/-- Collecting fails exactly at the first clash. -/
theorem foldlM_collect_eq_error_iff {e : ConfigError}
    (hmodels : ∀ m ∈ models, m.contributed = [] ↔ m.contributes = false) :
    models.foldlM collect [] = .error e ↔
      ∃ first second, FirstClash (models.filter Model.contributes) first second ∧
        e = .conflictingResolvers second.typeName first.name second.name := by
  constructor
  · intro h
    have hclash : ¬ ((models.filter Model.contributes).map (·.typeName)).Nodup := by
      intro hn
      rw [foldlM_collect_of_nodup hmodels hn] at h
      cases h
    obtain ⟨first, second, hclash⟩ := exists_firstClash hclash
    rw [foldlM_collect_of_firstClash hmodels hclash] at h
    exact ⟨first, second, hclash, (Except.error.inj h).symm⟩
  · rintro ⟨first, second, hclash, rfl⟩
    exact foldlM_collect_of_firstClash hmodels hclash

/-- Collecting fails exactly if two models that add something have one type. -/
theorem exists_foldlM_collect_eq_error_iff (hnames : (models.map Model.name).Nodup)
    (hmodels : ∀ m ∈ models, m.contributed = [] ↔ m.contributes = false) :
    (∃ e, models.foldlM collect [] = .error e) ↔
      ∃ a ∈ models, ∃ b ∈ models, a.contributes = true ∧ b.contributes = true ∧
        a.name ≠ b.name ∧ a.typeName = b.typeName := by
  have hdistinct : ((models.filter Model.contributes).map Model.name).Nodup :=
    hnames.sublist (List.filter_sublist.map _)
  have clash := exists_firstClash_iff hdistinct
  simp only [List.mem_filter] at clash
  simp only [foldlM_collect_eq_error_iff hmodels]
  constructor
  · rintro ⟨_, first, second, hclash, -⟩
    obtain ⟨a, ⟨ha, hadds⟩, b, ⟨hb, hadds'⟩, hne, htype⟩ := clash.1 ⟨first, second, hclash⟩
    exact ⟨a, ha, b, hb, hadds, hadds', hne, htype⟩
  · rintro ⟨a, ha, b, hb, hadds, hadds', hne, htype⟩
    obtain ⟨first, second, hclash⟩ := clash.2 ⟨a, ⟨ha, hadds⟩, b, ⟨hb, hadds'⟩, hne, htype⟩
    exact ⟨_, first, second, hclash, rfl⟩

end

namespace Catalog

variable {cat : Catalog} {c c' : Cache} {m : Model} {models : List Model}
  {collected result : OrderedMap Contribution}

/-- A model that compiles adds what follows from its declaration. -/
theorem exec_contribute {x : Compiled} (hm : m ∈ cat.models) (hc : cat.Sound c)
    (hx : exec (cat.compiled m) c = (.ok x, c')) :
    exec (cat.contribute collected m) c = (collect collected m, c') := by
  rw [contribute, exec_bind_ok hx, contribution_of_alone (hc.alone_of_compiled hm hx), collect]
  dsimp only
  split
  · rfl
  · cases collected.lookup m.typeName <;> rfl

/-- With nothing left to compile, all models are compiled, and their resolvers are collected. -/
theorem cached_of_exec_contributes (hmodels : ∀ m ∈ models, m ∈ cat.models) (hc : cat.Sound c)
    (h : exec (models.foldlM cat.contribute collected) c = (.ok result, c)) :
    (∀ m ∈ models, Cached c m) ∧ models.foldlM collect collected = .ok result := by
  induction models generalizing collected with
  | nil =>
    cases h
    exact ⟨List.forall_mem_nil _, rfl⟩
  | cons m models ih =>
    obtain ⟨hm, hrest⟩ := List.forall_mem_cons.1 hmodels
    rw [List.foldlM_cons, (scripted_contribute (P := (· ∈ cat.models)) hm).exec_bind_iff
      (S := fun _ => True) (fun _ _ => .foldlM fun _ y hy => scripted_contribute (hrest y hy))
      (fun _ h => h) hc] at h
    obtain ⟨next, hnext, h⟩ := h
    obtain ⟨hcached, hresult⟩ := ih hrest h
    obtain ⟨x, d, hx, -⟩ := exec_bind_eq_ok_iff.1 hnext
    rw [exec_contribute hm hc hx] at hnext
    obtain ⟨hadd, rfl⟩ := Prod.mk.inj hnext
    refine ⟨List.forall_mem_cons.2 ⟨⟨x, (fills_of_compiled_ok hm hx).2⟩, hcached⟩, ?_⟩
    rw [List.foldlM_cons, hadd]
    exact hresult

/-- Where all models compile, collecting is all that can fail. -/
theorem exec_contributes (hmodels : ∀ m ∈ models, m ∈ cat.models) (hc : cat.Sound c)
    (hcompiles : ∀ m ∈ models, ∀ d, cat.Sound d → (∀ y, Cached c y → Cached d y) →
      ∃ x d', exec (cat.compiled m) d = (.ok x, d')) :
    (exec (models.foldlM cat.contribute collected) c).1 = models.foldlM collect collected := by
  induction models generalizing c collected with
  | nil => rfl
  | cons m models ih =>
    obtain ⟨hm, hrest⟩ := List.forall_mem_cons.1 hmodels
    obtain ⟨hcompile, hlater⟩ := List.forall_mem_cons.1 hcompiles
    obtain ⟨x, c', hx⟩ := hcompile c hc fun _ h => h
    have hgrows := (fills_of_compiled_ok hm hx).1.grows
    rw [List.foldlM_cons, List.foldlM_cons, exec_bind, exec_contribute hm hc hx]
    cases collect collected m with
    | error e => rfl
    | ok next =>
      exact ih hrest (hc.compiled hm hx) fun y hy d hd hcd =>
        hlater y hy d hd fun z hz => hcd z (hz.mono hgrows)

/-- What has been collected has an entry for every model that adds something. -/
theorem collected_of_foldlM (hmodels : ∀ m ∈ models, ∃ x, cat.alone m = .ok x)
    (hresult : models.foldlM collect [] = .ok result) :
    cat.Collected models (result.map fun e => (e.1, e.2.resolvers)) := by
  have hadds : ∀ m ∈ models, m.contributed = [] ↔ m.contributes = false := fun m hm =>
    have ⟨_, hx⟩ := hmodels m hm
    contributed_eq_nil_iff hx
  have distinct : ((models.filter Model.contributes).map (·.typeName)).Nodup := by
    by_contra hn
    obtain ⟨first, second, hclash⟩ := exists_firstClash hn
    rw [foldlM_collect_of_firstClash hadds hclash] at hresult
    cases hresult
  obtain rfl := Except.ok.inj ((foldlM_collect_of_nodup hadds distinct).symm.trans hresult)
  rw [List.map_map]
  have keys : OrderedMap.keys ((models.filter Model.contributes).map
      ((fun e => (e.1, e.2.resolvers)) ∘ Model.entry)) =
      (models.filter Model.contributes).map (·.typeName) := by
    simp [OrderedMap.keys, Model.entry]
  have lookup : ∀ d ∈ models, d.contributes = true → ((models.filter Model.contributes).map
      ((fun e => (e.1, e.2.resolvers)) ∘ Model.entry)).lookup d.typeName = some d.contributed :=
    fun d hd hc => (OrderedMap.lookup_eq_some_iff (keys ▸ distinct)).2
      (List.mem_map.2 ⟨d, List.mem_filter.2 ⟨hd, hc⟩, rfl⟩)
  refine ⟨distinct, keys, fun d hd hc => ?_, fun d hd x hx name f hf hresolver => ?_⟩
  · obtain ⟨x, hx⟩ := hmodels d hd
    exact ⟨_, lookup d hd hc, supplies_contributed hx⟩
  · obtain ⟨rfl, -, _, -, hdeclared⟩ := field_of_alone hx hf
    obtain ⟨resolver, hlookup⟩ := exists_lookup_contributed (hdeclared.resolver ▸ hresolver)
    have hc : d.contributes = true := by
      by_contra hc
      rw [(hadds d hd).2 (by simpa using hc)] at hlookup
      cases hlookup
    exact ⟨_, resolver, lookup d hd hc, hlookup⟩

theorem closureResolvers_of_closure (hmodels : cat.closure m = .ok models) :
    cat.closureResolvers m = (do
      let collected ← models.foldlM cat.contribute []
      return collected.map fun e => (e.1, e.2.resolvers)) := by
  rw [closureResolvers, hmodels, lift_ok_bind]

end Catalog

namespace Workspace

variable {w : Workspace} {m : Model} {models : List Model}

/-- A session that collects the resolvers of a closure has compiled the closure, and the resolvers
are those of all its models. -/
theorem Reachable.collected {resolvers : ResolverTable} (h : w.Reachable)
    (hm : m ∈ w.catalog.models)
    (hresolvers : (w.run (·.closureResolvers m)).1 = .ok resolvers) :
    ∃ models, w.catalog.closure m = .ok models ∧
      (∀ d ∈ models, (w.run (·.closureResolvers m)).2.isCompiled d.name = true) ∧
      w.catalog.Collected models resolvers := by
  have hP : ∀ y, w.catalog.Reaches m y → y ∈ w.catalog.models := fun _ hy => Reaches.mem hy hm
  have hs : w.catalog.Scripted _ _ _ _ := scripted_closureResolvers hm
  obtain ⟨hexec, hc, -⟩ := h.settled hs hP hresolvers
  obtain ⟨models, _, hclosure, hexec⟩ := exec_bind_eq_ok_iff.1 hexec
  obtain ⟨hmodels, rfl⟩ := Prod.mk.inj hclosure
  have member := mem_models_of_closure hm hmodels
  obtain ⟨result, _, hresult, hexec⟩ := exec_bind_eq_ok_iff.1 hexec
  cases hexec
  obtain ⟨hcached, hresult⟩ := cached_of_exec_contributes member hc hresult
  refine ⟨models, hmodels, fun d hd => isCompiled_iff.2 (hcached d hd), ?_⟩
  refine collected_of_foldlM (fun d hd => ?_) hresult
  obtain ⟨x, hx⟩ := hcached d hd
  exact ⟨x, hc.alone (member d hd) hx⟩

/-- Where all models of a closure compile, the session fails exactly as collecting does. -/
theorem Reachable.closureResolvers_eq_error_iff {e : ConfigError} (h : w.Reachable)
    (hm : m ∈ w.catalog.models) (hmodels : w.catalog.closure m = .ok models)
    (hcompiles : ∀ d ∈ models, ∃ x, (w.run (·.compiled d)).1 = .ok x) :
    (w.run (·.closureResolvers m)).1 = .error e ↔ models.foldlM collect [] = .error e := by
  have member := mem_models_of_closure hm hmodels
  -- What compiles now compiles after all that is compiled before it.
  have hcollect : (exec (models.foldlM w.catalog.contribute []) w.cache).1 =
      models.foldlM collect [] := by
    refine exec_contributes member h.sound fun d hd c hc hgrows => ?_
    obtain ⟨x, hx⟩ := hcompiles d hd
    have hdm := member d hd
    have hexec : exec (w.catalog.compiled d) w.cache = (.ok x, _) := Prod.ext hx rfl
    exact ⟨x, Extends.exec_compiled (extends_of_compiled hdm hexec) hdm
      (h.sound.compiled hdm hexec) hc hgrows (fills_of_compiled_ok hdm hexec).2⟩
  rw [← hcollect, exec_eq_run, closureResolvers_of_closure hmodels, exec_bind]
  rcases exec (models.foldlM w.catalog.contribute []) w.cache with ⟨_ | _, _⟩ <;> simp

/-- Nothing is lost and nothing is overwritten when the resolvers of a closure are collected, and
every model of it is compiled then. Where all of them compile, two models that both add something to
one type are the only thing that can go wrong, and the first clash is reported. -/
theorem Reachable.closureResolvers_lossless (h : w.Reachable) (hm : m ∈ w.catalog.models) :
    (∀ resolvers, (w.run (·.closureResolvers m)).1 = .ok resolvers →
      ∃ models, w.catalog.closure m = .ok models ∧
        (∀ d ∈ models, (w.run (·.closureResolvers m)).2.isCompiled d.name = true) ∧
        w.catalog.Collected models resolvers) ∧
    ∀ models, w.catalog.closure m = .ok models →
      (∀ d ∈ models, ∃ x, (w.run (·.compiled d)).1 = .ok x) →
      (∀ e, (w.run (·.closureResolvers m)).1 = .error e ↔
        ∃ first second, FirstClash (models.filter Model.contributes) first second ∧
          e = .conflictingResolvers second.typeName first.name second.name) ∧
      ((∃ e, (w.run (·.closureResolvers m)).1 = .error e) ↔
        ∃ a ∈ models, ∃ b ∈ models, a.contributes = true ∧ b.contributes = true ∧
          a.name ≠ b.name ∧ a.typeName = b.typeName) := by
  refine ⟨fun resolvers hresolvers => h.collected hm hresolvers, fun models hmodels hcompiles => ?_⟩
  have hadds : ∀ d ∈ models, d.contributed = [] ↔ d.contributes = false := by
    intro d hd
    obtain ⟨x, hx⟩ := hcompiles d hd
    have hdm := mem_models_of_closure hm hmodels d hd
    exact contributed_eq_nil_iff (h.sound.alone_of_compiled hdm (Prod.ext hx rfl))
  have hnames : (models.map Model.name).Nodup :=
    (nodup_names_of_walk w.catalog.nodup hmodels).1
  simp only [h.closureResolvers_eq_error_iff hm hmodels hcompiles]
  exact ⟨fun _ => foldlM_collect_eq_error_iff hadds,
    exists_foldlM_collect_eq_error_iff hnames hadds⟩

/-! ## One type for two models -/

def pedigree : Source where
  document := ⟨[.object { name := "Dog", fields := [{ name := "name", type := .named "String" }] }]⟩

/-- A dog that is called Rex, with a puppy. -/
def hound : Model where
  name := "Hound"
  typeName := "Dog"
  schema := pedigree
  dependencies := ["Puppy"]
  resolvers := [("name", fun _ => .str "Rex")]

/-- A puppy is a dog too, but is called Bo. -/
def puppy : Model where
  name := "Puppy"
  typeName := "Dog"
  schema := pedigree
  resolvers := [("name", fun _ => .str "Bo")]

def litter : Workspace where
  catalog := { models := [hound, puppy], nodup := by decide }

theorem closureResolvers_litter :
    (∃ resolvers, (litter.run (·.closureResolvers puppy)).1 = .ok resolvers ∧
      ∃ models, litter.catalog.closure puppy = .ok models ∧
        litter.catalog.Collected models resolvers) ∧
    (litter.run (·.closureResolvers hound)).1 =
      .error (.conflictingResolvers "Dog" "Hound" "Puppy") := by
  have reachable : litter.Reachable := (unbroken_of_fresh _).reachable
  have hpuppy : puppy ∈ litter.catalog.models := by simp [litter]
  have hhound : hound ∈ litter.catalog.models := by simp [litter]
  constructor
  · have hmodels : litter.catalog.closure puppy = .ok [puppy] := by cbv
    obtain ⟨resolvers, hresolvers⟩ :
        ∃ resolvers, (litter.run (·.closureResolvers puppy)).1 = .ok resolvers := by
      rw [exec_eq_run, closureResolvers_of_closure hmodels]
      decide +kernel
    obtain ⟨models, hmodels, -, hcollected⟩ :=
      (reachable.closureResolvers_lossless hpuppy).1 resolvers hresolvers
    exact ⟨resolvers, hresolvers, models, hmodels, hcollected⟩
  · have hmodels : litter.catalog.closure hound = .ok [hound, puppy] := by cbv
    have hcompiles : ∀ d ∈ [hound, puppy], ∃ x, (litter.run (·.compiled d)).1 = .ok x := by
      decide +kernel
    have hclash : FirstClash ([hound, puppy].filter Model.contributes) hound puppy :=
      ⟨[hound], [], rfl, List.mem_cons_self, rfl, by simp⟩
    exact (((reachable.closureResolvers_lossless hhound).2 _ hmodels hcompiles).1 _).2
      ⟨hound, puppy, hclash, rfl⟩

end Workspace

end TypedModels
