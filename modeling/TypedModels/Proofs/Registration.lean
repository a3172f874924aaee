import TypedModels.Proofs.Contract
import TypedModels.Proofs.History

/-!
# What a registration changes

A model is resolved if it has a closure, that is if everything it depends on is registered. Later
registrations cannot change what a resolved model is, not even if they add a model for a type that
it uses: its dependencies are found by their names, and those are taken. So every question about a
resolved model has the same answer as before, be it a success or an error, and fills the cache in
the same way.

## Main definitions

* `Catalog.Resolved` : everything that the model reaches finds its dependencies.
* `Workspace.Alike` : a question with the same answer in two workspaces.
* `Workspace.SameAnswers` : all questions about a model.
* `Workspace.Grown` : further registrations.
-/

namespace TypedModels

namespace Catalog

open Session

variable {cat cat' : Catalog} {m n d : Model} {pending : List String} {props : Value}

/-! ## Resolved models -/

/-- The model is registered, and all models that it reaches have registered dependencies. -/
structure Resolved (cat : Catalog) (m : Model) : Prop where
  mem : m ∈ cat.models
  registered : ∀ y, cat.Reaches m y → ∀ name ∈ y.dependencies, name ∈ cat.names

theorem resolved_of_closure {ms : List Model} (hm : m ∈ cat.models) (h : cat.closure m = .ok ms) :
    cat.Resolved m := ⟨hm, (exists_closure_iff hm).1 ⟨ms, h⟩⟩

namespace Resolved

theorem dependencies (h : cat.Resolved m) : ∀ name ∈ m.dependencies, name ∈ cat.names :=
  h.registered m .refl

theorem reaches (h : cat.Resolved m) (hr : cat.Reaches m d) : cat.Resolved d :=
  ⟨hr.mem h.mem, fun y hy => h.registered y (hr.trans hy)⟩

theorem dependsOn (h : cat.Resolved m) (hd : cat.DependsOn m d) : cat.Resolved d :=
  h.reaches (.single hd)

/-- Looking up a type in the scope of a resolved model finds a resolved one. -/
theorem agree_get {s : Scope} (h : cat.Resolved m) (hs : cat.scope m = .ok s) (t : String) :
    cat.Agree cat.Resolved (liftM (s.get t) : Session ConfigError Model) (liftM (s.get t)) :=
  .lift fun _ hd => h.dependsOn ((get_eq_ok_iff hs).1 hd).1

end Resolved

/-! ## Names -/

section

variable (h : cat.register n = .ok cat')

include h

theorem names_of_register : cat'.names = cat.names ++ [n.name] := by
  rw [names, (register_eq_ok_iff.1 h).2, List.map_append]
  rfl

theorem name_ne_of_register (hm : m ∈ cat.models) : m.name ≠ n.name :=
  fun hn => (register_eq_ok_iff.1 h).1 (hn ▸ name_mem hm)

theorem mem_append_name_iff (hm : m ∈ cat.models) :
    m.name ∈ pending ++ [n.name] ↔ m.name ∈ pending := by
  simp [name_ne_of_register h hm]

theorem find?_eq_of_register {name : String} (hname : name ∈ cat.names) :
    cat'.find? name = cat.find? name := by
  obtain ⟨d, hd⟩ := Option.isSome_iff_exists.1 (find?_isSome_iff.2 hname)
  rw [hd]
  exact find?_of_register h hd

theorem model_eq_of_register {name : String} (hname : name ∈ cat.names) :
    cat'.model name = cat.model name := by
  rw [model, model, find?_eq_of_register h hname]

theorem dependency_eq_of_register {name : String} (hname : name ∈ cat.names) :
    cat'.dependency m name = cat.dependency m name := by
  rw [dependency, dependency, find?_eq_of_register h hname]

/-- A resolved model gets no new dependencies. -/
theorem Resolved.of_register (hm : cat.Resolved m) : cat'.Resolved m := by
  have old : ∀ y, cat'.Reaches m y → cat.Reaches m y := by
    intro y hy
    induction hy with
    | refl => exact .refl
    | tail _ hd ih => exact ih.tail ((dependsOn_of_register_iff h (hm.registered _ ih)).1 hd)
  refine ⟨mem_of_register h hm.mem, fun y hy name hname => ?_⟩
  rw [names_of_register h]
  exact List.mem_append_left _ (hm.registered y (old y hy) name hname)

theorem dependenciesOf_eq_of_register (hm : cat.Resolved m) :
    cat'.dependenciesOf m = cat.dependenciesOf m :=
  mapM_congr fun _ hname => dependency_eq_of_register h (hm.dependencies _ hname)

theorem addDependency_eq_of_register {models : OrderedMap Model} {name : String}
    (hname : name ∈ cat.names) :
    cat'.addDependency m models name = cat.addDependency m models name := by
  rw [addDependency, addDependency, dependency_eq_of_register h hname]

/-- The scope of a resolved model stays what it is, and so does the reason for having none. -/
theorem scope_eq_of_register (hm : cat.Resolved m) : cat'.scope m = cat.scope m := by
  have registered := hm.dependencies
  rw [scope, scope]
  congr 1
  generalize ([] : OrderedMap Model) = models
  generalize m.dependencies = names at registered
  induction names generalizing models with
  | nil => rfl
  | cons name names ih =>
    obtain ⟨hname, hrest⟩ := List.forall_mem_cons.1 registered
    rw [List.foldlM_cons, List.foldlM_cons, addDependency_eq_of_register h hname]
    congr 1
    funext models
    exact ih models hrest

/-! ## The closure -/

/-- A walk over resolved models does not visit the new one. -/
theorem walk_of_register {stack : List Model} (hstack : ∀ s ∈ stack, cat.Resolved s) :
    cat'.walk (pending ++ [n.name]) stack = cat.walk pending stack := by
  induction pending, stack using walk.induct with
  | case1 pending => rw [walk_nil, walk_nil]
  | case2 pending m rest hp ih =>
    obtain ⟨hm, hrest⟩ := List.forall_mem_cons.1 hstack
    rw [walk_cons_of_mem hp, walk_cons_of_mem (List.mem_append_left _ hp),
      dependenciesOf_eq_of_register h hm, List.erase_append_left _ hp]
    cases hdeps : cat.dependenciesOf m with
    | error e => rfl
    | ok dependencies =>
      have resolved : ∀ s ∈ dependencies ++ rest, cat.Resolved s := by
        intro s hs
        rcases List.mem_append.1 hs with hs | hs
        · exact hm.dependsOn ((mem_dependenciesOf_iff hdeps).1 hs)
        · exact hrest s hs
      change (do return m :: (← cat'.walk (pending.erase m.name ++ [n.name]) (dependencies ++ rest)))
        = _
      rw [ih dependencies resolved]
      rfl
  | case3 pending m rest hp ih =>
    obtain ⟨hm, hrest⟩ := List.forall_mem_cons.1 hstack
    have hp' : m.name ∉ pending ++ [n.name] := mt (mem_append_name_iff h hm.mem).1 hp
    rw [walk_cons_of_notMem hp, walk_cons_of_notMem hp', ih hrest]

theorem closure_of_register (hm : cat.Resolved m) : cat'.closure m = cat.closure m := by
  rw [closure, closure, names_of_register h]
  exact walk_of_register h (by simpa using hm)

theorem closureSources_of_register (hm : cat.Resolved m) :
    cat'.closureSources m = cat.closureSources m := by
  rw [closureSources, closureSources, closure_of_register h hm]

/-! ## Compilation -/

theorem compileEntries_of_register {entries : OrderedMap Model}
    (hentries : ∀ d ∈ entries, d.2 ∈ cat.models)
    (each : ∀ d ∈ entries, ∀ hp : d.2.name ∈ pending,
      cat'.compilePending (pending ++ [n.name]) d.2 (List.mem_append_left _ hp) =
        cat.compilePending pending d.2 hp) :
    cat'.compileEntries (pending ++ [n.name]) entries = cat.compileEntries pending entries := by
  apply Session.ext
  intro c
  induction entries generalizing c with
  | nil => rw [exec_compileEntries_nil, exec_compileEntries_nil]
  | cons d entries ih =>
    obtain ⟨t, d⟩ := d
    obtain ⟨hd, hrest⟩ := List.forall_mem_cons.1 hentries
    obtain ⟨hfirst, heach⟩ := List.forall_mem_cons.1 each
    rw [exec_compileEntries_cons, exec_compileEntries_cons]
    by_cases hp : d.name ∈ pending
    · rw [dif_pos hp, dif_pos (List.mem_append_left _ hp), hfirst hp]
      simp only [ih hrest heach]
    · rw [dif_neg hp, dif_neg (mt (mem_append_name_iff h hd).1 hp), ih hrest heach]

/-- The new model may be entered, but a resolved one does not get to it. -/
theorem compilePending_of_register {pending : List String} {m : Model} (hm : cat.Resolved m)
    (hp : m.name ∈ pending) :
    cat'.compilePending (pending ++ [n.name]) m (List.mem_append_left _ hp) =
      cat.compilePending pending m hp := by
  rw [compilePending_eq, compilePending_eq, scope_eq_of_register h hm, List.erase_append_left _ hp]
  cases hs : cat.scope m with
  | error e => rfl
  | ok s =>
    simp only [lift_ok_bind]
    rw [compileEntries_of_register h]
    · intro d hd
      exact ((mem_scope_iff hs).1 hd).1.1
    · intro d hd hdp
      exact compilePending_of_register (hm.dependsOn ((mem_scope_iff hs).1 hd).1) hdp
termination_by pending.length
decreasing_by
  have := List.length_erase_of_mem hp
  have := List.length_pos_of_mem hp
  omega

theorem compiled_of_register (hm : cat.Resolved m) : cat'.compiled m = cat.compiled m := by
  rw [compiled_eq hm.mem, compiled, names_of_register h,
    dif_pos (List.mem_append_left _ (name_mem hm.mem))]
  exact compilePending_of_register h hm _

/-! ## Operations -/

theorem agree_compiled (hm : cat.Resolved m) :
    cat.Agree (fun x => cat.alone m = .ok x) (cat.compiled m) (cat'.compiled m) := by
  rw [compiled_of_register h hm]
  exact ⟨ensures_compiled hm.mem fun _ _ _ _ => trivial, fun _ _ => rfl⟩

/-- A compiled model holds the names of dependencies, so it does not pick the new model. -/
theorem picked_of_register {x : Compiled} (hx : cat.alone m = .ok x) :
    cat'.picked m x props = cat.picked m x props := by
  unfold picked
  cases x.dispatch with
  | concrete => rfl
  | interface discriminator =>
    dsimp only
    cases hname : x.dependencies.lookup (discriminator props) with
    | none => rfl
    | some name =>
      obtain ⟨d, hd, -, rfl⟩ := (lookup_dependencies_iff hx).1 hname
      exact model_eq_of_register h (name_mem hd.1)

theorem agree_implementation (hm : cat.Resolved m) :
    cat.Agree cat.Resolved (cat.implementation m props) (cat'.implementation m props) := by
  rw [implementation_eq, implementation_eq]
  apply (agree_compiled h hm).bind
  intro x hx
  rw [picked_of_register h hx]
  apply Agree.lift
  intro d hd
  obtain ⟨-, _, -, hdep, -⟩ := (picked_eq_ok_iff hx).1 hd
  exact hm.dependsOn hdep

theorem agree_scope (hm : cat.Resolved m) :
    cat.Agree (fun s => cat.scope m = .ok s) (liftM (cat.scope m) : Session ConfigError Scope)
      (liftM (cat'.scope m)) := by
  rw [scope_eq_of_register h hm]
  exact .lift fun _ hs => hs

theorem agree_validate (m : Model) (props : Value) (hm : cat.Resolved m) :
    cat.Agree (fun _ => True) (cat.validate m props) (cat'.validate m props) := by
  rw [validate_eq, validate_eq]
  refine (agree_compiled h hm).bind fun x _ => (agree_scope h hm).bind fun s hs => ?_
  apply Agree.compositional.schema
  intro entry _ e he
  apply Agree.compositional.report
  · intro t _ _
    exact (hm.agree_get hs t).bind fun d hd => agree_validate d e hd
  · intro t _ _
    apply (hm.agree_get hs t).bind
    intro i hi
    exact (agree_implementation h hi).bind fun d hd => agree_validate d e hd
termination_by props.depth

theorem agree_isValid (hm : cat.Resolved m) :
    cat.Agree (fun _ => True) (cat.isValid m props) (cat'.isValid m props) :=
  (agree_validate h m props hm).bind fun _ _ => .pure trivial

theorem agree_concreteModel (hm : cat.Resolved m) :
    cat.Agree cat.Resolved (cat.concreteModel m props) (cat'.concreteModel m props) := by
  apply (agree_compiled h hm).bind
  intro x _
  split
  · exact agree_implementation h hm
  · exact .pure hm

theorem agree_instantiate (m : Model) (props : Value) (hm : cat.Resolved m) :
    cat.Agree (fun _ => True) (cat.instantiate m props) (cat'.instantiate m props) := by
  rw [instantiate_eq, instantiate_eq]
  apply (agree_validate h m props hm).adapt.bind
  intro errors _
  split
  · apply (agree_compiled h hm).adapt.bind
    intro x _
    apply (agree_scope h hm).adapt.bind
    intro s hs
    refine (Agree.compositional.slots _ _ _ _ (fun t => (hm.agree_get hs t).adapt) fun d hd e he => ?_).bind
      fun _ _ => .pure trivial
    exact (agree_concreteModel h hd).adapt.bind fun y hy => agree_instantiate y e hy
  · exact .throw _
termination_by props.depth

theorem agree_cast (hm : cat.Resolved m) :
    cat.Agree (fun _ => True) (cat.cast m props) (cat'.cast m props) :=
  (agree_concreteModel h hm).adapt.bind fun d hd => agree_instantiate h d props hd

theorem agree_contribute {collected : OrderedMap Contribution} (hm : cat.Resolved m) :
    cat.Agree (fun _ => True) (cat.contribute collected m) (cat'.contribute collected m) := by
  apply (agree_compiled h hm).bind
  intro x _
  dsimp only
  split
  · exact .pure trivial
  · split
    · exact .throw _
    · exact .pure trivial

theorem agree_closureResolvers (hm : cat.Resolved m) :
    cat.Agree (fun _ => True) (cat.closureResolvers m) (cat'.closureResolvers m) := by
  rw [closureResolvers, closureResolvers, closure_of_register h hm]
  have closure : cat.Agree (fun ms => cat.closure m = .ok ms)
      (liftM (cat.closure m) : Session ConfigError (List Model)) (liftM (cat.closure m)) :=
    .lift fun _ hms => hms
  apply closure.bind
  intro ms hms
  refine (Agree.compositional.foldlM fun collected y hy => ?_).bind fun _ _ => .pure trivial
  exact agree_contribute h (hm.reaches ((mem_closure_iff hm.mem hms).1 hy))

end

end Catalog

/-! ## Workspaces -/

namespace Workspace

open Catalog Session

variable {w w' w'' : Workspace} {m n : Model}

/-- A question has the same answer in both workspaces, and leaves them with the same cache. -/
structure Alike {ε α : Type} (w w' : Workspace) (question : Catalog → Session ε α) : Prop where
  answer : (w'.run question).1 = (w.run question).1
  cache : (w'.run question).2.cache = (w.run question).2.cache

/-- All that can be asked about a model has the same answer in both workspaces. -/
structure SameAnswers (w w' : Workspace) (m : Model) : Prop where
  closure : w'.catalog.closure m = w.catalog.closure m
  closureSources : w'.catalog.closureSources m = w.catalog.closureSources m
  closureResolvers : w.Alike w' (·.closureResolvers m)
  compiled : w.Alike w' (·.compiled m)
  validate : ∀ props, w.Alike w' (·.validate m props)
  isValid : ∀ props, w.Alike w' (·.isValid m props)
  implementation : ∀ props, w.Alike w' (·.implementation m props)
  instantiate : ∀ props, w.Alike w' (·.instantiate m props)
  cast : ∀ props, w.Alike w' (·.cast m props)

theorem Alike.refl {ε α : Type} {question : Catalog → Session ε α} : w.Alike w question :=
  ⟨rfl, rfl⟩

theorem Alike.trans {ε α : Type} {question : Catalog → Session ε α} (h : w.Alike w' question)
    (g : w'.Alike w'' question) : w.Alike w'' question :=
  ⟨g.answer.trans h.answer, g.cache.trans h.cache⟩

theorem SameAnswers.refl : w.SameAnswers w m :=
  ⟨rfl, rfl, .refl, .refl, fun _ => .refl, fun _ => .refl, fun _ => .refl, fun _ => .refl,
    fun _ => .refl⟩

theorem SameAnswers.trans (h : w.SameAnswers w' m) (g : w'.SameAnswers w'' m) :
    w.SameAnswers w'' m where
  closure := g.closure.trans h.closure
  closureSources := g.closureSources.trans h.closureSources
  closureResolvers := h.closureResolvers.trans g.closureResolvers
  compiled := h.compiled.trans g.compiled
  validate props := (h.validate props).trans (g.validate props)
  isValid props := (h.isValid props).trans (g.isValid props)
  implementation props := (h.implementation props).trans (g.implementation props)
  instantiate props := (h.instantiate props).trans (g.instantiate props)
  cast props := (h.cast props).trans (g.cast props)

theorem exists_register (hn : n.name ∉ w.catalog.names) : ∃ w', w.register n = .ok w' := by
  have h : ∃ cat', w.catalog.register n = .ok cat' := ⟨_, dif_neg hn⟩
  obtain ⟨cat', h⟩ := h
  exact ⟨{ catalog := cat', cache := w.cache }, register_eq_ok_iff.2 ⟨h, rfl⟩⟩

theorem register_of_mem (hn : n.name ∈ w.catalog.names) :
    w.register n = .error (.duplicateModel n.name) := by
  rw [register, Catalog.register, dif_pos hn]
  rfl

theorem Reachable.alike {ε α : Type} {R : α → Prop} {question : Catalog → Session ε α}
    (hw : w.Reachable) (hcache : w'.cache = w.cache)
    (h : w.catalog.Agree R (question w.catalog) (question w'.catalog)) : w.Alike w' question := by
  have same := h.exec_eq w.cache hw.sound
  constructor
  · rw [exec_eq_run, exec_eq_run, hcache, same]
  · rw [exec_eq_run, exec_eq_run, hcache, same]

theorem Reachable.sameAnswers (hw : w.Reachable) (hr : w.register n = .ok w')
    (hm : w.catalog.Resolved m) : w.SameAnswers w' m := by
  obtain ⟨h, hcache⟩ := register_eq_ok_iff.1 hr
  constructor
  case closure => exact closure_of_register h hm
  case closureSources => exact closureSources_of_register h hm
  case closureResolvers => exact hw.alike hcache (agree_closureResolvers h hm)
  case compiled => exact hw.alike hcache (agree_compiled h hm)
  case validate => exact fun props => hw.alike hcache (agree_validate h m props hm)
  case isValid => exact fun _ => hw.alike hcache (agree_isValid h hm)
  case implementation => exact fun _ => hw.alike hcache (agree_implementation h hm)
  case instantiate => exact fun props => hw.alike hcache (agree_instantiate h m props hm)
  case cast => exact fun _ => hw.alike hcache (agree_cast h hm)

/-- Further models have been registered, and nothing else. -/
abbrev Grown : Workspace → Workspace → Prop :=
  Relation.ReflTransGen fun w w' => ∃ n, w.register n = .ok w'

/-- However many models are registered, the answers about a resolved model stay the same. -/
theorem Reachable.sameAnswers_of_grown (hw : w.Reachable) (hm : w.catalog.Resolved m)
    (h : Grown w w') : w.SameAnswers w' m := by
  have run : (w'.Reachable ∧ w'.catalog.Resolved m) ∧ w.SameAnswers w' m := by
    induction h with
    | refl => exact ⟨⟨hw, hm⟩, .refl⟩
    | tail _ hr ih =>
      obtain ⟨n, hr⟩ := hr
      obtain ⟨⟨hw', hm'⟩, same⟩ := ih
      have hcat := (register_eq_ok_iff.1 hr).1
      exact ⟨⟨hw'.register hr, .of_register hcat hm'⟩, same.trans (hw'.sameAnswers hr hm')⟩
  exact run.2

/-- Registering a model adds it to the models and changes no answer about a model that has a closure.
A registration that is rejected changes nothing at all. -/
theorem Reachable.enroll_keeps_answers (hw : w.Reachable) (n : Model) :
    (n.name ∉ w.catalog.names → ∃ w', (enroll n).run w = (.ok ⟨⟩, w') ∧
      (w'.catalog.models = w.catalog.models ++ [n] ∧ w'.cache = w.cache) ∧
      ∀ m ∈ w.catalog.models, (∃ ms, w.catalog.closure m = .ok ms) → w.SameAnswers w' m) ∧
    (n.name ∈ w.catalog.names → (enroll n).run w = (.error (.duplicateModel n.name), w)) := by
  constructor
  · intro hn
    obtain ⟨w', hr⟩ := exists_register hn
    obtain ⟨hcat, hcache⟩ := register_eq_ok_iff.1 hr
    refine ⟨w', by rw [run_enroll, hr], ⟨(Catalog.register_eq_ok_iff.1 hcat).2, hcache⟩, ?_⟩
    rintro m hm ⟨ms, hms⟩
    exact hw.sameAnswers hr (resolved_of_closure hm hms)
  · intro hn
    rw [run_enroll, register_of_mem hn]

/-! ## A substitute in an orchestra -/

def score : Source where
  document := ⟨[
    .object { name := "Concert", fields := [
      { name := "soloists", type := .list (.named "Musician") }] },
    .interface { name := "Musician", fields := [{ name := "name", type := .named "String" }] },
    .object { name := "Pianist", fields := [{ name := "name", type := .named "String" }] }]⟩

def concert : Model := { name := "Concert", schema := score, dependencies := ["Musician"] }

/-- All musicians are pianists. -/
def musician : Model where
  name := "Musician"
  schema := score
  dependencies := ["Pianist"]
  resolveType := some fun _ => "Pianist"

def pianist : Model := { name := "Pianist", schema := score }

/-- A second model for pianists. -/
def substitute : Model := { name := "Substitute", typeName := "Pianist", schema := score }

/-- The musician has been asked for, but the concert has not. -/
def season : Workspace :=
  Workspace.after { catalog := { models := [concert, musician, pianist], nodup := by decide } }
    (.compile "Musician")

/-- A concert with one soloist. -/
def recital : Value := .obj [("soloists", .arr [.obj [("name", .str "Clara")]])]

theorem enroll_keeps_answers_season :
    (∃ w', (enroll substitute).run season = (.ok ⟨⟩, w') ∧
      (w'.run (·.isValid concert recital)).1 = .ok true) ∧
    (enroll pianist).run season = (.error (.duplicateModel "Pianist"), season) := by
  have reachable : season.Reachable := (unbroken_of_fresh _).reachable.call _
  have hconcert : concert ∈ season.catalog.models := List.mem_cons_self
  have closure : season.catalog.closure concert = .ok [concert, musician, pianist] := by
    change Catalog.closure { models := [concert, musician, pianist], nodup := _ } concert = _
    cbv
  have valid : (season.run (·.isValid concert recital)).1 = .ok true := by decide +kernel
  obtain ⟨w', hrun, -, same⟩ := (reachable.enroll_keeps_answers substitute).1 (by decide)
  refine ⟨⟨w', hrun, ?_⟩, (reachable.enroll_keeps_answers pianist).2 (by decide)⟩
  rw [((same concert hconcert ⟨_, closure⟩).isValid recital).answer, valid]

end Workspace

end TypedModels
