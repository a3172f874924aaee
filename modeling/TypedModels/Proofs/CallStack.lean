import Mathlib.Logic.Function.Iterate
import TypedModels.Proofs.Persistence
import TypedModels.Proofs.Thread

/-!
# The compile stack

A call on a model comes to what the compilation of the model comes to when it may enter the models
that are not on the stack. So it returns, however the models depend on each other, and leaves the
stack as it was.

## Main definitions

* `Catalog.free` : the models that are not on the stack.
* `Catalog.Leads` : a thread goes on, and gets back to the calls that were waiting before.
-/

namespace TypedModels

open Session

/-- What a call does after it has gone through the dependencies of its model. -/
def Control.afterWalk (m : Model) (s : Scope) : Except ConfigError PUnit → Control
  | .ok _ => .ready m s
  | .error e => .returned m (.error e)

namespace Catalog

/-- The names of the models that are not on the stack. -/
def free (cat : Catalog) (stack : List String) : List String := cat.names.filter (· ∉ stack)

/-- The thread goes on until the same calls are waiting as before. -/
def Leads (cat : Catalog) (t : Thread) (stack : List String) (control : Control) (c : Cache) :
    Prop :=
  ∃ built, Relation.ReflTransGen cat.Step t { t with stack, control, cache := c, built }

variable {cat : Catalog} {t u : Thread} {stack S : List String} {name : String} {m d : Model}
  {s : Scope} {c : Cache} {control : Control}

theorem mem_free_iff : name ∈ cat.free stack ↔ name ∈ cat.names ∧ name ∉ stack := by
  simp [free]

theorem free_nil : cat.free [] = cat.names := by
  simp [free]

/-- With nothing on the stack, all models may be entered. -/
theorem compilePending_free_nil (hm : m ∈ cat.models) (h : m.name ∈ cat.free []) :
    cat.compilePending (cat.free []) m h = cat.compiled m := by
  rw [compiled_eq hm]
  congr 1
  exact free_nil

theorem erase_free : (cat.free stack).erase name = cat.free (name :: stack) := by
  have hn : (cat.free stack).Nodup := cat.nodup.filter _
  rw [hn.erase_eq_filter, free, free, List.filter_filter]
  refine List.filter_congr fun n _ => ?_
  by_cases h : n = name <;> simp [h]

theorem length_free_lt (h : name ∈ cat.free stack) :
    (cat.free (name :: stack)).length < (cat.free stack).length := by
  rw [← erase_free, List.length_erase_of_mem h]
  have := List.length_pos_of_mem h
  omega

/-! ## From call to return -/

namespace Leads

variable {stack' : List String} {control' : Control} {c' : Cache} {n : String}
  {rest : OrderedMap Model} {e : ConfigError} {x : Compiled}

theorem trans (h : cat.Leads t stack control c)
    (h' : ∀ built, cat.Leads { t with stack, control, cache := c, built } stack' control' c') :
    cat.Leads t stack' control' c' := by
  obtain ⟨built, hsteps⟩ := h
  obtain ⟨built', hsteps'⟩ := h' built
  exact ⟨built', hsteps.trans hsteps'⟩

/-- A dependency is called, and its call succeeds. -/
theorem resume (hc : t.control = .walking ⟨m, s, (n, d) :: rest⟩) (hd : d.name ∉ t.stack)
    (h : cat.Leads { t with control := .asked d, frames := ⟨m, s, rest⟩ :: t.frames } t.stack
      (.returned d (.ok x)) c) : cat.Leads t t.stack (.walking ⟨m, s, rest⟩) c := by
  obtain ⟨built, hsteps⟩ := h
  exact ⟨built, .head (.call hc hd) (hsteps.tail (.resume rfl rfl))⟩

/-- A dependency is called, and its call fails. -/
theorem unwind (hc : t.control = .walking ⟨m, s, (n, d) :: rest⟩) (hd : d.name ∉ t.stack)
    (h : cat.Leads { t with control := .asked d, frames := ⟨m, s, rest⟩ :: t.frames } t.stack
      (.returned d (.error e)) c) :
    cat.Leads t (t.stack.erase m.name) (.returned m (.error e)) c := by
  obtain ⟨built, hsteps⟩ := h
  refine ⟨built, .head (.call hc hd) (hsteps.tail ?_)⟩
  let failed : Thread := { t with
    control := .returned d (.error e), cache := c, built, frames := ⟨m, s, rest⟩ :: t.frames }
  exact .unwind (t := failed) rfl rfl

end Leads

/-- A call comes to what the compilation of its model comes to. -/
def Returns (cat : Catalog) (S : List String) (m : Model) (h : m.name ∈ cat.free S) : Prop :=
  ∀ t : Thread, t.stack = S → t.control = .asked m →
    cat.Leads t S (.returned m (exec (cat.compilePending (cat.free S) m h) t.cache).1)
      (exec (cat.compilePending (cat.free S) m h) t.cache).2

/-- A call that goes through dependencies calls those that are not on the stack, one after the
other, up to the first failure. Either way its model is taken off the stack. -/
theorem leads_of_walking {entries : OrderedMap Model} (hc : t.control = .walking ⟨m, s, entries⟩)
    (hentries : ∀ d ∈ entries, d.2 ∈ cat.models)
    (each : ∀ d ∈ entries, ∀ h : d.2.name ∈ cat.free t.stack, cat.Returns t.stack d.2 h) :
    cat.Leads t (t.stack.erase m.name)
      (.afterWalk m s (exec (cat.compileEntries (cat.free t.stack) entries) t.cache).1)
      (exec (cat.compileEntries (cat.free t.stack) entries) t.cache).2 := by
  induction entries generalizing t with
  | nil => exact ⟨t.built, .single (.leave hc)⟩
  | cons entry rest ih =>
    obtain ⟨n, d⟩ := entry
    obtain ⟨hd, hrest⟩ := List.forall_mem_cons.1 hentries
    obtain ⟨here, there⟩ := List.forall_mem_cons.1 each
    rw [exec_compileEntries_cons]
    by_cases hfree : d.name ∈ cat.free t.stack
    · rw [dif_pos hfree]
      have hoff := (mem_free_iff.1 hfree).2
      have hreturn := here hfree
        { t with control := .asked d, frames := ⟨m, s, rest⟩ :: t.frames } rfl rfl
      dsimp only at hreturn
      generalize exec (cat.compilePending (cat.free t.stack) d hfree) t.cache = r at hreturn ⊢
      obtain ⟨e | x, c'⟩ := r
      · exact .unwind hc hoff hreturn
      · exact (Leads.resume hc hoff hreturn).trans fun built =>
          ih (t := { t with control := .walking ⟨m, s, rest⟩, cache := c', built }) rfl hrest there
    · rw [dif_neg hfree]
      have hon : d.name ∈ t.stack := by
        by_contra hoff
        exact hfree (mem_free_iff.2 ⟨name_mem hd, hoff⟩)
      have hskip : cat.Leads t t.stack (.walking ⟨m, s, rest⟩) t.cache :=
        ⟨t.built, .single (.skip hc hon)⟩
      exact hskip.trans fun built =>
        ih (t := { t with control := .walking ⟨m, s, rest⟩, built }) rfl hrest there

/-- Once the dependencies have been dealt with, a call compiles its own model. -/
theorem leads_of_ready (hc : t.control = .ready m s) :
    cat.Leads t t.stack (.returned m (exec (finish m s) t.cache).1)
      (exec (finish m s) t.cache).2 := by
  cases hx : t.cache.lookup m.name with
  | some x =>
    have hfinish : exec (finish m s) t.cache = (.ok x, t.cache) := by
      rw [finish, exec_bind, exec_get]
      simp only [hx, exec_pure]
    rw [hfinish]
    exact ⟨t.built, .single (.found hc hx)⟩
  | none =>
    rw [exec_finish (not_cached_iff.2 hx)]
    cases hm : m.compile s with
    | error e => exact ⟨t.built, .single (.refuse hc hx hm)⟩
    | ok x => exact ⟨m.name :: t.built, .single (.build hc hx hm)⟩

/-- A call returns if the calls that it makes do, which are made with its model on the stack. -/
theorem returns_of_returns {S : List String} (h : m.name ∈ cat.free S)
    (each : ∀ d (hfree : d.name ∈ cat.free (m.name :: S)), cat.Returns (m.name :: S) d hfree) :
    cat.Returns S m h := by
  rintro t rfl hc
  by_cases hcached : Cached t.cache m
  · obtain ⟨x, hx⟩ := hcached
    rw [exec_compilePending_of_cached h hx]
    exact ⟨t.built, .single (.hit hc hx)⟩
  have hnone := not_cached_iff.1 hcached
  cases hs : cat.scope m with
  | error e =>
    rw [exec_compilePending_of_scope_error h hcached hs]
    exact ⟨t.built, .single (.unscoped hc hnone hs)⟩
  | ok s =>
    have henter : cat.Leads t (m.name :: t.stack) (.walking ⟨m, s, s.models⟩) t.cache :=
      ⟨t.built, .single (.enter hc hnone hs)⟩
    refine henter.trans fun built => ?_
    have hwalk := leads_of_walking (t := { t with
      stack := m.name :: t.stack, control := .walking ⟨m, s, s.models⟩, built }) rfl
      (fun d hd => ((mem_scope_iff hs).1 hd).1.1) fun d _ hfree => each d.2 hfree
    rw [List.erase_cons_head, ← erase_free] at hwalk
    dsimp only at hwalk
    rw [exec_compilePending_of_scope h hcached hs, exec_bind]
    generalize exec (cat.compileEntries ((cat.free t.stack).erase m.name) s.models) t.cache = r
      at hwalk ⊢
    obtain ⟨e | ⟨⟩, c'⟩ := r
    · exact hwalk
    · exact hwalk.trans fun built => leads_of_ready rfl

/-- Every call on a model that is not on the stack returns. Each call that is open takes one model
off those that can still be entered. -/
theorem returns {S : List String} {m : Model} (h : m.name ∈ cat.free S) : cat.Returns S m h :=
  returns_of_returns h fun _ hfree => returns hfree
termination_by (cat.free S).length
decreasing_by exact length_free_lt h

/-! ## Runs -/

theorem exists_iterate (h : Relation.ReflTransGen cat.Step t u) : ∃ k, cat.step^[k] t = u := by
  induction h with
  | refl => exact ⟨0, rfl⟩
  | tail _ hstep ih =>
    obtain ⟨k, rfl⟩ := ih
    exact ⟨k + 1, by rw [Function.iterate_succ_apply', hstep.step_eq]⟩

theorem Run.iterate {cat' : Catalog} (h : cat.Run t cat' u) (k : ℕ) :
    cat.Run t cat' (cat'.step^[k] u) := by
  induction k with
  | zero => exact h
  | succ k ih =>
    rw [Function.iterate_succ_apply']
    exact ih.step

/-- What can be seen on a thread on which `S` was on the stack before any call. The stack has no
model twice, and is `S` again where no call is left to return to. There are not more open calls than
models off `S`. A model that is about to be compiled itself is not in the cache, and no model has
been built twice. -/
structure Disciplined (cat : Catalog) (S : List String) (t : Thread) : Prop where
  stack_nodup : t.stack.Nodup
  restored : t.Resting → t.stack = S
  opened_length_le : t.opened.length ≤ cat.models.length - S.length
  not_cached : ∀ m s, t.control = .ready m s → ¬ Cached t.cache m
  built_nodup : t.built.Nodup

theorem Coherent.disciplined (h : cat.Coherent S t) : cat.Disciplined S t where
  stack_nodup := h.stack_nodup
  restored := h.stack_of_resting
  opened_length_le := h.opened_length_le
  not_cached _ _ hc := not_cached_iff.2 (h.lookup_of_ready hc)
  built_nodup := h.built_nodup

/-- From any cache and any stack, a call on a registered model that is not on the stack returns what
compiling the model comes to, and the stack is as it was. The thread is disciplined until then, and
so it is at any time of any run. -/
theorem call_returns {S : List String} (hn : S.Nodup) (hS : ∀ name ∈ S, name ∈ cat.names)
    (c : Cache) :
    (∀ m (hm : m ∈ cat.models) (hoff : m.name ∉ S),
      let asked : Thread := { cache := c, stack := S, control := .asked m }
      let outcome := exec (cat.compilePending (cat.free S) m (mem_free_iff.2 ⟨name_mem hm, hoff⟩)) c
      (∃ k, (cat.step^[k] asked).frames = [] ∧ (cat.step^[k] asked).stack = S ∧
        (cat.step^[k] asked).control = .returned m outcome.1 ∧
        (cat.step^[k] asked).cache = outcome.2) ∧
      ∀ k, cat.Disciplined S (cat.step^[k] asked)) ∧
    ∀ cat' t, cat.Run { cache := c, stack := S } cat' t → cat'.Disciplined S t := by
  have hidle : cat.Coherent S { cache := c, stack := S } := coherent_idle hn hS
  refine ⟨fun m hm hoff => ⟨?_, fun k => ?_⟩, fun cat' t hrun => (hrun.coherent hidle).disciplined⟩
  · have hfree := mem_free_iff.2 ⟨name_mem hm, hoff⟩
    obtain ⟨built, hsteps⟩ :=
      returns hfree { cache := c, stack := S, control := .asked m } rfl rfl
    obtain ⟨k, hk⟩ := exists_iterate hsteps
    refine ⟨k, ?_⟩
    rw [hk]
    exact ⟨rfl, rfl, rfl, rfl⟩
  · have hrun : cat.Run { cache := c, stack := S } cat _ := .ask .refl ⟨rfl, .inl rfl⟩ hm hoff
    exact ((hrun.iterate k).coherent hidle).disciplined

/-- A thread with an empty stack compiles models one after the other. -/
theorem Run.attempts {cat' : Catalog} (h : cat.Run t cat' u) (hrest : u.Resting)
    (hstack : u.stack = [])
    (hc : Relation.ReflTransGen (cat'.Attempts (· ∈ cat'.models)) u.cache c) :
    ∃ v, cat.Run t cat' v ∧ v.Resting ∧ v.stack = [] ∧ v.cache = c := by
  induction hc with
  | refl => exact ⟨u, h, hrest, hstack, rfl⟩
  | tail _ hattempt ih =>
    obtain ⟨v, hv, hrest, hstack, rfl⟩ := ih
    obtain ⟨m, hm, rfl⟩ := hattempt
    have hfree : m.name ∈ cat'.free [] := free_nil ▸ name_mem hm
    obtain ⟨built, hsteps⟩ := returns hfree { v with control := .asked m } hstack rfl
    obtain ⟨k, hk⟩ := exists_iterate hsteps
    have hrun := (hv.ask hrest hm (by simp [hstack])).iterate k
    rw [hk, compilePending_free_nil hm] at hrun
    exact ⟨_, hrun, ⟨hrest.1, .inr ⟨m, _, rfl⟩⟩, rfl, rfl⟩

end Catalog

namespace Workspace

variable {w : Workspace}

open Catalog

/-- Whatever is registered and requested, it could be done on one thread. -/
theorem Reachable.exists_run (h : w.Reachable) :
    ∃ t, Catalog.Run {} {} w.catalog t ∧ t.Resting ∧ t.stack = [] ∧ t.cache = w.cache := by
  induction h with
  | empty => exact ⟨{}, .refl, ⟨rfl, .inl rfl⟩, rfl, rfl⟩
  | register _ hr ih =>
    obtain ⟨t, hrun, hrest, hstack, hcache⟩ := ih
    obtain ⟨hcat, hsame⟩ := register_eq_ok_iff.1 hr
    exact ⟨t, hrun.register hrest hcat, hrest, hstack, hcache.trans hsame.symm⟩
  | call call hw ih =>
    obtain ⟨t, hrun, hrest, hstack, hcache⟩ := ih
    exact hrun.attempts hrest hstack (hcache ▸ call.scripted.attempts (fun _ hm => hm) hw.sound)

/-- While the egg is being compiled, the chicken can be compiled without it. -/
theorem call_returns_henhouse :
    (∃ k, let t := henhouse.catalog.step^[k] { stack := ["Egg"], control := .asked chicken }
      t.frames = [] ∧ t.stack = ["Egg"] ∧ OrderedMap.keys t.cache = ["Chicken"]) ∧
    ∀ cat t, henhouse.catalog.Run { stack := ["Egg"] } cat t → t.built.Nodup := by
  have hS : ∀ name ∈ ["Egg"], name ∈ henhouse.catalog.names := by decide
  obtain ⟨calls, runs⟩ := call_returns (List.nodup_singleton "Egg") hS []
  obtain ⟨⟨k, hframes, hstack, -, hcache⟩, -⟩ := calls chicken List.mem_cons_self (by decide)
  refine ⟨⟨k, hframes, hstack, ?_⟩, fun cat t hrun => (runs cat t hrun).built_nodup⟩
  rw [hcache]
  decide +kernel

end Workspace

end TypedModels
