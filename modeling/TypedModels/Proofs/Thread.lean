import Mathlib.Data.List.Perm.Subperm
import TypedModels.Proofs.History

/-!
# Compiling step by step

The models that are being compiled are kept on a stack, so that none of them is entered again. A
call on a model looks at the cache, pushes the model, calls those of its dependencies that are not
on the stack, one after the other, takes the model off the stack, and then compiles the model
itself. Here every call that is open is a frame of its own, so that one can see what happens in
between.

## Main definitions

* `Thread` : a cache, the stack, and the calls that are open.
* `Catalog.step`, `Catalog.Step` : what the innermost call does next.
* `Catalog.Run` : calls and registrations on one thread.
* `Catalog.Coherent` : what holds of the stack, the open calls and the cache at any time.
-/

namespace TypedModels

/-- A call that goes through the dependencies of its model, which is on the stack meanwhile. -/
structure Frame where
  model : Model
  scope : Scope
  /-- The dependencies that are left. -/
  rest : OrderedMap Model

/-- What the innermost call does next. -/
inductive Control where
  /-- There is no call. -/
  | idle
  /-- It looks at the cache. -/
  | asked (m : Model)
  /-- It comes to the next dependency. -/
  | walking (frame : Frame)
  /-- It compiles the model itself. -/
  | ready (m : Model) (scope : Scope)
  /-- It returns. -/
  | returned (m : Model) (result : Except ConfigError Compiled)

/-- The state of a thread. -/
structure Thread where
  cache : Cache := []
  /-- The names of the models that are being compiled, the last one first. -/
  stack : List String := []
  control : Control := .idle
  /-- The calls that wait for the one that they have made, the innermost first. -/
  frames : List Frame := []
  /-- The models whose own compile step has succeeded, the last one first. -/
  built : List String := []

namespace Thread

/-- The calls that go through dependencies. -/
def walks (t : Thread) : List Frame :=
  match t.control with
  | .walking frame => frame :: t.frames
  | _ => t.frames

/-- The names of the models that the open calls have pushed. -/
def entered (t : Thread) : List String := t.walks.map (·.model.name)

/-- The names of the models that the open calls are on. -/
def opened (t : Thread) : List String :=
  match t.control with
  | .idle => t.frames.map (·.model.name)
  | .asked m | .ready m _ | .returned m _ => m.name :: t.frames.map (·.model.name)
  | .walking frame => frame.model.name :: t.frames.map (·.model.name)

/-- The names of the models that the open calls did not find in the cache. -/
def missed (t : Thread) : List String :=
  match t.control with
  | .ready m _ => m.name :: t.frames.map (·.model.name)
  | _ => t.entered

/-- The dependencies that the open calls have not come to. -/
def left (t : Thread) : List Model := t.walks.flatMap fun frame => frame.rest.map (·.2)

/-- No call is left to return to. -/
def Resting (t : Thread) : Prop :=
  t.frames = [] ∧ (t.control = .idle ∨ ∃ m result, t.control = .returned m result)

end Thread

namespace Catalog

/-- The innermost call goes on. Where no call is left to return to, nothing happens. -/
def step (cat : Catalog) (t : Thread) : Thread :=
  match t.control with
  | .idle => t
  | .asked m =>
    match t.cache.lookup m.name with
    | some x => { t with control := .returned m (.ok x) }
    | none =>
      match cat.scope m with
      | .error e => { t with control := .returned m (.error e) }
      | .ok s => { t with stack := m.name :: t.stack, control := .walking ⟨m, s, s.models⟩ }
  | .walking ⟨m, s, (_, d) :: rest⟩ =>
    if d.name ∈ t.stack then { t with control := .walking ⟨m, s, rest⟩ }
    else { t with control := .asked d, frames := ⟨m, s, rest⟩ :: t.frames }
  | .walking ⟨m, s, []⟩ => { t with stack := t.stack.erase m.name, control := .ready m s }
  | .ready m s =>
    match t.cache.lookup m.name with
    | some x => { t with control := .returned m (.ok x) }
    | none =>
      match m.compile s with
      | .error e => { t with control := .returned m (.error e) }
      | .ok x => { t with
          cache := OrderedMap.insert m.name x t.cache
          control := .returned m (.ok x)
          built := m.name :: t.built }
  | .returned _ result =>
    match t.frames, result with
    | [], _ => t
    | frame :: frames, .ok _ => { t with control := .walking frame, frames }
    | frame :: frames, .error e => { t with
        stack := t.stack.erase frame.model.name
        control := .returned frame.model (.error e)
        frames }

/-- All that the innermost call can do. -/
inductive Step (cat : Catalog) : Thread → Thread → Prop
  | hit {t : Thread} {m : Model} {x : Compiled} : t.control = .asked m →
      t.cache.lookup m.name = some x → Step cat t { t with control := .returned m (.ok x) }
  | unscoped {t : Thread} {m : Model} {e : ConfigError} : t.control = .asked m →
      t.cache.lookup m.name = none → cat.scope m = .error e →
      Step cat t { t with control := .returned m (.error e) }
  | enter {t : Thread} {m : Model} {s : Scope} : t.control = .asked m →
      t.cache.lookup m.name = none → cat.scope m = .ok s →
      Step cat t { t with stack := m.name :: t.stack, control := .walking ⟨m, s, s.models⟩ }
  | skip {t : Thread} {m d : Model} {s : Scope} {n : String} {rest : OrderedMap Model} :
      t.control = .walking ⟨m, s, (n, d) :: rest⟩ → d.name ∈ t.stack →
      Step cat t { t with control := .walking ⟨m, s, rest⟩ }
  | call {t : Thread} {m d : Model} {s : Scope} {n : String} {rest : OrderedMap Model} :
      t.control = .walking ⟨m, s, (n, d) :: rest⟩ → d.name ∉ t.stack →
      Step cat t { t with control := .asked d, frames := ⟨m, s, rest⟩ :: t.frames }
  | leave {t : Thread} {m : Model} {s : Scope} : t.control = .walking ⟨m, s, []⟩ →
      Step cat t { t with stack := t.stack.erase m.name, control := .ready m s }
  | found {t : Thread} {m : Model} {s : Scope} {x : Compiled} : t.control = .ready m s →
      t.cache.lookup m.name = some x → Step cat t { t with control := .returned m (.ok x) }
  | refuse {t : Thread} {m : Model} {s : Scope} {e : ConfigError} : t.control = .ready m s →
      t.cache.lookup m.name = none → m.compile s = .error e →
      Step cat t { t with control := .returned m (.error e) }
  | build {t : Thread} {m : Model} {s : Scope} {x : Compiled} : t.control = .ready m s →
      t.cache.lookup m.name = none → m.compile s = .ok x →
      Step cat t { t with
        cache := OrderedMap.insert m.name x t.cache
        control := .returned m (.ok x)
        built := m.name :: t.built }
  | resume {t : Thread} {d : Model} {x : Compiled} {frame : Frame} {frames : List Frame} :
      t.control = .returned d (.ok x) → t.frames = frame :: frames →
      Step cat t { t with control := .walking frame, frames }
  | unwind {t : Thread} {d : Model} {e : ConfigError} {frame : Frame} {frames : List Frame} :
      t.control = .returned d (.error e) → t.frames = frame :: frames →
      Step cat t { t with
        stack := t.stack.erase frame.model.name
        control := .returned frame.model (.error e)
        frames }

variable {cat : Catalog} {t t' : Thread} {S : List String}

theorem Step.step_eq (h : cat.Step t t') : cat.step t = t' := by
  cases h <;> simp [step, *]

/-- A step that changes anything is one of those. -/
theorem step_cases (t : Thread) : cat.step t = t ∨ cat.Step t (cat.step t) := by
  unfold step
  split
  · exact .inl rfl
  · next m hm =>
    split
    · next x hx => exact .inr (.hit hm hx)
    · next hx =>
      split
      · next e he => exact .inr (.unscoped hm hx he)
      · next s hs => exact .inr (.enter hm hx hs)
  · next m s n d rest hm =>
    split
    · next hd => exact .inr (.skip hm hd)
    · next hd => exact .inr (.call hm hd)
  · next m s hm => exact .inr (.leave hm)
  · next m s hm =>
    split
    · next x hx => exact .inr (.found hm hx)
    · next hx =>
      split
      · next e he => exact .inr (.refuse hm hx he)
      · next x hc => exact .inr (.build hm hx hc)
  · next d result hd =>
    split
    · exact .inl rfl
    · next hframes => exact .inr (.resume hd hframes)
    · next hframes => exact .inr (.unwind hd hframes)

/-- What happens on a thread: open calls go on, and while no call is open, models that are not on
the stack are asked for, and models are registered. -/
inductive Run (cat : Catalog) (t : Thread) : Catalog → Thread → Prop
  | refl : Run cat t cat t
  | step {cat' : Catalog} {u : Thread} : Run cat t cat' u → Run cat t cat' (cat'.step u)
  | ask {cat' : Catalog} {u : Thread} {m : Model} : Run cat t cat' u → u.Resting →
      m ∈ cat'.models → m.name ∉ u.stack → Run cat t cat' { u with control := .asked m }
  | register {cat' cat'' : Catalog} {u : Thread} {m : Model} : Run cat t cat' u → u.Resting →
      cat'.register m = .ok cat'' → Run cat t cat'' u

/-! ## What holds at any time -/

/-- The open calls are on different registered models, none of which was on the stack before. The
models of those that go through their dependencies are on top of what was on the stack before, in
order. What they did not find in the cache is not there yet, and what has been built is. -/
structure Coherent (cat : Catalog) (S : List String) (t : Thread) : Prop where
  stack_eq : t.stack = t.entered ++ S
  nodup : (t.opened ++ S).Nodup
  registered : ∀ name ∈ t.opened ++ S, name ∈ cat.names
  left : ∀ d ∈ t.left, d ∈ cat.models
  uncached : ∀ name ∈ t.missed, t.cache.lookup name = none
  built_nodup : t.built.Nodup
  built_cached : ∀ name ∈ t.built, t.cache.lookup name ≠ none

namespace Coherent

/-- A step that makes no call, enters no model and fills no cache: calls go on or return. -/
theorem of_sublist (h : cat.Coherent S t) (hstack : t'.stack = t'.entered ++ S)
    (hopened : t'.opened.Sublist t.opened) (hleft : ∀ d ∈ t'.left, d ∈ t.left)
    (hmissed : ∀ name ∈ t'.missed, name ∈ t.missed) (hcache : t'.cache = t.cache)
    (hbuilt : t'.built = t.built) : cat.Coherent S t' where
  stack_eq := hstack
  nodup := h.nodup.sublist (hopened.append_right S)
  registered name hname := h.registered name ((hopened.append_right S).subset hname)
  left d hd := h.left d (hleft d hd)
  uncached name hname := hcache ▸ h.uncached name (hmissed name hname)
  built_nodup := hbuilt ▸ h.built_nodup
  built_cached := by
    rw [hbuilt, hcache]
    exact h.built_cached

variable {m d : Model} {s : Scope} {x : Compiled}

/-- A model is entered that is not in the cache. -/
theorem enter (h : cat.Coherent S t) (hc : t.control = .asked m)
    (hnone : t.cache.lookup m.name = none) (hs : cat.scope m = .ok s) :
    cat.Coherent S { t with stack := m.name :: t.stack, control := .walking ⟨m, s, s.models⟩ } := by
  obtain ⟨hstack, hnodup, hregistered, hleft, huncached, hbuilt, hcached⟩ := h
  simp only [Thread.entered, Thread.walks, Thread.opened, Thread.missed, Thread.left, hc] at *
  refine ⟨congrArg (m.name :: ·) hstack, hnodup, hregistered, fun d hd => ?_, ?_, hbuilt, hcached⟩
  · rcases List.mem_append.1 hd with hd | hd
    · obtain ⟨⟨n, d⟩, hmem, rfl⟩ := List.mem_map.1 hd
      exact ((mem_scope_iff hs).1 hmem).1.1
    · exact hleft d hd
  · exact List.forall_mem_cons.2 ⟨hnone, huncached⟩

/-- A dependency is called that is not on the stack. -/
theorem call (h : cat.Coherent S t) {n : String} {rest : OrderedMap Model}
    (hc : t.control = .walking ⟨m, s, (n, d) :: rest⟩) (hd : d.name ∉ t.stack) :
    cat.Coherent S { t with control := .asked d, frames := ⟨m, s, rest⟩ :: t.frames } := by
  obtain ⟨hstack, hnodup, hregistered, hleft, huncached, hbuilt, hcached⟩ := h
  simp only [Thread.entered, Thread.walks, Thread.opened, Thread.missed, Thread.left, hc] at *
  obtain ⟨hdep, hleft⟩ := List.forall_mem_cons.1 hleft
  refine ⟨hstack, ?_, ?_, hleft, huncached, hbuilt, hcached⟩
  · exact List.nodup_cons.2 ⟨hstack ▸ hd, hnodup⟩
  · exact List.forall_mem_cons.2 ⟨name_mem hdep, hregistered⟩

/-- The compiled form of a model is added that is not in the cache. -/
theorem build (h : cat.Coherent S t) (hc : t.control = .ready m s)
    (hnone : t.cache.lookup m.name = none) :
    cat.Coherent S { t with
      cache := OrderedMap.insert m.name x t.cache
      control := .returned m (.ok x)
      built := m.name :: t.built } := by
  obtain ⟨hstack, hnodup, hregistered, hleft, huncached, hbuilt, hcached⟩ := h
  simp only [Thread.entered, Thread.walks, Thread.opened, Thread.missed, Thread.left, hc] at *
  have hfresh : m.name ∉ t.built := fun hmem => hcached _ hmem hnone
  refine ⟨hstack, hnodup, hregistered, hleft, fun name hname => ?_,
    List.nodup_cons.2 ⟨hfresh, hbuilt⟩, fun name hname => ?_⟩
  · have hne : name ≠ m.name := by
      rintro rfl
      exact (List.nodup_cons.1 hnodup).1 (List.mem_append_left _ hname)
    rw [OrderedMap.lookup_insert, if_neg hne]
    exact huncached name (List.mem_cons_of_mem _ hname)
  · rw [OrderedMap.lookup_insert]
    split
    · simp
    · next hne => exact hcached name ((List.mem_cons.1 hname).resolve_left hne)

/-- Where no call is left to return to, the stack is as it was before. -/
theorem stack_of_resting (h : cat.Coherent S t) (hrest : t.Resting) : t.stack = S := by
  obtain ⟨hframes, hc | ⟨m, r, hc⟩⟩ := hrest <;>
    simpa [Thread.entered, Thread.walks, hc, hframes] using h.stack_eq

/-- While no call is open, a model that is not on the stack is asked for. -/
theorem ask (h : cat.Coherent S t) (hrest : t.Resting) (hm : m ∈ cat.models)
    (hms : m.name ∉ t.stack) : cat.Coherent S { t with control := .asked m } := by
  have hstack := h.stack_of_resting hrest
  obtain ⟨hframes, -⟩ := hrest
  have hS : S.Sublist (t.opened ++ S) := List.sublist_append_right _ _
  refine ⟨?_, ?_, ?_, ?_, ?_, h.built_nodup, h.built_cached⟩ <;>
    simp only [Thread.entered, Thread.walks, Thread.opened, Thread.missed, Thread.left, hframes]
  · exact hstack
  · exact List.nodup_cons.2 ⟨hstack ▸ hms, h.nodup.sublist hS⟩
  · exact List.forall_mem_cons.2 ⟨name_mem hm, fun name hn => h.registered name (hS.subset hn)⟩
  · exact List.forall_mem_nil _
  · exact List.forall_mem_nil _

/-- A registration leaves the thread alone, and nothing is taken out of the catalog. -/
theorem register {cat' : Catalog} (h : cat.Coherent S t) (hr : cat.register m = .ok cat') :
    cat'.Coherent S t := by
  have hsub : cat.models ⊆ cat'.models := fun _ hd => mem_of_register hr hd
  exact { h with
    registered := fun name hname => (List.map_subset Model.name hsub) (h.registered name hname)
    left := fun d hd => hsub (h.left d hd) }

/-- Whatever the innermost call does next, it leaves things in order. -/
theorem of_step (h : cat.Coherent S t) (hstep : cat.Step t t') : cat.Coherent S t' := by
  have hstack := h.stack_eq
  cases hstep with
  | enter hc hnone hs => exact h.enter hc hnone hs
  | call hc hd => exact h.call hc hd
  | build hc hnone => exact h.build hc hnone
  | hit hc | unscoped hc | skip hc | leave hc | found hc | refuse hc | resume hc | unwind hc =>
    refine h.of_sublist ?_ ?_ ?_ ?_ rfl rfl <;>
      simp_all [Thread.entered, Thread.opened, Thread.walks, Thread.missed, Thread.left]

/-- The stack has no model twice. -/
theorem stack_nodup (h : cat.Coherent S t) : t.stack.Nodup := by
  have hsub : t.entered.Sublist t.opened := by
    unfold Thread.entered Thread.walks Thread.opened
    cases t.control <;> simp
  rw [h.stack_eq]
  exact h.nodup.sublist (hsub.append_right S)

/-- At most as many calls are open as there are models off the stack that was there before. -/
theorem opened_length_le (h : cat.Coherent S t) :
    t.opened.length ≤ cat.models.length - S.length := by
  have hle := (h.nodup.subperm h.registered).length_le
  rw [List.length_append, names, List.length_map] at hle
  omega

/-- A model that is about to be compiled itself is not in the cache. -/
theorem lookup_of_ready (h : cat.Coherent S t) (hc : t.control = .ready m s) :
    t.cache.lookup m.name = none := by
  refine h.uncached m.name ?_
  simp [Thread.missed, hc]

end Coherent

theorem coherent_idle {c : Cache} (hn : S.Nodup) (hS : ∀ name ∈ S, name ∈ cat.names) :
    cat.Coherent S { cache := c, stack := S } where
  stack_eq := rfl
  nodup := hn
  registered := hS
  left := List.forall_mem_nil _
  uncached := List.forall_mem_nil _
  built_nodup := List.nodup_nil
  built_cached := List.forall_mem_nil _

/-- Whatever happens on a thread, things stay in order. -/
theorem Run.coherent {cat' : Catalog} (hrun : cat.Run t cat' t') (h : cat.Coherent S t) :
    cat'.Coherent S t' := by
  induction hrun with
  | refl => exact h
  | @step cat' u _ ih =>
    rcases cat'.step_cases u with hsame | hstep
    · rwa [hsame]
    · exact ih.of_step hstep
  | ask _ hrest hm hms ih => exact ih.ask hrest hm hms
  | register _ _ hr ih => exact ih.register hr

end Catalog

end TypedModels
