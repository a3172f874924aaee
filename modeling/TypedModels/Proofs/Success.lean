import TypedModels.Proofs.Persistence

/-!
# Successes last

What has succeeded once succeeds again with the same result, whatever is asked in between and
however much of that fails. The compilations of a success leave nothing behind that waits for a model
which is not compiled. So none of the models that they compiled can be stuck later on, from whatever
part of them is in the cache.

## Main definitions

* `Catalog.Extends` : what successful compilations add to a cache.
* `Workspace.Returns` : a session that returns the same now and ever after.
-/

namespace TypedModels

open Catalog Session

namespace Catalog

variable {cat : Catalog} {b c c' d : Cache} {pending : List String} {m n : Model}
  {e : ConfigError} {x : Compiled} {P : Model → Prop} {ε α β : Type} {wrap : ConfigError → ε}
  {R : α → Prop} {s : Session ε α} {a : α}

/-- Successful compilations lead from one cache to the other. All dependencies of a model that was
added are compiled. -/
abbrev Extends (cat : Catalog) (b c : Cache) : Prop :=
  cat.Fills (· ∈ cat.models) (fun _ => False) b c

theorem extends_of_compiled (hm : m ∈ cat.models)
    (h : exec (cat.compiled m) c = (.ok x, c')) : cat.Extends c c' :=
  (fills_of_compiled_ok hm h).1.mono (fun _ hy => Reaches.mem hy hm) fun _ h => h

theorem extends_of_compiles (hP : ∀ m, P m → m ∈ cat.models)
    (h : Relation.ReflTransGen (cat.Compiles P) c c') : cat.Extends c c' := by
  induction h with
  | refl => exact .refl c
  | tail _ step ih =>
    obtain ⟨m, x, hm, hx⟩ := step
    exact ih.trans (extends_of_compiled (hP m hm) hx)

/-- A model that was added does not wait for its dependencies. -/
theorem Extends.cached_dependency (h : cat.Extends b c) (hm : m ∈ cat.models)
    (hbefore : ¬ Cached b m) (hafter : Cached c m) (hd : cat.DependsOn m n) : Cached c n := by
  obtain ⟨x, hx⟩ := hafter
  rcases h.new m.name x hx with hx | ⟨y, ⟨hn, hy, -⟩, hdeps⟩
  · exact absurd ⟨x, hx⟩ hbefore
  · obtain rfl := eq_of_name_eq hy hm hn
    exact (hdeps n hd).resolve_right fun h => h.1

/-- A model that was compiled by a success is not stuck where at least as much is compiled as the
success started from. Being stuck, it would hand the fault of another model down to itself. -/
theorem Stuck.not_cached_of_extends (h : cat.Stuck d pending m e) (hm : m ∈ cat.models)
    (hc : cat.Sound c) (hext : cat.Extends b c) (hbd : ∀ y, Cached b y → Cached d y) :
    ¬ Cached c m := by
  have faultless : ∀ {m e}, m ∈ cat.models → cat.alone m = .error e → ¬ Cached c m :=
    fun hm he hcached => not_wellFormed_of_alone he (hc.wellFormed hm hcached)
  induction h with
  | scope _ hs => exact faultless hm (alone_eq_error_iff.2 (.inl hs))
  | dependency hopen hs hsplit _ _ _ ih =>
    intro hcached
    have hdep := dependsOn_of_scope_append hs hsplit
    have hbefore : ¬ Cached b _ := fun hb => hopen (hbd _ hb)
    exact ih hdep.1 (Extends.cached_dependency hext hm hbefore hcached hdep)
  | definition _ hs _ he => exact faultless hm (alone_eq_error_iff.2 (.inr ⟨_, hs, he⟩))

theorem Extends.exec_compiled (hext : cat.Extends b c) (hm : m ∈ cat.models) (hc : cat.Sound c)
    (hd : cat.Sound d) (hbd : ∀ y, Cached b y → Cached d y) (hx : c.lookup m.name = some x) :
    ∃ d', exec (cat.compiled m) d = (.ok x, d') := by
  rcases hr : exec (cat.compiled m) d with ⟨e | y, d'⟩
  · obtain ⟨hfill, hstuck⟩ := fills_of_compiled_error hm hr
    have hbd' : ∀ y, Cached b y → Cached d' y := fun y hy => (hbd y hy).mono hfill.grows
    exact absurd ⟨x, hx⟩ (hstuck.not_cached_of_extends hm hc hext hbd')
  · obtain rfl := Except.ok.inj ((hc.alone hm hx).symm.trans (hd.alone_of_compiled hm hr))
    exact ⟨d', rfl⟩

/-- A script that succeeds after successful compilations succeeds wherever at least as much is
compiled as these started from. -/
theorem Scripted.exec_fst_of_extends (h : cat.Scripted P wrap R s)
    (hP : ∀ m, P m → m ∈ cat.models) (hc : cat.Sound c) (hd : cat.Sound d)
    (hext : cat.Extends b c) (hbd : ∀ y, Cached b y → Cached d y)
    (hs : exec s c = (.ok a, c')) : (exec s d).1 = .ok a := by
  -- The two runs need not compile the same models, but both start from all that `b` has.
  induction h generalizing c d with
  | pure _ =>
    cases hs
    rfl
  | throw e => cases hs
  | @compile m k hm _ ih =>
    obtain ⟨x, c₁, hx, hs⟩ := exec_bind_eq_ok_iff.1 hs
    rw [exec_adapt] at hx
    rcases hr : exec (cat.compiled m) c with ⟨_ | y, c₂⟩ <;> rw [hr] at hx <;> cases hx
    have hc₁ := hc.compiled (hP m hm) hr
    have hext₁ := hext.trans (extends_of_compiled (hP m hm) hr)
    have hx₁ := (fills_of_compiled_ok (hP m hm) hr).2
    obtain ⟨d₁, hd₁⟩ := Extends.exec_compiled hext₁ (hP m hm) hc₁ hd hbd hx₁
    have hgrows := (fills_of_compiled_ok (hP m hm) hd₁).1.grows
    rw [exec_bind, exec_adapt, hd₁]
    exact ih x (hc.alone_of_compiled (hP m hm) hr) hc₁ (hd.compiled (hP m hm) hd₁) hext₁
      (fun y hy => (hbd y hy).mono hgrows) hs

/-- A script that succeeds leaves a cache from which it succeeds again without compiling anything. -/
theorem Scripted.settled (h : cat.Scripted P wrap R s) (hP : ∀ m, P m → m ∈ cat.models)
    (hc : cat.Sound c) (hs : exec s c = (.ok a, c')) :
    exec s c' = (.ok a, c') ∧ cat.Sound c' ∧ cat.Extends c c' := by
  obtain ⟨-, hcompiles, hagain⟩ := h.of_exec hP hc hs
  have hsound := h.sound hP hc
  rw [hs] at hsound
  exact ⟨hagain c' List.prefix_rfl, hsound, extends_of_compiles hP hcompiles⟩

/-- Two scripts that succeed from one cache succeed one after the other. -/
theorem Scripted.exec_of_exec {R' : β → Prop} {s' : Session ε β} {a' : β}
    (h : cat.Scripted P wrap R s) (h' : cat.Scripted P wrap R' s')
    (hP : ∀ m, P m → m ∈ cat.models) (hc : cat.Sound c) (hs : exec s c = (.ok a, c'))
    (hs' : exec s' c = (.ok a', d)) : ∃ d', exec s' c' = (.ok a', d') := by
  have hgrows := h.grows hP hc
  rw [hs] at hgrows
  have hagain := h'.exec_fst_of_extends hP hc (h.settled hP hc hs).2.1 (.refl c)
    (fun _ hy => hy.mono hgrows) hs'
  exact ⟨_, Prod.ext hagain rfl⟩

end Catalog

namespace Workspace

variable {w : Workspace} {c c' : Cache} {P : Model → Prop} {ε α : Type} {wrap : ConfigError → ε}
  {R : α → Prop} {s : Catalog → Session ε α} {a : α}

/-- The session returns `a` now and after any further requests. -/
def Returns (w : Workspace) (s : Catalog → Session ε α) (a : α) : Prop :=
  ∀ calls, ((w.afterAll calls).run s).1 = .ok a

/-- What succeeds after successful compilations succeeds without them. -/
theorem Reachable.returns_of_exec (h : w.Reachable) (hs : w.catalog.Scripted P wrap R (s w.catalog))
    (hP : ∀ m, P m → m ∈ w.catalog.models) (hc : w.catalog.Sound c)
    (hext : w.catalog.Extends w.cache c) (ha : exec (s w.catalog) c = (.ok a, c')) :
    w.Returns s a := by
  intro calls
  have hcat : (w.afterAll calls).catalog = w.catalog := afterAll_catalog
  have hlater : w.catalog.Sound (w.afterAll calls).cache := hcat ▸ (h.afterAll calls).sound
  rw [exec_eq_run, hcat]
  exact hs.exec_fst_of_extends hP hc hlater hext (fun y hy => hy.mono (h.grows calls)) ha

/-- What succeeds once succeeds ever after. -/
theorem Reachable.returns (h : w.Reachable) (hs : w.catalog.Scripted P wrap R (s w.catalog))
    (hP : ∀ m, P m → m ∈ w.catalog.models) (ha : (w.run s).1 = .ok a) : w.Returns s a :=
  h.returns_of_exec hs hP h.sound (.refl w.cache) (Prod.ext ha rfl)

/-- A success leaves a cache from which it succeeds again without compiling anything. -/
theorem Reachable.settled (h : w.Reachable) (hs : w.catalog.Scripted P wrap R (s w.catalog))
    (hP : ∀ m, P m → m ∈ w.catalog.models) (ha : (w.run s).1 = .ok a) :
    exec (s w.catalog) (w.run s).2.cache = (.ok a, (w.run s).2.cache) ∧
      w.catalog.Sound (w.run s).2.cache ∧ w.catalog.Extends w.cache (w.run s).2.cache :=
  hs.settled hP h.sound (Prod.ext ha rfl)

end Workspace

end TypedModels
