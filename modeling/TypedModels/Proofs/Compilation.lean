import TypedModels.Proofs.Dependency
import TypedModels.Proofs.Session

/-!
# What a compilation does

Compiling a model walks its dependencies depth first, passes over the models that are on the way
already, and fills the cache on the way back. A new entry is the compiled form of its model, and all
dependencies of that model are compiled as well, or are still on the way. A failure is the fault of
one model alone. It leaves the model stuck: until one of the models on the way to the fault is
compiled, every later attempt fails with the same error and fills nothing.

## Main definitions

* `Cached` : the cache holds a model.
* `Catalog.Fills` : what compilations add to a cache.
* `Catalog.Stuck` : a model that cannot be compiled from a cache, and why.
* `Catalog.compileEntries` : the loop over the dependencies.
-/

namespace TypedModels

/-- The cache holds the compiled form of a model. -/
def Cached (c : Cache) (m : Model) : Prop := ∃ x, c.lookup m.name = some x

theorem Cached.mono {c c' : Cache} {m : Model} (h : Cached c m) (hp : c <+: c') : Cached c' m := by
  obtain ⟨x, hx⟩ := h
  exact ⟨x, OrderedMap.lookup_of_prefix hp hx⟩

theorem not_cached_iff {c : Cache} {m : Model} : ¬ Cached c m ↔ c.lookup m.name = none := by
  simp [Cached, Option.eq_none_iff_forall_ne_some]

namespace Catalog

open Session

variable {cat : Catalog} {c c' c'' : Cache} {pending : List String} {m d : Model}
  {e : ConfigError} {A A' Q Q' : Model → Prop}

/-! ## Filling a cache -/

/-- Compilations of models in `A` lead from one cache to the other. The dependencies of a model that
was added are compiled too, unless they are in `Q` and depend on the model in turn. -/
structure Fills (cat : Catalog) (A Q : Model → Prop) (c c' : Cache) : Prop where
  grows : c <+: c'
  new : ∀ name x, c'.lookup name = some x → c.lookup name = some x ∨
    ∃ y, (y.name = name ∧ A y ∧ cat.alone y = .ok x) ∧
      ∀ d, cat.DependsOn y d → Cached c' d ∨ (Q d ∧ cat.Reaches d y)

namespace Fills

theorem refl (c : Cache) : cat.Fills A Q c c := ⟨List.prefix_rfl, fun _ _ h => .inl h⟩

theorem trans (h : cat.Fills A Q c c') (g : cat.Fills A Q c' c'') : cat.Fills A Q c c'' := by
  refine ⟨h.grows.trans g.grows, fun name x hx => ?_⟩
  rcases g.new name x hx with hx | hy
  · rcases h.new name x hx with hx | ⟨y, hy, hd⟩
    · exact .inl hx
    · exact .inr ⟨y, hy, fun d hyd => (hd d hyd).imp_left fun hc => hc.mono g.grows⟩
  · exact .inr hy

theorem mono (h : cat.Fills A Q c c') (hA : ∀ y, A y → A' y) (hQ : ∀ y, Q y → Q' y) :
    cat.Fills A' Q' c c' := by
  refine ⟨h.grows, fun name x hx => (h.new name x hx).imp_right ?_⟩
  rintro ⟨y, ⟨hn, hy, hx⟩, hd⟩
  exact ⟨y, ⟨hn, hA y hy, hx⟩, fun d hyd => (hd d hyd).imp_right fun h => ⟨hQ d h.1, h.2⟩⟩

/-- Adds the model whose dependencies have been dealt with. Other models may have been waiting for
it. -/
theorem insert {x : Compiled} (h : cat.Fills A Q c c') (hc : c'.lookup m.name = none) (hA : A m)
    (hx : cat.alone m = .ok x)
    (hd : ∀ d, cat.DependsOn m d → Cached c' d ∨ (Q d ∧ cat.Reaches d m))
    (hQ : ∀ y, Q y → y.name = m.name ∨ Q' y) :
    cat.Fills A Q' c (OrderedMap.insert m.name x c') := by
  have grows : c' <+: OrderedMap.insert m.name x c' := by
    rw [OrderedMap.insert_of_lookup_eq_none hc]
    exact List.prefix_append _ _
  have settle : ∀ y d, Cached c' d ∨ (Q d ∧ cat.Reaches d y) →
      Cached (OrderedMap.insert m.name x c') d ∨ (Q' d ∧ cat.Reaches d y) := by
    rintro y d (hd | ⟨hq, hr⟩)
    · exact .inl (hd.mono grows)
    · rcases hQ d hq with hn | hq
      · exact .inl ⟨x, by rw [OrderedMap.lookup_insert, if_pos hn]⟩
      · exact .inr ⟨hq, hr⟩
  refine ⟨h.grows.trans grows, fun name z hz => ?_⟩
  rw [OrderedMap.lookup_insert] at hz
  split at hz
  · next hn =>
    cases hz
    exact .inr ⟨m, ⟨hn.symm, hA, hx⟩, fun d hmd => settle m d (hd d hmd)⟩
  · rcases h.new name z hz with hz | ⟨y, hy, hyd⟩
    · exact .inl hz
    · exact .inr ⟨y, hy, fun d hd => settle y d (hyd d hd)⟩

/-- Models that may not be added are not. -/
theorem not_cached (h : cat.Fills A Q c c') (hc : ¬ Cached c m)
    (hA : ∀ y, A y → y.name ≠ m.name) : ¬ Cached c' m := by
  rintro ⟨x, hx⟩
  rcases h.new m.name x hx with hx | ⟨y, ⟨hn, hy, -⟩, -⟩
  · exact hc ⟨x, hx⟩
  · exact hA y hy hn

end Fills

/-! ## Being stuck -/

/-- Whether the dependencies have been dealt with: those that may be entered are compiled. -/
def Passed (c : Cache) (pending : List String) (entries : OrderedMap Model) : Prop :=
  ∀ d ∈ entries, d.2.name ∈ pending → Cached c d.2

/-- A model that is not compiled and cannot be: it has no scope, or the first dependency that has
not been dealt with is stuck, or all of them have been and its own definition does not compile. -/
inductive Stuck (cat : Catalog) (c : Cache) : List String → Model → ConfigError → Prop
  | scope {pending : List String} {m : Model} {e : ConfigError} : ¬ Cached c m →
      cat.scope m = .error e → Stuck cat c pending m e
  | dependency {pending : List String} {m : Model} {e : ConfigError} {s : Scope}
      {before after : OrderedMap Model} {d : String × Model} : ¬ Cached c m →
      cat.scope m = .ok s → s.models = before ++ d :: after →
      Passed c (pending.erase m.name) before → d.2.name ∈ pending.erase m.name →
      Stuck cat c (pending.erase m.name) d.2 e → Stuck cat c pending m e
  | definition {pending : List String} {m : Model} {e : ConfigError} {s : Scope} : ¬ Cached c m →
      cat.scope m = .ok s → Passed c (pending.erase m.name) s.models →
      m.compile s = .error e → Stuck cat c pending m e

theorem Stuck.not_cached (h : cat.Stuck c pending m e) : ¬ Cached c m := by
  cases h <;> assumption

theorem dependsOn_of_scope_append {s : Scope} {before after : OrderedMap Model}
    {d : String × Model} (hs : cat.scope m = .ok s) (h : s.models = before ++ d :: after) :
    cat.DependsOn m d.2 :=
  ((mem_scope_iff hs (t := d.1)).1 (by simp [h])).1

/-- The fault is that of a single model, which may be entered. -/
theorem Stuck.exists_alone (h : cat.Stuck c pending m e) (hp : m.name ∈ pending) :
    ∃ y, (cat.Reaches m y ∧ y.name ∈ pending) ∧ cat.alone y = .error e := by
  induction h with
  | scope _ hs => exact ⟨_, ⟨.refl, hp⟩, alone_eq_error_iff.2 (.inl hs)⟩
  | dependency _ hs hsplit _ hd _ ih =>
    obtain ⟨y, ⟨hy, hyp⟩, he⟩ := ih hd
    exact ⟨y, ⟨.head (dependsOn_of_scope_append hs hsplit) hy, List.mem_of_mem_erase hyp⟩, he⟩
  | definition _ hs _ he => exact ⟨_, ⟨.refl, hp⟩, alone_eq_error_iff.2 (.inr ⟨_, hs, he⟩)⟩

/-- A stuck model stays stuck when the cache grows, as long as no model that reaches a faulty one is
compiled. -/
theorem Stuck.of_grows (h : cat.Stuck c pending m e) (hp : c <+: c')
    (hm : m.name ∈ pending)
    (hb : ∀ y, cat.Reaches m y → (∃ z, cat.Reaches y z ∧ ¬ cat.WellFormed z) → ¬ Cached c' y) :
    cat.Stuck c' pending m e := by
  have pass : ∀ {pending entries}, Passed c pending entries → Passed c' pending entries :=
    fun h d hd hdp => (h d hd hdp).mono hp
  have hopen : ¬ Cached c' m := by
    obtain ⟨z, ⟨hz, -⟩, he⟩ := h.exists_alone hm
    exact hb m .refl ⟨z, hz, not_wellFormed_of_alone he⟩
  induction h with
  | scope _ hs => exact .scope hopen hs
  | dependency _ hs hsplit hpass hd hstuck ih =>
    have hdep := dependsOn_of_scope_append hs hsplit
    obtain ⟨z, ⟨hz, -⟩, he⟩ := hstuck.exists_alone hd
    refine .dependency hopen hs hsplit (pass hpass) hd (ih hd (fun y hy => hb y (.head hdep hy)) ?_)
    exact hb _ (.single hdep) ⟨z, hz, not_wellFormed_of_alone he⟩
  | definition _ hs hpass he => exact .definition hopen hs (pass hpass) he

/-! ## The walk -/

/-- Compiles the models of a scope that may be entered, one after the other. -/
def compileEntries (cat : Catalog) (pending : List String) (entries : OrderedMap Model) :
    Session ConfigError PUnit :=
  entries.forM fun d =>
    if h : d.2.name ∈ pending then discard (cat.compilePending pending d.2 h) else pure ⟨⟩

/-- Compiles a model whose dependencies have been dealt with. -/
def finish (m : Model) (s : Scope) : Session ConfigError Compiled := do
  match (← get).lookup m.name with
  | some x => return x
  | none =>
    let x ← m.compile s
    modify (OrderedMap.insert m.name x)
    return x

theorem compilePending_eq (h : m.name ∈ pending) :
    cat.compilePending pending m h = (do
      match (← get).lookup m.name with
      | some x => return x
      | none =>
        let s ← cat.scope m
        cat.compileEntries (pending.erase m.name) s.models
        finish m s) := by
  rw [compilePending]
  rfl

theorem exec_compileEntries_nil : exec (cat.compileEntries pending []) c = (.ok ⟨⟩, c) := rfl

theorem exec_compileEntries_cons {entries : OrderedMap Model} {t : String} :
    exec (cat.compileEntries pending ((t, d) :: entries)) c =
      if h : d.name ∈ pending then
        match exec (cat.compilePending pending d h) c with
        | (.ok _, c') => exec (cat.compileEntries pending entries) c'
        | (.error e, c') => (.error e, c')
      else exec (cat.compileEntries pending entries) c := by
  change exec ((if h : d.name ∈ pending then discard (cat.compilePending pending d h) else pure ⟨⟩)
    >>= fun _ => cat.compileEntries pending entries) c = _
  rw [exec_bind]
  by_cases h : d.name ∈ pending
  · rw [dif_pos h, dif_pos h, exec_discard]
    rcases exec (cat.compilePending pending d h) c with ⟨_ | _, _⟩ <;> rfl
  · rw [dif_neg h, dif_neg h, exec_pure]

theorem exec_compilePending_of_cached {x : Compiled} (h : m.name ∈ pending)
    (hx : c.lookup m.name = some x) : exec (cat.compilePending pending m h) c = (.ok x, c) := by
  rw [compilePending_eq, exec_bind, exec_get]
  simp only [hx, exec_pure]

theorem exec_compilePending_of_scope_error (h : m.name ∈ pending) (hc : ¬ Cached c m)
    (hs : cat.scope m = .error e) : exec (cat.compilePending pending m h) c = (.error e, c) := by
  rw [compilePending_eq, exec_bind, exec_get]
  simp only [not_cached_iff.1 hc, exec_bind, exec_lift, hs]

theorem exec_compilePending_of_scope {s : Scope} (h : m.name ∈ pending) (hc : ¬ Cached c m)
    (hs : cat.scope m = .ok s) :
    exec (cat.compilePending pending m h) c =
      exec (do cat.compileEntries (pending.erase m.name) s.models; finish m s) c := by
  rw [compilePending_eq, exec_bind, exec_get]
  simp only [not_cached_iff.1 hc]
  rw [exec_bind, exec_lift, hs]

theorem exec_finish {s : Scope} (hc : ¬ Cached c m) :
    exec (finish m s) c =
      match m.compile s with
      | .ok x => (.ok x, OrderedMap.insert m.name x c)
      | .error e => (.error e, c) := by
  rw [finish, exec_bind, exec_get]
  simp only [not_cached_iff.1 hc, exec_bind, exec_lift]
  cases m.compile s <;> rfl

/-- Dependencies that have been dealt with are passed over. -/
theorem exec_compileEntries_of_passed {before after : OrderedMap Model}
    (h : Passed c pending before) :
    exec (cat.compileEntries pending (before ++ after)) c =
      exec (cat.compileEntries pending after) c := by
  induction before with
  | nil => rfl
  | cons d before ih =>
    obtain ⟨t, d⟩ := d
    obtain ⟨hd, hrest⟩ := List.forall_mem_cons.1 h
    rw [List.cons_append, exec_compileEntries_cons]
    split
    · next hp =>
      obtain ⟨x, hx⟩ := hd hp
      rw [exec_compilePending_of_cached hp hx]
      exact ih hrest
    · exact ih hrest

theorem exec_compileEntries_of_passed_all {entries : OrderedMap Model}
    (h : Passed c pending entries) : exec (cat.compileEntries pending entries) c = (.ok ⟨⟩, c) := by
  rw [← List.append_nil entries, exec_compileEntries_of_passed h, exec_compileEntries_nil]

/-- A stuck model fails and fills nothing. -/
theorem Stuck.exec (h : cat.Stuck c pending m e) (hm : m.name ∈ pending) :
    Session.exec (cat.compilePending pending m hm) c = (.error e, c) := by
  induction h with
  | scope hc hs => exact exec_compilePending_of_scope_error hm hc hs
  | dependency hc hs hsplit hpass hd _ ih =>
    rw [exec_compilePending_of_scope hm hc hs, hsplit]
    refine exec_bind_error ?_
    rw [exec_compileEntries_of_passed hpass, exec_compileEntries_cons, dif_pos hd, ih hd]
  | definition hc hs hpass he =>
    rw [exec_compilePending_of_scope hm hc hs]
    rw [exec_bind_ok (exec_compileEntries_of_passed_all hpass), exec_finish hc, he]

/-- The models that a compilation of `m` may add. -/
def Within (cat : Catalog) (pending : List String) (m y : Model) : Prop :=
  (y ∈ cat.models ∧ cat.Reaches m y) ∧ y.name ∈ pending

/-- What compiling `m` from `c` comes to. -/
inductive Outcome (cat : Catalog) (pending : List String) (m : Model) (c : Cache) :
    Except ConfigError Compiled × Cache → Prop
  | ok {x : Compiled} {c' : Cache} : cat.Fills (cat.Within pending m) (·.name ∉ pending) c c' →
      c'.lookup m.name = some x → Outcome cat pending m c (.ok x, c')
  | error {e : ConfigError} {c' : Cache} : cat.Fills (cat.Within pending m) (fun _ => True) c c' →
      cat.Stuck c' pending m e → Outcome cat pending m c (.error e, c')

/-- What compiling the dependencies from `c` comes to. -/
inductive EntriesOutcome (cat : Catalog) (pending : List String) (A : Model → Prop)
    (entries : OrderedMap Model) (c : Cache) : Except ConfigError PUnit × Cache → Prop
  | ok {c' : Cache} : cat.Fills A (·.name ∉ pending) c c' → Passed c' pending entries →
      EntriesOutcome cat pending A entries c (.ok ⟨⟩, c')
  | error {e : ConfigError} {c' : Cache} {before after : OrderedMap Model} {d : String × Model} :
      cat.Fills A (fun _ => True) c c' → entries = before ++ d :: after →
      Passed c' pending before → d.2.name ∈ pending → cat.Stuck c' pending d.2 e →
      EntriesOutcome cat pending A entries c (.error e, c')

theorem compileEntries_outcome {entries : OrderedMap Model}
    (hA : ∀ d ∈ entries, ∀ y, cat.Within pending d.2 y → A y)
    (each : ∀ d ∈ entries, ∀ (h : d.2.name ∈ pending) (c : Cache),
      cat.Outcome pending d.2 c (exec (cat.compilePending pending d.2 h) c)) :
    cat.EntriesOutcome pending A entries c (exec (cat.compileEntries pending entries) c) := by
  induction entries generalizing c with
  | nil => exact .ok (.refl c) (by simp [Passed])
  | cons d entries ih =>
    obtain ⟨t, d⟩ := d
    obtain ⟨hAd, hArest⟩ := List.forall_mem_cons.1 hA
    obtain ⟨hd, hrest⟩ := List.forall_mem_cons.1 each
    rw [exec_compileEntries_cons]
    by_cases hp : d.name ∈ pending
    · rw [dif_pos hp]
      generalize hr : exec (cat.compilePending pending d hp) c = r
      cases hr ▸ hd hp c with
      | @ok x c₁ hfill hx =>
        have here : ∀ {c' : Cache}, c₁ <+: c' → Cached c' d :=
          fun h => ⟨x, OrderedMap.lookup_of_prefix h hx⟩
        change cat.EntriesOutcome pending A ((t, d) :: entries) c
          (exec (cat.compileEntries pending entries) c₁)
        have rest := ih (c := c₁) hArest hrest
        generalize exec (cat.compileEntries pending entries) c₁ = r at rest ⊢
        cases rest with
        | ok hfill' hpass =>
          refine .ok ((hfill.mono hAd fun _ h => h).trans hfill') ?_
          exact List.forall_mem_cons.2 ⟨fun _ => here hfill'.grows, hpass⟩
        | @error e c' before after f hfill' hsplit hpass hmem hstuck =>
          refine .error ((hfill.mono hAd fun _ _ => trivial).trans hfill')
            (show (t, d) :: entries = ((t, d) :: before) ++ f :: after by rw [hsplit]; rfl) ?_ hmem
            hstuck
          exact List.forall_mem_cons.2 ⟨fun _ => here hfill'.grows, hpass⟩
      | error hfill hstuck =>
        exact .error (hfill.mono hAd fun _ h => h) (List.nil_append _).symm (by simp [Passed]) hp
          hstuck
    · rw [dif_neg hp]
      have skip : ∀ {c' : Cache} {passed : OrderedMap Model}, Passed c' pending passed →
          Passed c' pending ((t, d) :: passed) :=
        fun h => List.forall_mem_cons.2 ⟨fun h => absurd h hp, h⟩
      have rest := ih (c := c) hArest hrest
      generalize exec (cat.compileEntries pending entries) c = r at rest ⊢
      cases rest with
      | ok hfill' hpass => exact .ok hfill' (skip hpass)
      | @error e c' before after f hfill' hsplit hpass hmem hstuck =>
        exact .error hfill'
          (show (t, d) :: entries = ((t, d) :: before) ++ f :: after by rw [hsplit]; rfl)
          (skip hpass) hmem hstuck

/-- The walk from `m`, where the models on the way already are those that are not pending. -/
theorem compilePending_outcome {pending : List String} {m : Model} {c : Cache}
    (hm : m ∈ cat.models) (h : m.name ∈ pending) (hn : pending.Nodup)
    (hback : ∀ y ∈ cat.models, y.name ∉ pending → cat.Reaches y m) :
    cat.Outcome pending m c (exec (cat.compilePending pending m h) c) := by
  by_cases hc : Cached c m
  · obtain ⟨x, hx⟩ := hc
    rw [exec_compilePending_of_cached h hx]
    exact .ok (.refl c) hx
  cases hs : cat.scope m with
  | error e =>
    rw [exec_compilePending_of_scope_error h hc hs]
    exact .error (.refl c) (.scope hc hs)
  | ok s =>
    have inside : ∀ y, cat.Within pending m y ∧ y.name ≠ m.name → cat.Within pending m y :=
      fun _ h => h.1
    have back : ∀ d, d ∈ cat.models → d.name ∉ pending.erase m.name → cat.Reaches d m := by
      intro d hd hdp
      by_cases hdn : d.name = m.name
      · exact eq_of_name_eq hd hm hdn ▸ .refl
      · exact hback d hd fun h => hdp ((List.mem_erase_of_ne hdn).2 h)
    have entries : cat.EntriesOutcome (pending.erase m.name)
        (fun y => cat.Within pending m y ∧ y.name ≠ m.name) s.models c
        (exec (cat.compileEntries (pending.erase m.name) s.models) c) := by
      refine compileEntries_outcome (fun d hd y hy => ?_) fun d hd hdp c => ?_
      · obtain ⟨⟨hy, hr⟩, hyp⟩ := hy
        have hdep := ((mem_scope_iff hs).1 hd).1
        exact ⟨⟨⟨hy, .head hdep hr⟩, List.mem_of_mem_erase hyp⟩, (hn.mem_erase_iff.1 hyp).1⟩
      · have hdep := ((mem_scope_iff hs).1 hd).1
        refine compilePending_outcome hdep.1 hdp (hn.erase _) fun y hy hyp => ?_
        exact (back y hy hyp).tail hdep
    rw [exec_compilePending_of_scope h hc hs]
    generalize hr : exec (cat.compileEntries (pending.erase m.name) s.models) c = r at entries
    cases entries with
    | error hfill hsplit hpass hmem hstuck =>
      rw [exec_bind_error hr]
      have hc' := hfill.not_cached hc fun y hy => hy.2
      exact .error (hfill.mono inside fun _ h => h) (.dependency hc' hs hsplit hpass hmem hstuck)
    | @ok c₁ hfill hpass =>
      have hc' := hfill.not_cached hc fun y hy => hy.2
      rw [exec_bind_ok hr, exec_finish hc']
      cases hx : m.compile s with
      | error e =>
        exact .error (hfill.mono inside fun _ _ => trivial) (.definition hc' hs hpass hx)
      | ok x =>
        refine .ok ?_ (by rw [OrderedMap.lookup_insert, if_pos rfl])
        refine (hfill.mono inside fun _ h => h).insert (not_cached_iff.1 hc') ⟨⟨hm, .refl⟩, h⟩
          (alone_eq_ok_iff.2 ⟨s, hs, hx⟩) (fun d hd => ?_) fun y hy => ?_
        · by_cases hdp : d.name ∈ pending.erase m.name
          · exact .inl (hpass _ ((mem_scope_iff hs (t := d.typeName)).2 ⟨hd, rfl⟩) hdp)
          · exact .inr ⟨hdp, back d hd.1 hdp⟩
        · rw [hn.mem_erase_iff, not_and] at hy
          exact (eq_or_ne y.name m.name).imp_right hy
termination_by pending.length
decreasing_by
  have := List.length_erase_of_mem h
  have := List.length_pos_of_mem h
  omega

/-! ## Compiling a registered model -/

theorem compiled_eq (hm : m ∈ cat.models) :
    cat.compiled m = cat.compilePending cat.names m (name_mem hm) := dif_pos (name_mem hm)

/-- After a success nothing that was added waits for a model that is not there. -/
theorem fills_of_compiled_ok {x : Compiled} (hm : m ∈ cat.models)
    (h : exec (cat.compiled m) c = (.ok x, c')) :
    cat.Fills (cat.Reaches m) (fun _ => False) c c' ∧ c'.lookup m.name = some x := by
  have out := compilePending_outcome (c := c) hm (name_mem hm) cat.nodup
    fun y hy hyp => absurd (name_mem hy) hyp
  rw [← compiled_eq hm, h] at out
  cases out with
  | ok hfill hx =>
    refine ⟨⟨hfill.grows, fun name z hz => (hfill.new name z hz).imp_right ?_⟩, hx⟩
    rintro ⟨y, ⟨hn, hy, hz⟩, hd⟩
    refine ⟨y, ⟨hn, hy.1.2, hz⟩, fun d hyd => (hd d hyd).imp_right fun h => ?_⟩
    exact absurd (name_mem hyd.1) h.1

theorem fills_of_compiled_error (hm : m ∈ cat.models)
    (h : exec (cat.compiled m) c = (.error e, c')) :
    cat.Fills (cat.Reaches m) (fun _ => True) c c' ∧ cat.Stuck c' cat.names m e := by
  have out := compilePending_outcome (c := c) hm (name_mem hm) cat.nodup
    fun y hy hyp => absurd (name_mem hy) hyp
  rw [← compiled_eq hm, h] at out
  cases out with
  | error hfill hstuck => exact ⟨hfill.mono (fun _ hy => hy.1.2) fun _ h => h, hstuck⟩

/-- Whatever a compilation comes to, it only adds models that `m` reaches. -/
theorem fills_of_compiled {r : Except ConfigError Compiled} (hm : m ∈ cat.models)
    (h : exec (cat.compiled m) c = (r, c')) :
    cat.Fills (cat.Reaches m) (fun _ => True) c c' := by
  cases r with
  | ok x => exact (fills_of_compiled_ok hm h).1.mono (fun _ h => h) fun _ _ => trivial
  | error e => exact (fills_of_compiled_error hm h).1

theorem Stuck.exec_compiled (hm : m ∈ cat.models) (h : cat.Stuck c cat.names m e) :
    Session.exec (cat.compiled m) c = (.error e, c) := by
  rw [compiled_eq hm]
  exact h.exec (name_mem hm)

theorem exec_compiled_of_cached {x : Compiled} (hm : m ∈ cat.models)
    (h : c.lookup m.name = some x) : exec (cat.compiled m) c = (.ok x, c) := by
  rw [compiled_eq hm]
  exact exec_compilePending_of_cached _ h

/-- A failure is the fault of a model that `m` reaches. -/
theorem exists_alone_of_compiled_error (hm : m ∈ cat.models)
    (h : exec (cat.compiled m) c = (.error e, c')) :
    ∃ y, cat.Reaches m y ∧ cat.alone y = .error e := by
  obtain ⟨y, ⟨hy, -⟩, he⟩ := (fills_of_compiled_error hm h).2.exists_alone (name_mem hm)
  exact ⟨y, hy, he⟩

/-! ## Sound caches -/

/-- Every entry is the compiled form of a registered model. -/
def Sound (cat : Catalog) (c : Cache) : Prop :=
  ∀ name x, c.lookup name = some x → ∃ y, (y ∈ cat.models ∧ y.name = name) ∧ cat.alone y = .ok x

theorem sound_nil : cat.Sound [] := fun _ _ h => by cases h

theorem Sound.fills (hs : cat.Sound c) (hA : ∀ y, A y → y ∈ cat.models)
    (h : cat.Fills A Q c c') : cat.Sound c' := by
  intro name x hx
  rcases h.new name x hx with hx | ⟨y, ⟨hn, hy, hx⟩, -⟩
  · exact hs name x hx
  · exact ⟨y, ⟨hA y hy, hn⟩, hx⟩

theorem Sound.compiled {r : Except ConfigError Compiled} (hs : cat.Sound c) (hm : m ∈ cat.models)
    (h : exec (cat.compiled m) c = (r, c')) : cat.Sound c' :=
  hs.fills (fun _ hy => hy.mem hm) (fills_of_compiled hm h)

/-- What a sound cache holds for a model is its compiled form. -/
theorem Sound.alone {x : Compiled} (hs : cat.Sound c) (hm : m ∈ cat.models)
    (h : c.lookup m.name = some x) : cat.alone m = .ok x := by
  obtain ⟨y, ⟨hy, hn⟩, hx⟩ := hs m.name x h
  exact eq_of_name_eq hy hm hn ▸ hx

/-- A success returns the compiled form of the model. -/
theorem Sound.alone_of_compiled {x : Compiled} (hs : cat.Sound c) (hm : m ∈ cat.models)
    (h : exec (cat.compiled m) c = (.ok x, c')) : cat.alone m = .ok x := by
  exact (hs.compiled hm h).alone hm (fills_of_compiled_ok hm h).2

theorem Sound.of_register {n : Model} {cat' : Catalog} (hs : cat.Sound c)
    (h : cat.register n = .ok cat') : cat'.Sound c := by
  intro name x hx
  obtain ⟨y, ⟨hy, hn⟩, hx⟩ := hs name x hx
  refine ⟨y, ⟨?_, hn⟩, alone_of_register h hx⟩
  rw [(register_eq_ok_iff.1 h).2]
  exact List.mem_append_left _ hy

end Catalog

end TypedModels
