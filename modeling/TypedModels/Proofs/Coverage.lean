import TypedModels.Proofs.History

/-!
# Compiling a model checks its closure

As long as no compilation has failed, the cache is closed under dependency: a model that is compiled
has compiled dependencies. So a model compiles exactly if everything that it reaches is well formed,
and afterwards all of that is compiled.

## Main definitions

* `Catalog.Closed` : the dependencies of the compiled models are compiled.
-/

namespace TypedModels

open Catalog Session

namespace Catalog

variable {cat cat' : Catalog} {A Q U U' : Model → Prop} {c c' : Cache} {m d : Model}

/-- The dependencies of the compiled models in `U` are compiled. -/
def Closed (cat : Catalog) (U : Model → Prop) (c : Cache) : Prop :=
  ∀ m ∈ cat.models, U m → Cached c m → ∀ d, cat.DependsOn m d → Cached c d

theorem closed_nil : cat.Closed U [] := by
  rintro m - - ⟨x, hx⟩
  cases hx

/-- Compilations keep a cache closed, if a model in `U` is not left to wait for another one. -/
theorem Closed.fills (h : cat.Closed U c) (hA : ∀ y, A y → y ∈ cat.models)
    (hwait : ∀ y d, U y → cat.DependsOn y d → Q d → cat.Reaches d y → d = y)
    (hf : cat.Fills A Q c c') : cat.Closed U c' := by
  intro m hm hU hc d hd
  obtain ⟨x, hx⟩ := hc
  rcases hf.new m.name x hx with hx | ⟨y, ⟨hn, hy, -⟩, hdeps⟩
  · exact (h m hm hU ⟨x, hx⟩ d hd).mono hf.grows
  · obtain rfl := eq_of_name_eq (hA y hy) hm hn
    rcases hdeps d hd with hd | ⟨hq, hr⟩
    · exact hd
    · exact hwait y d hU hd hq hr ▸ ⟨x, hx⟩

/-- Registration keeps a cache closed: the compiled models get no new dependencies. -/
theorem Closed.of_register {n : Model} (h : cat.Closed U c) (hs : cat.Sound c)
    (hr : cat.register n = .ok cat') (hU : ∀ y, U' y → U y) : cat'.Closed U' c := by
  intro m hm hUm hc d hd
  obtain ⟨x, hx⟩ := hc
  obtain ⟨y, ⟨hy, hn⟩, hx'⟩ := hs m.name x hx
  obtain rfl := eq_of_name_eq (mem_of_register hr hy) hm hn
  have registered := (wellFormed_iff.2 ⟨x, hx'⟩).registered
  exact h y hy (hU y hUm) ⟨x, hx⟩ d ((dependsOn_of_register_iff hr registered).1 hd)

theorem Closed.cached (h : cat.Closed U c) (hU : ∀ y d, U y → cat.DependsOn y d → U d)
    (hm : m ∈ cat.models) (hUm : U m) (hc : Cached c m) (hr : cat.Reaches m d) : Cached c d := by
  have : U d ∧ Cached c d := by
    induction hr with
    | refl => exact ⟨hUm, hc⟩
    | tail hmy hyd ih => exact ⟨hU _ _ ih.1 hyd, h _ (Reaches.mem hmy hm) ih.1 ih.2 _ hyd⟩
  exact this.2

theorem Sound.wellFormed (hs : cat.Sound c) (hm : m ∈ cat.models) (hc : Cached c m) :
    cat.WellFormed m := by
  obtain ⟨x, hx⟩ := hc
  exact wellFormed_iff.2 ⟨x, hs.alone hm hx⟩

/-- A closed cache stays closed when compilations succeed. -/
theorem Closed.compiles (h : cat.Closed (fun _ => True) c)
    (hc : Relation.ReflTransGen (cat.Compiles (· ∈ cat.models)) c c') :
    cat.Closed (fun _ => True) c' := by
  induction hc with
  | refl => exact h
  | tail _ step ih =>
    obtain ⟨m, x, hm, hx⟩ := step
    have hfill := (fills_of_compiled_ok hm hx).1
    exact ih.fills (fun _ hy => hy.mem hm) (fun _ _ _ _ hq _ => hq.elim) hfill

/-- A success from a closed cache compiles all that the model reaches. -/
theorem Closed.cached_of_compiled {x : Compiled} (h : cat.Closed (fun _ => True) c)
    (hm : m ∈ cat.models) (hx : exec (cat.compiled m) c = (.ok x, c')) (hr : cat.Reaches m d) :
    Cached c' d := by
  have hc' := h.compiles (.single ⟨m, x, hm, hx⟩)
  exact hc'.cached (fun _ _ h _ => h) hm trivial ⟨x, (fills_of_compiled_ok hm hx).2⟩ hr

end Catalog

namespace Workspace

variable {w : Workspace} {m : Model}

/-- Without a failed compilation the cache is closed under dependency. -/
theorem Unbroken.closed (h : w.Unbroken) : w.catalog.Closed (fun _ => True) w.cache := by
  induction h with
  | empty => exact Catalog.closed_nil
  | register hw hr ih =>
    obtain ⟨hcat, hcache⟩ := register_eq_ok_iff.1 hr
    exact hcache ▸ ih.of_register hw.reachable.sound hcat fun _ h => h
  | call _ hs ih => exact ih.compiles hs

/-- Where no compilation has failed, a model compiles exactly if it has a closure of well formed
models. A success leaves all of them compiled, and a failure is the fault of a model that is
reached. -/
theorem Unbroken.compiled_iff (h : w.Unbroken) (hm : m ∈ w.catalog.models) :
    ((∃ x, (w.run (·.compiled m)).1 = .ok x) ↔
      ∃ ms, w.catalog.closure m = .ok ms ∧ ∀ d ∈ ms, w.catalog.WellFormed d) ∧
    (∀ x, (w.run (·.compiled m)).1 = .ok x →
      ∃ ms, w.catalog.closure m = .ok ms ∧
        ∀ d ∈ ms, (w.run (·.compiled m)).2.isCompiled d.name = true) ∧
    (∀ e, (w.run (·.compiled m)).1 = .error e →
      ∃ d, w.catalog.Reaches m d ∧ (w.catalog.scope d = .error e ∨
        ∃ s, w.catalog.scope d = .ok s ∧ d.compile s = .error e)) := by
  simp only [exec_eq_run]
  have success : ∀ x, (exec (w.catalog.compiled m) w.cache).1 = .ok x →
      ∀ d, w.catalog.Reaches m d → Cached (exec (w.catalog.compiled m) w.cache).2 d :=
    fun x hx d hr => h.closed.cached_of_compiled hm (Prod.ext hx rfl) hr
  have sound : w.catalog.Sound (exec (w.catalog.compiled m) w.cache).2 :=
    h.reachable.sound.compiled hm rfl
  have closure : ∀ x, (exec (w.catalog.compiled m) w.cache).1 = .ok x →
      ∃ ms, w.catalog.closure m = .ok ms := fun x hx =>
    (exists_closure_iff hm).2 fun d hr =>
      (sound.wellFormed (hr.mem hm) (success x hx d hr)).registered
  refine ⟨⟨?_, ?_⟩, ?_, ?_⟩
  · rintro ⟨x, hx⟩
    obtain ⟨ms, hms⟩ := closure x hx
    refine ⟨ms, hms, fun d hd => ?_⟩
    have hr := (mem_closure_iff hm hms).1 hd
    exact sound.wellFormed (hr.mem hm) (success x hx d hr)
  · rintro ⟨ms, hms, hd⟩
    rcases hr : exec (w.catalog.compiled m) w.cache with ⟨e | x, c⟩
    · obtain ⟨y, hy, he⟩ := exists_alone_of_compiled_error hm hr
      exact absurd (hd y ((mem_closure_iff hm hms).2 hy)) (not_wellFormed_of_alone he)
    · exact ⟨x, rfl⟩
  · intro x hx
    obtain ⟨ms, hms⟩ := closure x hx
    refine ⟨ms, hms, fun d hd => ?_⟩
    obtain ⟨y, hy⟩ := success x hx d ((mem_closure_iff hm hms).1 hd)
    exact Option.isSome_iff_exists.2 ⟨y, hy⟩
  · intro e he
    obtain ⟨d, hr, hd⟩ := exists_alone_of_compiled_error hm (Prod.ext he rfl)
    exact ⟨d, hr, alone_eq_error_iff.1 hd⟩

/-! ## A cycle of two models -/

def literature : Source where
  document := ⟨[
    .object { name := "Author", fields := [{ name := "books", type := .list (.named "Book") }] },
    .object { name := "Book", fields := [{ name := "author", type := .named "Author" }] }]⟩

def author : Model := { name := "Author", schema := literature, dependencies := ["Book"] }

def book : Model := { name := "Book", schema := literature, dependencies := ["Author"] }

def library : Workspace where
  catalog := { models := [author, book], nodup := by decide }

/-- The authors alone, without the books that they depend on. -/
def salon : Workspace where
  catalog := { models := [author], nodup := by decide }

theorem compiled_library :
    (∃ ms, library.catalog.closure author = .ok ms ∧
      ∀ d ∈ ms, (library.run (·.compiled author)).2.isCompiled d.name = true) ∧
    ∃ d, salon.catalog.Reaches author d ∧
      (salon.catalog.scope d = .error (.unknownDependency "Author" "Book") ∨
        ∃ s, salon.catalog.scope d = .ok s ∧
          d.compile s = .error (.unknownDependency "Author" "Book")) := by
  have both := (unbroken_of_fresh library.catalog).compiled_iff (m := author) List.mem_cons_self
  have alone := (unbroken_of_fresh salon.catalog).compiled_iff (m := author) List.mem_cons_self
  have wellFormed : ∀ d ∈ [author, book], library.catalog.WellFormed d := by
    simp only [List.forall_mem_cons, wellFormed_iff]
    exact ⟨⟨_, rfl⟩, ⟨_, rfl⟩, by simp⟩
  obtain ⟨x, hx⟩ := both.1.2 ⟨[author, book], by cbv, wellFormed⟩
  exact ⟨both.2.1 x hx, alone.2.2 _ (by decide +kernel)⟩

end Workspace

end TypedModels
