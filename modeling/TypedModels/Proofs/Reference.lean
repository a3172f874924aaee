import Mathlib.Data.Fintype.Card
import Mathlib.Data.Set.Finite.Basic
import TypedModels.Proofs.Persistence

/-!
# Compilation without a cache

Where no model depends on itself, compilation can be described without a cache and without a record
of the models that are on the way: a model takes the first error of its dependencies, in the order of
its scope, and is compiled against the scope if there is none. Compilation with a cache gives the
same answer in every workspace, whatever has been compiled before.

## Main definitions

* `Catalog.Acyclic` : no model depends on itself, directly or indirectly.
* `Catalog.reference` : compilation without a cache.
-/

namespace TypedModels

namespace Catalog

variable {cat : Catalog} {c : Cache} {pending : List String} {m d y : Model} {e : ConfigError}
  {x : Compiled} {s : Scope}

/-! ## Graphs without cycles -/

/-- No model depends on itself, directly or indirectly. -/
def Acyclic (cat : Catalog) : Prop := ∀ m, ¬ Relation.TransGen cat.DependsOn m m

theorem Acyclic.wellFounded (h : cat.Acyclic) : WellFounded fun d m => cat.DependsOn m d := by
  let below (d m : {m // m ∈ cat.models}) : Prop := Relation.TransGen cat.DependsOn m.1 d.1
  have : Finite {m // m ∈ cat.models} := (List.finite_toSet cat.models).to_subtype
  have : IsTrans _ below := ⟨fun _ _ _ hab hbc => hbc.trans hab⟩
  have : Std.Irrefl below := ⟨fun m => h m.1⟩
  have wf : WellFounded below := Finite.wellFounded_of_trans_of_irrefl below
  have registered (m : {m // m ∈ cat.models}) : Acc (fun d m => cat.DependsOn m d) m.1 := by
    induction m using wf.induction with
    | _ m ih => exact ⟨_, fun d hd => ih ⟨d, hd.1⟩ (.single hd)⟩
  exact ⟨fun m => ⟨_, fun d hd => registered ⟨d, hd.1⟩⟩⟩

theorem Acyclic.untangled (h : cat.Acyclic) (m : Model) : cat.Untangled m := by
  intro a b _ hab hba
  rcases Relation.reflTransGen_iff_eq_or_transGen.1 hab with rfl | hab
  · rfl
  · exact absurd (hab.trans_left hba) (h a)

/-- Models whose dependencies all rank below them do not depend on themselves. -/
theorem acyclic_of_rank (rank : String → Nat)
    (h : ∀ m ∈ cat.models, ∀ d ∈ cat.models, d.name ∈ m.dependencies → rank d.name < rank m.name) :
    cat.Acyclic := by
  have below : ∀ a b, a ∈ cat.models → Relation.TransGen cat.DependsOn a b →
      b ∈ cat.models ∧ rank b.name < rank a.name := by
    intro a b ha hab
    induction hab with
    | single hd => exact ⟨hd.1, h a ha _ hd.1 hd.2⟩
    | tail _ hd ih => exact ⟨hd.1, (h _ ih.1 _ hd.1 hd.2).trans ih.2⟩
  intro m hm
  have registered : m ∈ cat.models := by
    cases hm with
    | single hd => exact hd.1
    | tail _ hd => exact hd.1
  exact absurd (below m m registered hm).2 (lt_irrefl _)

/-- What a dependency reaches is not the model itself, so it may still be entered. -/
theorem Acyclic.mem_erase (h : cat.Acyclic) (hm : m ∈ cat.models)
    (hpending : ∀ y, cat.Reaches m y → y.name ∈ pending) (hd : cat.DependsOn m d) :
    ∀ y, cat.Reaches d y → y.name ∈ pending.erase m.name := by
  intro y hy
  have hname : y.name ≠ m.name := by
    intro hn
    obtain rfl := eq_of_name_eq (hy.mem hd.1) hm hn
    exact h y (.head' hd hy)
  exact (List.mem_erase_of_ne hname).2 (hpending y (.head hd hy))

/-! ## The reference -/

/-- The compiled form of a model whose dependencies compile, or the error of the first one that does
not. -/
def reference (cat : Catalog) (h : cat.Acyclic) (m : Model) : Except ConfigError Compiled :=
  match _hs : cat.scope m with
  | .error e => .error e
  | .ok s => do
    s.models.attach.forM fun d => discard (cat.reference h d.1.2)
    m.compile s
termination_by h.wellFounded.wrap m
decreasing_by exact ((mem_scope_iff _hs (t := d.1.1)).1 d.2).1

theorem reference_eq (h : cat.Acyclic) (m : Model) : cat.reference h m = (do
    let s ← cat.scope m
    forM s.models fun d => discard (cat.reference h d.2)
    m.compile s) := by
  rw [reference]
  split
  · next e hs => rw [hs]; rfl
  · next s hs =>
    have each : forM s.models.attach (fun d => discard (cat.reference h d.1.2)) =
        forM s.models (fun d => discard (cat.reference h d.2)) := by
      conv_rhs => rw [← List.attach_map_subtype_val s.models, List.forM_map]
    rw [hs, List.forM_eq_forM, each]
    rfl

theorem reference_eq_ok_iff (h : cat.Acyclic) : cat.reference h m = .ok x ↔ ∃ s,
    cat.scope m = .ok s ∧ (∀ d ∈ s.models, ∃ y, cat.reference h d.2 = .ok y) ∧
      m.compile s = .ok x := by
  rw [reference_eq, bind_eq_ok_iff]
  refine exists_congr fun s => and_congr_right fun _ => ?_
  rw [bind_eq_ok_iff, ← forM_eq_ok_iff]
  exact ⟨fun ⟨⟨⟩, hdeps, hx⟩ => ⟨hdeps, hx⟩, fun ⟨hdeps, hx⟩ => ⟨⟨⟩, hdeps, hx⟩⟩

/-- The error is that of the scope, of the first dependency that does not compile, or of the model's
own definition, in this order. -/
theorem reference_eq_error_iff (h : cat.Acyclic) : cat.reference h m = .error e ↔
    cat.scope m = .error e ∨ ∃ s, cat.scope m = .ok s ∧
      ((∃ before d after, s.models = before ++ d :: after ∧
          (∀ b ∈ before, ∃ y, cat.reference h b.2 = .ok y) ∧ cat.reference h d.2 = .error e) ∨
        (∀ d ∈ s.models, ∃ y, cat.reference h d.2 = .ok y) ∧ m.compile s = .error e) := by
  rw [reference_eq, bind_eq_error_iff]
  refine or_congr_right (exists_congr fun s => and_congr_right fun _ => ?_)
  rw [bind_eq_error_iff, ← forM_eq_error_iff, ← forM_eq_ok_iff]
  exact or_congr_right ⟨fun ⟨⟨⟩, hdeps, he⟩ => ⟨hdeps, he⟩, fun ⟨hdeps, he⟩ => ⟨⟨⟩, hdeps, he⟩⟩

/-! ## What decides the reference -/

/-- Where everything that is reached is well formed, the reference is the compiled form. -/
theorem reference_of_wellFormed (h : cat.Acyclic) (hwf : ∀ y, cat.Reaches m y → cat.WellFormed y) :
    cat.reference h m = cat.alone m := by
  induction m using h.wellFounded.induction with
  | _ m ih =>
    obtain ⟨x, hx⟩ := wellFormed_iff.1 (hwf m .refl)
    obtain ⟨s, hs, hcompile⟩ := alone_eq_ok_iff.1 hx
    rw [hx]
    refine (reference_eq_ok_iff h).2 ⟨s, hs, fun d hd => ?_, hcompile⟩
    have hdep : cat.DependsOn m d.2 := ((mem_scope_iff hs (t := d.1)).1 hd).1
    have hdwf : ∀ y, cat.Reaches d.2 y → cat.WellFormed y := fun y hy => hwf y (.head hdep hy)
    rw [ih d.2 hdep hdwf]
    exact wellFormed_iff.1 (hdwf d.2 .refl)

/-- A model whose reference succeeds reaches only models whose references succeed. -/
theorem exists_reference_of_reaches (h : cat.Acyclic) (hr : cat.Reaches m y)
    (hx : ∃ x, cat.reference h m = .ok x) : ∃ z, cat.reference h y = .ok z := by
  induction hr with
  | refl => exact hx
  | @tail a b _ hab ih =>
    obtain ⟨x, hx⟩ := ih
    obtain ⟨s, hs, hdeps, -⟩ := (reference_eq_ok_iff h).1 hx
    exact hdeps (b.typeName, b) ((mem_scope_iff hs).2 ⟨hab, rfl⟩)

/-- The error of a reference is the own fault of a model that is reached, and the error of that
model's reference too. -/
theorem exists_fault_of_reference (h : cat.Acyclic) (he : cat.reference h m = .error e) :
    ∃ y, cat.Reaches m y ∧ cat.alone y = .error e ∧ cat.reference h y = .error e := by
  induction m using h.wellFounded.induction with
  | _ m ih =>
    rcases (reference_eq_error_iff h).1 he with
      hs | ⟨s, hs, ⟨before, d, after, hsplit, -, hd⟩ | ⟨-, hcompile⟩⟩
    · exact ⟨m, .refl, alone_eq_error_iff.2 (.inl hs), he⟩
    · have hdep := dependsOn_of_scope_append hs hsplit
      obtain ⟨y, hy, hfault⟩ := ih d.2 hdep hd
      exact ⟨y, .head hdep hy, hfault⟩
    · exact ⟨m, .refl, alone_eq_error_iff.2 (.inr ⟨s, hs, hcompile⟩), he⟩

/-- A model that is stuck although it may enter everything that it reaches is stuck for the reason
that the reference gives. Here the compiled models reach nothing at fault. -/
theorem Stuck.reference (h : cat.Acyclic) (hs : cat.Stuck c pending m e) (hm : m ∈ cat.models)
    (hpending : ∀ y, cat.Reaches m y → y.name ∈ pending)
    (hcached : ∀ d ∈ cat.models, Cached c d → ∀ y, cat.Reaches d y → cat.WellFormed y) :
    cat.reference h m = .error e := by
  have compiled : ∀ d ∈ cat.models, Cached c d → ∃ x, cat.reference h d = .ok x := by
    intro d hd hc
    rw [reference_of_wellFormed h (hcached d hd hc)]
    exact wellFormed_iff.1 (hcached d hd hc d .refl)
  induction hs with
  | scope _ hs => exact (reference_eq_error_iff h).2 (.inl hs)
  | @dependency pending m e s before after d _ hs hsplit hpass hd _ ih =>
    have hdep := dependsOn_of_scope_append hs hsplit
    refine (reference_eq_error_iff h).2 (.inr ⟨s, hs, .inl ⟨before, d, after, hsplit, ?_, ?_⟩⟩)
    · intro b hb
      have hbdep : cat.DependsOn m b.2 := ((mem_scope_iff hs (t := b.1)).1 (by simp [hsplit, hb])).1
      exact compiled b.2 hbdep.1 (hpass b hb (h.mem_erase hm hpending hbdep b.2 .refl))
    · exact ih hdep.1 (h.mem_erase hm hpending hdep)
  | @definition pending m e s _ hs hpass he =>
    refine (reference_eq_error_iff h).2 (.inr ⟨s, hs, .inr ⟨fun d hd => ?_, he⟩⟩)
    have hdep : cat.DependsOn m d.2 := ((mem_scope_iff hs (t := d.1)).1 hd).1
    exact compiled d.2 hdep.1 (hpass d hd (h.mem_erase hm hpending hdep d.2 .refl))

end Catalog

namespace Workspace

open Catalog Session

variable {w : Workspace} {m d : Model} {e : ConfigError}

/-- Without cycles, a compiled model reaches nothing at fault, whatever has happened before. -/
theorem Reachable.wellFormed_of_cached (h : w.Reachable) (hacyclic : w.catalog.Acyclic)
    (hm : m ∈ w.catalog.models) (hc : Cached w.cache m) (hr : w.catalog.Reaches m d) :
    w.catalog.WellFormed d := by
  by_contra hfault
  exact h.not_cached hm (hacyclic.untangled m) hr hfault hc

theorem Reachable.compiled_eq (h : w.Reachable) (hacyclic : w.catalog.Acyclic)
    (hm : m ∈ w.catalog.models) :
    (w.run (·.compiled m)).1 = w.catalog.reference hacyclic m := by
  have hafter : (w.run (·.compiled m)).2.Reachable := after_compile hm ▸ h.call _
  have settled : ∀ d ∈ w.catalog.models, Cached (exec (w.catalog.compiled m) w.cache).2 d →
      ∀ y, w.catalog.Reaches d y → w.catalog.WellFormed y :=
    fun d hd hc y hy => hafter.wellFormed_of_cached hacyclic hd hc hy
  rw [exec_eq_run]
  rcases hr : exec (w.catalog.compiled m) w.cache with ⟨e | x, c⟩
  · rw [hr] at settled
    have hstuck := (fills_of_compiled_error hm hr).2
    exact (hstuck.reference hacyclic hm (fun y hy => name_mem (hy.mem hm)) settled).symm
  · rw [hr] at settled
    have hx := (fills_of_compiled_ok hm hr).2
    rw [reference_of_wellFormed hacyclic (settled m hm ⟨x, hx⟩)]
    exact (h.sound.alone_of_compiled hm hr).symm

/-- Where no model depends on itself, compilation does what the reference says, whatever has happened
before. So a broken dependency fails every model that reaches it, with its own error unless another
model that is reached is at fault too. -/
theorem Reachable.compiled_eq_reference (h : w.Reachable) (hacyclic : w.catalog.Acyclic)
    (hm : m ∈ w.catalog.models) :
    (w.run (·.compiled m)).1 = w.catalog.reference hacyclic m ∧
    ∀ d e, w.catalog.Reaches m d → (w.run (·.compiled d)).1 = .error e →
      (w.run (·.compiled m)).1 = .error e ∨
        ∃ y f, (w.catalog.Reaches m y ∧ y ≠ d) ∧ w.catalog.alone y = .error f ∧
          (w.run (·.compiled m)).1 = .error f := by
  refine ⟨h.compiled_eq hacyclic hm, fun d e hr he => ?_⟩
  rw [h.compiled_eq hacyclic (hr.mem hm)] at he
  rw [h.compiled_eq hacyclic hm]
  cases hm' : w.catalog.reference hacyclic m with
  | ok x =>
    obtain ⟨z, hz⟩ := exists_reference_of_reaches hacyclic hr ⟨x, hm'⟩
    rw [he] at hz
    cases hz
  | error f =>
    obtain ⟨y, hy, hfault, hf⟩ := exists_fault_of_reference hacyclic hm'
    by_cases hyd : y = d
    · subst hyd
      rw [he] at hf
      exact .inl hf.symm
    · exact .inr ⟨y, f, ⟨hy, hyd⟩, hfault, rfl⟩

/-! ## A fault that two models share -/

def commerce : Source where
  document := ⟨[
    .object { name := "Order", fields := [
      { name := "item", type := .named "Item" }, { name := "buyer", type := .named "Buyer" }] },
    .object { name := "Item", fields := [{ name := "origin", type := .named "Place" }] },
    .object { name := "Buyer", fields := [{ name := "home", type := .named "Place" }] },
    .interface { name := "Place", fields := [{ name := "city", type := .named "String" }] }]⟩

def order : Model := { name := "Order", schema := commerce, dependencies := ["Item", "Buyer"] }

def item : Model := { name := "Item", schema := commerce, dependencies := ["Place"] }

def buyer : Model := { name := "Buyer", schema := commerce, dependencies := ["Place"] }

/-- An interface that does not say how it picks an implementation. -/
def place : Model := { name := "Place", schema := commerce }

def shop : Workspace where
  catalog := { models := [order, item, buyer, place], nodup := by decide }

theorem acyclic_shop : shop.catalog.Acyclic :=
  acyclic_of_rank
    (fun name => if name = "Order" then 2 else if name = "Place" then 0 else 1) (by decide)

/-- The order fails because of the place, two steps away, after the buyer has failed for it. -/
theorem compiled_eq_reference_shop :
    ((shop.after (.compile "Buyer")).run (·.compiled order)).1 =
      shop.catalog.reference acyclic_shop order ∧
    shop.catalog.reference acyclic_shop order = .error (.missingDiscriminator "Place") := by
  have reachable : (shop.after (.compile "Buyer")).Reachable := (unbroken_of_fresh _).reachable.call _
  have horder : order ∈ shop.catalog.models := List.mem_cons_self
  have same := (reachable.compiled_eq_reference acyclic_shop horder).1
  have fails : ((shop.after (.compile "Buyer")).run (·.compiled order)).1 =
      .error (.missingDiscriminator "Place") := by decide +kernel
  exact ⟨same, same.symm.trans fails⟩

end Workspace

end TypedModels
