import TypedModels.Proofs.Compilation
import TypedModels.Proofs.Parametricity

/-!
# Contracts of sessions

A contract says what a session may return and which errors it may fail with, for every cache that it
can be started from. A contract for a sequence follows from contracts for its parts. Two sessions
agree if they keep a contract and come to the same from every sound cache.

## Main definitions

* `Catalog.Ensures` : the contract of a session.
* `Catalog.Agree` : sessions with the same outcomes.
-/

namespace TypedModels

namespace Catalog

open Session

variable {cat : Catalog} {ε ε' α β : Type} {R R' : α → Prop} {S : β → Prop} {E E' : ε → Prop}
  {m : Model}

/-- Started from a sound cache, the session leaves a sound cache, and it returns something in `R` or
fails with an error in `E`. -/
def Ensures (cat : Catalog) (R : α → Prop) (E : ε → Prop) (s : Session ε α) : Prop :=
  ∀ c, cat.Sound c → cat.Sound (exec s c).2 ∧
    (∀ a, (exec s c).1 = .ok a → R a) ∧ ∀ e, (exec s c).1 = .error e → E e

namespace Ensures

variable {s : Session ε α}

theorem of_error {c : Cache} {e : ε} (h : cat.Ensures R E s) (hc : cat.Sound c)
    (he : (exec s c).1 = .error e) : E e := (h c hc).2.2 e he

theorem mono (h : cat.Ensures R E s) (hR : ∀ a, R a → R' a) (hE : ∀ e, E e → E' e) :
    cat.Ensures R' E' s := by
  intro c hc
  obtain ⟨hsound, hok, herror⟩ := h c hc
  exact ⟨hsound, fun a ha => hR a (hok a ha), fun e he => hE e (herror e he)⟩

theorem pure {a : α} (h : R a) : cat.Ensures R E (Pure.pure a) := by
  intro c hc
  simp [hc, h]

theorem lift {x : Except ε α} (hok : ∀ a, x = .ok a → R a) (herror : ∀ e, x = .error e → E e) :
    cat.Ensures R E (liftM x) := fun _ hc => ⟨hc, hok, herror⟩

theorem bind {k : α → Session ε β} (h : cat.Ensures R E s)
    (hk : ∀ a, R a → cat.Ensures S E (k a)) : cat.Ensures S E (s >>= k) := by
  intro c hc
  obtain ⟨hsound, hok, herror⟩ := h c hc
  rw [exec_bind]
  rcases hs : exec s c with ⟨e | a, c'⟩
  · simp_all
  · rw [hs] at hsound hok
    exact hk a (hok a rfl) c' hsound

theorem map {f : α → β} (h : cat.Ensures R E s) (hf : ∀ a, R a → S (f a)) :
    cat.Ensures S E (f <$> s) := by
  rw [map_eq_pure_bind]
  exact h.bind fun a ha => .pure (hf a ha)

/-- A list of sessions keeps a contract that all of them keep. -/
theorem mapM {γ : Type} {f : γ → Session ε α} {items : List γ}
    (h : ∀ a ∈ items, cat.Ensures R E (f a)) :
    cat.Ensures (fun results => ∀ b ∈ results, R b) E (items.mapM f) := by
  induction items with
  | nil => exact .pure (by simp)
  | cons a items ih =>
    obtain ⟨ha, hrest⟩ := List.forall_mem_cons.1 h
    rw [List.mapM_cons]
    refine ha.bind fun b hb => (ih hrest).bind fun results hresults => .pure ?_
    exact List.forall_mem_cons.2 ⟨hb, hresults⟩

/-- The same session as part of one that can fail for other reasons. -/
theorem adapt {s : Session ConfigError α} {E : ConfigError → Prop} {F : Failure → Prop}
    (h : cat.Ensures R E s) (hF : ∀ e, E e → F (.schema e)) :
    cat.Ensures R F (liftM s : Session Failure α) := by
  intro c hc
  obtain ⟨hsound, hok, herror⟩ := h c hc
  rw [exec_liftFailure]
  rcases hs : exec s c with ⟨e | a, c'⟩ <;> simp_all [Except.mapError]

end Ensures

/-- A compilation returns the compiled form of the model, or fails for the own fault of a model that
is reached. -/
theorem ensures_compiled {E : ConfigError → Prop} (hm : m ∈ cat.models)
    (hE : ∀ y e, cat.Reaches m y → cat.alone y = .error e → E e) :
    cat.Ensures (fun x => cat.alone m = .ok x) E (cat.compiled m) := by
  intro c hc
  refine ⟨hc.compiled hm rfl, fun x hx => ?_, fun e he => ?_⟩
  · exact hc.alone_of_compiled hm (Prod.ext hx rfl)
  · obtain ⟨y, hy, hfault⟩ := exists_alone_of_compiled_error hm (Prod.ext he rfl)
    exact hE y e hy hfault

/-! ## Sessions that agree -/

/-- The sessions come to the same from every sound cache, and leave a sound one. A success is in
`R`. -/
structure Agree (cat : Catalog) (R : α → Prop) (s t : Session ε α) : Prop where
  ensures : cat.Ensures R (fun _ => True) s
  exec_eq : ∀ c, cat.Sound c → exec t c = exec s c

namespace Agree

variable {s t : Session ε α}

theorem pure {a : α} (h : R a) : cat.Agree R (Pure.pure a : Session ε α) (Pure.pure a) :=
  ⟨.pure h, fun _ _ => rfl⟩

theorem lift {x : Except ε α} (h : ∀ a, x = .ok a → R a) :
    cat.Agree R (liftM x : Session ε α) (liftM x) :=
  ⟨.lift h fun _ _ => trivial, fun _ _ => rfl⟩

theorem throw (e : ε) : cat.Agree R (MonadExcept.throw e : Session ε α) (MonadExcept.throw e) :=
  lift (x := .error e) nofun

theorem bind {k l : α → Session ε β} (h : cat.Agree R s t)
    (hk : ∀ a, R a → cat.Agree S (k a) (l a)) : cat.Agree S (s >>= k) (t >>= l) := by
  refine ⟨h.ensures.bind fun a ha => (hk a ha).ensures, fun c hc => ?_⟩
  obtain ⟨hsound, hok, -⟩ := h.ensures c hc
  rw [exec_bind, exec_bind, h.exec_eq c hc]
  rcases hs : exec s c with ⟨_ | a, c'⟩
  · rfl
  · rw [hs] at hsound hok
    exact (hk a (hok a rfl)).exec_eq c' hsound

theorem compositional :
    Compositional fun {α} (R : α → Prop) (s t : Session ε α) => cat.Agree R s t := ⟨pure, bind⟩

/-- The same sessions as part of ones that can fail for other reasons. -/
theorem adapt {s t : Session ConfigError α} (h : cat.Agree R s t) :
    cat.Agree R (liftM s : Session Failure α) (liftM t) := by
  refine ⟨h.ensures.adapt fun _ _ => trivial, fun c hc => ?_⟩
  rw [exec_liftFailure, exec_liftFailure, h.exec_eq c hc]

end Agree

end Catalog

end TypedModels
