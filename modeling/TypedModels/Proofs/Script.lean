import TypedModels.Proofs.Compilation
import TypedModels.Proofs.Parametricity

/-!
# Sessions as scripts

Every operation over a catalog touches the cache in one way only: it compiles models, one after the
other, and gives up when one of them fails. Such a session is a script. What holds of the cache is
therefore settled by what one compilation preserves, and a script that succeeded finds all that it
needs in the cache that it left.

## Main definitions

* `Catalog.Scripted` : a session that compiles models in `P` and returns something in `R`.
* `Catalog.Attempts` : what one compilation does to a cache.
* `Catalog.Compiles` : what one successful compilation does to a cache.
-/

namespace TypedModels

namespace Catalog

open Session

variable {cat : Catalog} {P P' : Model → Prop} {ε : Type} {wrap : ConfigError → ε} {α β : Type}
  {R R' : α → Prop} {S : β → Prop} {c c' d : Cache}

/-- The session compiles models in `P`, goes on with their compiled forms, gives up at the first
failure, and returns something in `R` if it gets to the end. -/
inductive Scripted (cat : Catalog) (P : Model → Prop) {ε : Type} (wrap : ConfigError → ε) :
    {α : Type} → (α → Prop) → Session ε α → Prop
  | pure {α : Type} {R : α → Prop} {a : α} : R a → Scripted cat P wrap R (Pure.pure a)
  | throw {α : Type} {R : α → Prop} (e : ε) : Scripted cat P wrap R (MonadExcept.throw e)
  | compile {α : Type} {R : α → Prop} {m : Model} {k : Compiled → Session ε α} : P m →
      (∀ x, cat.alone m = .ok x → Scripted cat P wrap R (k x)) →
      Scripted cat P wrap R (ExceptT.adapt wrap (cat.compiled m) >>= k)

namespace Scripted

variable {s : Session ε α}

theorem mono (h : cat.Scripted P wrap R s) (hP : ∀ m, P m → P' m) (hR : ∀ a, R a → R' a) :
    cat.Scripted P' wrap R' s := by
  induction h with
  | pure ha => exact .pure (hR _ ha)
  | throw e => exact .throw e
  | compile hm _ ih => exact .compile (hP _ hm) fun x hx => ih x hx

theorem bind {k : α → Session ε β} (h : cat.Scripted P wrap R s)
    (hk : ∀ a, R a → cat.Scripted P wrap S (k a)) : cat.Scripted P wrap S (s >>= k) := by
  induction h with
  | pure ha => rw [pure_bind]; exact hk _ ha
  | throw e => exact .throw e
  | compile hm _ ih => rw [bind_assoc]; exact .compile hm fun x hx => ih x hx

theorem lift {x : Except ε α} (h : ∀ a, x = .ok a → R a) : cat.Scripted P wrap R (liftM x) := by
  cases x with
  | ok a => exact .pure (h a rfl)
  | error e => exact .throw e

/-- The same script, with its errors wrapped. -/
theorem adapt {s : Session ConfigError α} (h : cat.Scripted P id R s) :
    cat.Scripted P wrap R (ExceptT.adapt wrap s) := by
  induction h with
  | pure ha => exact .pure ha
  | throw e => exact .throw (wrap e)
  | compile hm _ ih =>
    rw [adapt_bind, adapt_id]
    exact .compile hm ih

theorem compiled {m : Model} (hm : P m) :
    cat.Scripted P id (fun x => cat.alone m = .ok x) (cat.compiled m) := by
  rw [← bind_pure (cat.compiled m), ← adapt_id (cat.compiled m)]
  exact .compile hm fun x hx => .pure hx

/-- Sequences of scripts are scripts. The second session of the relation plays no part. -/
theorem compositional :
    Compositional fun {α} (R : α → Prop) (s _ : Session ε α) => cat.Scripted P wrap R s :=
  ⟨.pure, bind⟩

theorem mapM {γ : Type} {f : γ → Session ε α} {items : List γ}
    (h : ∀ a ∈ items, cat.Scripted P wrap (fun _ => True) (f a)) :
    cat.Scripted P wrap (fun _ => True) (items.mapM f) := compositional.mapM (g := f) h

theorem foldlM {γ : Type} {f : α → γ → Session ε α} {items : List γ} {a : α}
    (h : ∀ a, ∀ b ∈ items, cat.Scripted P wrap (fun _ => True) (f a b)) :
    cat.Scripted P wrap (fun _ => True) (items.foldlM f a) := compositional.foldlM (g := f) h

theorem forM {γ : Type} {f : γ → Session ε PUnit} {items : List γ}
    (h : ∀ a ∈ items, cat.Scripted P wrap (fun _ => True) (f a)) :
    cat.Scripted P wrap (fun _ => True) (items.forM f) := by
  induction items with
  | nil => exact .pure trivial
  | cons a items ih =>
    obtain ⟨ha, hrest⟩ := List.forall_mem_cons.1 h
    exact ha.bind fun _ _ => ih hrest

theorem discard (h : cat.Scripted P wrap R s) :
    cat.Scripted P wrap (fun _ => True) (discard s) :=
  h.bind fun _ _ => .pure trivial

end Scripted

/-! ## What a script does -/

/-- One compilation of a model in `P`, whatever it comes to. -/
def Attempts (cat : Catalog) (P : Model → Prop) (c c' : Cache) : Prop :=
  ∃ m, P m ∧ c' = (exec (cat.compiled m) c).2

/-- One successful compilation of a model in `P`. -/
def Compiles (cat : Catalog) (P : Model → Prop) (c c' : Cache) : Prop :=
  ∃ m x, P m ∧ exec (cat.compiled m) c = (.ok x, c')

/-- One compilation adds models that are reached and keeps what is there. -/
theorem Attempts.fills (h : cat.Attempts P c c') (hP : ∀ m, P m → m ∈ cat.models) :
    cat.Fills (fun y => ∃ m, P m ∧ cat.Reaches m y) (fun _ => True) c c' := by
  obtain ⟨m, hm, rfl⟩ := h
  exact (fills_of_compiled (hP m hm) rfl).mono (fun _ hy => ⟨m, hm, hy⟩) fun _ h => h

theorem fills_of_attempts (h : Relation.ReflTransGen (cat.Attempts P) c c')
    (hP : ∀ m, P m → m ∈ cat.models) :
    cat.Fills (fun y => ∃ m, P m ∧ cat.Reaches m y) (fun _ => True) c c' := by
  induction h with
  | refl => exact .refl c
  | tail _ h ih => exact ih.trans (h.fills hP)

namespace Scripted

variable {s : Session ε α} {a : α}

/-- A script changes the cache by compilations alone. -/
theorem attempts (h : cat.Scripted P wrap R s) (hP : ∀ m, P m → m ∈ cat.models)
    (hc : cat.Sound c) : Relation.ReflTransGen (cat.Attempts P) c (exec s c).2 := by
  induction h generalizing c with
  | pure ha => exact .refl
  | throw e => exact .refl
  | @compile m k hm _ ih =>
    have step : cat.Attempts P c (exec (cat.compiled m) c).2 := ⟨m, hm, rfl⟩
    rw [exec_bind, exec_adapt]
    rcases hr : exec (cat.compiled m) c with ⟨_ | x, c'⟩
    · rw [hr] at step
      exact .single step
    · rw [hr] at step
      have hc' := hc.compiled (hP m hm) hr
      exact .head step (ih x (hc.alone_of_compiled (hP m hm) hr) hc')

/-- A script adds nothing but models that those in `P` reach. -/
theorem fills_reached (h : cat.Scripted P wrap R s) (hP : ∀ m, P m → m ∈ cat.models)
    (hc : cat.Sound c) :
    cat.Fills (fun y => ∃ m, P m ∧ cat.Reaches m y) (fun _ => True) c (exec s c).2 :=
  fills_of_attempts (h.attempts hP hc) hP

theorem fills (h : cat.Scripted P wrap R s) (hP : ∀ m, P m → m ∈ cat.models)
    (hc : cat.Sound c) : cat.Fills (· ∈ cat.models) (fun _ => True) c (exec s c).2 :=
  (h.fills_reached hP hc).mono (fun _ ⟨m, hm, hy⟩ => hy.mem (hP m hm)) fun _ h => h

theorem grows (h : cat.Scripted P wrap R s) (hP : ∀ m, P m → m ∈ cat.models)
    (hc : cat.Sound c) : c <+: (exec s c).2 := (h.fills hP hc).grows

theorem sound (h : cat.Scripted P wrap R s) (hP : ∀ m, P m → m ∈ cat.models)
    (hc : cat.Sound c) : cat.Sound (exec s c).2 := hc.fills (fun _ h => h) (h.fills hP hc)

/-- The compilations of a script succeed, but perhaps for the last one, which then decides the
error. -/
theorem compiles_or (h : cat.Scripted P wrap R s) (hP : ∀ m, P m → m ∈ cat.models)
    (hc : cat.Sound c) :
    Relation.ReflTransGen (cat.Compiles P) c (exec s c).2 ∨
      ∃ m e d, P m ∧ Relation.ReflTransGen (cat.Compiles P) c d ∧
        exec (cat.compiled m) d = (.error e, (exec s c).2) ∧
        (exec s c).1.map (fun _ => ()) = .error (wrap e) := by
  induction h generalizing c with
  | pure ha => exact .inl .refl
  | throw e => exact .inl .refl
  | @compile m k hm _ ih =>
    rw [exec_bind, exec_adapt]
    rcases hr : exec (cat.compiled m) c with ⟨e | x, c'⟩
    · exact .inr ⟨m, e, c, hm, .refl, hr, rfl⟩
    · have step : cat.Compiles P c c' := ⟨m, x, hm, hr⟩
      have hc' := hc.compiled (hP m hm) hr
      rcases ih x (hc.alone_of_compiled (hP m hm) hr) hc' with hrest | ⟨y, e, d, hy, hd, he⟩
      · exact .inl (.head step hrest)
      · exact .inr ⟨y, e, d, hy, .head step hd, he⟩

/-- A script that succeeds returns what it should, none of its compilations failed, and it finds all
that it needs in every cache that extends the one it left. -/
theorem of_exec (h : cat.Scripted P wrap R s) (hP : ∀ m, P m → m ∈ cat.models)
    (hc : cat.Sound c) (hs : exec s c = (.ok a, c')) :
    R a ∧ Relation.ReflTransGen (cat.Compiles P) c c' ∧
      ∀ d, c' <+: d → exec s d = (.ok a, d) := by
  induction h generalizing c with
  | pure ha =>
    cases hs
    exact ⟨ha, .refl, fun d _ => rfl⟩
  | throw e => cases hs
  | @compile m k hm hk ih =>
    obtain ⟨x, _, hx, hs⟩ := exec_bind_eq_ok_iff.1 hs
    rw [exec_adapt] at hx
    rcases hr : exec (cat.compiled m) c with ⟨_ | _, c₁⟩
    · rw [hr] at hx
      cases hx
    · rw [hr] at hx
      cases hx
      have step : cat.Compiles P c c₁ := ⟨m, x, hm, hr⟩
      have hc' := hc.compiled (hP m hm) hr
      have hx := hc.alone_of_compiled (hP m hm) hr
      obtain ⟨hR, hcompiles, hagain⟩ := ih x hx hc' hs
      refine ⟨hR, .head step hcompiles, fun d hd => ?_⟩
      have hgrows := (hk x hx).grows hP hc'
      rw [hs] at hgrows
      have hcached := OrderedMap.lookup_of_prefix (hgrows.trans hd)
        (fills_of_compiled_ok (hP m hm) hr).2
      rw [exec_bind, exec_adapt, exec_compiled_of_cached (hP m hm) hcached]
      exact hagain d hd

/-- A sequence leaves the cache as it is exactly if both parts do. -/
theorem exec_bind_iff {k : α → Session ε β} {b : β} (h : cat.Scripted P wrap R s)
    (hk : ∀ a, R a → cat.Scripted P wrap S (k a)) (hP : ∀ m, P m → m ∈ cat.models)
    (hc : cat.Sound c) : exec (s >>= k) c = (.ok b, c) ↔
      ∃ a, exec s c = (.ok a, c) ∧ exec (k a) c = (.ok b, c) := by
  rw [exec_bind_eq_ok_iff]
  constructor
  · rintro ⟨a, d, hs, hb⟩
    have hcd := h.grows hP hc
    have hd := h.sound hP hc
    rw [hs] at hcd hd
    have hdc := (hk a (h.of_exec hP hc hs).1).grows hP hd
    rw [hb] at hdc
    obtain rfl : d = c := hdc.eq_of_length_le hcd.length_le
    exact ⟨a, hs, hb⟩
  · rintro ⟨a, hs, hb⟩
    exact ⟨a, c, hs, hb⟩

/-- A list of sessions fills nothing exactly if none of them does. -/
theorem exec_mapM_iff {γ : Type} {f : γ → Session ε α} {items : List γ} {results : List α}
    (h : ∀ a ∈ items, cat.Scripted P wrap (fun _ => True) (f a)) (hP : ∀ m, P m → m ∈ cat.models)
    (hc : cat.Sound c) : exec (items.mapM f) c = (.ok results, c) ↔
      List.Forall₂ (fun a b => exec (f a) c = (.ok b, c)) items results := by
  induction items generalizing results with
  | nil => simp [eq_comm]
  | cons a items ih =>
    obtain ⟨ha, hrest⟩ := List.forall_mem_cons.1 h
    rw [List.mapM_cons, ha.exec_bind_iff (S := fun _ => True) (fun _ _ =>
      (mapM hrest).bind fun _ _ => .pure trivial) hP hc, List.forall₂_cons_left_iff]
    constructor
    · rintro ⟨b, hb, hs⟩
      obtain ⟨bs, hbs, hs⟩ := ((mapM hrest).exec_bind_iff (S := fun _ => True)
        (fun _ _ => .pure trivial) hP hc).1 hs
      cases hs
      exact ⟨b, bs, hb, (ih hrest).1 hbs, rfl⟩
    · rintro ⟨b, bs, hb, hbs, rfl⟩
      exact ⟨b, hb, by rw [exec_bind_ok ((ih hrest).2 hbs), exec_pure]⟩

/-- A script whose models are all compiled leaves the cache as it is. -/
theorem exec_snd_of_cached (h : cat.Scripted P wrap R s) (hP : ∀ m, P m → m ∈ cat.models)
    (hc : cat.Sound c) (hcached : ∀ m, P m → Cached c m) : (exec s c).2 = c := by
  induction h with
  | pure ha => rfl
  | throw e => rfl
  | @compile m k hm _ ih =>
    obtain ⟨x, hx⟩ := hcached m hm
    rw [exec_bind, exec_adapt, exec_compiled_of_cached (hP m hm) hx]
    exact ih x (hc.alone (hP m hm) hx)

/-- Where the models of a script reach no fault, its answer does not depend on the cache. -/
theorem exec_fst_eq (h : cat.Scripted P wrap R s) (hP : ∀ m, P m → m ∈ cat.models)
    (hwf : ∀ m, P m → ∀ y, cat.Reaches m y → cat.WellFormed y) (hc : cat.Sound c)
    (hd : cat.Sound d) : (exec s c).1 = (exec s d).1 := by
  induction h generalizing c d with
  | pure ha => rfl
  | throw e => rfl
  | @compile m k hm _ ih =>
    have compiles : ∀ {c}, cat.Sound c → ∃ x c', exec (cat.compiled m) c = (.ok x, c') ∧
        cat.alone m = .ok x ∧ cat.Sound c' := by
      intro c hc
      rcases hr : exec (cat.compiled m) c with ⟨e | x, c'⟩
      · obtain ⟨y, hy, he⟩ := exists_alone_of_compiled_error (hP m hm) hr
        exact absurd (hwf m hm y hy) (not_wellFormed_of_alone he)
      · exact ⟨x, c', rfl, hc.alone_of_compiled (hP m hm) hr, hc.compiled (hP m hm) hr⟩
    obtain ⟨x, c', hx, halone, hc'⟩ := compiles hc
    obtain ⟨y, d', hy, halone', hd'⟩ := compiles hd
    obtain rfl : x = y := Except.ok.inj (halone.symm.trans halone')
    rw [exec_bind, exec_bind, exec_adapt, exec_adapt, hx, hy]
    exact ih x halone hc' hd'

end Scripted

end Catalog

end TypedModels
