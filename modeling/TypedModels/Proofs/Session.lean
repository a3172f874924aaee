import TypedModels.Model.Workspace

/-!
# Running sessions

A session is run from a cache and leaves a cache behind. What it does to the cache is seen through
`Session.exec`, which has one law for each way to build a session.

## Main definitions

* `Session.exec` : the outcome of a session and the cache that it leaves.
-/

namespace TypedModels

namespace Session

variable {ε ε' α β : Type}

/-- The outcome of a session that starts from a cache, with the cache that it leaves. -/
def exec (s : Session ε α) (c : Cache) : Except ε α × Cache := s.run c

theorem exec_eq_run (w : Workspace) (s : Catalog → Session ε α) :
    w.run s = ((exec (s w.catalog) w.cache).1,
      { w with cache := (exec (s w.catalog) w.cache).2 }) := rfl

@[simp] theorem exec_pure (a : α) (c : Cache) : exec (pure a : Session ε α) c = (.ok a, c) := rfl

/-- A failure ends a sequence, and what was filled before it stays. -/
theorem exec_bind (s : Session ε α) (k : α → Session ε β) (c : Cache) :
    exec (s >>= k) c =
      match exec s c with
      | (.ok a, c') => exec (k a) c'
      | (.error e, c') => (.error e, c') := by
  change (ExceptT.bindCont k (s c).1) (s c).2 = _
  change _ = match s c with
    | (.ok a, c') => exec (k a) c'
    | (.error e, c') => (.error e, c')
  rcases s c with ⟨_ | _, _⟩ <;> rfl

theorem exec_bind_ok {s : Session ε α} {k : α → Session ε β} {c c' : Cache} {a : α}
    (h : exec s c = (.ok a, c')) : exec (s >>= k) c = exec (k a) c' := by
  rw [exec_bind, h]

theorem exec_bind_error {s : Session ε α} {k : α → Session ε β} {c c' : Cache} {e : ε}
    (h : exec s c = (.error e, c')) : exec (s >>= k) c = (.error e, c') := by
  rw [exec_bind, h]

theorem exec_bind_eq_ok_iff {s : Session ε α} {k : α → Session ε β} {c c' : Cache} {b : β} :
    exec (s >>= k) c = (.ok b, c') ↔
      ∃ a d, exec s c = (.ok a, d) ∧ exec (k a) d = (.ok b, c') := by
  rw [exec_bind]
  constructor
  · intro h
    split at h
    · next a d hs => exact ⟨a, d, hs, h⟩
    · cases h
  · rintro ⟨a, d, hs, hk⟩
    rw [hs]
    exact hk

theorem exec_map_eq_ok_iff {g : α → β} {s : Session ε α} {c c' : Cache} {b : β} :
    exec (g <$> s) c = (.ok b, c') ↔ ∃ a, exec s c = (.ok a, c') ∧ g a = b := by
  simp only [map_eq_pure_bind, exec_bind_eq_ok_iff, exec_pure, Prod.mk.injEq, Except.ok.injEq]
  constructor
  · rintro ⟨a, _, hs, hb, rfl⟩
    exact ⟨a, hs, hb⟩
  · rintro ⟨a, hs, hb⟩
    exact ⟨a, c', hs, hb, rfl⟩

/-- If no item needs anything from the cache, neither does the list of them. -/
theorem exists_exec_mapM {f : α → Session ε β} {items : List α} {c : Cache}
    (h : ∀ a ∈ items, ∃ b, exec (f a) c = (.ok b, c)) :
    ∃ bs, exec (items.mapM f) c = (.ok bs, c) := by
  induction items with
  | nil => exact ⟨[], rfl⟩
  | cons a items ih =>
    obtain ⟨⟨b, hb⟩, hrest⟩ := List.forall_mem_cons.1 h
    obtain ⟨bs, hbs⟩ := ih hrest
    refine ⟨b :: bs, ?_⟩
    rw [List.mapM_cons, exec_bind_ok hb, exec_bind_ok hbs, exec_pure]

@[simp] theorem exec_get (c : Cache) : exec (get : Session ε Cache) c = (.ok c, c) := rfl

@[simp] theorem exec_lift (x : Except ε α) (c : Cache) :
    exec (liftM x : Session ε α) c = (x, c) := rfl

@[simp] theorem exec_discard (s : Session ε α) (c : Cache) :
    exec (discard s) c = ((exec s c).1.map fun _ => ⟨⟩, (exec s c).2) := by
  change exec (s >>= fun _ => (pure PUnit.unit : Session ε PUnit)) c = _
  rw [exec_bind]
  rcases exec s c with ⟨_ | _, _⟩ <;> rfl

@[simp] theorem exec_adapt (f : ε → ε') (s : Session ε α) (c : Cache) :
    exec (ExceptT.adapt f s) c = ((exec s c).1.mapError f, (exec s c).2) := rfl

@[simp] theorem exec_liftFailure (s : Session ConfigError α) (c : Cache) :
    exec (liftM s : Session Failure α) c = ((exec s c).1.mapError .schema, (exec s c).2) := rfl

/-- A session is what it does to every cache. -/
theorem ext {s t : Session ε α} (h : ∀ c, exec s c = exec t c) : s = t := funext h

@[simp] theorem lift_ok_bind (a : α) (k : α → Session ε β) :
    ((liftM (Except.ok a : Except ε α) : Session ε α) >>= k) = k a :=
  ext fun c => by rw [exec_bind, exec_lift]

theorem adapt_bind (f : ε → ε') (s : Session ε α) (k : α → Session ε β) :
    ExceptT.adapt f (s >>= k) = ExceptT.adapt f s >>= fun a => ExceptT.adapt f (k a) := by
  refine ext fun c => ?_
  rw [exec_adapt, exec_bind, exec_bind, exec_adapt]
  rcases exec s c with ⟨_ | _, _⟩ <;> rfl

@[simp] theorem adapt_id (s : Session ε α) : ExceptT.adapt id s = s := by
  refine ext fun c => ?_
  rw [exec_adapt]
  rcases exec s c with ⟨_ | _, _⟩ <;> rfl

end Session

end TypedModels
