import Mathlib.Data.List.Forall2

/-!
# Sequences of results

What a sequence of computations that may fail comes to, in terms of its parts: it succeeds if all of
them do, and the first failure decides the error. A sequence that succeeds relates its items to their
results one by one.
-/

namespace TypedModels

/-! ## Related lists -/

/-- What holds of all that is related to anything holds of the second of two related lists. -/
theorem forall_of_forall₂ {α β : Type} {R : α → β → Prop} {Q : β → Prop} {as : List α}
    {bs : List β} (h : List.Forall₂ R as bs) (hQ : ∀ a b, R a b → Q b) : ∀ b ∈ bs, Q b := by
  induction h with
  | nil => exact List.forall_mem_nil _
  | cons hab _ ih => exact List.forall_mem_cons.2 ⟨hQ _ _ hab, ih⟩

/-- Whatever stands in the second of two related lists is related to something in the first. -/
theorem exists_of_forall₂ {α β : Type} {R : α → β → Prop} {as : List α} {bs : List β}
    (h : List.Forall₂ R as bs) {b : β} (hb : b ∈ bs) : ∃ a ∈ as, R a b := by
  have members : List.Forall₂ (fun a b => a ∈ as ∧ R a b) as bs :=
    (List.forall₂_and_left ..).2 ⟨fun _ ha => ha, h⟩
  exact forall_of_forall₂ (Q := fun b => ∃ a ∈ as, R a b) members (fun a _ h => ⟨a, h⟩) b hb

theorem forall₂_congr_of_mem {α β : Type} {R S : α → β → Prop} {as : List α} {bs : List β}
    (h : ∀ a ∈ as, ∀ b, R a b ↔ S a b) : List.Forall₂ R as bs ↔ List.Forall₂ S as bs := by
  induction as generalizing bs with
  | nil => rw [List.forall₂_nil_left_iff, List.forall₂_nil_left_iff]
  | cons a as ih =>
    obtain ⟨ha, hrest⟩ := List.forall_mem_cons.1 h
    simp only [List.forall₂_cons_left_iff, ha, ih hrest]

/-- There are good results for all items exactly if there is one for each. -/
theorem exists_forall₂_iff {α β : Type} {R : α → β → Prop} {Q : β → Prop} {as : List α} :
    (∃ bs, List.Forall₂ R as bs ∧ ∀ b ∈ bs, Q b) ↔ ∀ a ∈ as, ∃ b, R a b ∧ Q b := by
  induction as with
  | nil => simp
  | cons a as ih =>
    rw [List.forall_mem_cons, ← ih]
    constructor
    · rintro ⟨_, hrelated, hgood⟩
      obtain ⟨b, bs, hab, hrest, rfl⟩ := List.forall₂_cons_left_iff.1 hrelated
      obtain ⟨hb, hbs⟩ := List.forall_mem_cons.1 hgood
      exact ⟨⟨b, hab, hb⟩, bs, hrest, hbs⟩
    · rintro ⟨⟨b, hab, hb⟩, bs, hrest, hbs⟩
      exact ⟨b :: bs, .cons hab hrest, List.forall_mem_cons.2 ⟨hb, hbs⟩⟩

/-! ## Sequences that may fail -/

section

variable {ε α β : Type} {f : α → Except ε β}

theorem bind_eq_ok_iff {x : Except ε α} {b : β} :
    x >>= f = .ok b ↔ ∃ a, x = .ok a ∧ f a = .ok b := by
  cases x <;> simp [bind, Except.bind]

theorem bind_eq_error_iff {x : Except ε α} {e : ε} :
    x >>= f = .error e ↔ x = .error e ∨ ∃ a, x = .ok a ∧ f a = .error e := by
  cases x <;> simp [bind, Except.bind]

theorem map_eq_ok_iff {x : Except ε α} {g : α → β} {b : β} :
    g <$> x = .ok b ↔ ∃ a, x = .ok a ∧ g a = b := by
  cases x <;> simp [Functor.map, Except.map]

theorem map_eq_error_iff {x : Except ε α} {g : α → β} {e : ε} :
    x.map g = .error e ↔ x = .error e := by
  cases x <;> simp [Except.map]

/-- Whether there is a result can be seen without knowing which. -/
instance decidableExistsOk (x : Except ε α) : Decidable (∃ a, x = .ok a) :=
  match x with
  | .ok a => isTrue ⟨a, rfl⟩
  | .error _ => isFalse nofun

/-- Errors can be told apart whatever the results are. -/
instance decidableEqError [DecidableEq ε] (x : Except ε α) (e : ε) : Decidable (x = .error e) :=
  match x with
  | .ok _ => isFalse nofun
  | .error e' => decidable_of_iff (e' = e) (by rw [Except.error.injEq])

/-- Where every item has a result, the results are those of the items. -/
theorem mem_mapM_iff {items : List α} {results : List β} (h : items.mapM f = .ok results) {b : β} :
    b ∈ results ↔ ∃ a ∈ items, f a = .ok b := by
  induction items generalizing results with
  | nil => cases h; simp
  | cons a items ih =>
    simp only [List.mapM_cons, bind_eq_ok_iff] at h
    obtain ⟨b', hb, bs, hbs, h⟩ := h
    cases h
    rw [List.mem_cons, ih hbs, List.exists_mem_cons_iff, hb, Except.ok.injEq, eq_comm]

/-- The results of the items are in the order of the items. -/
theorem mapM_eq_ok_iff {items : List α} {results : List β} :
    items.mapM f = .ok results ↔ List.Forall₂ (fun a b => f a = .ok b) items results := by
  induction items generalizing results with
  | nil => simp [pure, Except.pure, eq_comm]
  | cons a items ih =>
    simp only [List.mapM_cons, bind_eq_ok_iff, List.forall₂_cons_left_iff, ih]
    constructor
    · rintro ⟨b, hb, bs, hbs, h⟩
      cases h
      exact ⟨b, bs, hb, hbs, rfl⟩
    · rintro ⟨b, bs, hb, hbs, rfl⟩
      exact ⟨b, hb, bs, hbs, rfl⟩

/-- What each result has in common with its item, the lists have in common. -/
theorem map_eq_of_mapM {γ : Type} {g : α → γ} {k : β → γ} {items : List α} {results : List β}
    (h : items.mapM f = .ok results) (hk : ∀ a b, f a = .ok b → g a = k b) :
    items.map g = results.map k := by
  rw [mapM_eq_ok_iff] at h
  induction h with
  | nil => rfl
  | cons hab _ ih => rw [List.map_cons, List.map_cons, hk _ _ hab, ih]

/-- The first item without a result decides the error. -/
theorem mapM_eq_error_iff {items : List α} {e : ε} :
    items.mapM f = .error e ↔ ∃ before a after,
      items = before ++ a :: after ∧ (∀ b ∈ before, ∃ x, f b = .ok x) ∧ f a = .error e := by
  constructor
  · intro h
    induction items with
    | nil => cases h
    | cons a items ih =>
      simp only [List.mapM_cons, bind_eq_error_iff] at h
      rcases h with h | ⟨b, hb, h | ⟨_, -, h⟩⟩
      · exact ⟨[], a, items, rfl, by simp, h⟩
      · obtain ⟨before, a', after, rfl, hbefore, he⟩ := ih h
        exact ⟨a :: before, a', after, rfl, List.forall_mem_cons.2 ⟨⟨b, hb⟩, hbefore⟩, he⟩
      · cases h
  · rintro ⟨before, a, after, rfl, hbefore, he⟩
    induction before with
    | nil => simp [he, bind, Except.bind]
    | cons b before ih =>
      obtain ⟨⟨x, hx⟩, hrest⟩ := List.forall_mem_cons.1 hbefore
      rw [List.cons_append, List.mapM_cons, hx, ih hrest]
      rfl

/-- If the results of the items fail, one of them does. -/
theorem exists_of_mapM_eq_error {items : List α} {e : ε} (h : items.mapM f = .error e) :
    ∃ a ∈ items, f a = .error e := by
  obtain ⟨before, a, after, rfl, -, he⟩ := mapM_eq_error_iff.1 h
  exact ⟨a, by simp, he⟩

/-- The first step that fails decides the error of a fold. -/
theorem foldlM_eq_error_iff {g : β → α → Except ε β} {items : List α} {b : β} {e : ε} :
    items.foldlM g b = .error e ↔ ∃ before a after b', items = before ++ a :: after ∧
      before.foldlM g b = .ok b' ∧ g b' a = .error e := by
  constructor
  · intro h
    induction items generalizing b with
    | nil => cases h
    | cons a items ih =>
      rw [List.foldlM_cons, bind_eq_error_iff] at h
      rcases h with h | ⟨b₁, hb₁, h⟩
      · exact ⟨[], a, items, b, rfl, rfl, h⟩
      · obtain ⟨before, a', after, b', rfl, hb', he⟩ := ih h
        refine ⟨a :: before, a', after, b', rfl, ?_, he⟩
        rw [List.foldlM_cons, hb₁]
        exact hb'
  · rintro ⟨before, a, after, b', rfl, hb', he⟩
    rw [List.foldlM_append, hb']
    refine bind_eq_error_iff.2 (.inr ⟨b', rfl, ?_⟩)
    rw [List.foldlM_cons]
    exact bind_eq_error_iff.2 (.inl he)

/-- What every step of a fold preserves holds at its end. -/
theorem foldlM_invariant {g : β → α → Except ε β} (P : β → Prop) {items : List α} {b b' : β}
    (step : ∀ a ∈ items, ∀ b b', P b → g b a = .ok b' → P b') (hb : P b)
    (h : items.foldlM g b = .ok b') : P b' := by
  induction items generalizing b with
  | nil =>
    cases h
    exact hb
  | cons a items ih =>
    obtain ⟨ha, hrest⟩ := List.forall_mem_cons.1 step
    rw [List.foldlM_cons, bind_eq_ok_iff] at h
    obtain ⟨b₁, hb₁, h⟩ := h
    exact ih hrest (ha b b₁ hb hb₁) h

theorem exists_mapM_iff {items : List α} :
    (∃ results, items.mapM f = .ok results) ↔ ∀ a ∈ items, ∃ b, f a = .ok b := by
  induction items with
  | nil => simp [pure, Except.pure]
  | cons a items ih =>
    rw [List.forall_mem_cons, ← ih]
    simp only [List.mapM_cons, bind_eq_ok_iff]
    constructor
    · rintro ⟨_, b, hb, bs, hbs, -⟩
      exact ⟨⟨b, hb⟩, bs, hbs⟩
    · rintro ⟨⟨b, hb⟩, bs, hbs⟩
      exact ⟨_, b, hb, bs, hbs, rfl⟩

/-- To check all items is to look for their results and drop them. -/
theorem forM_discard_eq {items : List α} :
    forM items (fun a => discard (f a)) = discard (items.mapM f) := by
  induction items with
  | nil => rfl
  | cons a items ih =>
    rw [List.forM_cons, ih, List.mapM_cons]
    cases f a with
    | error e => rfl
    | ok b => cases items.mapM f <;> rfl

theorem forM_eq_ok_iff {items : List α} :
    forM items (fun a => discard (f a)) = .ok ⟨⟩ ↔ ∀ a ∈ items, ∃ b, f a = .ok b := by
  rw [forM_discard_eq, ← exists_mapM_iff]
  cases items.mapM f <;> simp [discard, Functor.discard, Functor.mapConst, Except.map]

/-- The first check that fails decides the error. -/
theorem forM_eq_error_iff {items : List α} {e : ε} :
    forM items (fun a => discard (f a)) = .error e ↔ ∃ before a after,
      items = before ++ a :: after ∧ (∀ b ∈ before, ∃ x, f b = .ok x) ∧ f a = .error e := by
  rw [forM_discard_eq, ← mapM_eq_error_iff]
  cases items.mapM f <;> simp [discard, Functor.discard, Functor.mapConst, Except.map]

end

end TypedModels
