import TypedModels.Model.Instance
import TypedModels.Proofs.Session

/-!
# Relations that sequences respect

Validation and construction do nothing with the sessions that they are given but put them in
sequence. So whatever relation sequences respect, they respect it too: two runs with related answers
of the custom types are related.

## Main definitions

* `Session.Compositional` : a relation that sequences respect.
-/

namespace TypedModels

namespace Session

variable {ε : Type} {props : Value}

/-- A relation between sessions, given what they may return, that sequences respect. -/
structure Compositional (Rel : {α : Type} → (α → Prop) → Session ε α → Session ε α → Prop) :
    Prop where
  pure {α : Type} {R : α → Prop} {a : α} : R a → Rel R (Pure.pure a) (Pure.pure a)
  bind {α β : Type} {R : α → Prop} {S : β → Prop} {s t : Session ε α} {k l : α → Session ε β} :
    Rel R s t → (∀ a, R a → Rel S (k a) (l a)) → Rel S (s >>= k) (t >>= l)

namespace Compositional

variable {Rel : {α : Type} → (α → Prop) → Session ε α → Session ε α → Prop}
  (rel : Compositional Rel)

include rel

/-! ## Lists -/

theorem mapM {α β : Type} {f g : α → Session ε β} {items : List α}
    (h : ∀ a ∈ items, Rel (fun _ => True) (f a) (g a)) :
    Rel (fun _ => True) (items.mapM f) (items.mapM g) := by
  induction items with
  | nil => exact rel.pure trivial
  | cons a items ih =>
    obtain ⟨ha, hrest⟩ := List.forall_mem_cons.1 h
    rw [List.mapM_cons, List.mapM_cons]
    exact rel.bind ha fun _ _ => rel.bind (ih hrest) fun _ _ => rel.pure trivial

theorem foldlM {α β : Type} {f g : β → α → Session ε β} {items : List α} {b : β}
    (h : ∀ b, ∀ a ∈ items, Rel (fun _ => True) (f b a) (g b a)) :
    Rel (fun _ => True) (items.foldlM f b) (items.foldlM g b) := by
  induction items generalizing b with
  | nil => exact rel.pure trivial
  | cons a items ih =>
    rw [List.foldlM_cons, List.foldlM_cons]
    apply rel.bind (h b a List.mem_cons_self)
    intro b' _
    exact ih fun b a ha => h b a (List.mem_cons_of_mem _ ha)

/-! ## Validation -/

section

variable (types types' : TypeOracle (Session ε))

/-- Custom types are asked about objects only. -/
theorem report {check : ElementCheck} {element : Value}
    (hm : ∀ n, check = .model n → element.isObject →
      Rel (fun _ => True) (types.validateModel n element) (types'.validateModel n element))
    (hi : ∀ n, check = .interface n → element.isObject →
      Rel (fun _ => True) (types.validateImplementation n element)
        (types'.validateImplementation n element)) :
    Rel (fun _ => True) (check.report types element) (check.report types' element) := by
  cases check with
  | builtin scalar => exact rel.pure trivial
  | model n =>
    rw [ElementCheck.report, ElementCheck.report]
    split
    · next h => exact rel.bind (hm n rfl h) fun _ _ => rel.pure trivial
    · exact rel.pure trivial
  | interface n =>
    rw [ElementCheck.report, ElementCheck.report]
    split
    · next h => exact rel.bind (hi n rfl h) fun _ _ => rel.pure trivial
    · exact rel.pure trivial

theorem elementViolations {check : ElementCheck} {elements : List Value}
    (h : ∀ e ∈ elements, Rel (fun _ => True) (check.report types e) (check.report types' e)) :
    Rel (fun _ => True) (FieldSchema.elementViolations types check elements)
      (FieldSchema.elementViolations types' check elements) := by
  induction elements with
  | nil => exact rel.pure trivial
  | cons e elements ih =>
    obtain ⟨he, hrest⟩ := List.forall_mem_cons.1 h
    exact rel.bind he fun _ _ => rel.bind (ih hrest) fun _ _ => rel.pure trivial

theorem field {f : FieldSchema} {value : Option Value}
    (h : ∀ v, value = some v → ∀ e ∈ f.elements v,
      Rel (fun _ => True) (f.check.report types e) (f.check.report types' e)) :
    Rel (fun _ => True) (f.validate types value) (f.validate types' value) := by
  unfold FieldSchema.validate
  split
  · exact rel.pure trivial
  · exact rel.pure trivial
  · exact rel.bind (rel.elementViolations types types' (h _ rfl)) fun _ _ => rel.pure trivial

/-- All that is checked is less deep than the value. -/
theorem schema {t : TypeSchema}
    (h : ∀ entry ∈ t.fields, ∀ e, e.depth < props.depth →
      Rel (fun _ => True) (entry.2.check.report types e) (entry.2.check.report types' e)) :
    Rel (fun _ => True) (t.validate types props) (t.validate types' props) := by
  apply rel.foldlM
  intro errors entry hentry
  refine rel.bind (rel.field types types' fun v hv e he => h entry hentry e ?_) fun _ _ => rel.pure trivial
  exact Nat.lt_of_le_of_lt (FieldSchema.depth_le_of_mem_elements he) (Value.depth_lt_of_get? hv)

end

/-! ## Construction -/

section

variable {τ : Type} {T : τ → Prop} (build build' : τ → Value → Session ε Instance)

theorem slot (target target' : Session ε τ) {f : FieldSchema} {value : Option Value}
    (ht : Rel T target target')
    (hb : ∀ v, value = some v → ∀ t, T t → ∀ e, e.depth ≤ v.depth →
      Rel (fun _ => True) (build t e) (build' t e)) :
    Rel (fun _ => True) (f.slot target build value) (f.slot target' build' value) := by
  unfold FieldSchema.slot
  split
  · exact rel.pure trivial
  · exact rel.pure trivial
  next v _ =>
    have one : ∀ t, T t → Rel (fun _ => True)
        (do return Slot.single (← build t v) : Session ε Slot)
        (do return Slot.single (← build' t v)) :=
      fun t ht => rel.bind (hb v rfl t ht v (Nat.le_refl _)) fun _ _ => rel.pure trivial
    split
    · apply rel.bind ht
      intro t ht
      split
      · next items _ =>
        split
        · have each : ∀ e ∈ items, Rel (fun _ => True) (build t e) (build' t e) :=
            fun e he => hb _ rfl t ht e (Nat.le_of_lt (Value.depth_lt_of_mem he))
          exact rel.bind (rel.mapM each) fun _ _ => rel.pure trivial
        · exact one t ht
      · exact one t ht
    · exact rel.pure trivial

/-- Nested instances are built from values that are less deep than the value. -/
theorem slots (target target' : String → Session ε τ) {t : TypeSchema}
    (ht : ∀ n, Rel T (target n) (target' n))
    (hb : ∀ t, T t → ∀ e, e.depth < props.depth →
      Rel (fun _ => True) (build t e) (build' t e)) :
    Rel (fun _ => True) (t.slots target build props) (t.slots target' build' props) := by
  apply rel.mapM
  intro entry _
  refine rel.bind (rel.slot build build' _ _ (ht _) fun v hv t ht e he => hb t ht e ?_) fun _ _ => rel.pure trivial
  exact Nat.lt_of_le_of_lt he (Value.depth_lt_of_get? hv)

end

end Compositional

end Session

end TypedModels
