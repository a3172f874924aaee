import TypedModels.Model.Instance
import TypedModels.Proofs.Checks
import TypedModels.Proofs.Results

/-!
# What is asked about custom types

A schema asks custom types about the objects among the elements of the value, field after field and
element after element, and about nothing else. It asks every question once, whatever the answers are,
and computes the report from the answers alone. So the answers to other questions do not matter, and
the first question that is answered with an error decides the error.

## Main definitions

* `Question`, `Question.answer` : questions to custom types.
* `TypeSchema.questions` : the questions about a value, in order.
* `Consults` : a computation that asks a list of questions and goes on with the answers.
-/

namespace TypedModels

/-! ## Questions -/

/-- A question to custom types about an element. -/
inductive Question where
  /-- What a concrete type finds wrong with the element. -/
  | model (typeName : String) (element : Value)
  /-- What the implementation that an interface picks for the element finds wrong with it. -/
  | implementation (typeName : String) (element : Value)

def Question.answer {m : Type → Type} (types : TypeOracle m) : Question → m Report
  | .model typeName element => types.validateModel typeName element
  | .implementation typeName element => types.validateImplementation typeName element

/-- The question about an element, if it is an object and belongs to a custom type. -/
def ElementCheck.question? (check : ElementCheck) (element : Value) : Option Question :=
  if element.isObject then
    match check with
    | .builtin _ => none
    | .model typeName => some (.model typeName element)
    | .interface typeName => some (.implementation typeName element)
  else none

/-- The questions about the elements of the value of a field; `none` stands for an absent key. -/
def FieldSchema.questions (f : FieldSchema) : Option Value → List Question
  | none => []
  | some value => (f.elements value).filterMap f.check.question?

/-- The questions about a value, in the order of the fields and of the elements of each. -/
def TypeSchema.questions (t : TypeSchema) (props : Value) : List Question :=
  t.fields.flatMap fun entry => entry.2.questions (props.get? entry.1)

/-! ## Consulting custom types -/

/-- A computation with custom types, in any monad. -/
abbrev Consultation (α : Type) : Type 1 := (m : Type → Type) → [Monad m] → TypeOracle m → m α

/-- The computation asks the questions, each once and in order, and draws a conclusion from the
answers alone. -/
def Consults {α : Type} (asked : List Question) (s : Consultation α) : Prop :=
  ∃ conclude : List Report → α, ∀ (m : Type → Type) [Monad m] [LawfulMonad m]
    (types : TypeOracle m), s m types = conclude <$> asked.mapM (·.answer types)

/-- The answers to two lists of questions that are asked one after the other. -/
theorem mapM_append_split {m : Type → Type} [Monad m] [LawfulMonad m] {α β γ : Type} {f : α → m β}
    {first second : List α} (g : List β → List β → γ) :
    (do return g (← first.mapM f) (← second.mapM f)) =
      (fun all => g (all.take first.length) (all.drop first.length)) <$>
        (first ++ second).mapM f := by
  induction first generalizing g with
  | nil => simp
  | cons a first ih =>
    calc
      (do return g (← (a :: first).mapM f) (← second.mapM f))
      _ = f a >>= fun b => do return g (b :: (← first.mapM f)) (← second.mapM f) := by simp
      _ = f a >>= fun b => (fun all => g (b :: all.take first.length) (all.drop first.length)) <$>
            (first ++ second).mapM f := by
        congr 1
        funext b
        exact ih fun bs cs => g (b :: bs) cs
      _ = (fun all => g (all.take (a :: first).length) (all.drop (a :: first).length)) <$>
            (a :: first ++ second).mapM f := by simp [-List.mapM_append]

namespace Consults

variable {α β γ : Type} {asked asked' : List Question} {s : Consultation α} {s' : Consultation β}

theorem of_eq {s' : Consultation α} (h : Consults asked s)
    (he : ∀ (m : Type → Type) [Monad m] [LawfulMonad m] (types : TypeOracle m),
      s' m types = s m types) : Consults asked s' := by
  obtain ⟨conclude, hs⟩ := h
  refine ⟨conclude, ?_⟩
  intro m _ _ types
  rw [he, hs]

theorem pure (a : α) : Consults [] fun _ _ _ => Pure.pure a := by
  refine ⟨fun _ => a, ?_⟩
  intro m _ _ types
  simp

/-- Asking one question. -/
theorem ask (q : Question) : Consults [q] fun _ _ types => q.answer types := by
  refine ⟨fun answers => answers.headD [], ?_⟩
  intro m _ _ types
  simp

theorem map (h : Consults asked s) (g : α → β) :
    Consults asked fun m _ types => g <$> s m types := by
  obtain ⟨conclude, hs⟩ := h
  refine ⟨fun answers => g (conclude answers), ?_⟩
  intro m _ _ types
  simp [hs]

/-- Asking for one thing after the other. -/
theorem both (h : Consults asked s) (h' : Consults asked' s') (g : α → β → γ) :
    Consults (asked ++ asked') fun m _ types => do return g (← s m types) (← s' m types) := by
  obtain ⟨conclude, hs⟩ := h
  obtain ⟨conclude', hs'⟩ := h'
  refine ⟨fun all => g (conclude (all.take asked.length)) (conclude' (all.drop asked.length)), ?_⟩
  intro m _ _ types
  rw [← mapM_append_split fun answers answers' => g (conclude answers) (conclude' answers')]
  simp [hs, hs']

theorem mapM {items : List γ} {each : γ → List Question} {f : γ → Consultation α}
    (h : ∀ a ∈ items, Consults (each a) (f a)) :
    Consults (items.flatMap each) fun m _ types => items.mapM fun a => f a m types := by
  induction items with
  | nil => exact pure []
  | cons a items ih =>
    obtain ⟨ha, hrest⟩ := List.forall_mem_cons.1 h
    obtain ⟨conclude, hs⟩ := ha.both (ih hrest) List.cons
    refine ⟨conclude, ?_⟩
    intro m _ _ types
    rw [List.flatMap_cons, ← hs m types]
    exact List.mapM_cons

/-- Custom types that answer the questions alike lead to the same outcome. -/
theorem congr {m : Type → Type} [Monad m] [LawfulMonad m] {types types' : TypeOracle m}
    (h : Consults asked s) (agree : ∀ q ∈ asked, q.answer types = q.answer types') :
    s m types = s m types' := by
  obtain ⟨conclude, hs⟩ := h
  rw [hs, hs, mapM_congr agree]

/-- The first question that is answered with an error decides the error. -/
theorem eq_error_iff {types : TypeOracle (Except ConfigError)} {e : ConfigError}
    (h : Consults asked s) : s _ types = .error e ↔ ∃ before q after,
      asked = before ++ q :: after ∧ (∀ p ∈ before, ∃ r, p.answer types = .ok r) ∧
        q.answer types = .error e := by
  obtain ⟨conclude, hs⟩ := h
  rw [hs, ← mapM_eq_error_iff]
  exact map_eq_error_iff

end Consults

/-! ## Validation -/

/-- An element is asked about at most once. -/
theorem ElementCheck.consults (check : ElementCheck) (element : Value) :
    Consults (check.question? element).toList fun _ _ types => check.report types element := by
  have asks (q : Question) : Consults [q] fun _ _ types => do
      return ElementReport.fields (← q.answer types) := by
    apply ((Consults.ask q).map ElementReport.fields).of_eq
    intro m _ _ types
    exact (map_eq_pure_bind ..).symm
  unfold question? report
  cases check with
  | builtin scalar => simpa using Consults.pure _
  | model typeName =>
    cases element.isObject with
    | false => simpa using Consults.pure notAnObject
    | true => simpa [Question.answer] using asks (.model typeName element)
  | interface typeName =>
    cases element.isObject with
    | false => simpa using Consults.pure notAnObject
    | true => simpa [Question.answer] using asks (.implementation typeName element)

/-- A null value has an element that no custom type is asked about, so it makes no difference that
it is not checked. -/
theorem FieldSchema.questions_eq (f : FieldSchema) (value : Option Value) :
    f.questions value = (f.checked value).flatMap fun e => (f.check.question? e).toList := by
  rcases value with _ | v
  · rfl
  by_cases hv : v = .null
  · subst hv
    rfl
  · rw [checked_some hv, questions, List.filterMap_eq_flatMap_toList]

theorem FieldSchema.consults (f : FieldSchema) (value : Option Value) :
    Consults (f.questions value) fun _ _ types => f.validate types value := by
  have checks : Consults ((f.checked value).flatMap fun e => (f.check.question? e).toList)
      fun _ _ types => (f.checked value).mapM (f.check.report types) :=
    .mapM fun e _ => f.check.consults e
  rw [questions_eq]
  apply (checks.map (f.violations value)).of_eq
  intro m _ _ types
  exact validate_eq_checks

/-- Validation asks the questions about the value and nothing else. -/
theorem TypeSchema.consults (t : TypeSchema) (props : Value) :
    Consults (t.questions props) fun _ _ types => t.validate types props := by
  have fields : Consults (t.questions props) fun _ _ types =>
      t.fields.mapM fun entry => (entry.1, ·) <$> entry.2.validate types (props.get? entry.1) :=
    .mapM fun entry _ => (entry.2.consults (props.get? entry.1)).map (entry.1, ·)
  apply (fields.map fun results =>
    results.foldl (fun (errors : Report) r => errors.record r.1 r.2) []).of_eq
  intro m _ _ types
  exact validate_eq_checks

/-- Custom types are asked about nothing but objects among the elements of the value. Where they
agree on these, validation comes to the same; where there are none, it does not depend on them and
cannot fail. It fails exactly if one of the questions is answered with an error, and then with the
error of the first one, whatever else is wrong with the value. -/
theorem TypeSchema.validate_consults (t : TypeSchema) (props : Value) :
    Consults (t.questions props) (fun _ _ types => t.validate types props) ∧
    (∀ (m : Type → Type) [Monad m] [LawfulMonad m] (types types' : TypeOracle m),
      (∀ q ∈ t.questions props, q.answer types = q.answer types') →
        t.validate types props = t.validate types' props) ∧
    (t.questions props = [] → ∃ errors, ∀ (m : Type → Type) [Monad m] [LawfulMonad m]
      (types : TypeOracle m), t.validate types props = pure errors) ∧
    ∀ (types : TypeOracle (Except ConfigError)) (e : ConfigError),
      t.validate types props = .error e ↔ ∃ before q after,
        t.questions props = before ++ q :: after ∧ (∀ p ∈ before, ∃ r, p.answer types = .ok r) ∧
          q.answer types = .error e := by
  have h := t.consults props
  refine ⟨h, ?_, ?_, ?_⟩
  · intro m _ _ types types' agree
    exact h.congr agree
  · intro hnone
    obtain ⟨conclude, hs⟩ := hnone ▸ h
    refine ⟨conclude [], ?_⟩
    intro m _ _ types
    simp [hs]
  · intro types e
    exact h.eq_error_iff

/-! ## A form that is wrong in several places -/

/-- A form asks for a person, for a list of pets, each of some species, and for a city. -/
def adoption : TypeSchema where
  typeName := "Adoption"
  isInterface := false
  fields :=
    [("applicant", {
        name := "applicant", baseType := "Person", required := true, isList := false
        isCustom := true, isInterface := false, hasResolver := false, check := .model "Person" }),
      ("pets", {
        name := "pets", baseType := "Animal", required := true, isList := true
        isCustom := true, isInterface := true, hasResolver := false
        check := .interface "Animal" }),
      ("city", {
        name := "city", baseType := "String", required := true, isList := false
        isCustom := false, isInterface := false, hasResolver := false
        check := .builtin .string })]

/-- A form whose applicant is a mere name, and without a city. Of the pets, two are objects. -/
def petition : Value := .obj [
  ("applicant", .str "Ann"),
  ("pets", .arr [.str "Rex", .obj [("name", .str "Tom")], .null, .obj []])]

/-- Custom types that accept animals with a name, and give `person` as the answer about persons. -/
def registry (person : Except ConfigError Report) : TypeOracle (Except ConfigError) where
  toDeclaredTypes := .none
  validateModel _ _ := person
  validateImplementation typeName element :=
    match element.get? "name" with
    | some _ => .ok []
    | none => .error (.discriminatorResultMissing "?" typeName)

/-- The applicant is no object, so what is said about persons does not matter. The second pet that
is an object decides the error, although the first pet and both other fields are invalid. -/
theorem validate_consults_adoption :
    adoption.validate (registry (.error (.unknownModel "Person"))) petition =
      adoption.validate (registry (.ok [])) petition ∧
    adoption.validate (registry (.ok [])) petition =
      .error (.discriminatorResultMissing "?" "Animal") := by
  obtain ⟨-, agree, -, first⟩ := adoption.validate_consults petition
  have asked : adoption.questions petition =
      [.implementation "Animal" (.obj [("name", .str "Tom")])] ++
        .implementation "Animal" (.obj []) :: [] := by rfl
  refine ⟨agree _ _ _ ?_, (first _ _).2 ⟨_, _, _, asked, ?_, rfl⟩⟩
  · rw [asked]
    simp [Question.answer, registry]
  · exact List.forall_mem_singleton.2 ⟨[], rfl⟩

end TypedModels
