import TypedModels.Proofs.Checks
import TypedModels.Proofs.Operations

/-!
# When validation passes

Validation passes if it finds no failing field. Here it is followed through its layers for a run
that compiles nothing any more: the fields of the schema, the elements of their values, and the
custom types that are asked about elements.

## Main definitions

* `FieldSchema.Allows` : what the value of a field has to be like, given what its elements have to
  be like.
* `Catalog.Passes` : an element that is in order, with nothing left to compile.
-/

namespace TypedModels

open Session

/-! ## The shape of a value -/

/-- The value of a field is in order: it is there if it has to be, it is an array if it has to be,
and its elements are good. -/
def FieldSchema.Allows (f : FieldSchema) (good : Value → Prop) : Option Value → Prop
  | none | some .null => f.required = true → f.hasResolver = true
  | some v => (f.isList = true → v.items?.isSome = true) ∧ ∀ e ∈ f.elements v, good e

namespace FieldSchema

variable {f : FieldSchema} {good good' : Value → Prop} {value : Option Value}

theorem elements_arr {items : List Value} (h : f.isList = true) :
    f.elements (.arr items) = items := elements_eq_iff.2 (.inl ⟨h, rfl⟩)

theorem elements_of_not_isList {v : Value} (h : f.isList = false) : f.elements v = [v] :=
  elements_eq_iff.2 (.inr ⟨by simp [h], rfl⟩)

/-- A value that is not taken apart is its own element. -/
theorem mem_elements_self {v : Value} (h : f.isList = true → v.items? = none) :
    v ∈ f.elements v := by
  rw [elements_eq_iff.2 (.inr ⟨h, rfl⟩)]
  exact List.mem_cons_self

theorem allows_some_iff {v : Value} (h : v ≠ .null) : f.Allows good (some v) ↔
    (f.isList = true → v.items?.isSome = true) ∧ ∀ e ∈ f.elements v, good e := by
  cases v <;> first | exact absurd rfl h | rfl

/-- The elements of a value that is in order are in order. -/
theorem Allows.of_mem_checked {e : Value} (h : f.Allows good value) (he : e ∈ f.checked value) :
    good e := by
  unfold Allows at h
  split at h
  · cases he
  · cases he
  · next hnull =>
    rw [checked_some (fun hv => hnull (hv ▸ rfl))] at he
    exact h.2 e he

theorem Allows.mono (h : f.Allows good value)
    (hg : ∀ v, value = some v → ∀ e ∈ f.elements v, good e → good' e) : f.Allows good' value := by
  unfold Allows at *
  split at h
  · exact h
  · exact h
  · exact ⟨h.1, fun e he => hg _ rfl e he (h.2 e he)⟩

theorem absentViolations_eq_nil_iff :
    f.absentViolations = [] ↔ (f.required = true → f.hasResolver = true) := by
  unfold absentViolations
  cases f.required <;> cases f.hasResolver <;> simp

theorem listViolations_eq_nil_iff {v : Value} :
    f.listViolations v = [] ↔ (f.isList = true → v.items?.isSome = true) := by
  simp [listViolations_eq_iff]

end FieldSchema

theorem Report.record_eq_nil_iff {errors : Report} {field : String} {violations : List Violation} :
    errors.record field violations = [] ↔ errors = [] ∧ violations = [] := by
  cases violations with
  | nil => simp
  | cons v vs => simp [Report.record, OrderedMap.insert_ne_nil]

theorem Report.foldl_record_eq_nil_iff {errors : Report}
    {results : List (String × List Violation)} :
    results.foldl (fun errors r => Report.record errors r.1 r.2) errors = [] ↔
      errors = [] ∧ ∀ r ∈ results, r.2 = [] := by
  induction results generalizing errors with
  | nil => simp
  | cons r results ih => simp [ih, record_eq_nil_iff, and_assoc]

namespace Catalog

variable {cat : Catalog} {P : Model → Prop} {ε : Type} {wrap : ConfigError → ε} {c : Cache}

/-! ## The layers of a schema -/

section Schema

variable {types : TypeOracle (Session ε)} {f : FieldSchema} {value : Option Value}

/-- Validating the value of a field, with nothing left to compile, is checking its elements. -/
theorem exec_field_eq_ok_iff {violations : List Violation} (hP : ∀ m, P m → m ∈ cat.models)
    (hc : cat.Sound c)
    (h : ∀ e ∈ f.checked value, cat.Scripted P wrap (fun _ => True) (f.check.report types e)) :
    exec (f.validate types value) c = (.ok violations, c) ↔ ∃ reports,
      List.Forall₂ (fun e r => exec (f.check.report types e) c = (.ok r, c)) (f.checked value)
        reports ∧ f.violations value reports = violations := by
  rw [FieldSchema.validate_eq_checks, exec_map_eq_ok_iff]
  simp only [Scripted.exec_mapM_iff h hP hc]

/-- The value of a field passes if it is in order. -/
theorem exec_field_iff (hP : ∀ m, P m → m ∈ cat.models) (hc : cat.Sound c)
    (h : ∀ e ∈ f.checked value, cat.Scripted P wrap (fun _ => True) (f.check.report types e)) :
    exec (f.validate types value) c = (.ok [], c) ↔
      f.Allows (fun e => ∃ r, exec (f.check.report types e) c = (.ok r, c) ∧ r.isEmpty = true)
        value := by
  rw [exec_field_eq_ok_iff hP hc h]
  rcases value with _ | v
  · simp [FieldSchema.checked, FieldSchema.violations, FieldSchema.Allows,
      FieldSchema.absentViolations_eq_nil_iff]
  by_cases hnull : v = .null
  · simp [hnull, FieldSchema.checked, FieldSchema.violations, FieldSchema.Allows,
      FieldSchema.absentViolations_eq_nil_iff]
  · simp only [FieldSchema.checked_some hnull, FieldSchema.violations_some hnull,
      FieldSchema.allows_some_iff hnull, List.append_eq_nil_iff,
      FieldSchema.listViolations_eq_nil_iff, ← exists_forall₂_iff]
    constructor
    · rintro ⟨reports, hreports, hlist, hfailing⟩
      exact ⟨hlist, reports, hreports, (FieldSchema.failing_eq_nil_iff hreports.length_eq).1 hfailing⟩
    · rintro ⟨hlist, reports, hreports, hempty⟩
      exact ⟨reports, hreports, hlist, (FieldSchema.failing_eq_nil_iff hreports.length_eq).2 hempty⟩

/-- Validation against a schema, with nothing left to compile, is validation of its fields. -/
theorem exec_schema_eq_ok_iff {t : TypeSchema} {props : Value} {errors : Report}
    (hP : ∀ m, P m → m ∈ cat.models) (hc : cat.Sound c)
    (h : ∀ entry ∈ t.fields, cat.Scripted P wrap (fun _ => True)
      (entry.2.validate types (props.get? entry.1))) :
    exec (t.validate types props) c = (.ok errors, c) ↔ ∃ results : List (String × List Violation),
      List.Forall₂ (fun entry result => result.1 = entry.1 ∧
        exec (entry.2.validate types (props.get? entry.1)) c = (.ok result.2, c)) t.fields results ∧
      results.foldl (fun (errors : Report) r => errors.record r.1 r.2) [] = errors := by
  have each : ∀ entry ∈ t.fields, cat.Scripted P wrap (fun _ => True)
      ((entry.1, ·) <$> entry.2.validate types (props.get? entry.1)) := by
    intro entry hentry
    rw [map_eq_pure_bind]
    exact (h entry hentry).bind fun _ _ => .pure trivial
  have named : ∀ entry ∈ t.fields, ∀ result : String × List Violation,
      exec ((entry.1, ·) <$> entry.2.validate types (props.get? entry.1)) c = (.ok result, c) ↔
        result.1 = entry.1 ∧
          exec (entry.2.validate types (props.get? entry.1)) c = (.ok result.2, c) := by
    rintro entry - ⟨name, violations⟩
    rw [exec_map_eq_ok_iff]
    constructor
    · rintro ⟨_, hs, hresult⟩
      cases hresult
      exact ⟨rfl, hs⟩
    · rintro ⟨rfl, hs⟩
      exact ⟨violations, hs, rfl⟩
  rw [TypeSchema.validate_eq_checks, exec_map_eq_ok_iff]
  simp only [Scripted.exec_mapM_iff each hP hc, forall₂_congr_of_mem named]

/-- Validation against a schema passes if all fields are in order. -/
theorem exec_schema_iff {t : TypeSchema} {props : Value}
    (hP : ∀ m, P m → m ∈ cat.models) (hc : cat.Sound c)
    (h : ∀ entry ∈ t.fields, ∀ e, e.depth < props.depth →
      cat.Scripted P wrap (fun _ => True) (entry.2.check.report types e)) :
    exec (t.validate types props) c = (.ok [], c) ↔ ∀ entry ∈ t.fields,
      entry.2.Allows
        (fun e => ∃ r, exec (entry.2.check.report types e) c = (.ok r, c) ∧ r.isEmpty = true)
        (props.get? entry.1) := by
  have passes : ∀ entry ∈ t.fields,
      exec (entry.2.validate types (props.get? entry.1)) c = (.ok [], c) ↔ _ :=
    fun entry hentry => exec_field_iff hP hc fun e he =>
      h entry hentry e (FieldSchema.within_of_mem_checked he).2
  rw [exec_schema_eq_ok_iff hP hc fun entry hentry => scripted_field fun v hv e he =>
    h entry hentry e (Nat.lt_of_le_of_lt (FieldSchema.depth_le_of_mem_elements he)
      (Value.depth_lt_of_get? hv))]
  simp only [Report.foldl_record_eq_nil_iff, true_and]
  constructor
  · rintro ⟨results, hresults, hnil⟩ entry hentry
    obtain ⟨result, hresult, -, hfield⟩ := exists_of_forall₂ hresults.flip hentry
    rw [hnil result hresult] at hfield
    exact (passes entry hentry).1 hfield
  · intro hfields
    refine ⟨t.fields.map fun entry => (entry.1, []), ?_, by simp⟩
    rw [List.forall₂_map_right_iff, List.forall₂_same]
    exact fun entry hentry => ⟨rfl, (passes entry hentry).2 (hfields entry hentry)⟩

end Schema

/-! ## The elements -/

variable {m : Model}

/-- An element is in order, and nothing is left to compile for it: a scalar accepts it, or it is an
object that passes validation against the dependency with the type, or against the implementation
that this dependency picks for it. -/
inductive Passes (cat : Catalog) (c : Cache) (m : Model) : ElementCheck → Value → Prop
  | builtin {scalar : Scalar} {e : Value} : scalar.Accepts e → Passes cat c m (.builtin scalar) e
  | model {n : String} {d : Model} {e : Value} : e.isObject = true → cat.DependsOn m d →
      d.typeName = n → exec (cat.validate d e) c = (.ok [], c) → Passes cat c m (.model n) e
  | interface {n : String} {i d : Model} {e : Value} : e.isObject = true → cat.DependsOn m i →
      i.typeName = n → exec (cat.implementation i e) c = (.ok d, c) →
      exec (cat.validate d e) c = (.ok [], c) → Passes cat c m (.interface n) e

theorem exec_fields_iff {s : Session ε Report} (hP : ∀ m, P m → m ∈ cat.models)
    (hc : cat.Sound c) (h : cat.Scripted P wrap (fun _ => True) s) :
    (∃ r, exec (do return ElementReport.fields (← s)) c = (.ok r, c) ∧ r.isEmpty = true) ↔
      exec s c = (.ok [], c) := by
  simp only [h.exec_bind_iff (S := fun _ => True) (fun _ _ => .pure trivial) hP hc, exec_pure]
  constructor
  · rintro ⟨r, ⟨errors, hs, hr⟩, hempty⟩
    cases hr
    rw [hs, List.isEmpty_iff.1 hempty]
  · intro hs
    exact ⟨_, ⟨[], hs, rfl⟩, rfl⟩

theorem exec_get_iff {α : Type} {s : Scope} {n : String} {k : Model → Session ConfigError α} {a : α}
    (hs : cat.scope m = .ok s) : exec (liftM (s.get n) >>= k) c = (.ok a, c) ↔
      ∃ d, (cat.DependsOn m d ∧ d.typeName = n) ∧ exec (k d) c = (.ok a, c) := by
  simp only [exec_bind_eq_ok_iff, exec_lift, Prod.mk.injEq, ← get_eq_ok_iff hs]
  constructor
  · rintro ⟨d, _, ⟨hd, rfl⟩, hk⟩
    exact ⟨d, hd, hk⟩
  · rintro ⟨d, hd, hk⟩
    exact ⟨d, c, ⟨hd, rfl⟩, hk⟩

/-- An element that is not an object has an error. -/
theorem not_exec_notAnObject : ¬ ∃ r,
    exec (pure ElementCheck.notAnObject : Session ε (ElementReport Report)) c = (.ok r, c) ∧
      r.isEmpty = true := by
  rintro ⟨r, h, hempty⟩
  cases h
  cases hempty

/-- An element has no errors, with nothing left to compile, exactly if it passes its check. -/
theorem exec_report_iff {s : Scope} {check : ElementCheck} {e : Value} (hm : m ∈ cat.models)
    (hc : cat.Sound c) (hs : cat.scope m = .ok s) :
    (∃ r, exec (check.report (cat.oracle s cat.validate) e) c = (.ok r, c) ∧ r.isEmpty = true) ↔
      cat.Passes c m check e := by
  have hP : ∀ y, cat.Reaches m y → y ∈ cat.models := fun _ hy => hy.mem hm
  have hv : ∀ d, cat.Scripted (cat.Reaches d) id (fun _ => True) (cat.validate d e) :=
    fun d => scripted_validate d e
  cases check with
  | builtin scalar =>
    simp only [ElementCheck.report, exec_pure, Prod.mk.injEq, Except.ok.injEq, and_true]
    constructor
    · rintro ⟨_, rfl, hempty⟩
      exact .builtin ((scalar.problems_eq_nil_iff e).1 (List.isEmpty_iff.1 hempty))
    · rintro ⟨haccepts⟩
      exact ⟨_, rfl, List.isEmpty_iff.2 ((scalar.problems_eq_nil_iff e).2 haccepts)⟩
  | model n =>
    rw [ElementCheck.report]
    split
    · next hobj =>
      rw [exec_fields_iff hP hc (scripted_validateModel hs hv)]
      refine (exec_get_iff hs).trans ⟨?_, ?_⟩
      · rintro ⟨d, ⟨hd, ht⟩, hpass⟩
        exact .model hobj hd ht hpass
      · rintro (_ | ⟨-, hd, ht, hpass⟩)
        exact ⟨_, ⟨hd, ht⟩, hpass⟩
    · next hobj =>
      refine ⟨fun h => absurd h not_exec_notAnObject, ?_⟩
      rintro (_ | ⟨hobj', -⟩)
      exact absurd hobj' hobj
  | interface n =>
    rw [ElementCheck.report]
    split
    · next hobj =>
      rw [exec_fields_iff hP hc (scripted_validateImplementation hs hv)]
      refine (exec_get_iff hs).trans ⟨?_, ?_⟩
      · rintro ⟨i, ⟨hi, ht⟩, hpass⟩
        have hlater : ∀ d, (∃ disc, i.resolveType = some disc ∧ cat.DependsOn i d ∧
            d.typeName = disc e) →
            cat.Scripted (cat.Reaches i) id (fun _ => True) (cat.validate d e) := by
          rintro d ⟨_, -, hd, -⟩
          exact (hv d).mono (fun y hy => .head hd hy) fun _ h => h
        obtain ⟨d, himpl, hpass⟩ := (scripted_implementation.exec_bind_iff hlater
          (fun _ hy => Reaches.mem hy hi.1) hc).1 hpass
        exact .interface hobj hi ht himpl hpass
      · rintro (_ | _ | ⟨-, hi, ht, himpl, hpass⟩)
        exact ⟨_, ⟨hi, ht⟩, exec_bind_ok himpl ▸ hpass⟩
    · next hobj =>
      refine ⟨fun h => absurd h not_exec_notAnObject, ?_⟩
      rintro (_ | _ | ⟨hobj', -⟩)
      exact absurd hobj' hobj

/-- Validation with nothing left to compile is validation against the compiled schema. -/
theorem exec_validate_eq_ok_iff {props : Value} {errors : Report} (hm : m ∈ cat.models)
    (hc : cat.Sound c) : exec (cat.validate m props) c = (.ok errors, c) ↔
      ∃ x s, exec (cat.compiled m) c = (.ok x, c) ∧ cat.scope m = .ok s ∧
        exec (x.schema.validate (cat.oracle s cat.validate) props) c = (.ok errors, c) := by
  have hP : ∀ y, cat.Reaches m y → y ∈ cat.models := fun _ hy => hy.mem hm
  rw [validate_eq, (Scripted.compiled .refl).exec_bind_iff (S := fun _ => True) (fun x _ =>
    (Scripted.lift fun s hs => hs).bind fun s hs => scripted_schema fun entry _ e _ =>
      scripted_element hs fun d => scripted_validate d e) hP hc]
  simp only [exec_bind_eq_ok_iff, exec_lift, Prod.mk.injEq]
  constructor
  · rintro ⟨x, hx, s, _, ⟨hs, rfl⟩, h⟩
    exact ⟨x, s, hx, hs, h⟩
  · rintro ⟨x, s, hx, hs, h⟩
    exact ⟨x, hx, s, c, ⟨hs, rfl⟩, h⟩

/-- Validation passes, with nothing left to compile, exactly if the model is compiled and the fields
of its schema are in order. -/
theorem exec_validate_iff {props : Value} (hm : m ∈ cat.models) (hc : cat.Sound c) :
    exec (cat.validate m props) c = (.ok [], c) ↔
      ∃ x, exec (cat.compiled m) c = (.ok x, c) ∧ ∀ entry ∈ x.schema.fields,
        entry.2.Allows (cat.Passes c m entry.2.check) (props.get? entry.1) := by
  have hP : ∀ y, cat.Reaches m y → y ∈ cat.models := fun _ hy => hy.mem hm
  have schema : ∀ {s} {x : Compiled}, cat.scope m = .ok s →
      (exec (x.schema.validate (cat.oracle s cat.validate) props) c = (.ok [], c) ↔
        ∀ entry ∈ x.schema.fields,
          entry.2.Allows (cat.Passes c m entry.2.check) (props.get? entry.1)) := by
    intro s x hs
    rw [exec_schema_iff hP hc fun entry _ e _ => scripted_element hs fun d => scripted_validate d e]
    simp only [exec_report_iff hm hc hs]
  rw [exec_validate_eq_ok_iff hm hc]
  constructor
  · rintro ⟨x, s, hx, hs, h⟩
    exact ⟨x, hx, (schema hs).1 h⟩
  · rintro ⟨x, hx, hfields⟩
    obtain ⟨s, hs, -⟩ := alone_eq_ok_iff.1 (hc.alone_of_compiled hm hx)
    exact ⟨x, s, hx, hs, (schema hs).2 hfields⟩

end Catalog

end TypedModels
