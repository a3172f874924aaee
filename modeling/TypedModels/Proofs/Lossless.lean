import TypedModels.Proofs.Encoding
import TypedModels.Proofs.Hydration

/-!
# The payload of a report is lossless

The payload of a report has no tags: what a violation is can only be told from the kind of its JSON
value and from the text of its message. This is enough. Two reports have one payload exactly if they
are the same map from fields to violations, and so are the reports on nested objects; only the order
of the fields is lost.

## Main definitions

* `Report.IsMap` : reports in which no field is listed twice, at any depth.
* `Violation.Same`, `Report.Same` : equality but for the order of fields.
* `ElementReport.toValue` : the payload of what is wrong with an element.
-/

namespace TypedModels

/-! ## Objects -/

/-- Objects with distinct keys are equal exactly if they hold the same under every key. -/
theorem Value.ofMembers_eq_iff {members members' : List (String × Value)}
    (h : (OrderedMap.keys members).Nodup) (h' : (OrderedMap.keys members').Nodup) :
    ofMembers members = ofMembers members' ↔
      ∀ key, members.lookup key = members'.lookup key := by
  constructor
  · intro heq key
    rw [← get?_ofMembers h, heq, get?_ofMembers h']
  · intro hlookup
    have same : members.Perm members' := by
      apply (List.perm_ext_iff_of_nodup h.of_map h'.of_map).2
      rintro ⟨key, v⟩
      rw [← OrderedMap.lookup_eq_some_iff h, ← OrderedMap.lookup_eq_some_iff h', hlookup]
    have sorted := List.pairwise_map.2 (pairwise_sortMembers members')
    rw [ofMembers, sortMembers_eq (same.trans (perm_sortMembers h').symm) sorted, ofMembers]

theorem Value.ofStrings_injective : Function.Injective ofStrings := by
  intro texts texts' h
  exact List.map_injective_iff.2 (fun _ _ => Value.str.inj) (Value.arr.inj h)

/-! ## Reports as maps -/

/-- No field is listed twice, neither in the report nor in a report on a nested object. -/
inductive Report.IsMap : Report → Prop
  | intro {errors : Report} : (OrderedMap.keys errors).Nodup →
      (∀ field violations value nested, (field, violations) ∈ errors →
        .element value (.fields nested) ∈ violations → IsMap nested) → IsMap errors

/-- The same violation, up to the order of the fields of nested objects. -/
inductive Violation.Same : Violation → Violation → Prop
  | required : Same .required .required
  | notAList : Same .notAList .notAList
  | messages (value : Value) (texts : List String) :
      Same (.element value (.messages texts)) (.element value (.messages texts))
  | fields (value : Value) {errors errors' : Report} :
      (∀ field, Option.Rel (List.Forall₂ Same) (errors.lookup field) (errors'.lookup field)) →
      Same (.element value (.fields errors)) (.element value (.fields errors'))

/-- The same violations under every field. -/
def Report.Same (errors errors' : Report) : Prop :=
  ∀ field, Option.Rel (List.Forall₂ Violation.Same) (errors.lookup field) (errors'.lookup field)

namespace Report

variable {errors : Report} {field : String} {violations : List Violation}

theorem isMap_nil : IsMap [] := .intro List.nodup_nil nofun

/-- Recording a field in a map leads to a map. -/
theorem IsMap.record (h : errors.IsMap)
    (hnested : ∀ value nested, .element value (.fields nested) ∈ violations → IsMap nested) :
    (errors.record field violations).IsMap := by
  obtain ⟨hn, hbefore⟩ := h
  unfold Report.record
  split
  · exact .intro hn hbefore
  · refine .intro (OrderedMap.nodup_keys_insert hn) ?_
    intro name vs value nested hentry hv
    rcases OrderedMap.mem_of_mem_insert hentry with heq | hentry
    · cases heq
      exact hnested value nested hv
    · exact hbefore name vs value nested hentry hv

end Report

/-! ## Payloads -/

/-- The payload of what is wrong with an element: an array of messages, or an object. -/
def ElementReport.toValue : ElementReport Report → Value
  | .messages texts => .ofStrings texts
  | .fields errors => Report.toValue errors

namespace Violation

variable {v v' : Violation} {vs vs' : List Violation}

theorem toValue_element (value : Value) (report : ElementReport Report) :
    (element value report).toValue =
      .ofMembers [("value", value), ("errors", report.toValue)] := by
  cases report <;> rfl

theorem toValues_eq (vs : List Violation) : toValues vs = vs.map toValue := by
  induction vs with
  | nil => rfl
  | cons v vs ih => rw [toValues, ih, List.map_cons]

theorem fieldMembers_eq (errors : Report) :
    fieldMembers errors = errors.map fun entry => (entry.1, .arr (entry.2.map toValue)) := by
  induction errors with
  | nil => rfl
  | cons entry errors ih => rw [fieldMembers, toValues_eq, ih, List.map_cons]

theorem keys_fieldMembers (errors : Report) :
    OrderedMap.keys (fieldMembers errors) = OrderedMap.keys errors := by
  rw [fieldMembers_eq]
  exact OrderedMap.keys_map (fun vs : List Violation => Value.arr (vs.map toValue)) errors

theorem lookup_fieldMembers (errors : Report) (field : String) :
    (fieldMembers errors).lookup field =
      (errors.lookup field).map fun violations => .arr (violations.map toValue) := by
  rw [fieldMembers_eq]
  exact OrderedMap.lookup_map (fun vs : List Violation => Value.arr (vs.map toValue)) errors field

/-- An element can be told from its payload, and so can what is wrong with it. -/
theorem toValue_element_eq_iff {value value' : Value} {report report' : ElementReport Report} :
    (element value report).toValue = (element value' report').toValue ↔
      value = value' ∧ report.toValue = report'.toValue := by
  have distinct (v w : Value) : (OrderedMap.keys [("value", v), ("errors", w)]).Nodup := by simp
  rw [toValue_element, toValue_element, Value.ofMembers_eq_iff (distinct ..) (distinct ..)]
  simp only [OrderedMap.lookup_cons, List.lookup_nil]
  constructor
  · intro h
    exact ⟨by simpa using h "value", by simpa using h "errors"⟩
  · rintro ⟨rfl, hreport⟩ key
    rw [hreport]

/-- Messages are strings, elements are objects. Messages about an element are an array, and reports
on its fields an object, also if there are none. -/
theorem toValue_eq_iff
    (h : ∀ value errors errors', v = .element value (.fields errors) →
      v' = .element value (.fields errors') →
        (Report.toValue errors = Report.toValue errors' ↔ Report.Same errors errors')) :
    v.toValue = v'.toValue ↔ v.Same v' := by
  constructor
  · intro heq
    rcases v with _ | _ | ⟨value, texts | errors⟩ <;>
      rcases v' with _ | _ | ⟨value', texts' | errors'⟩
    case required.required => exact .required
    case notAList.notAList => exact .notAList
    case element.messages.element.messages =>
      obtain ⟨rfl, hreport⟩ := toValue_element_eq_iff.1 heq
      rw [Value.ofStrings_injective hreport]
      exact .messages value texts'
    case element.fields.element.fields =>
      obtain ⟨rfl, hreport⟩ := toValue_element_eq_iff.1 heq
      exact .fields value ((h value errors errors' rfl rfl).1 hreport)
    case element.messages.element.fields =>
      cases (toValue_element_eq_iff.1 heq).2
    case element.fields.element.messages =>
      cases (toValue_element_eq_iff.1 heq).2
    all_goals
      simp [toValue, requiredMessage, notAListMessage, Value.ofMembers] at heq
  · rintro (_ | _ | ⟨value, texts⟩ | ⟨value, hsame⟩)
    · rfl
    · rfl
    · rfl
    · exact toValue_element_eq_iff.2 ⟨rfl, (h value _ _ rfl rfl).2 hsame⟩

theorem map_toValue_eq_iff
    (h : ∀ v ∈ vs, ∀ v' ∈ vs', v.toValue = v'.toValue ↔ v.Same v') :
    vs.map toValue = vs'.map toValue ↔ List.Forall₂ Same vs vs' := by
  induction vs generalizing vs' with
  | nil => simp [eq_comm]
  | cons v vs ih =>
    cases vs' with
    | nil => simp
    | cons v' vs' =>
      have hrest := ih fun u hu u' hu' =>
        h u (List.mem_cons_of_mem v hu) u' (List.mem_cons_of_mem v' hu')
      simp [h v List.mem_cons_self v' List.mem_cons_self, hrest]

end Violation

namespace Report

variable {errors errors' : Report}

theorem toValue_eq_iff (hn : (OrderedMap.keys errors).Nodup)
    (hn' : (OrderedMap.keys errors').Nodup)
    (h : ∀ field violations violations', (field, violations) ∈ errors →
      (field, violations') ∈ errors' →
        (violations.map Violation.toValue = violations'.map Violation.toValue ↔
          List.Forall₂ Violation.Same violations violations')) :
    errors.toValue = errors'.toValue ↔ errors.Same errors' := by
  rw [toValue, toValue, Value.ofMembers_eq_iff]
  · apply forall_congr'
    intro field
    rw [Violation.lookup_fieldMembers, Violation.lookup_fieldMembers]
    cases hv : errors.lookup field with
    | none => cases errors'.lookup field <;> simp
    | some violations =>
      cases hv' : errors'.lookup field with
      | none => simp
      | some violations' =>
        simp [h field violations violations' (OrderedMap.mem_of_lookup hv)
          (OrderedMap.mem_of_lookup hv')]
  · rwa [Violation.keys_fieldMembers]
  · rwa [Violation.keys_fieldMembers]

/-- Two reports have the same payload exactly if they are the same map at every depth. -/
theorem toValue_lossless (h : errors.IsMap) (h' : errors'.IsMap) :
    errors.toValue = errors'.toValue ↔ errors.Same errors' := by
  induction h generalizing errors' with
  | intro hn _ ih =>
    obtain ⟨hn', hnested'⟩ := h'
    apply toValue_eq_iff hn hn'
    intro field violations violations' hentry hentry'
    apply Violation.map_toValue_eq_iff
    intro v hv v' hv'
    apply Violation.toValue_eq_iff
    rintro value nested nested' rfl rfl
    exact ih field violations value nested hentry hv
      (hnested' field violations' value nested' hentry' hv')

/-- A report on a member of a club whose address comes first. -/
def addressFirst : Report :=
  record (record [] "address" [.element (.obj []) (.fields
    (record (record [] "street" [.required]) "city" [.notAList]))]) "tags" [.notAList]

/-- The same report, with the fields in another order at both depths. -/
def tagsFirst : Report :=
  record (record [] "tags" [.notAList]) "address" [.element (.obj []) (.fields
    (record (record [] "city" [.notAList]) "street" [.required]))]

/-- Reports on an element that has nothing wrong with it, as a scalar and as an object. -/
def silent (report : ElementReport Report) : Report := record [] "tags" [.element .null report]

/-- The order of the fields does not show in the payload. An element without messages is not confused
with one without failing fields. -/
theorem toValue_lossless_membership :
    addressFirst.IsMap ∧ tagsFirst.IsMap ∧ addressFirst.Same tagsFirst ∧
      ¬ Report.Same (silent (.messages [])) (silent (.fields [])) := by
  have street : IsMap (record [] "street" [.required]) := isMap_nil.record (by simp)
  have city : IsMap (record [] "city" [.notAList]) := isMap_nil.record (by simp)
  have tags : IsMap (record [] "tags" [.notAList]) := isMap_nil.record (by simp)
  have first : addressFirst.IsMap :=
    (isMap_nil.record (by simp [street.record])).record (by simp)
  have second : tagsFirst.IsMap := tags.record (by simp [city.record])
  have messages : IsMap (silent (.messages [])) := isMap_nil.record (by simp)
  have fields : IsMap (silent (.fields [])) := isMap_nil.record (by simp [isMap_nil])
  refine ⟨first, second, (toValue_lossless first second).1 rfl, ?_⟩
  rw [← toValue_lossless messages fields]
  decide

end Report

end TypedModels
