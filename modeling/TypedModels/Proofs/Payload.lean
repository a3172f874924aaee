import TypedModels.Proofs.Checks
import TypedModels.Proofs.Conformance
import TypedModels.Proofs.Hydration
import TypedModels.Proofs.Success

/-!
# Nested reports are direct reports

A report about a value contains reports about the elements in fields of custom types. Each of them is
what validating the element against its model returns, at any time, as long as this is an object;
what is not an object has a message. Elements without errors are left out, and so is a field for
which nothing is left.

## Main definitions

* `Workspace.Direct` : what is wrong with an element by itself.
-/

namespace TypedModels

open Session

/-! ## Recording the fields -/

theorem Report.lookup_foldl_record {errors : Report} {results : List (String × List Violation)}
    {name : String} (hn : (OrderedMap.keys results).Nodup) :
    (results.foldl (fun errors r => Report.record errors r.1 r.2) errors).lookup name =
      ((results.lookup name).filter fun violations => !violations.isEmpty).or
        (errors.lookup name) := by
  induction results generalizing errors with
  | nil => rfl
  | cons result results ih =>
    obtain ⟨field, violations⟩ := result
    obtain ⟨hfield, hrest⟩ := List.nodup_cons.1 hn
    have hother : results.lookup field = none := OrderedMap.lookup_eq_none_iff.2 hfield
    rw [List.foldl_cons, ih hrest, OrderedMap.lookup_cons]
    cases violations with
    | nil => by_cases h : name = field <;> simp [h, hother, Option.filter]
    | cons v vs => by_cases h : name = field <;> simp [h, hother, Option.filter, lookup_record]

/-- A field is recorded with its violations, and not at all if it has none. -/
theorem Report.lookup_of_record {results : List (String × List Violation)} {name : String}
    {violations : List Violation} (hn : (OrderedMap.keys results).Nodup)
    (h : (name, violations) ∈ results) :
    (results.foldl (fun (errors : Report) r => errors.record r.1 r.2) []).lookup name =
      if violations = [] then none else some violations := by
  rw [Report.lookup_foldl_record hn, (OrderedMap.lookup_eq_some_iff hn).2 h]
  cases violations <;> simp

/-! ## What is wrong with an element -/

namespace Workspace

variable {w : Workspace} {m : Model} {f : FieldSchema} {e props : Value} {errors : Report}

open Catalog

/-- What is wrong with an element by itself. What is not an object has a message. An object has the
errors that the dependency with the base type of the field reports when it is asked directly, or the
implementation that this dependency picks for the object if it is an interface. -/
inductive Direct (w : Workspace) (m : Model) (f : FieldSchema) :
    Value → ElementReport Report → Prop
  | notAnObject {e : Value} : e.isObject = false → Direct w m f e (.messages ["not an object"])
  | concrete {e : Value} {t : Model} {errors : Report} : e.isObject = true →
      w.catalog.DependsOn m t → t.typeName = f.baseType → t.isInterface = .ok false →
      w.Returns (·.validate t e) errors → Direct w m f e (.fields errors)
  | interface {e : Value} {t d : Model} {errors : Report} : e.isObject = true →
      w.catalog.DependsOn m t → t.typeName = f.baseType → t.isInterface = .ok true →
      w.Returns (·.implementation t e) d → w.Returns (·.validate d e) errors →
      Direct w m f e (.fields errors)

/-- What is validated without compiling anything is what validation returns. -/
theorem Reachable.returns_validate {c : Cache} (h : w.Reachable) (hm : m ∈ w.catalog.models)
    (hc : w.catalog.Sound c) (hext : w.catalog.Extends w.cache c)
    (he : exec (w.catalog.validate m e) c = (.ok errors, c)) : w.Returns (·.validate m e) errors :=
  have hs : w.catalog.Scripted _ _ _ _ := scripted_validate m e
  h.returns_of_exec hs (fun _ hy => Reaches.mem hy hm) hc hext he

/-- What is reported about an element of a custom type, with nothing left to compile, is what is
wrong with it by itself. -/
theorem Reachable.direct_of_exec {c : Cache} {s : Scope} {r : ElementReport Report}
    (h : w.Reachable) (hc : w.catalog.Sound c) (hext : w.catalog.Extends w.cache c)
    (hs : w.catalog.scope m = .ok s) (hfits : w.catalog.Fits m f) (hcustom : f.isCustom = true)
    (hr : exec (f.check.report (w.catalog.oracle s w.catalog.validate) e) c = (.ok r, c)) :
    w.Direct m f e r := by
  cases hobj : e.isObject with
  | false =>
    cases hfits with
    | builtin _ hplain => rw [hcustom] at hplain; cases hplain
    | model _ _ hcheck | interface _ _ hcheck =>
      simp only [hcheck, ElementCheck.report, hobj] at hr
      cases hr
      exact .notAnObject hobj
  | true =>
    cases hfits with
    | builtin _ hplain => rw [hcustom] at hplain; cases hplain
    | model t _ hcheck ht hname hconcrete =>
      have hget := (get_eq_ok_iff hs).2 ⟨ht, hname⟩
      simp only [hcheck, ElementCheck.report, hobj, if_true, oracle, hget, lift_ok_bind] at hr
      obtain ⟨errors, _, hvalid, hr⟩ := exec_bind_eq_ok_iff.1 hr
      cases hr
      exact .concrete hobj ht hname hconcrete (h.returns_validate ht.1 hc hext hvalid)
    | interface t _ hcheck ht hname hinterface =>
      have hget := (get_eq_ok_iff hs).2 ⟨ht, hname⟩
      simp only [hcheck, ElementCheck.report, hobj, if_true, oracle, hget, lift_ok_bind] at hr
      obtain ⟨errors, _, hvalid, hr⟩ := exec_bind_eq_ok_iff.1 hr
      cases hr
      have hP : ∀ y, w.catalog.Reaches t y → y ∈ w.catalog.models := fun _ hy => hy.mem ht.1
      have himpl : w.catalog.Scripted _ _ _ (w.catalog.implementation t e) :=
        scripted_implementation
      obtain ⟨d, hpicked, hvalid⟩ := (himpl.exec_bind_iff (fun d hd => by
        obtain ⟨_, _, hd, _⟩ := hd
        exact (scripted_validate d e).mono (fun y hy => .head hd hy) fun _ h => h) hP hc).1 hvalid
      obtain ⟨_, -, hd, -⟩ := (himpl.of_exec hP hc hpicked).1
      exact .interface hobj ht hname hinterface (h.returns_of_exec himpl hP hc hext hpicked)
        (h.returns_validate hd.1 hc hext hvalid)

/-- The violations of a field of a custom type are those of the list rule and then, in order, one for
every element with which something is wrong by itself. A field without violations is left out. -/
theorem Reachable.nested_reports (h : w.Reachable) (hm : m ∈ w.catalog.models)
    (hvalid : (w.run (·.validate m props)).1 = .ok errors) :
    ∃ x, w.catalog.alone m = .ok x ∧ ∀ name f v, (name, f) ∈ x.schema.fields →
      f.isCustom = true → props.get? name = some v → v ≠ .null →
      ∃ reports violations, List.Forall₂ (w.Direct m f) (f.elements v) reports ∧
        violations = f.listViolations v ++
          (((f.elements v).zip reports).filter fun p => !p.2.isEmpty).map
            (fun p => .element p.1 p.2) ∧
        errors.lookup name = if violations = [] then none else some violations := by
  have hP : ∀ y, w.catalog.Reaches m y → y ∈ w.catalog.models := fun _ hy => Reaches.mem hy hm
  have hscript : w.catalog.Scripted _ _ _ _ := scripted_validate m props
  obtain ⟨hexec, hc, hext⟩ := h.settled hscript hP hvalid
  obtain ⟨x, s, hx, hs, hschema⟩ := (exec_validate_eq_ok_iff hm hc).1 hexec
  have halone := hc.alone_of_compiled hm hx
  have elements : ∀ check : ElementCheck, ∀ e, w.catalog.Scripted (w.catalog.Reaches m) id
      (fun _ => True) (check.report (w.catalog.oracle s w.catalog.validate) e) :=
    fun _ e => scripted_element hs fun d => scripted_validate d e
  obtain ⟨results, hresults, rfl⟩ := (exec_schema_eq_ok_iff hP hc fun entry _ =>
    scripted_field fun _ _ e _ => elements entry.2.check e).1 hschema
  refine ⟨x, halone, fun name f v hf hcustom hv hnull => ?_⟩
  obtain ⟨⟨_, violations⟩, hresult, hname, hfield⟩ := exists_of_forall₂ hresults.flip hf
  cases hname
  obtain ⟨reports, hreports, rfl⟩ := (exec_field_eq_ok_iff hP hc fun e _ =>
    elements f.check e).1 hfield
  rw [hv, FieldSchema.checked_some hnull] at hreports
  have direct : List.Forall₂ (w.Direct m f) (f.elements v) reports := hreports.imp fun _ _ hr =>
    h.direct_of_exec hc hext hs (fits_of_alone halone hf) hcustom hr
  have hkeys := OrderedMap.keys_eq_of_forall₂ hresults
  have hn : (OrderedMap.keys results).Nodup := hkeys ▸ nodup_fieldNames halone
  refine ⟨reports, _, direct, ?_, Report.lookup_of_record hn hresult⟩
  rw [hv, FieldSchema.violations_some hnull, FieldSchema.failing_eq]

/-- A dog, a dog without a name, and a text. -/
def visitors : List Value := [.obj [("name", .str "Rex")], .obj [], .str "Tom"]

/-- The last two visitors are reported, each as it is found by itself. -/
theorem nested_reports_wildlife : ∃ x f reports, wildlife.catalog.alone zoo = .ok x ∧
    ("animals", f) ∈ x.schema.fields ∧ f.isCustom = true ∧
    List.Forall₂ (wildlife.Direct zoo f) visitors reports ∧
    ((visitors.zip reports).filter fun p => !p.2.isEmpty).map (fun p => .element p.1 p.2) =
      [Violation.element (.obj []) (.fields [("name", [.required])]),
        .element (.str "Tom") (.messages ["not an object"])] := by
  have reachable : wildlife.Reachable := (unbroken_of_fresh _).reachable
  have hzoo : zoo ∈ wildlife.catalog.models := List.mem_cons_self
  have hvalid : (wildlife.run (·.validate zoo (zooOf visitors))).1 = .ok [("animals", [
      .element (.obj []) (.fields [("name", [.required])]),
      .element (.str "Tom") (.messages ["not an object"])])] := by with_unfolding_all rfl
  obtain ⟨x, hx, hfields⟩ := reachable.nested_reports hzoo hvalid
  have declared : (wildlife.catalog.alone zoo).map (fun x => (x.schema.field? "animals").map
      fun f => (f.isCustom, f.isList)) = .ok (some (true, true)) := rfl
  rw [hx, Except.map, Except.ok.injEq, Option.map_eq_some_iff] at declared
  obtain ⟨f, hf, hflags⟩ := declared
  obtain ⟨hcustom, hlist⟩ := Prod.mk.inj hflags
  have hmem := OrderedMap.mem_of_lookup hf
  obtain ⟨reports, violations, hdirect, hviolations, hlookup⟩ :=
    hfields "animals" f (.arr visitors) hmem hcustom rfl (by simp)
  have harray : f.listViolations (.arr visitors) = [] :=
    FieldSchema.listViolations_eq_nil_iff.2 fun _ => rfl
  rw [FieldSchema.elements_arr hlist] at hdirect hviolations
  rw [harray, List.nil_append] at hviolations
  refine ⟨x, f, reports, hx, hmem, hcustom, hdirect, ?_⟩
  rw [← hviolations]
  split at hlookup
  · cases hlookup
  · exact (Option.some.inj hlookup).symm

end Workspace

end TypedModels
