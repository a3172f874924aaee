import TypedModels.Proofs.Payload
import TypedModels.Proofs.WellTyped

/-!
# Reports are tidy

Whether a value is valid is read off from whether its report is empty, at every depth. So nothing
empty may be recorded anywhere: no field without violations, and no element without errors. A report
lists each failing field once, in the order of the schema, and what it says about a field fits the
rules of the field. All of this holds again of the reports on nested objects.

## Main definitions

* `Report.ofInserts`, `Report.Collects` : violations that are inserted field by field, and what
  becomes of them.
* `FieldSchema.Orderly` : the violations that a field can have.
* `Catalog.Tidy`, `Catalog.FieldTidy`, `Catalog.NestedTidy` : reports that are tidy at every depth.
-/

namespace TypedModels

open Session

/-! ## Insertion -/

namespace Report

/-- The report after violations have been inserted field by field. -/
def ofInserts (inserts : List (String × List Violation)) : Report :=
  inserts.foldl (fun errors i => errors.record i.1 i.2) []

/-- The report has a field for every insertion that is not empty, in the order in which these fields
came first, and binds it to the violations of the last such insertion. -/
structure Collects (errors : Report) (inserts : List (String × List Violation)) : Prop where
  nonempty : ∀ entry ∈ errors, entry.2 ≠ []
  nodup : (OrderedMap.keys errors).Nodup
  keys_eq : OrderedMap.keys errors =
    (OrderedMap.keys (inserts.filter fun i => !i.2.isEmpty)).eraseDups
  lookup_iff : ∀ name violations, errors.lookup name = some violations ↔
    violations ≠ [] ∧ ∃ before after, inserts = before ++ (name, violations) :: after ∧
      ∀ i ∈ after, i.1 = name → i.2 = []

variable {inserts : List (String × List Violation)}

theorem ofInserts_eq :
    ofInserts inserts = OrderedMap.ofEntries (inserts.filter fun i => !i.2.isEmpty) := by
  rw [OrderedMap.ofEntries, OrderedMap.extend, List.foldl_filter]
  refine congrArg (fun step => inserts.foldl step []) (funext₂ fun errors i => ?_)
  cases h : i.2.isEmpty <;> simp [record, h]

/-- A list of insertions that is split at its last entry for a name among those that are not empty
is split there as a whole. -/
theorem split_filter_iff {name : String} {violations : List Violation} :
    (∃ before after,
      (inserts.filter fun i => !i.2.isEmpty) = before ++ (name, violations) :: after ∧
        name ∉ OrderedMap.keys after) ↔
    violations ≠ [] ∧ ∃ before after, inserts = before ++ (name, violations) :: after ∧
      ∀ i ∈ after, i.1 = name → i.2 = [] := by
  constructor
  · rintro ⟨before, after, hsplit, hlast⟩
    obtain ⟨first, rest, rfl, -, hrest⟩ := List.filter_eq_append_iff.1 hsplit
    obtain ⟨skipped, rest, rfl, -, hnonempty, rfl⟩ := List.filter_eq_cons_iff.1 hrest
    refine ⟨by simpa using hnonempty, first ++ skipped, rest, by simp, fun i hi hname => ?_⟩
    by_contra hviolations
    refine hlast (hname ▸ List.mem_map_of_mem (List.mem_filter.2 ⟨hi, ?_⟩))
    simpa using hviolations
  · rintro ⟨hnonempty, before, after, rfl, hlast⟩
    refine ⟨before.filter fun i => !i.2.isEmpty, after.filter fun i => !i.2.isEmpty,
      by simp [hnonempty], fun hkey => ?_⟩
    obtain ⟨i, hi, hname⟩ := List.mem_map.1 hkey
    obtain ⟨hafter, hviolations⟩ := List.mem_filter.1 hi
    simp [hlast i hafter hname] at hviolations

theorem collects_ofInserts (inserts : List (String × List Violation)) :
    (ofInserts inserts).Collects inserts where
  nonempty := by
    intro entry hentry
    rw [ofInserts_eq] at hentry
    simpa using (List.mem_filter.1 (OrderedMap.mem_of_mem_ofEntries hentry)).2
  nodup := by
    rw [ofInserts_eq]
    exact OrderedMap.nodup_keys_ofEntries _
  keys_eq := by rw [ofInserts_eq, OrderedMap.keys_ofEntries]
  lookup_iff name violations := by
    rw [ofInserts_eq, OrderedMap.lookup_ofEntries_iff, split_filter_iff]

/-- If every field is inserted once, the insertions that are not empty are the report. -/
theorem ofInserts_of_nodup (h : (OrderedMap.keys inserts).Nodup) :
    ofInserts inserts = inserts.filter fun i => !i.2.isEmpty := by
  rw [ofInserts_eq]
  exact OrderedMap.ofEntries_of_nodup (h.sublist (List.filter_sublist.map _))

end Report

/-! ## The violations of a field -/

namespace FieldSchema

/-- The violations of a field fit its rules. An absent value is the only violation of a field that
needs one, and what is not a list is reported first. No element is reported without errors. -/
structure Orderly (f : FieldSchema) (violations : List Violation) : Prop where
  nonempty : violations ≠ []
  required : .required ∈ violations →
    violations = [.required] ∧ f.required = true ∧ f.hasResolver = false
  notAList : .notAList ∈ violations →
    f.isList = true ∧ ∃ rest, violations = .notAList :: rest ∧ .notAList ∉ rest
  element : ∀ e report, .element e report ∈ violations → report.isEmpty = false

variable {f : FieldSchema} {value : Option Value} {reports : List (ElementReport Report)}
  {e : Value} {report : ElementReport Report}

theorem mem_failing_iff {elements : List Value} {v : Violation} :
    v ∈ failing elements reports ↔
      ∃ e report, (e, report) ∈ elements.zip reports ∧ report.isEmpty = false ∧
        .element e report = v := by
  rw [failing_eq]
  simp [and_assoc]

/-- All that the violations of a field can be. -/
theorem violations_cases (f : FieldSchema) (value : Option Value)
    (reports : List (ElementReport Report)) :
    (f.violations value reports = [.required] ∧ f.required = true ∧ f.hasResolver = false) ∨
    f.violations value reports = failing (f.checked value) reports ∨
    (f.isList = true ∧
      f.violations value reports = .notAList :: failing (f.checked value) reports) := by
  have absent : (f.absentViolations = [.required] ∧ f.required = true ∧ f.hasResolver = false) ∨
      f.absentViolations = [] := by
    unfold absentViolations
    cases f.required <;> cases f.hasResolver <;> simp
  rcases value with _ | v
  · exact absent.imp_right .inl
  by_cases hnull : v = .null
  · subst hnull
    exact absent.imp_right .inl
  · rw [violations_some hnull, checked_some hnull, listViolations]
    cases f.isList <;> cases v.items? <;> simp

/-- Whatever is found wrong with the elements, the violations of a field fit its rules. -/
theorem orderly_violations (h : f.violations value reports ≠ []) :
    f.Orderly (f.violations value reports) := by
  rcases violations_cases f value reports with
    ⟨hv, hrequired, hresolver⟩ | hv | ⟨hlist, hv⟩ <;> rw [hv] at h ⊢
  · constructor <;> simp [hrequired, hresolver]
  · constructor <;> simp +contextual [h, mem_failing_iff]
  · constructor <;> simp +contextual [hlist, mem_failing_iff]

/-- The elements that are reported are among those that were checked. -/
theorem mem_zip_of_mem_violations (h : .element e report ∈ f.violations value reports) :
    (e, report) ∈ (f.checked value).zip reports := by
  have failed : .element e report ∈ failing (f.checked value) reports := by
    rcases violations_cases f value reports with
      ⟨hv, -⟩ | hv | ⟨-, hv⟩ <;> rw [hv] at h
    · cases List.mem_singleton.1 h
    · exact h
    · exact (List.mem_cons.1 h).resolve_left nofun
  obtain ⟨e, report, hmem, -, heq⟩ := mem_failing_iff.1 failed
  cases heq
  exact hmem

end FieldSchema

/-! ## Every depth -/

namespace Catalog

mutual

/-- Each failing field of the schema of the model is listed once, in order of declaration, and what
is listed for it is tidy. -/
inductive Tidy (cat : Catalog) : Model → Report → Prop
  | intro {m : Model} {errors : Report} {x : Compiled} : cat.alone m = .ok x →
      m.fieldNames = .ok x.schema.fieldNames → (OrderedMap.keys errors).Nodup →
      (OrderedMap.keys errors).Sublist x.schema.fieldNames →
      (∀ name f violations, (name, f) ∈ x.schema.fields → (name, violations) ∈ errors →
        FieldTidy cat m f violations) → Tidy cat m errors

/-- The violations of a field fit its rules, and the reports on nested objects are tidy. -/
inductive FieldTidy (cat : Catalog) : Model → FieldSchema → List Violation → Prop
  | intro {m : Model} {f : FieldSchema} {violations : List Violation} : f.Orderly violations →
      (∀ e errors, .element e (.fields errors) ∈ violations → NestedTidy cat m f e errors) →
      FieldTidy cat m f violations

/-- The report on a nested object is tidy for the model that the object belongs to. -/
inductive NestedTidy (cat : Catalog) : Model → FieldSchema → Value → Report → Prop
  | intro {m d : Model} {f : FieldSchema} {e : Value} {errors : Report} : cat.Target m f e d →
      Tidy cat d errors → NestedTidy cat m f e errors

end

section Level

variable {cat : Catalog} {c : Cache} {m : Model} {f : FieldSchema} {e props : Value}
  {errors : Report}

/-- A scalar has nothing to report about the fields of an element. -/
theorem isCustom_of_exec {types : TypeOracle (Session ConfigError)} (hfits : cat.Fits m f)
    (h : exec (f.check.report types e) c = (.ok (.fields errors), c)) : f.isCustom = true := by
  cases hfits with
  | builtin _ _ hcheck =>
    rw [hcheck] at h
    cases h
  | model _ hcustom | interface _ hcustom => exact hcustom

/-- The report of a value has the violations of each field that has any, in the order of the schema.
These are what the reports on the checked elements of the field come to. -/
theorem exists_results_of_exec (hm : m ∈ cat.models) (hc : cat.Sound c)
    (h : exec (cat.validate m props) c = (.ok errors, c)) :
    ∃ x s results, cat.alone m = .ok x ∧ cat.scope m = .ok s ∧
      OrderedMap.keys results = x.schema.fieldNames ∧
      errors = results.filter (fun r => !r.2.isEmpty) ∧
      ∀ name f violations, (name, f) ∈ x.schema.fields → (name, violations) ∈ results →
        ∃ reports, violations = f.violations (props.get? name) reports ∧
          List.Forall₂ (fun e r =>
            exec (f.check.report (cat.oracle s cat.validate) e) c = (.ok r, c))
            (f.checked (props.get? name)) reports := by
  have hP : ∀ y, cat.Reaches m y → y ∈ cat.models := fun _ hy => hy.mem hm
  obtain ⟨x, s, hx, hs, hschema⟩ := (exec_validate_eq_ok_iff hm hc).1 h
  have halone := hc.alone_of_compiled hm hx
  have elements : ∀ check : ElementCheck, ∀ e, cat.Scripted (cat.Reaches m) id
      (fun _ => True) (check.report (cat.oracle s cat.validate) e) :=
    fun _ e => scripted_element hs fun d => scripted_validate d e
  obtain ⟨results, hresults, rfl⟩ := (exec_schema_eq_ok_iff hP hc fun entry _ =>
    scripted_field fun _ _ e _ => elements entry.2.check e).1 hschema
  have hkeys : OrderedMap.keys results = x.schema.fieldNames :=
    OrderedMap.keys_eq_of_forall₂ hresults
  have hn := nodup_fieldNames halone
  refine ⟨x, s, results, halone, hs, hkeys, Report.ofInserts_of_nodup (hkeys ▸ hn),
    fun name f violations hf hresult => ?_⟩
  -- A name has one field in the schema, so this is the field that was checked.
  obtain ⟨⟨_, f'⟩, hf', hname, hfield⟩ := exists_of_forall₂ hresults hresult
  cases hname
  have same := (OrderedMap.lookup_eq_some_iff hn).2 hf'
  rw [(OrderedMap.lookup_eq_some_iff hn).2 hf, Option.some.injEq] at same
  subst same
  obtain ⟨reports, hreports, hviolations⟩ := (exec_field_eq_ok_iff hP hc fun e _ =>
    elements f.check e).1 hfield
  exact ⟨reports, hviolations.symm, hreports⟩

end Level

end Catalog

namespace Workspace

variable {w : Workspace} {m : Model} {f : FieldSchema} {e : Value} {errors : Report}

open Catalog

/-- The errors of a nested object are those that the model that it belongs to finds in it. -/
theorem Direct.exists_target (hd : w.Direct m f e (.fields errors)) (h : w.Reachable) :
    ∃ d ∈ w.catalog.models, w.catalog.Target m f e d ∧
      (w.run (·.validate d e)).1 = .ok errors := by
  cases hd with
  | concrete _ ht hname hconcrete hvalid =>
    exact ⟨_, ht.1, .concrete ht hname hconcrete, hvalid []⟩
  | @interface t d _ _ ht hname hinterface hpicked hvalid =>
    have himpl : w.catalog.Scripted _ _ _ (w.catalog.implementation t e) :=
      scripted_implementation
    have hexec : exec (w.catalog.implementation t e) w.cache = (.ok d, _) :=
      Prod.ext (hpicked []) rfl
    obtain ⟨disc, hdisc, hd, htype⟩ :=
      (himpl.of_exec (fun _ hy => Reaches.mem hy ht.1) h.sound hexec).1
    exact ⟨d, hd.1, .interface ht hname hinterface hdisc hd htype, hvalid []⟩

/-- What is reported on a value is tidy, whatever has happened before. -/
theorem Reachable.tidy {m : Model} {props : Value} {errors : Report} (h : w.Reachable)
    (hm : m ∈ w.catalog.models) (hvalid : (w.run (·.validate m props)).1 = .ok errors) :
    w.catalog.Tidy m errors := by
  have hscript : w.catalog.Scripted _ _ _ _ := scripted_validate m props
  obtain ⟨hexec, hc, hext⟩ := h.settled hscript (fun _ hy => Reaches.mem hy hm) hvalid
  obtain ⟨x, s, results, halone, hs, hkeys, rfl, hresults⟩ := exists_results_of_exec hm hc hexec
  have hn : (OrderedMap.keys results).Nodup := hkeys ▸ nodup_fieldNames halone
  have hsublist := (List.filter_sublist (p := fun r => !r.2.isEmpty) (l := results)).map (·.1)
  refine .intro halone (fieldNames_of_alone halone) (hn.sublist hsublist) (hkeys ▸ hsublist)
    fun name f violations hf hentry => ?_
  obtain ⟨hresult, hnonempty⟩ := List.mem_filter.1 hentry
  obtain ⟨reports, rfl, hreports⟩ := hresults name f violations hf hresult
  refine .intro (FieldSchema.orderly_violations (by simpa using hnonempty)) fun e errors he => ?_
  -- A nested object is an element of the field, and so less deep than the value.
  have hpair := FieldSchema.mem_zip_of_mem_violations he
  have hlt : e.depth < props.depth :=
    (FieldSchema.within_of_mem_checked (List.of_mem_zip hpair).1).2
  have hreport := (List.forall₂_iff_zip.1 hreports).2 hpair
  have hfits := fits_of_alone halone hf
  have direct := h.direct_of_exec hc hext hs hfits (isCustom_of_exec hfits hreport) hreport
  obtain ⟨d, hd, htarget, hnested⟩ := direct.exists_target h
  exact .intro htarget (h.tidy hd hnested)
termination_by props.depth

/-- Every report is tidy at every depth, and every report at all is what its insertions come to. -/
theorem Reachable.validate_tidy (h : w.Reachable) (hm : m ∈ w.catalog.models) :
    (∀ props errors, (w.run (·.validate m props)).1 = .ok errors → w.catalog.Tidy m errors) ∧
    ∀ inserts, (Report.ofInserts inserts).Collects inserts :=
  ⟨fun _ _ => h.tidy hm, Report.collects_ofInserts⟩

/-- The name is reported before the home, and again after it. -/
def reinserted : List (String × List Violation) :=
  [("home", []), ("name", [.required]), ("home", [.required]), ("name", [.notAList]), ("name", [])]

/-- Of the visitors, the dog without a name has a tidy report within the report on the zoo. A field
that is inserted again keeps its place, also if nothing is inserted for it in the end. -/
theorem validate_tidy_wildlife :
    wildlife.catalog.Tidy zoo [("animals", [
      .element (.obj []) (.fields [("name", [.required])]),
      .element (.str "Tom") (.messages ["not an object"])])] ∧
    Report.Collects [("name", [.notAList]), ("home", [.required])] reinserted := by
  have reachable : wildlife.Reachable := (unbroken_of_fresh _).reachable
  have hzoo : zoo ∈ wildlife.catalog.models := List.mem_cons_self
  have inserted : Report.ofInserts reinserted = [("name", [.notAList]), ("home", [.required])] := rfl
  exact ⟨(reachable.validate_tidy hzoo).1 (zooOf visitors) _ (by with_unfolding_all rfl),
    inserted ▸ (reachable.validate_tidy hzoo).2 reinserted⟩

end Workspace

end TypedModels
