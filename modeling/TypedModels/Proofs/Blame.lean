import TypedModels.Proofs.Checks
import TypedModels.Proofs.Construction
import TypedModels.Proofs.Contract

/-!
# Which errors a value meets

Validation, construction and casting fail for one of two reasons. A model that is reached cannot be
compiled, which has nothing to do with the value. Or an interface that is reached has a discriminator
that answers, for some part of the value, with a type that none of the dependencies of the interface
has. In particular no model is ever taken for an interface that is not one.

## Main definitions

* `Catalog.Unmatched` : the error of an answer that fits no dependency.
* `Catalog.Blamed` : the errors of either kind.
* `Failure.RejectedOr` : failures of construction, given the errors of validation.
-/

namespace TypedModels

/-- A rejected value, or one of the given errors. -/
def Failure.RejectedOr (E : ConfigError → Prop) : Failure → Prop
  | .schema e => E e
  | .rejected _ => True
  | .document _ => False

theorem Failure.RejectedOr.mono {E E' : ConfigError → Prop} {f : Failure} (h : f.RejectedOr E)
    (hE : ∀ e, E e → E' e) : f.RejectedOr E' := by
  cases f with
  | schema e => exact hE e h
  | rejected r => trivial
  | document e => exact h

namespace Catalog

open Session

variable {cat : Catalog} {c : Cache} {m d : Model} {s : Scope} {x : Compiled} {f : FieldSchema}
  {e v props : Value} {err : ConfigError}

/-- The discriminator of an interface that `m` reaches answers, for a part of the value, with a type
that no dependency of the interface has. -/
inductive Unmatched (cat : Catalog) (m : Model) (props : Value) : ConfigError → Prop
  | intro {i : Model} {disc : Discriminator} {v : Value} : cat.Reaches m i →
      i.isInterface = .ok true → i.resolveType = some disc → v.Within props →
      (∀ d, cat.DependsOn i d → d.typeName ≠ disc v) →
      Unmatched cat m props (.discriminatorResultMissing (disc v) i.name)

/-- An answer that fits no dependency, or the own fault of a model that `m` reaches. -/
inductive Blamed (cat : Catalog) (m : Model) (props : Value) (err : ConfigError) : Prop
  | unmatched : cat.Unmatched m props err → Blamed cat m props err
  | fault {y : Model} : cat.Reaches m y → cat.alone y = .error err → Blamed cat m props err

theorem Unmatched.mono (h : cat.Unmatched d v err) (hd : cat.Reaches m d) (hv : v.Within props) :
    cat.Unmatched m props err := by
  obtain ⟨hi, hinterface, hdisc, hu, hnone⟩ := h
  exact ⟨hd.trans hi, hinterface, hdisc, hu.trans hv, hnone⟩

theorem Blamed.mono (h : cat.Blamed d v err) (hd : cat.Reaches m d) (hv : v.Within props) :
    cat.Blamed m props err := by
  cases h with
  | unmatched h => exact .unmatched (h.mono hd hv)
  | fault hy he => exact .fault (hd.trans hy) he

/-! ## Finding an implementation -/

/-- A compiled model picks nothing if it is not an interface, or if the answer of its discriminator
fits no dependency. -/
theorem unmatched_of_picked (hx : cat.alone m = .ok x) (h : cat.picked m x props = .error err) :
    cat.Unmatched m props err ∨ m.isInterface = .ok false ∧ err = .notAnInterface m.name := by
  have hflag := isInterface_of_alone hx
  rcases dispatch_of_alone hx with ⟨hconcrete, hdispatch⟩ | ⟨disc, hinterface, hdisc, hdispatch⟩
  · rw [picked, hdispatch] at h
    cases h
    exact .inr ⟨by simp [hflag, hconcrete], rfl⟩
  · obtain ⟨hnone, rfl⟩ := (picked_eq_error_iff hx hdispatch).1 h
    exact .inl ⟨.refl, by simp [hflag, hinterface], hdisc, .self, hnone⟩

theorem ensures_implementation (hm : m ∈ cat.models) :
    cat.Ensures (cat.DependsOn m)
      (fun err => cat.Blamed m props err ∨
        m.isInterface = .ok false ∧ err = .notAnInterface m.name)
      (cat.implementation m props) := by
  rw [implementation_eq]
  refine (ensures_compiled hm fun y e hy he => .inl (.fault hy he)).bind fun x hx =>
    .lift (fun d hd => ?_) fun err he => ?_
  · obtain ⟨-, _, -, hdep, -⟩ := (picked_eq_ok_iff hx).1 hd
    exact hdep
  · exact (unmatched_of_picked hx he).imp_left .unmatched

/-- An interface is taken for what it is. -/
theorem ensures_implementation_of_interface (hm : m ∈ cat.models) (hi : m.isInterface = .ok true) :
    cat.Ensures (cat.DependsOn m) (cat.Blamed m props) (cat.implementation m props) := by
  apply (ensures_implementation hm).mono
  · exact fun _ hd => hd
  · intro err he
    simpa [hi] using he

/-! ## Validation -/

section Schema

variable {ε : Type} {E : ε → Prop} {types : TypeOracle (Session ε)}

/-- Validation against a schema fails with the errors of its checks. -/
theorem ensures_schema {t : TypeSchema}
    (h : ∀ entry ∈ t.fields, ∀ e ∈ entry.2.checked (props.get? entry.1),
      cat.Ensures (fun _ => True) E (entry.2.check.report types e)) :
    cat.Ensures (fun _ => True) E (t.validate types props) := by
  rw [TypeSchema.validate_eq_checks]
  refine (Ensures.mapM (R := fun _ => True) fun entry hentry => ?_).map fun _ _ => trivial
  rw [FieldSchema.validate_eq_checks]
  have checks := Ensures.mapM (h entry hentry)
  exact (checks.map (S := fun _ => True) fun _ _ => trivial).map fun _ _ => trivial

end Schema

section Oracle

variable {validate : Model → Value → Session ConfigError Report} {n : String}

theorem validateModel_eq (h : s.get n = .ok d) :
    (cat.oracle s validate).validateModel n e = validate d e := by
  simp [oracle, h]

theorem validateImplementation_eq (h : s.get n = .ok d) :
    (cat.oracle s validate).validateImplementation n e = (do
      validate (← cat.implementation d e) e) := by
  simp [oracle, h]

/-- The check of an element asks a dependency of the kind that the check is made for. -/
theorem ensures_report (hs : cat.scope m = .ok s) (hfits : cat.Fits m f) (he : e.Within props)
    (hvalidate : ∀ d ∈ cat.models, cat.Ensures (fun _ => True) (cat.Blamed d e) (validate d e)) :
    cat.Ensures (fun _ => True) (cat.Blamed m props)
      (f.check.report (cat.oracle s validate) e) := by
  have reached : ∀ {d}, cat.Reaches m d → d ∈ cat.models →
      cat.Ensures (fun _ => True) (cat.Blamed m props) (validate d e) :=
    fun hr hd => (hvalidate _ hd).mono (fun _ h => h) fun err herr => herr.mono hr he
  cases hfits with
  | builtin scalar _ hcheck =>
    rw [hcheck]
    exact .pure trivial
  | model d _ hcheck hd ht _ =>
    rw [hcheck, ElementCheck.report, validateModel_eq ((get_eq_ok_iff hs).2 ⟨hd, ht⟩)]
    split
    · exact (reached (.single hd) hd.1).bind fun _ _ => .pure trivial
    · exact .pure trivial
  | interface i _ hcheck hi ht hinterface =>
    rw [hcheck, ElementCheck.report, validateImplementation_eq ((get_eq_ok_iff hs).2 ⟨hi, ht⟩)]
    have picks := (ensures_implementation_of_interface hi.1 hinterface).mono (fun _ hd => hd)
      fun err herr => herr.mono (.single hi) he
    split
    · have validates := picks.bind fun d hd => reached (.head hi (.single hd)) hd.1
      exact validates.bind fun _ _ => .pure trivial
    · exact .pure trivial

end Oracle

/-- By recursion on the depth of the value: what a field checks is less deep than the value. -/
theorem ensures_validate (m : Model) (props : Value) (hm : m ∈ cat.models) :
    cat.Ensures (fun _ => True) (cat.Blamed m props) (cat.validate m props) := by
  rw [validate_eq]
  refine (ensures_compiled hm fun y e hy he => .fault hy he).bind fun x hx => ?_
  obtain ⟨s, hs, -⟩ := alone_eq_ok_iff.1 hx
  rw [hs, lift_ok_bind]
  refine ensures_schema fun entry hentry e he => ?_
  obtain ⟨hwithin, hlt⟩ := FieldSchema.within_of_mem_checked he
  exact ensures_report hs (fits_of_alone hx hentry) hwithin fun d hd => ensures_validate d e hd
termination_by props.depth

/-! ## Construction -/

/-- The instance of a value that passes validation is built from what validation has compiled. -/
theorem exec_instantiate_of_valid {c' : Cache} (hm : m ∈ cat.models) (hc : cat.Sound c)
    (hv : exec (cat.validate m props) c = (.ok [], c')) :
    ∃ i, exec (cat.instantiate m props) c = (.ok i, c') := by
  have hP : ∀ y, cat.Reaches m y → y ∈ cat.models := fun _ hy => Reaches.mem hy hm
  have script : cat.Scripted _ _ _ _ := scripted_validate m props
  have hc' := script.sound hP hc
  rw [hv] at hc'
  have again := (script.of_exec hP hc hv).2.2 c' List.prefix_rfl
  obtain ⟨i, hi⟩ := exists_exec_instantiate hm hc' again
  rw [exec_instantiate, again] at hi
  exact ⟨i, by rw [exec_instantiate, hv]; exact hi⟩

/-- Construction fails with an error of validation, or rejects the value. -/
theorem ensures_instantiate (hm : m ∈ cat.models) :
    cat.Ensures (fun _ => True) (Failure.RejectedOr (cat.Blamed m props))
      (cat.instantiate m props) := by
  intro c hc
  obtain ⟨hsound, -, herror⟩ := ensures_validate m props hm c hc
  rcases hv : exec (cat.validate m props) c with ⟨err | errors, c'⟩
  · rw [hv] at hsound herror
    rw [exec_instantiate, hv]
    simpa [hsound, Failure.RejectedOr] using herror
  rw [hv] at hsound
  rcases errors with _ | ⟨entry, errors⟩
  · -- Building needs nothing that validation has not compiled, so it cannot fail.
    obtain ⟨i, hi⟩ := exec_instantiate_of_valid hm hc hv
    simp [hi, hsound]
  · rw [exec_instantiate, hv]
    simp [hsound, Failure.RejectedOr]

theorem ensures_concreteModel (hm : m ∈ cat.models) :
    cat.Ensures (cat.Reaches m) (cat.Blamed m props) (cat.concreteModel m props) := by
  refine (ensures_compiled hm fun y e hy he => .fault hy he).bind fun x hx => ?_
  split
  · next hi =>
    have hflag : m.isInterface = .ok true := by simp [isInterface_of_alone hx, hi]
    apply (ensures_implementation_of_interface hm hflag).mono
    · exact fun d hd => .single hd
    · exact fun _ he => he
  · exact .pure .refl

theorem ensures_cast (hm : m ∈ cat.models) :
    cat.Ensures (fun _ => True) (Failure.RejectedOr (cat.Blamed m props))
      (cat.cast m props) := by
  refine ((ensures_concreteModel hm).adapt fun _ he => he).bind fun d hd => ?_
  apply (ensures_instantiate (hd.mem hm)).mono
  · exact fun _ h => h
  · intro f hf
    exact hf.mono fun e he => he.mono hd .self

end Catalog

end TypedModels
