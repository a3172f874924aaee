import TypedModels.Proofs.Hydration

/-!
# The two renderings of an instance

An instance can be turned into a JSON value, or handed over to a writer piece by piece. Both leave
out the missing fields of every instance in the tree, and keep all other fields and all items of
lists. So the pieces make up the same value, and of each there are as many as were announced.

## Main definitions

* `Slot.ind` : induction over the fields of an instance and of all instances in it.
* `Instance.present` : the fields of an instance that are not missing.
-/

namespace TypedModels

/-! ## Pieces -/

namespace Written

variable {n : Nat} {items : List Written} {entries : List (String × Written)}

theorem toValueItems_eq : toValueItems items = items.map toValue := by
  induction items with
  | nil => rw [toValueItems, List.map_nil]
  | cons w items ih => rw [toValueItems, ih, List.map_cons]

theorem toValueEntries_eq : toValueEntries entries = entries.map fun e => (e.1, e.2.toValue) := by
  induction entries with
  | nil => rw [toValueEntries, List.map_nil]
  | cons e entries ih => rw [toValueEntries, ih, List.map_cons]

/-- The size of a sequence is right, and so are those in it. -/
theorem exact_sequence_iff :
    (sequence n items).exact = true ↔ n = items.length ∧ ∀ w ∈ items, w.exact = true := by
  have hitems : exactItems items = true ↔ ∀ w ∈ items, w.exact = true := by
    induction items with
    | nil => simp [exactItems]
    | cons w items ih => rw [exactItems, Bool.and_eq_true, ih, List.forall_mem_cons]
  rw [exact, Bool.and_eq_true, beq_iff_eq, hitems]

/-- The size of a map is right, and so are those in it. -/
theorem exact_map_iff :
    (map n entries).exact = true ↔ n = entries.length ∧ ∀ e ∈ entries, e.2.exact = true := by
  have hentries : exactEntries entries = true ↔ ∀ e ∈ entries, e.2.exact = true := by
    induction entries with
    | nil => simp [exactEntries]
    | cons e entries ih => rw [exactEntries, Bool.and_eq_true, ih, List.forall_mem_cons]
  rw [exact, Bool.and_eq_true, beq_iff_eq, hentries]

end Written

/-! ## Fields -/

/-- What holds of a field if it holds of all fields of the instances in it holds of every field. -/
@[induction_eliminator]
theorem Slot.ind {motive : Slot → Prop} (missing : motive .missing)
    (raw : ∀ v, motive (.raw v))
    (single : ∀ i : Instance, (∀ f ∈ i.fields, motive f.2) → motive (.single i))
    (many : ∀ items : List Instance, (∀ i ∈ items, ∀ f ∈ i.fields, motive f.2) →
      motive (.many items)) (slot : Slot) : motive slot := by
  -- What the recursor asks for instances, lists and entries is that the fields in them are good.
  refine @Slot.rec motive (fun i => ∀ f ∈ i.fields, motive f.2)
    (fun items => ∀ i ∈ items, ∀ f ∈ i.fields, motive f.2)
    (fun fields => ∀ f ∈ fields, motive f.2) (fun f => motive f.2) missing raw single many
    ?built ?noItems ?item ?noFields ?field ?named slot
  case built => exact fun _ _ _ h => h
  case noItems => exact List.forall_mem_nil _
  case item => exact fun _ _ hi hitems => List.forall_mem_cons.2 ⟨hi, hitems⟩
  case noFields => exact List.forall_mem_nil _
  case field => exact fun _ _ hf hfields => List.forall_mem_cons.2 ⟨hf, hfields⟩
  case named => exact fun _ _ h => h

/-- The fields that are not missing. -/
def Instance.present (i : Instance) : List (String × Slot) := i.fields.filter fun f => !f.2.isMissing

namespace Slot

variable {fields : List (String × Slot)} {items : List Instance}

theorem writeFields_eq : writeFields fields =
    (fields.filter fun f => !f.2.isMissing).map fun f => (f.1, f.2.write) := by
  induction fields with
  | nil => rw [writeFields, List.filter_nil, List.map_nil]
  | cons f fields ih =>
    obtain ⟨name, slot⟩ := f
    rw [writeFields, ih]
    cases hmissing : slot.isMissing <;> simp [hmissing]

theorem writeItems_eq : writeItems items = items.map Instance.write := by
  induction items with
  | nil => rw [writeItems, List.map_nil]
  | cons i items ih =>
    rw [writeItems, ih]
    rfl

theorem members_eq : members fields =
    (fields.filter fun f => !f.2.isMissing).map fun f => (f.1, f.2.toValue) := by
  induction fields with
  | nil => rw [members, List.filter_nil, List.map_nil]
  | cons f fields ih =>
    obtain ⟨name, slot⟩ := f
    cases slot <;> (rw [members, ih]; rfl)

theorem toValue_single (i : Instance) : (single i).toValue = i.toValue := rfl

theorem toValue_many : (many items).toValue = .arr (items.map Instance.toValue) := by
  rw [toValue, toValues_eq]

theorem write_single (i : Instance) : (single i).write = i.write := rfl

theorem write_many :
    (many items).write = .sequence items.length (items.map Instance.write) := by
  rw [write, writeItems_eq]

end Slot

/-! ## Instances -/

namespace Instance

variable {i : Instance}

/-- The object of an instance is made of its fields that are not missing. -/
theorem toValue_eq (i : Instance) :
    i.toValue = .ofMembers (i.present.map fun f => (f.1, f.2.toValue)) := by
  rw [toValue, Slot.members_eq, present]

/-- The value has a member for every field that is not missing. -/
theorem get?_toValue_eq (h : i.keys.Nodup) (name : String) :
    i.toValue.get? name = (i.present.lookup name).map Slot.toValue := by
  have hpresent : (OrderedMap.keys i.present).Nodup := h.sublist (List.filter_sublist.map _)
  rw [toValue_eq, Value.get?_ofMembers (by rwa [OrderedMap.keys_map Slot.toValue]),
    OrderedMap.lookup_map]

/-- An instance is handed over as its fields that are not missing, in the order of the schema. -/
theorem write_eq (i : Instance) :
    i.write = .map i.present.length (i.present.map fun f => (f.1, f.2.write)) := by
  obtain ⟨model, typeName, fields⟩ := i
  rw [write, Slot.write, Slot.writeFields_eq, Slot.presentCount, List.countP_eq_length_filter]
  rfl

theorem mem_fields_of_mem_present {f : String × Slot} (h : f ∈ i.present) : f ∈ i.fields :=
  List.mem_of_mem_filter h

theorem toValue_write_of_fields (h : ∀ f ∈ i.fields, f.2.write.toValue = f.2.toValue) :
    i.write.toValue = i.toValue := by
  rw [write_eq, toValue_eq, Written.toValue, Written.toValueEntries_eq, List.map_map]
  refine congrArg Value.ofMembers (List.map_congr_left fun f hf => ?_)
  exact congrArg (Prod.mk f.1) (h f (mem_fields_of_mem_present hf))

theorem exact_write_of_fields (h : ∀ f ∈ i.fields, f.2.write.exact = true) :
    i.write.exact = true := by
  rw [write_eq, Written.exact_map_iff, List.length_map]
  refine ⟨rfl, List.forall_mem_map.2 fun f hf => h f (mem_fields_of_mem_present hf)⟩

end Instance

namespace Slot

/-- The pieces of a field make up its value. -/
theorem toValue_write (slot : Slot) : slot.write.toValue = slot.toValue := by
  induction slot with
  | missing => rfl
  | raw v => rfl
  | single i ih => rw [write_single, toValue_single, Instance.toValue_write_of_fields ih]
  | many items ih =>
    rw [write_many, toValue_many, Written.toValue, Written.toValueItems_eq, List.map_map]
    refine congrArg Value.arr (List.map_congr_left fun i hi => ?_)
    exact Instance.toValue_write_of_fields (ih i hi)

/-- Every size that is announced within a field is right. -/
theorem exact_write (slot : Slot) : slot.write.exact = true := by
  induction slot with
  | missing => rfl
  | raw v => rfl
  | single i ih => rw [write_single, Instance.exact_write_of_fields ih]
  | many items ih =>
    rw [write_many, Written.exact_sequence_iff, List.length_map]
    refine ⟨rfl, List.forall_mem_map.2 fun i hi => ?_⟩
    exact Instance.exact_write_of_fields (ih i hi)

end Slot

/-- Both renderings of an instance come to the same value. Its members are the fields that are not
missing. They are handed over in the order of the schema, and their number is the one that was
announced, here and for all instances and lists within. -/
theorem Instance.renderings_agree (i : Instance) :
    i.write.toValue = i.toValue ∧ i.write.exact = true ∧
      i.write = .map i.present.length (i.present.map fun f => (f.1, f.2.write)) ∧
      i.toValue = .ofMembers (i.present.map fun f => (f.1, f.2.toValue)) :=
  ⟨Slot.toValue_write (.single i), Slot.exact_write (.single i), write_eq i, toValue_eq i⟩

/-- A crate with a bottle whose label is missing and whose size is null. -/
example : Instance.write ⟨"Crate", "Crate", [("bottles", .many [⟨"Bottle", "Bottle",
      [("label", .missing), ("size", .raw .null)]⟩])]⟩ =
    .map 1 [("bottles", .sequence 1 [.map 1 [("size", .value .null)]])] := rfl

end TypedModels
