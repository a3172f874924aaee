import TypedModels.Proofs.Rereading

/-!
# Documents survive being written and read

Writing a document and reading it back gives the same document, whether as a tree or as a text,
unless a link of an unknown kind goes by the kind of a known link. No document that was read has such
a link, and none gets too deep for a text by being written again.

## Main results

* `Document.round_trip` : what comes back of a document, and how deep it is written.
-/

namespace TypedModels

/-! ## Canonical order -/

namespace Value

/-- Sorting adds no members. -/
theorem mem_sortMembers {members : List (String × Value)} {m : String × Value}
    (h : m ∈ sortMembers members) : m ∈ members := by
  have hfold : ∀ (rest sorted : List (String × Value)),
      m ∈ rest.foldl (fun sorted n => insertMember n.1 n.2 sorted) sorted →
      m ∈ sorted ∨ m ∈ rest := by
    intro rest
    induction rest with
    | nil => exact fun sorted h => .inl h
    | cons n rest ih =>
      intro sorted h
      rcases ih _ h with h | h
      · rcases mem_insertMember h with rfl | h
        · exact .inr List.mem_cons_self
        · exact .inl h
      · exact .inr (List.mem_cons_of_mem n h)
  simpa using hfold members [] h

theorem depth_canonical_le : ∀ v : Value, v.canonical.depth ≤ v.depth
  | .null | .bool _ | .num _ | .str _ => Nat.le_refl _
  | .arr items => by
    rw [canonical, canonicalItems_eq]
    refine depth_arr_le_iff.2 (List.forall_mem_map.2 fun v hv => ?_)
    have := depth_lt_of_mem hv
    exact Nat.le_trans (depth_canonical_le v) (depth_le_depthItems hv)
  | .obj members => by
    rw [canonical, canonicalMembers_eq]
    refine depth_obj_le_iff.2 fun m hm => ?_
    obtain ⟨n, hn, rfl⟩ := List.mem_map.1 (mem_sortMembers hm)
    have : n.2.depth < (Value.obj members).depth :=
      Nat.lt_succ_of_le (depth_le_depthMembers hn)
    exact Nat.le_trans (depth_canonical_le n.2) (depth_le_depthMembers hn)
termination_by v => v.depth

theorem Numberless.canonical {v : Value} (hv : v.Numberless) : v.canonical.Numberless := by
  induction hv with
  | null => exact .null
  | bool b => exact .bool b
  | str s => exact .str s
  | arr _ ih =>
    rw [Value.canonical, canonicalItems_eq]
    exact .arr (List.forall_mem_map.2 ih)
  | obj _ ih =>
    rw [Value.canonical, canonicalMembers_eq]
    refine .obj fun m hm => ?_
    obtain ⟨n, hn, rfl⟩ := List.mem_map.1 (mem_sortMembers hm)
    exact ih n hn

end Value

/-! ## Written trees -/

open Value

@[simp] theorem numberless_encodeName (name : String) : (encodeName name).Numberless := by
  simp [encodeName]

@[simp] theorem numberless_encode_raw : ∀ raw : RawTypeRef, raw.encode.Numberless
  | .node kind name none => by cases name <;> simp [RawTypeRef.encode]
  | .node kind name (some inner) => by
    cases name <;> simp [RawTypeRef.encode, numberless_encode_raw inner]

theorem numberless_encode_field (f : FieldDef) : f.encode.Numberless := by
  simp [FieldDef.encode, TypeRef.encode]

theorem numberless_encode_body (kind : String) (body : TypeDef) :
    (Value.obj (("kind", .str kind) :: body.members)).Numberless := by
  have hfields : (Value.arr (body.fields.map FieldDef.encode)).Numberless :=
    .arr (List.forall_mem_map.2 fun f _ => numberless_encode_field f)
  have hinterfaces : (Value.arr (body.interfaces.map TypeRef.encode)).Numberless :=
    .arr (List.forall_mem_map.2 fun t _ => numberless_encode_raw t.toRaw)
  rw [numberless_obj_iff]
  unfold TypeDef.members
  split <;> simp [-numberless_arr_iff, hfields, hinterfaces]

theorem tagged_encode_body (kind : String) (body : TypeDef) :
    Tagged (("kind", .str kind) :: body.members) := by
  unfold TypeDef.members
  constructor <;> split <;> simp

theorem tagged_canonical_body (kind : String) (body : TypeDef) :
    Tagged (body.lists ++ [("kind", .str kind), ("name", encodeName body.name)]) := by
  unfold TypeDef.lists
  constructor <;> split <;> simp

namespace Definition

theorem numberless_encode (d : Definition) : d.encode.Numberless := by
  cases d with
  | object body => exact numberless_encode_body _ body
  | interface body => exact numberless_encode_body _ body
  | other => simp [encode]

theorem tagged_other : Tagged [("kind", .str "Other")] := by
  constructor <;> simp

theorem readable_encode {d : Definition} (h : d.isGenuine = true) (hd : d.encode.depth ≤ room) :
    Readable d.encode d := by
  refine ⟨numberless_encode d, hd, inverts_encode.reads h, ?_⟩
  cases d with
  | object body => exact ⟨_, _, rfl, tagged_encode_body _ body⟩
  | interface body => exact ⟨_, _, rfl, tagged_encode_body _ body⟩
  | other => exact ⟨_, _, rfl, tagged_other⟩

theorem readable_canonical {d : Definition} (h : d.isGenuine = true) (hd : d.encode.depth ≤ room) :
    Readable d.encode.canonical d := by
  refine ⟨(numberless_encode d).canonical, Nat.le_trans (depth_canonical_le _) hd,
    inverts_canonical.reads h, ?_⟩
  cases d with
  | object body => exact ⟨_, _, canonical_obj _ body, tagged_canonical_body _ body⟩
  | interface body => exact ⟨_, _, canonical_obj _ body, tagged_canonical_body _ body⟩
  | other => exact ⟨_, _, rfl, tagged_other⟩

end Definition

/-! ## Documents -/

namespace Document

/-- The trees of a document: with the members of each node as they are written, and sorted. -/
def trees (doc : Document) : List Value := [doc.encode, doc.encode.canonical]

theorem forall_trees_iff {doc : Document} {P : Value → Prop} :
    (∀ w ∈ doc.trees, P w) ↔ P doc.encode ∧ P doc.encode.canonical := by
  simp [trees]

/-- A document within the limit is read back from its text. -/
theorem ofJson_text_of_mem_trees {doc : Document} (h : doc.isGenuine = true)
    (hdepth : doc.encode.depth ≤ Value.maxDepth) : ∀ w ∈ doc.trees, ofJson w.text = .ok doc := by
  have hdefs : ∀ d ∈ doc.definitions, d.isGenuine = true ∧ d.encode.depth ≤ Definition.room :=
    fun d hd => ⟨isGenuine_iff.1 h d hd, depth_encode_le_iff.1 hdepth d hd⟩
  rw [forall_trees_iff, canonical_encode]
  exact ⟨ofJson_text fun d hd => Definition.readable_encode (hdefs d hd).1 (hdefs d hd).2,
    ofJson_text fun d hd => Definition.readable_canonical (hdefs d hd).1 (hdefs d hd).2⟩

/-- Exactly the genuine documents are read back from their trees, and the others are refused. Every
document that is decoded is genuine and not deeper than its source, apart from the list of
definitions, and every document that is read from a text is read back from its own text. -/
theorem round_trip (doc : Document) :
    (∀ w ∈ doc.trees, (decode w = .ok doc ↔ doc.isGenuine = true) ∧
      ((∃ fault, decode w = .error fault) ↔ doc.isGenuine = false)) ∧
    (∀ v, decode v = .ok doc →
      doc.isGenuine = true ∧ ∀ w ∈ doc.trees, w.depth ≤ max v.depth 2) ∧
    ∀ text, ofJson text = .ok doc →
      ∀ w ∈ doc.trees, w.depth ≤ Value.maxDepth ∧ ofJson w.text = .ok doc := by
  have hdepth : ∀ w ∈ doc.trees, w.depth ≤ doc.encode.depth :=
    forall_trees_iff.2 ⟨Nat.le_refl _, Value.depth_canonical_le _⟩
  refine ⟨forall_trees_iff.2 ⟨⟨inverts_encode.reads_iff, ?_⟩, inverts_canonical.reads_iff, ?_⟩,
    fun v hv => ?_, fun text htext w hw => ?_⟩
  · simpa using inverts_encode.refuses_iff
  · simpa using inverts_canonical.refuses_iff
  · obtain ⟨hgenuine, hle⟩ := good_of_decode hv
    exact ⟨hgenuine, fun w hw => Nat.le_trans (hdepth w hw) hle⟩
  · obtain ⟨hgenuine, hle⟩ := good_of_ofJson htext
    exact ⟨Nat.le_trans (hdepth w hw) hle, ofJson_text_of_mem_trees hgenuine hle w hw⟩

/-! ## A document of each kind -/

/-- A dog has names and is a pet. -/
def kennel : Document where
  definitions :=
    [.object {
      name := "Dog"
      fields := [{ name := "names", type := .list (.nonNull (.named "String")) }]
      interfaces := [.named "Pet"] },
     .other]

/-- The kennel as it is written without keys. -/
def kennelItems : Value :=
  .arr [.arr [
    .arr [
      .str "ObjectTypeDefinition",
      .arr [.str "Name", .str "Dog"],
      .arr [.arr [
        .arr [.str "Name", .str "names"],
        .arr [.str "ListType", .null,
          .arr [.str "NonNullType", .null, .arr [.str "NamedType", encodeName "String"]]]]],
      .arr [.arr [.str "NamedType", encodeName "Pet"]]],
    .arr [.str "ScalarTypeDefinition"]]]

/-- A link of an unknown kind that goes by the kind of a list. -/
def mislabeled : Document where
  definitions :=
    [.interface {
      name := "Pet"
      fields := [{ name := "names", type := .unrecognized "ListType" }] }]

theorem round_trip_kennel :
    decode kennel.encode = .ok kennel ∧
    (∃ fault, decode mislabeled.encode.canonical = .error fault) ∧
    kennel.encode.depth ≤ max kennelItems.depth 2 ∧
    ofJson kennel.encode.text = .ok kennel := by
  have back := round_trip kennel
  have hmem : kennel.encode ∈ kennel.trees := List.mem_cons_self
  have hitems : decode kennelItems = .ok kennel := by rfl
  have htext : ofJson kennelItems.text = .ok kennel := by
    have hnumberless : kennelItems.Numberless := by simp [kennelItems]
    rw [ofJson, Value.ofText_text hnumberless]
    rfl
  refine ⟨(back.1 _ hmem).1.2 rfl, ?_, (back.2.1 kennelItems hitems).2 _ hmem,
    (back.2.2 kennelItems.text htext _ hmem).2⟩
  exact ((round_trip mislabeled).1 _ (by simp [trees])).2.2 rfl

end Document

end TypedModels
