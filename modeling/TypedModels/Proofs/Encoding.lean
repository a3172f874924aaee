import TypedModels.Document.Codec
import TypedModels.Proofs.Results

/-!
# Encoding and decoding documents

A document is encoded as a tree that is read back as the same document, unless a link of an
unknown kind goes by the kind of a known link: then it is refused. The same holds of the canonical
tree, whose members are in another order.

## Main definitions

* `Inverts` : a decoder that reads back what an encoder writes, and when it refuses.
* `TypeDef.Genuine` : the bodies that are read back.
-/

namespace TypedModels

open DocumentFault

/-! ## Trees -/

namespace Value

@[simp] theorem canonical_str (s : String) : (Value.str s).canonical = .str s := rfl

theorem canonicalItems_eq (items : List Value) : canonicalItems items = items.map canonical := by
  induction items with
  | nil => rfl
  | cons v items ih => rw [canonicalItems, ih, List.map_cons]

theorem canonicalMembers_eq (members : List (String × Value)) :
    canonicalMembers members = members.map fun m => (m.1, m.2.canonical) := by
  induction members with
  | nil => rfl
  | cons m members ih => rw [canonicalMembers, ih, List.map_cons]

/-! ### Order of members -/

section

variable {key : String} {v : Value} {m : String × Value} {members sorted : List (String × Value)}

theorem mem_insertMember (h : m ∈ insertMember key v members) : m = (key, v) ∨ m ∈ members := by
  induction members with
  | nil => exact .inl (List.mem_singleton.1 h)
  | cons n members ih =>
    obtain ⟨k, w⟩ := n
    unfold insertMember at h
    split at h
    · simpa using h
    split at h <;> grind

theorem perm_insertMember (h : key ∉ members.map (·.1)) :
    (insertMember key v members).Perm ((key, v) :: members) := by
  induction members with
  | nil => exact .refl _
  | cons n members ih =>
    obtain ⟨k, w⟩ := n
    rw [List.map_cons, List.mem_cons, not_or] at h
    unfold insertMember
    split
    · exact .refl _
    rw [if_neg h.1]
    exact ((ih h.2).cons _).trans (.swap ..)

theorem pairwise_insertMember (h : members.Pairwise (·.1 < ·.1)) :
    (insertMember key v members).Pairwise (·.1 < ·.1) := by
  induction members with
  | nil => exact List.pairwise_singleton ..
  | cons n members ih =>
    obtain ⟨k, w⟩ := n
    obtain ⟨hn, hrest⟩ := List.pairwise_cons.1 h
    unfold insertMember
    split
    · next hlt =>
      refine List.pairwise_cons.2 ⟨List.forall_mem_cons.2 ⟨hlt, fun m hm => ?_⟩, h⟩
      exact String.lt_trans hlt (hn m hm)
    split
    · next heq =>
      subst heq
      exact List.pairwise_cons.2 ⟨hn, hrest⟩
    · next hle hne =>
      refine List.pairwise_cons.2 ⟨fun m hm => ?_, ih hrest⟩
      rcases mem_insertMember hm with rfl | hm
      · by_contra hlt
        exact hne (String.le_antisymm (String.not_lt.1 hlt) (String.not_lt.1 hle))
      · exact hn m hm

/-- Sorting puts the members in the order of their keys. -/
theorem pairwise_sortMembers (members : List (String × Value)) :
    (sortMembers members).Pairwise (·.1 < ·.1) := by
  have hfold : ∀ sorted : List (String × Value), sorted.Pairwise (·.1 < ·.1) →
      (members.foldl (fun sorted n => insertMember n.1 n.2 sorted) sorted).Pairwise
        (·.1 < ·.1) := by
    induction members with
    | nil => exact fun sorted h => h
    | cons n members ih => exact fun sorted h => ih _ (pairwise_insertMember h)
  exact hfold [] .nil

/-- Members with different keys are all kept. -/
theorem perm_sortMembers (h : (members.map (·.1)).Nodup) : (sortMembers members).Perm members := by
  have hfold : ∀ sorted : List (String × Value), ((sorted ++ members).map (·.1)).Nodup →
      (members.foldl (fun sorted n => insertMember n.1 n.2 sorted) sorted).Perm
        (sorted ++ members) := by
    clear h
    induction members with
    | nil =>
      intro sorted _
      rw [List.append_nil]
      exact .refl _
    | cons n members ih =>
      intro sorted h
      have hmiddle : (n :: sorted ++ members).Perm (sorted ++ n :: members) :=
        List.perm_middle.symm
      have hn : n.1 ∉ sorted.map (·.1) := by
        have := (hmiddle.map (·.1)).nodup_iff.2 h
        grind
      have hinsert := (perm_insertMember (v := n.2) hn).append_right members
      have hnodup := ((hinsert.trans hmiddle).map (·.1)).nodup_iff.2 h
      exact (ih _ hnodup).trans (hinsert.trans hmiddle)
  exact hfold [] h

theorem sortMembers_eq (hperm : members.Perm sorted)
    (hkeys : (sorted.map (·.1)).Pairwise (· < ·)) : sortMembers members = sorted := by
  have hsorted := List.pairwise_map.1 hkeys
  have hdistinct : (sorted.map (·.1)).Nodup := hkeys.imp <| by
    rintro k _ hlt rfl
    exact String.lt_irrefl k hlt
  have hnodup : (members.map (·.1)).Nodup := (hperm.map _).nodup_iff.2 hdistinct
  refine List.Perm.eq_of_pairwise (fun m n _ _ hm hn => absurd hn (String.lt_asymm hm))
    (pairwise_sortMembers members) hsorted ((perm_sortMembers hnodup).trans hperm)

/-- An object with canonical members is canonical once its keys are in order. -/
theorem canonical_obj_of_perm (hperm : members.Perm sorted)
    (hkeys : (sorted.map (·.1)).Pairwise (· < ·)) (hmembers : ∀ m ∈ members, m.2.canonical = m.2) :
    (Value.obj members).canonical = .obj sorted := by
  have same : members.map (fun m => (m.1, m.2.canonical)) = members := by
    conv_rhs => rw [← List.map_id members]
    exact List.map_congr_left fun m hm => Prod.ext rfl (hmembers m hm)
  rw [canonical, canonicalMembers_eq, same, ofMembers, sortMembers_eq hperm hkeys]

theorem canonical_obj_of_sorted (hkeys : (members.map (·.1)).Pairwise (· < ·))
    (hmembers : ∀ m ∈ members, m.2.canonical = m.2) :
    (Value.obj members).canonical = .obj members :=
  canonical_obj_of_perm (.refl members) hkeys hmembers

end

end Value

/-! ## Codecs -/

/-- `decode` reads back what `encode` writes for what is good, and refuses what it writes for
anything else. -/
structure Inverts {α : Type} (decode : Value → Except DocumentFault α) (encode : α → Value)
    (good : α → Prop) : Prop where
  reads : ∀ {a}, good a → decode (encode a) = .ok a
  refuses : ∀ {a}, ¬ good a → ∃ e, decode (encode a) = .error e

namespace Inverts

variable {α : Type} {decode : Value → Except DocumentFault α} {encode : α → Value}
  {good : α → Prop}

theorem good_of_reads {a b : α} (h : Inverts decode encode good)
    (hb : decode (encode a) = .ok b) : good a ∧ b = a := by
  by_cases ha : good a
  · rw [h.reads ha] at hb
    cases hb
    exact ⟨ha, rfl⟩
  · obtain ⟨e, he⟩ := h.refuses ha
    rw [he] at hb
    cases hb

theorem reads_iff {a : α} (h : Inverts decode encode good) :
    decode (encode a) = .ok a ↔ good a :=
  ⟨fun ha => (h.good_of_reads ha).1, h.reads⟩

theorem refuses_iff {a : α} (h : Inverts decode encode good) :
    (∃ e, decode (encode a) = .error e) ↔ ¬ good a := by
  refine ⟨?_, h.refuses⟩
  rintro ⟨e, he⟩ ha
  rw [h.reads ha] at he
  cases he

theorem list (h : Inverts decode encode good) :
    Inverts (decodeList decode) (fun as => .arr (as.map encode)) (fun as => ∀ a ∈ as, good a) where
  reads {as} hgood := by
    rw [decodeList, mapM_eq_ok_iff, List.forall₂_map_left_iff, List.forall₂_same]
    exact fun a ha => h.reads (hgood a ha)
  refuses {as} hbad := by
    rw [decodeList]
    cases hr : (as.map encode).mapM decode with
    | error e => exact ⟨e, rfl⟩
    | ok bs =>
      have each := exists_mapM_iff.1 ⟨bs, hr⟩
      refine absurd (fun a ha => ?_) hbad
      obtain ⟨b, hb⟩ := each (encode a) (List.mem_map_of_mem ha)
      exact (h.good_of_reads hb).1

end Inverts

/-! ## Names -/

@[simp] theorem canonical_encodeName (name : String) :
    (encodeName name).canonical = encodeName name := by
  have hkeys : ["kind", "value"].Pairwise (· < ·) := by decide
  exact Value.canonical_obj_of_sorted hkeys (by simp)

@[simp] theorem decodeName_encodeName (name : String) :
    decodeName (encodeName name) = .ok name := by
  simp [encodeName, decodeName, NameParts.add, once, decodeString]
  rfl

/-! ## Chains -/

theorem decodeName?_encodeName (name : String) :
    decodeName? (encodeName name) = .ok (some name) := by
  rw [decodeName?, decodeName_encodeName]
  · rfl
  · exact nofun

/-- A node is read back as it is. -/
theorem decode?_encode : ∀ raw : RawTypeRef, RawTypeRef.decode? raw.encode = .ok (some raw)
  | .node kind name none => by
    cases name <;>
      simp [RawTypeRef.encode, RawTypeRef.decode?, RawTypeRef.decodeMembers, once, decodeString,
        decodeName?_encodeName] <;>
      rfl
  | .node kind name (some inner) => by
    cases name <;>
      simp [RawTypeRef.encode, RawTypeRef.decode?, RawTypeRef.decodeMembers, once, decodeString,
        decodeName?_encodeName, decode?_encode inner] <;>
      rfl

theorem canonical_encode_raw : ∀ raw : RawTypeRef, raw.encode.canonical = raw.encode
  | .node kind name none => by
    rw [RawTypeRef.encode]
    cases name with
    | none =>
      have hkeys : ["kind"].Pairwise (· < ·) := by decide
      exact Value.canonical_obj_of_sorted hkeys (by simp)
    | some name =>
      have hkeys : ["kind", "name"].Pairwise (· < ·) := by decide
      exact Value.canonical_obj_of_sorted hkeys (by simp)
  | .node kind name (some inner) => by
    have hinner := canonical_encode_raw inner
    rw [RawTypeRef.encode]
    cases name with
    | none =>
      have hkeys : ["kind", "type"].Pairwise (· < ·) := by decide
      exact Value.canonical_obj_of_sorted hkeys (by simp [hinner])
    | some name =>
      have hkeys : ["kind", "name", "type"].Pairwise (· < ·) := by decide
      exact Value.canonical_obj_of_sorted hkeys (by simp [hinner])

/-- The least node of a chain has the chain, unless an unknown link goes by a known kind. -/
theorem toTypeRef_toRaw (t : TypeRef) :
    (t.isGenuine = true → t.toRaw.toTypeRef = .ok t) ∧
      (t.isGenuine = false → ∃ e, t.toRaw.toTypeRef = .error e) := by
  induction t with
  | named name => exact ⟨fun _ => rfl, nofun⟩
  | list inner ih =>
    have unfolded : (TypeRef.list inner).toRaw.toTypeRef = inner.toRaw.toTypeRef.map .list := rfl
    rw [unfolded]
    refine ⟨fun h => by rw [ih.1 h]; rfl, fun h => ?_⟩
    obtain ⟨e, he⟩ := ih.2 h
    exact ⟨e, by rw [he]; rfl⟩
  | nonNull inner ih =>
    have unfolded : (TypeRef.nonNull inner).toRaw.toTypeRef = inner.toRaw.toTypeRef.map .nonNull :=
      rfl
    rw [unfolded]
    refine ⟨fun h => by rw [ih.1 h]; rfl, fun h => ?_⟩
    obtain ⟨e, he⟩ := ih.2 h
    exact ⟨e, by rw [he]; rfl⟩
  | unrecognized kind =>
    rw [TypeRef.toRaw, RawTypeRef.toTypeRef]
    by_cases hnamed : kind = "NamedType"
    · exact ⟨by simp [TypeRef.isGenuine, hnamed], fun _ => ⟨_, if_pos hnamed⟩⟩
    by_cases hwrapper : kind = "ListType" ∨ kind = "NonNullType"
    · refine ⟨fun h => ?_, fun _ => ⟨_, by rw [if_neg hnamed, if_pos hwrapper]⟩⟩
      rcases hwrapper with rfl | rfl <;> simp [TypeRef.isGenuine] at h
    · rw [if_neg hnamed, if_neg hwrapper]
      rw [not_or] at hwrapper
      exact ⟨fun _ => rfl, by simp [TypeRef.isGenuine, hnamed, hwrapper]⟩

theorem decode_typeRef (raw : RawTypeRef) : TypeRef.decode raw.encode = raw.toTypeRef := by
  rw [TypeRef.decode, RawTypeRef.decode, decode?_encode]
  rfl

theorem inverts_typeRef : Inverts TypeRef.decode TypeRef.encode (·.isGenuine = true) where
  reads {t} h := (decode_typeRef t.toRaw).trans ((toTypeRef_toRaw t).1 h)
  refuses {t} h := by
    rw [TypeRef.encode, decode_typeRef]
    exact (toTypeRef_toRaw t).2 (by simpa using h)

/-! ## Fields -/

theorem canonical_encode_field (f : FieldDef) : f.encode.canonical = f.encode := by
  have hkeys : ["name", "type"].Pairwise (· < ·) := by decide
  exact Value.canonical_obj_of_sorted hkeys (by simp [TypeRef.encode, canonical_encode_raw])

theorem decode_field (f : FieldDef) : FieldDef.decode f.encode =
    (TypeRef.decode f.type.encode).map fun type => { name := f.name, type } := by
  simp [FieldDef.decode, FieldDef.encode, FieldParts.add, once]
  cases TypeRef.decode f.type.encode <;> rfl

theorem inverts_field : Inverts FieldDef.decode FieldDef.encode (·.type.isGenuine = true) where
  reads {f} h := by
    rw [decode_field, inverts_typeRef.reads h]
    rfl
  refuses {f} h := by
    obtain ⟨e, he⟩ := inverts_typeRef.refuses h
    exact ⟨e, by rw [decode_field, he]; rfl⟩

/-! ## Definitions -/

namespace TypeDef

/-- The lists of a body as members. -/
def lists (body : TypeDef) : List (String × Value) :=
  ("fields", .arr (body.fields.map FieldDef.encode)) ::
    if body.interfaces = [] then []
    else [("interfaces", .arr (body.interfaces.map TypeRef.encode))]

/-- What comes back of a body when its lists are written and read again. -/
def reread (body : TypeDef) : Except DocumentFault TypeDef := do
  let fields ← decodeList FieldDef.decode (.arr (body.fields.map FieldDef.encode))
  let interfaces ← decodeList TypeRef.decode (.arr (body.interfaces.map TypeRef.encode))
  return { name := body.name, fields, interfaces }

/-- The name of a body may stand before its lists or behind them. -/
theorem decodeMembers_lists {body : TypeDef} {before after : List (String × Value)}
    (h : before ++ after = [("name", encodeName body.name)]) :
    decodeMembers (before ++ body.lists ++ after) = body.reread := by
  unfold lists reread
  rcases List.append_eq_singleton_iff.1 h with ⟨rfl, rfl⟩ | ⟨rfl, rfl⟩ <;> split
  case isTrue hnone | isTrue hnone =>
    simp [decodeMembers, BodyParts.add, once, hnone]
    cases decodeList FieldDef.decode (.arr (body.fields.map FieldDef.encode)) <;> rfl
  all_goals
    simp [decodeMembers, BodyParts.add, once]
    cases decodeList FieldDef.decode (.arr (body.fields.map FieldDef.encode)) with
    | error e => rfl
    | ok fields =>
      cases decodeList TypeRef.decode (.arr (body.interfaces.map TypeRef.encode)) <;> rfl

/-- Whether no link of an unknown kind in the body goes by the kind of a known link. -/
def Genuine (body : TypeDef) : Prop :=
  (∀ f ∈ body.fields, f.type.isGenuine = true) ∧ ∀ t ∈ body.interfaces, t.isGenuine = true

theorem reread_of_genuine {body : TypeDef} (h : body.Genuine) : body.reread = .ok body := by
  rw [reread, inverts_field.list.reads h.1, inverts_typeRef.list.reads h.2]
  rfl

theorem reread_of_not_genuine {body : TypeDef} (h : ¬ body.Genuine) :
    ∃ e, body.reread = .error e := by
  by_cases hfields : ∀ f ∈ body.fields, f.type.isGenuine = true
  · obtain ⟨e, he⟩ := inverts_typeRef.list.refuses fun hinterfaces => h ⟨hfields, hinterfaces⟩
    exact ⟨e, by rw [reread, inverts_field.list.reads hfields, he]; rfl⟩
  · obtain ⟨e, he⟩ := inverts_field.list.refuses hfields
    exact ⟨e, by rw [reread, he]; rfl⟩

end TypeDef

namespace Definition

theorem isGenuine_iff {d : Definition} :
    d.isGenuine = true ↔ ∀ body, d.body? = some body → body.Genuine := by
  rw [isGenuine]
  cases d.body? <;> simp [TypeDef.Genuine]

/-- Only the members under the key of the kind matter for the kind. -/
theorem decodeKind_filter (members : List (String × Value)) :
    decodeKind (members.filter (·.1 = "kind")) = decodeKind members := by
  have hfold : ∀ stored, (members.filter (·.1 = "kind")).foldlM addKind stored =
      members.foldlM addKind stored := by
    induction members with
    | nil => exact fun _ => rfl
    | cons m members ih =>
      intro stored
      by_cases hm : m.1 = "kind"
      · simp [hm, ih]
      · simp [hm, ih, addKind]
  rw [decodeKind, decodeKind, hfold]

/-- The kind and the name may stand before the lists of the body or behind them. -/
theorem decode_lists {kind : String} {body : TypeDef} {before after : List (String × Value)}
    (h : before ++ after = [("kind", .str kind), ("name", encodeName body.name)]) :
    decode (.obj (before ++ body.lists ++ after)) = ofKind kind body.reread (.ok .other) := by
  have hnone : body.lists.filter (·.1 = "kind") = [] := by
    unfold TypeDef.lists
    split <;> simp
  have hall : body.lists.filter (·.1 ≠ "kind") = body.lists := by
    unfold TypeDef.lists
    split <;> simp
  have hkind : decodeKind (before ++ body.lists ++ after) = .ok kind := by
    rw [← decodeKind_filter, List.filter_append, List.filter_append, hnone, List.append_nil,
      ← List.filter_append, h]
    rfl
  have hname : before.filter (·.1 ≠ "kind") ++ after.filter (·.1 ≠ "kind") =
      [("name", encodeName body.name)] := by
    rw [← List.filter_append, h]
    rfl
  rw [decode, hkind, List.filter_append, List.filter_append, hall]
  exact congrArg (ofKind kind · (.ok .other)) (TypeDef.decodeMembers_lists hname)

theorem decode_members (kind : String) (body : TypeDef) :
    decode (.obj (("kind", .str kind) :: body.members)) = ofKind kind body.reread (.ok .other) := by
  have h : decode (.obj
      ([("kind", .str kind), ("name", encodeName body.name)] ++ body.lists ++ [])) =
        ofKind kind body.reread (.ok .other) := decode_lists (List.append_nil _)
  rwa [List.append_nil] at h

/-- In canonical order the name comes last. -/
theorem canonical_obj (kind : String) (body : TypeDef) :
    (Value.obj (("kind", .str kind) :: body.members)).canonical =
      .obj (body.lists ++ [("kind", .str kind), ("name", encodeName body.name)]) := by
  have hfields : (Value.arr (body.fields.map FieldDef.encode)).canonical =
      .arr (body.fields.map FieldDef.encode) := by
    simp [Value.canonical, Value.canonicalItems_eq, canonical_encode_field]
  have hinterfaces : (Value.arr (body.interfaces.map TypeRef.encode)).canonical =
      .arr (body.interfaces.map TypeRef.encode) := by
    simp [Value.canonical, Value.canonicalItems_eq, TypeRef.encode, canonical_encode_raw]
  have hperm : ([("kind", .str kind), ("name", encodeName body.name)] ++ body.lists).Perm
      (body.lists ++ [("kind", .str kind), ("name", encodeName body.name)]) :=
    List.perm_append_comm
  refine Value.canonical_obj_of_perm hperm ?_ ?_
  · unfold TypeDef.lists
    split
    · have hkeys : ["fields", "kind", "name"].Pairwise (· < ·) := by decide
      exact hkeys
    · have hkeys : ["fields", "interfaces", "kind", "name"].Pairwise (· < ·) := by decide
      exact hkeys
  · unfold TypeDef.members
    split <;> simp [hfields, hinterfaces]

/-- A definition is read back if its body is. -/
theorem inverts {enc : Definition → Value}
    (hobject : ∀ body, decode (enc (.object body)) = body.reread.map .object)
    (hinterface : ∀ body, decode (enc (.interface body)) = body.reread.map .interface)
    (hother : decode (enc .other) = .ok .other) : Inverts decode enc (·.isGenuine = true) where
  reads {d} h := by
    rw [isGenuine_iff] at h
    cases d with
    | object body => rw [hobject, TypeDef.reread_of_genuine (h body rfl)]; rfl
    | interface body => rw [hinterface, TypeDef.reread_of_genuine (h body rfl)]; rfl
    | other => exact hother
  refuses {d} h := by
    rw [isGenuine_iff] at h
    have hbody : ∀ {body}, d.body? = some body → ∃ e, body.reread = .error e := by
      intro body hd
      refine TypeDef.reread_of_not_genuine fun hgenuine => h fun body' hd' => ?_
      cases hd.symm.trans hd'
      exact hgenuine
    cases d with
    | object body =>
      obtain ⟨e, he⟩ := hbody rfl
      exact ⟨e, by rw [hobject, he]; rfl⟩
    | interface body =>
      obtain ⟨e, he⟩ := hbody rfl
      exact ⟨e, by rw [hinterface, he]; rfl⟩
    | other => exact absurd nofun h

theorem inverts_encode : Inverts decode encode (·.isGenuine = true) :=
  inverts (fun body => decode_members "ObjectTypeDefinition" body)
    (fun body => decode_members "InterfaceTypeDefinition" body) (by rfl)

theorem inverts_canonical : Inverts decode (fun d => d.encode.canonical) (·.isGenuine = true) := by
  refine inverts (fun body => ?_) (fun body => ?_) (by rfl)
  · rw [encode, canonical_obj]
    exact decode_lists (List.nil_append _)
  · rw [encode, canonical_obj]
    exact decode_lists (List.nil_append _)

end Definition

/-! ## Documents -/

namespace Document

theorem isGenuine_iff {doc : Document} :
    doc.isGenuine = true ↔ ∀ d ∈ doc.definitions, d.isGenuine = true := List.all_eq_true

theorem decode_definitions (v : Value) :
    decode (.obj [("definitions", v)]) = (decodeList Definition.decode v).map mk := by
  simp [decode, addDefinitions, once]
  cases decodeList Definition.decode v <;> rfl

theorem inverts {enc : Definition → Value}
    (h : Inverts Definition.decode enc (·.isGenuine = true)) :
    Inverts decode (fun doc => .obj [("definitions", .arr (doc.definitions.map enc))])
      (·.isGenuine = true) where
  reads {doc} hgenuine := by
    rw [decode_definitions, h.list.reads (isGenuine_iff.1 hgenuine)]
    rfl
  refuses {doc} hbad := by
    obtain ⟨e, he⟩ := h.list.refuses fun hall => hbad (isGenuine_iff.2 hall)
    exact ⟨e, by rw [decode_definitions, he]; rfl⟩

theorem inverts_encode : Inverts decode encode (·.isGenuine = true) :=
  inverts Definition.inverts_encode

theorem canonical_encode (doc : Document) : doc.encode.canonical =
    .obj [("definitions", .arr (doc.definitions.map fun d => d.encode.canonical))] := by
  simp [encode, Value.canonical, Value.canonicalMembers_eq, Value.canonicalItems_eq,
    Value.ofMembers, Value.sortMembers, Value.insertMember]

theorem inverts_canonical :
    Inverts decode (fun doc => doc.encode.canonical) (·.isGenuine = true) := by
  simp only [canonical_encode]
  exact inverts Definition.inverts_canonical

end Document

end TypedModels
