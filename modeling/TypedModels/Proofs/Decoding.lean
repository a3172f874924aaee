import TypedModels.Proofs.Encoding

/-!
# What can be decoded

A document that is read from a tree has no link of an unknown kind that goes by the kind of a known
link, so it can be read back when it is written. Its own tree is not deeper than the one that it was
read from, but for the list of definitions, which is written even if it is empty.

## Main definitions

* `Shrinks` : what a decoder reads is good, and is written without getting deeper.
-/

namespace TypedModels

open DocumentFault

/-! ## Depth -/

namespace Value

theorem depth_arr_le_iff {items : List Value} {n : Nat} :
    (Value.arr items).depth ≤ n + 1 ↔ ∀ v ∈ items, v.depth ≤ n := by
  rw [depth, Nat.add_le_add_iff_right]
  induction items with
  | nil => simp [depthItems]
  | cons v items ih => rw [depthItems, Nat.max_le, ih, List.forall_mem_cons]

theorem depth_obj_le_iff {members : List (String × Value)} {n : Nat} :
    (Value.obj members).depth ≤ n + 1 ↔ ∀ m ∈ members, m.2.depth ≤ n := by
  rw [depth, Nat.add_le_add_iff_right]
  induction members with
  | nil => simp [depthMembers]
  | cons m members ih => rw [depthMembers, Nat.max_le, ih, List.forall_mem_cons]

end Value

/-- What `decode` reads is good, and `encode` writes it without getting deeper. -/
def Shrinks {α : Type} (decode : Value → Except DocumentFault α) (encode : α → Value)
    (good : α → Prop) : Prop :=
  ∀ {v a}, decode v = .ok a → good a ∧ (encode a).depth ≤ v.depth

theorem Shrinks.list {α : Type} {decode : Value → Except DocumentFault α} {encode : α → Value}
    {good : α → Prop} (h : Shrinks decode encode good) :
    Shrinks (decodeList decode) (fun as => .arr (as.map encode)) (fun as => ∀ a ∈ as, good a) := by
  intro v as hv
  cases v with
  | arr items =>
    have each : ∀ a ∈ as, good a ∧ (encode a).depth ≤ Value.depthItems items := by
      intro a ha
      obtain ⟨item, hitem, hdecode⟩ := (mem_mapM_iff hv).1 ha
      obtain ⟨hgood, hdepth⟩ := h hdecode
      exact ⟨hgood, Nat.le_trans hdepth (Value.depth_le_depthItems hitem)⟩
    refine ⟨fun a ha => (each a ha).1, ?_⟩
    exact Value.depth_arr_le_iff.2 (List.forall_mem_map.2 fun a ha => (each a ha).2)
  | _ => cases hv

theorem once_eq_ok_iff {α : Type} {name : String} {stored result : Option α}
    {part : Except DocumentFault α} :
    once name stored part = .ok result ↔ stored = none ∧ ∃ a, part = .ok a ∧ result = some a := by
  cases stored <;> cases part <;> simp [once, Except.map, eq_comm]

/-- A part is stored if there is none yet and it can be read. -/
theorem store_eq_ok_iff {α β : Type} {name : String} {stored : Option α}
    {part : Except DocumentFault α} {parts : Option α → β} {q : β} :
    (do return parts (← once name stored part)) = Except.ok q ↔
      stored = none ∧ ∃ a, part = .ok a ∧ q = parts (some a) := by
  cases stored <;> cases part <;>
    simp [once, Except.map, bind, Except.bind, pure, Except.pure, eq_comm]

/-! ## Names -/

@[simp] theorem depth_encodeName (name : String) : (encodeName name).depth = 1 := by
  simp [encodeName, Value.depth, Value.depthMembers]

/-- The node of a name is an object or an array. -/
theorem shrinks_name : Shrinks decodeName encodeName (fun _ => True) := by
  intro v name h
  refine ⟨trivial, ?_⟩
  rw [depth_encodeName]
  cases v with
  | arr items => simp [Value.depth]
  | obj members => simp [Value.depth]
  | _ => cases h

theorem shrinks_name? {v : Value} {name : String} (h : decodeName? v = .ok (some name)) :
    1 ≤ v.depth := by
  cases v with
  | arr items => simp [Value.depth]
  | obj members => simp [Value.depth]
  | _ => cases h

/-! ## Chains -/

theorem depth_encode_node (kind : String) (name : Option String) (inner : Option RawTypeRef) :
    (RawTypeRef.node kind name inner).encode.depth =
      max (name.elim 0 fun _ => 1) (inner.elim 0 fun raw => raw.encode.depth) + 1 := by
  cases name <;> cases inner <;>
    simp [RawTypeRef.encode, Value.depth, Value.depthMembers]

theorem depth_encode_node_le_iff {kind : String} {name : Option String}
    {inner : Option RawTypeRef} {n : Nat} :
    (RawTypeRef.node kind name inner).encode.depth ≤ n + 1 ↔
      (∀ a, name = some a → 1 ≤ n) ∧ ∀ raw, inner = some raw → raw.encode.depth ≤ n := by
  rw [depth_encode_node, Nat.add_le_add_iff_right, Nat.max_le]
  cases name <;> cases inner <;> simp

/-- The parts that have been read fit into a node of depth `n + 1`. -/
structure TypeParts.Within (p : TypeParts) (n : Nat) : Prop where
  name : ∀ a, p.name = some (some a) → 1 ≤ n
  inner : ∀ raw, p.inner = some (some raw) → raw.encode.depth ≤ n

/-- Stores the part of a type node that the member holds. -/
def TypeParts.add (p : TypeParts) (m : String × Value) : Except DocumentFault TypeParts :=
  if m.1 = "kind" then return { p with kind := ← once "kind" p.kind (decodeString m.2) }
  else if m.1 = "name" then return { p with name := ← once "name" p.name (decodeName? m.2) }
  else if m.1 = "type" then
    return { p with inner := ← once "type" p.inner (RawTypeRef.decode? m.2) }
  else return p

theorem decodeMembers_eq_foldlM {p : TypeParts} {members : List (String × Value)} :
    RawTypeRef.decodeMembers p members = members.foldlM TypeParts.add p := by
  induction members generalizing p with
  | nil => rw [RawTypeRef.decodeMembers]; rfl
  | cons m members ih =>
    obtain ⟨key, v⟩ := m
    rw [RawTypeRef.decodeMembers, List.foldlM_cons, TypeParts.add]
    simp only [ih]
    split <;> [skip; split <;> [skip; split]] <;> simp

theorem TypeParts.Within.add {p q : TypeParts} {m : String × Value} {n : Nat} (hp : p.Within n)
    (hm : m.2.depth ≤ n)
    (hinner : ∀ raw, RawTypeRef.decode? m.2 = .ok (some raw) → raw.encode.depth ≤ m.2.depth)
    (h : p.add m = .ok q) : q.Within n := by
  unfold TypeParts.add at h
  split at h
  · obtain ⟨-, part, -, rfl⟩ := store_eq_ok_iff.1 h
    exact ⟨hp.name, hp.inner⟩
  split at h
  · obtain ⟨-, part, hpart, rfl⟩ := store_eq_ok_iff.1 h
    refine ⟨fun a ha => ?_, hp.inner⟩
    cases ha
    exact Nat.le_trans (shrinks_name? hpart) hm
  split at h
  · obtain ⟨-, part, hpart, rfl⟩ := store_eq_ok_iff.1 h
    refine ⟨hp.name, fun raw hraw => ?_⟩
    cases hraw
    exact Nat.le_trans (hinner raw hpart) hm
  · cases h
    exact hp

theorem TypeParts.Within.toNode {p : TypeParts} {raw : RawTypeRef} {n : Nat} (hp : p.Within n)
    (h : p.toNode = .ok raw) : raw.encode.depth ≤ n + 1 := by
  obtain ⟨kind, name, inner⟩ := p
  cases kind with
  | none => cases h
  | some kind =>
    cases h
    refine depth_encode_node_le_iff.2 ⟨fun a ha => ?_, fun raw hraw => ?_⟩
    · exact hp.name a (Option.join_eq_some_iff.1 ha)
    · exact hp.inner raw (Option.join_eq_some_iff.1 hraw)

/-- The items of an array are the parts of the node in order. -/
theorem toNode_of_decode?_arr {items : List Value} {raw : RawTypeRef}
    (h : RawTypeRef.decode? (.arr items) = .ok (some raw)) :
    ∃ p : TypeParts, p.toNode = .ok raw ∧
      (∀ name, p.name = some (some name) → ∃ v ∈ items, decodeName? v = .ok (some name)) ∧
      ∀ inner, p.inner = some (some inner) →
        ∃ v ∈ items, RawTypeRef.decode? v = .ok (some inner) := by
  match items with
  | [] => cases h
  | [k] =>
    rw [RawTypeRef.decode?] at h
    obtain ⟨kind, -, h⟩ := bind_eq_ok_iff.1 h
    cases h
    exact ⟨⟨some kind, none, none⟩, rfl, by simp, by simp⟩
  | [k, a] =>
    rw [RawTypeRef.decode?] at h
    obtain ⟨kind, -, h⟩ := bind_eq_ok_iff.1 h
    obtain ⟨name, hname, h⟩ := bind_eq_ok_iff.1 h
    cases h
    exact ⟨⟨some kind, some name, none⟩, rfl, by simp +contextual [hname], by simp⟩
  | [k, a, b] =>
    rw [RawTypeRef.decode?] at h
    obtain ⟨kind, -, h⟩ := bind_eq_ok_iff.1 h
    obtain ⟨name, hname, h⟩ := bind_eq_ok_iff.1 h
    obtain ⟨inner, hinner, h⟩ := bind_eq_ok_iff.1 h
    cases h
    exact ⟨⟨some kind, some name, some inner⟩, rfl, by simp +contextual [hname],
      by simp +contextual [hinner]⟩
  | k :: a :: b :: c :: rest =>
    rw [RawTypeRef.decode?] at h
    · obtain ⟨_, -, h⟩ := bind_eq_ok_iff.1 h
      obtain ⟨_, -, h⟩ := bind_eq_ok_iff.1 h
      obtain ⟨_, -, h⟩ := bind_eq_ok_iff.1 h
      cases h
    · simp

theorem depth_le_of_decode? {v : Value} {raw : RawTypeRef}
    (h : RawTypeRef.decode? v = .ok (some raw)) : raw.encode.depth ≤ v.depth := by
  match v with
  | .obj members =>
    rw [RawTypeRef.decode?] at h
    obtain ⟨p, hp, h⟩ := bind_eq_ok_iff.1 h
    rw [decodeMembers_eq_foldlM] at hp
    have hempty : ({} : TypeParts).Within (Value.depthMembers members) := ⟨by simp, by simp⟩
    have hwithin := foldlM_invariant (TypeParts.Within · _) (fun m hm p q hp h => by
      have hle : m.2.depth ≤ Value.depthMembers members := Value.depth_le_depthMembers hm
      have hlt : m.2.depth < (Value.obj members).depth := Nat.lt_succ_of_le hle
      exact hp.add hle (fun raw => depth_le_of_decode?) h) hempty hp
    obtain ⟨node, hnode, h⟩ := map_eq_ok_iff.1 h
    cases h
    exact hwithin.toNode hnode
  | .arr items =>
    obtain ⟨p, hp, hname, hinner⟩ := toNode_of_decode?_arr h
    have hwithin : p.Within (Value.depthItems items) := by
      refine ⟨fun name h => ?_, fun inner h => ?_⟩
      · obtain ⟨v, hv, hdecode⟩ := hname name h
        exact Nat.le_trans (shrinks_name? hdecode) (Value.depth_le_depthItems hv)
      · obtain ⟨v, hv, hdecode⟩ := hinner inner h
        have hlt := Value.depth_lt_of_mem hv
        exact Nat.le_trans (depth_le_of_decode? hdecode) (Value.depth_le_depthItems hv)
    exact hwithin.toNode hp
  | .null => cases h
  | .bool b => cases h
  | .num n => cases h
  | .str s => cases h
termination_by v.depth

/-- A node has a chain if it is a type with a name, a wrapper around a node that has one, or of an
unknown kind. -/
theorem toTypeRef_eq_ok_iff {kind : String} {name : Option String} {inner : Option RawTypeRef}
    {t : TypeRef} : (RawTypeRef.node kind name inner).toTypeRef = .ok t ↔
      (kind = "NamedType" ∧ ∃ a, name = some a ∧ t = .named a) ∨
      (kind = "ListType" ∧ ∃ raw u, inner = some raw ∧ raw.toTypeRef = .ok u ∧ t = .list u) ∨
      (kind = "NonNullType" ∧ ∃ raw u, inner = some raw ∧ raw.toTypeRef = .ok u ∧ t = .nonNull u) ∨
      ((TypeRef.unrecognized kind).isGenuine = true ∧ t = .unrecognized kind) := by
  by_cases hnamed : kind = "NamedType"
  · subst hnamed
    cases inner <;> cases name <;> simp [RawTypeRef.toTypeRef, TypeRef.isGenuine, eq_comm]
  by_cases hwrapper : kind = "ListType" ∨ kind = "NonNullType"
  · cases inner with
    | none => rcases hwrapper with rfl | rfl <;> simp [RawTypeRef.toTypeRef, TypeRef.isGenuine]
    | some raw =>
      rcases hwrapper with rfl | rfl <;> cases hraw : raw.toTypeRef <;>
        simp [RawTypeRef.toTypeRef, TypeRef.isGenuine, Except.map, hraw, eq_comm]
  · rw [not_or] at hwrapper
    cases inner <;> simp [RawTypeRef.toTypeRef, TypeRef.isGenuine, hnamed, hwrapper, eq_comm]

/-- The least node of a chain is not deeper than any node that has the chain. -/
theorem depth_encode_le_of_toTypeRef : ∀ {raw : RawTypeRef} {t : TypeRef},
    raw.toTypeRef = .ok t → t.isGenuine = true ∧ t.encode.depth ≤ raw.encode.depth
  | .node kind name inner, t, h => by
    rcases toTypeRef_eq_ok_iff.1 h with ⟨-, a, rfl, rfl⟩ | ⟨-, raw, u, rfl, hu, rfl⟩ |
        ⟨-, raw, u, rfl, hu, rfl⟩ | ⟨hgenuine, rfl⟩
    · refine ⟨rfl, ?_⟩
      simp only [TypeRef.encode, TypeRef.toRaw, depth_encode_node, Option.elim]
      omega
    · obtain ⟨hgenuine, hdepth⟩ := depth_encode_le_of_toTypeRef hu
      refine ⟨hgenuine, ?_⟩
      simp only [TypeRef.encode, TypeRef.toRaw, depth_encode_node, Option.elim] at hdepth ⊢
      omega
    · obtain ⟨hgenuine, hdepth⟩ := depth_encode_le_of_toTypeRef hu
      refine ⟨hgenuine, ?_⟩
      simp only [TypeRef.encode, TypeRef.toRaw, depth_encode_node, Option.elim] at hdepth ⊢
      omega
    · refine ⟨hgenuine, ?_⟩
      simp only [TypeRef.encode, TypeRef.toRaw, depth_encode_node, Option.elim]
      omega

theorem shrinks_typeRef : Shrinks TypeRef.decode TypeRef.encode (·.isGenuine = true) := by
  intro v t h
  obtain ⟨raw, hraw, ht⟩ := bind_eq_ok_iff.1 h
  obtain ⟨raw?, hraw?, hraw⟩ := bind_eq_ok_iff.1 hraw
  cases raw? with
  | none => cases hraw
  | some raw' =>
    cases hraw
    obtain ⟨hgenuine, hdepth⟩ := depth_encode_le_of_toTypeRef ht
    exact ⟨hgenuine, Nat.le_trans hdepth (depth_le_of_decode? hraw?)⟩

/-! ## Fields -/

theorem depth_encode_field (f : FieldDef) :
    f.encode.depth = max 1 f.type.encode.depth + 1 := by
  simp [FieldDef.encode, Value.depth, Value.depthMembers]

/-- The parts of a field that have been read fit into an object of depth `n + 1`. -/
structure FieldParts.Within (p : FieldParts) (n : Nat) : Prop where
  name : ∀ a, p.name = some a → 1 ≤ n
  type : ∀ t, p.type = some t → t.isGenuine = true ∧ t.encode.depth ≤ n

theorem FieldParts.Within.add {p q : FieldParts} {m : String × Value} {n : Nat} (hp : p.Within n)
    (hm : m.2.depth ≤ n) (h : p.add m = .ok q) : q.Within n := by
  unfold FieldParts.add at h
  split at h
  · obtain ⟨-, part, hpart, rfl⟩ := store_eq_ok_iff.1 h
    have hdepth := (shrinks_name hpart).2
    rw [depth_encodeName] at hdepth
    exact ⟨fun a _ => Nat.le_trans hdepth hm, hp.type⟩
  split at h
  · obtain ⟨-, part, hpart, rfl⟩ := store_eq_ok_iff.1 h
    refine ⟨hp.name, fun t ht => ?_⟩
    cases ht
    obtain ⟨hgenuine, hdepth⟩ := shrinks_typeRef hpart
    exact ⟨hgenuine, Nat.le_trans hdepth hm⟩
  · cases h
    exact hp

theorem FieldParts.Within.toField {p : FieldParts} {f : FieldDef} {n : Nat} (hp : p.Within n)
    (h : p.toField = .ok f) : f.type.isGenuine = true ∧ f.encode.depth ≤ n + 1 := by
  obtain ⟨name, type⟩ := p
  cases name with
  | none => cases h
  | some name =>
    cases type with
    | none => cases h
    | some type =>
      cases h
      obtain ⟨hgenuine, hdepth⟩ := hp.type type rfl
      rw [depth_encode_field]
      exact ⟨hgenuine, Nat.succ_le_succ (Nat.max_le.2 ⟨hp.name name rfl, hdepth⟩)⟩

theorem shrinks_field : Shrinks FieldDef.decode FieldDef.encode (·.type.isGenuine = true) := by
  intro v f h
  match v with
  | .obj members =>
    obtain ⟨p, hp, h⟩ := bind_eq_ok_iff.1 h
    have hempty : ({} : FieldParts).Within (Value.depthMembers members) := ⟨by simp, by simp⟩
    have hwithin := foldlM_invariant (FieldParts.Within · _)
      (fun m hm p q hp h => hp.add (Value.depth_le_depthMembers hm) h) hempty hp
    exact hwithin.toField h
  | .arr [] => cases h
  | .arr [_] =>
    obtain ⟨_, -, h⟩ := bind_eq_ok_iff.1 h
    cases h
  | .arr [a, b] =>
    obtain ⟨name, hname, h⟩ := bind_eq_ok_iff.1 h
    obtain ⟨type, htype, h⟩ := bind_eq_ok_iff.1 h
    cases h
    have hname := (shrinks_name hname).2
    obtain ⟨hgenuine, htype⟩ := shrinks_typeRef htype
    rw [depth_encodeName] at hname
    have hwithin : FieldParts.Within ⟨some name, some type⟩ (Value.depthItems [a, b]) := by
      refine ⟨fun _ _ => Nat.le_trans hname (Value.depth_le_depthItems (by simp)), ?_⟩
      rintro _ ⟨⟩
      exact ⟨hgenuine, Nat.le_trans htype (Value.depth_le_depthItems (by simp))⟩
    exact hwithin.toField rfl
  | .arr (_ :: _ :: _ :: _) =>
    obtain ⟨_, -, h⟩ := bind_eq_ok_iff.1 h
    obtain ⟨_, -, h⟩ := bind_eq_ok_iff.1 h
    cases h
  | .null => cases h
  | .bool _ => cases h
  | .num _ => cases h
  | .str _ => cases h

/-! ## Bodies -/

/-- The body is genuine and fits into a definition of depth `n + 1`. -/
structure TypeDef.Within (body : TypeDef) (n : Nat) : Prop where
  genuine : body.Genuine
  fields : (Value.arr (body.fields.map FieldDef.encode)).depth ≤ n
  interfaces : (Value.arr (body.interfaces.map TypeRef.encode)).depth ≤ n

theorem TypeDef.Within.depth_le {body : TypeDef} {n : Nat} (h : body.Within n) (kind : String) :
    (Value.obj (("kind", .str kind) :: body.members)).depth ≤ n + 1 := by
  have hname : (encodeName body.name).depth ≤ n := by
    rw [depth_encodeName]
    exact Nat.le_trans (Nat.le_add_left ..) h.fields
  have hmembers : ∀ m ∈ body.members, m.2.depth ≤ n := by
    unfold TypeDef.members
    split <;> simp only [List.cons_append, List.nil_append, List.forall_mem_cons]
    · exact ⟨hname, h.fields, nofun⟩
    · exact ⟨hname, h.fields, h.interfaces, nofun⟩
  exact Value.depth_obj_le_iff.2 (List.forall_mem_cons.2 ⟨Nat.zero_le _, hmembers⟩)

/-- The parts of a body that have been read fit into a definition of depth `n + 1`. -/
structure BodyParts.Within (p : BodyParts) (n : Nat) : Prop where
  name : ∀ a, p.name = some a → 1 ≤ n
  fields : ∀ fs, p.fields = some fs →
    (∀ f ∈ fs, f.type.isGenuine = true) ∧ (Value.arr (fs.map FieldDef.encode)).depth ≤ n
  interfaces : ∀ ts, p.interfaces = some ts →
    (∀ t ∈ ts, t.isGenuine = true) ∧ (Value.arr (ts.map TypeRef.encode)).depth ≤ n

theorem BodyParts.Within.add {p q : BodyParts} {m : String × Value} {n : Nat} (hp : p.Within n)
    (hm : m.2.depth ≤ n) (h : p.add m = .ok q) : q.Within n := by
  unfold BodyParts.add at h
  split at h
  · obtain ⟨-, part, hpart, rfl⟩ := store_eq_ok_iff.1 h
    have hdepth := (shrinks_name hpart).2
    rw [depth_encodeName] at hdepth
    exact ⟨fun a _ => Nat.le_trans hdepth hm, hp.fields, hp.interfaces⟩
  split at h
  · obtain ⟨-, part, hpart, rfl⟩ := store_eq_ok_iff.1 h
    refine ⟨hp.name, fun fs hfs => ?_, hp.interfaces⟩
    cases hfs
    obtain ⟨hgenuine, hdepth⟩ := shrinks_field.list hpart
    exact ⟨hgenuine, Nat.le_trans hdepth hm⟩
  split at h
  · obtain ⟨-, part, hpart, rfl⟩ := store_eq_ok_iff.1 h
    refine ⟨hp.name, hp.fields, fun ts hts => ?_⟩
    cases hts
    obtain ⟨hgenuine, hdepth⟩ := shrinks_typeRef.list hpart
    exact ⟨hgenuine, Nat.le_trans hdepth hm⟩
  · cases h
    exact hp

/-- A list that is left out is empty, which is not deeper than the name. -/
theorem BodyParts.Within.toBody {p : BodyParts} {body : TypeDef} {n : Nat} (hp : p.Within n)
    (h : p.toBody = .ok body) : body.Within n := by
  obtain ⟨name, fields, interfaces⟩ := p
  cases name with
  | none => cases h
  | some name =>
    cases h
    have hempty : (Value.arr []).depth ≤ n := hp.name name rfl
    have hfields : (∀ f ∈ fields.getD [], f.type.isGenuine = true) ∧
        (Value.arr ((fields.getD []).map FieldDef.encode)).depth ≤ n := by
      cases fields with
      | none => exact ⟨nofun, hempty⟩
      | some fs => exact hp.fields fs rfl
    have hinterfaces : (∀ t ∈ interfaces.getD [], t.isGenuine = true) ∧
        (Value.arr ((interfaces.getD []).map TypeRef.encode)).depth ≤ n := by
      cases interfaces with
      | none => exact ⟨nofun, hempty⟩
      | some ts => exact hp.interfaces ts rfl
    exact ⟨⟨hfields.1, hinterfaces.1⟩, hfields.2, hinterfaces.2⟩

theorem within_of_decodeMembers {members : List (String × Value)} {body : TypeDef} {n : Nat}
    (hn : ∀ m ∈ members, m.2.depth ≤ n) (h : TypeDef.decodeMembers members = .ok body) :
    body.Within n := by
  obtain ⟨p, hp, h⟩ := bind_eq_ok_iff.1 h
  have hempty : ({} : BodyParts).Within n := ⟨nofun, nofun, nofun⟩
  have hwithin := foldlM_invariant (BodyParts.Within · _)
    (fun m hm p q hp h => hp.add (hn m hm) h) hempty hp
  exact hwithin.toBody h

/-- The items after the kind are the parts of the body in order. -/
theorem toBody_of_decodeItems {items : List Value} {body : TypeDef}
    (h : TypeDef.decodeItems items = .ok body) : ∃ p : BodyParts, p.toBody = .ok body ∧
      (∀ name, p.name = some name → ∃ v ∈ items, decodeName v = .ok name) ∧
      (∀ fs, p.fields = some fs → ∃ v ∈ items, decodeList FieldDef.decode v = .ok fs) ∧
      ∀ ts, p.interfaces = some ts → ∃ v ∈ items, decodeList TypeRef.decode v = .ok ts := by
  match items with
  | [] => cases h
  | [n] =>
    obtain ⟨name, hname, h⟩ := bind_eq_ok_iff.1 h
    cases h
    exact ⟨⟨some name, none, none⟩, rfl, by simpa, nofun, nofun⟩
  | [n, f] =>
    obtain ⟨name, hname, h⟩ := bind_eq_ok_iff.1 h
    obtain ⟨fields, hfields, h⟩ := bind_eq_ok_iff.1 h
    cases h
    exact ⟨⟨some name, some fields, none⟩, rfl, by simp [hname], by simp [hfields], nofun⟩
  | [n, f, i] =>
    obtain ⟨name, hname, h⟩ := bind_eq_ok_iff.1 h
    obtain ⟨fields, hfields, h⟩ := bind_eq_ok_iff.1 h
    obtain ⟨interfaces, hinterfaces, h⟩ := bind_eq_ok_iff.1 h
    cases h
    exact ⟨⟨some name, some fields, some interfaces⟩, rfl, by simp [hname], by simp [hfields],
      by simp [hinterfaces]⟩
  | _ :: _ :: _ :: _ :: _ =>
    obtain ⟨_, -, h⟩ := bind_eq_ok_iff.1 h
    obtain ⟨_, -, h⟩ := bind_eq_ok_iff.1 h
    obtain ⟨_, -, h⟩ := bind_eq_ok_iff.1 h
    cases h

theorem within_of_decodeItems {items : List Value} {body : TypeDef} {n : Nat}
    (hn : ∀ v ∈ items, v.depth ≤ n) (h : TypeDef.decodeItems items = .ok body) :
    body.Within n := by
  obtain ⟨p, hp, hname, hfields, hinterfaces⟩ := toBody_of_decodeItems h
  have hwithin : p.Within n := by
    refine ⟨fun name h => ?_, fun fs h => ?_, fun ts h => ?_⟩
    · obtain ⟨v, hv, hdecode⟩ := hname name h
      have hdepth := (shrinks_name hdecode).2
      rw [depth_encodeName] at hdepth
      exact Nat.le_trans hdepth (hn v hv)
    · obtain ⟨v, hv, hdecode⟩ := hfields fs h
      obtain ⟨hgenuine, hdepth⟩ := shrinks_field.list hdecode
      exact ⟨hgenuine, Nat.le_trans hdepth (hn v hv)⟩
    · obtain ⟨v, hv, hdecode⟩ := hinterfaces ts h
      obtain ⟨hgenuine, hdepth⟩ := shrinks_typeRef.list hdecode
      exact ⟨hgenuine, Nat.le_trans hdepth (hn v hv)⟩
  exact hwithin.toBody hp

/-! ## Definitions -/

/-- A definition comes out of a body that could be read, unless it is of another kind. -/
theorem Definition.ofKind_eq_ok {kind : String} {body : Except DocumentFault TypeDef}
    {other : Except DocumentFault Definition} {d : Definition}
    (h : Definition.ofKind kind body other = .ok d) :
    (∃ b, body = .ok b ∧ (d = .object b ∨ d = .interface b)) ∨ other = .ok d := by
  unfold Definition.ofKind at h
  split at h
  · cases body with
    | error e => cases h
    | ok b => cases h; exact .inl ⟨b, rfl, .inl rfl⟩
  split at h
  · cases body with
    | error e => cases h
    | ok b => cases h; exact .inl ⟨b, rfl, .inr rfl⟩
  · exact .inr h

theorem Definition.good_of_within {d : Definition} {b : TypeDef} {n : Nat} (hb : b.Within n)
    (h : d = .object b ∨ d = .interface b) : d.isGenuine = true ∧ d.encode.depth ≤ n + 1 := by
  rw [Definition.isGenuine_iff]
  rcases h with rfl | rfl
  · exact ⟨fun body h => by cases h; exact hb.genuine, hb.depth_le _⟩
  · exact ⟨fun body h => by cases h; exact hb.genuine, hb.depth_le _⟩

theorem shrinks_definition : Shrinks Definition.decode Definition.encode (·.isGenuine = true) := by
  intro v d h
  have hother : Definition.other.encode.depth = 1 := rfl
  match v with
  | .obj members =>
    obtain ⟨kind, -, h⟩ := bind_eq_ok_iff.1 h
    rcases Definition.ofKind_eq_ok h with ⟨b, hb, hd⟩ | h
    · refine Definition.good_of_within (within_of_decodeMembers (fun m hm => ?_) hb) hd
      exact Value.depth_le_depthMembers (List.mem_filter.1 hm).1
    · cases h
      exact ⟨rfl, by simp [hother, Value.depth]⟩
  | .arr [] => cases h
  | .arr (k :: items) =>
    obtain ⟨kind, -, h⟩ := bind_eq_ok_iff.1 h
    rcases Definition.ofKind_eq_ok h with ⟨b, hb, hd⟩ | h
    · refine Definition.good_of_within (within_of_decodeItems (fun v hv => ?_) hb) hd
      exact Value.depth_le_depthItems (List.mem_cons_of_mem k hv)
    · split at h
      · cases h
        exact ⟨rfl, by simp [hother, Value.depth]⟩
      · cases h
  | .null => cases h
  | .bool _ => cases h
  | .num _ => cases h
  | .str _ => cases h

/-! ## Documents -/

namespace Document

theorem depth_encode_le_iff {doc : Document} {n : Nat} :
    doc.encode.depth ≤ n + 2 ↔ ∀ d ∈ doc.definitions, d.encode.depth ≤ n := by
  rw [encode, Value.depth_obj_le_iff, List.forall_mem_singleton, Value.depth_arr_le_iff,
    List.forall_mem_map]

/-- The list of definitions is written even if there is none. -/
theorem good_of_decodeList {v : Value} {ds : List Definition} {n : Nat} (hn : v.depth ≤ n)
    (h : decodeList Definition.decode v = .ok ds) :
    (mk ds).isGenuine = true ∧ (mk ds).encode.depth ≤ n + 1 := by
  obtain ⟨hgenuine, hdepth⟩ := shrinks_definition.list h
  refine ⟨isGenuine_iff.2 hgenuine, ?_⟩
  exact Value.depth_obj_le_iff.2 (List.forall_mem_singleton.2 (Nat.le_trans hdepth hn))

/-- A document that is decoded can be written and read back, and its tree is not deeper than the one
that it was decoded from, apart from the list of definitions. -/
theorem good_of_decode {v : Value} {doc : Document} (h : decode v = .ok doc) :
    doc.isGenuine = true ∧ doc.encode.depth ≤ max v.depth 2 := by
  match v with
  | .obj members =>
    obtain ⟨found, hfound, h⟩ := bind_eq_ok_iff.1 h
    have hgood := foldlM_invariant
      (fun found => ∀ ds, found = some ds → (mk ds).isGenuine = true ∧
        (mk ds).encode.depth ≤ (Value.obj members).depth)
      (fun m hm before after hbefore hadd => ?_) (by simp) hfound
    · cases h
      cases found with
      | none => exact ⟨rfl, Nat.le_max_right ..⟩
      | some ds =>
        obtain ⟨hgenuine, hdepth⟩ := hgood ds rfl
        exact ⟨hgenuine, Nat.le_trans hdepth (Nat.le_max_left ..)⟩
    · unfold addDefinitions at hadd
      split at hadd
      · obtain ⟨-, part, hpart, rfl⟩ := once_eq_ok_iff.1 hadd
        intro ds hds
        cases hds
        exact good_of_decodeList (Value.depth_le_depthMembers hm) hpart
      · cases hadd
        exact hbefore
  | .arr [] =>
    cases h
    exact ⟨rfl, Nat.le_max_right ..⟩
  | .arr [x] =>
    obtain ⟨ds, hds, h⟩ := bind_eq_ok_iff.1 h
    cases h
    obtain ⟨hgenuine, hdepth⟩ := good_of_decodeList
      (Value.depth_le_depthItems (List.mem_singleton_self x)) hds
    exact ⟨hgenuine, Nat.le_trans hdepth (Nat.le_max_left ..)⟩
  | .arr (_ :: _ :: _) =>
    obtain ⟨_, -, h⟩ := bind_eq_ok_iff.1 h
    cases h
  | .null => cases h
  | .bool _ => cases h
  | .num _ => cases h
  | .str _ => cases h

end Document

end TypedModels
