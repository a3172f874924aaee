import Mathlib.Logic.Relation
import TypedModels.Proofs.Decoding

/-!
# Members that are not needed

A syntax tree carries more than a document is made of: locations, descriptions, directives, arguments.
Members with such keys may be inserted and deleted anywhere in the tree, with any values, and neither
the document nor the fault changes. Which keys an object needs depends on what it is read as, and for
a definition also on its kind.

## Main definitions

* `Role` : what a tree is read as.
* `Role.Needs` : the keys that an object needs in a role.
* `Role.member?`, `Role.item?` : the roles of the parts of a tree.
* `Inserts` : one member that is not needed is inserted somewhere in a tree.
* `Role.decode` : what a tree is read to in a role.
-/

namespace TypedModels

open DocumentFault

/-! ## Roles -/

/-- What a tree is read as. The type of a field and an interface are types, and the type in a
wrapper is an inner one. -/
inductive Role where
  | document
  | definition
  | field
  | type
  | inner
  | name
  | listOf (item : Role)

/-- Whether the members are those of an object or interface definition. -/
def Definition.HasBody (members : List (String × Value)) : Prop :=
  decodeKind members = .ok "ObjectTypeDefinition" ∨
    decodeKind members = .ok "InterfaceTypeDefinition"

namespace Role

/-- The keys that an object with the given members needs in a role. -/
def Needs (members : List (String × Value)) (key : String) : Role → Prop
  | document => key = "definitions"
  | definition =>
    key = "kind" ∨ Definition.HasBody members ∧ key ∈ ["name", "fields", "interfaces"]
  | field => key ∈ ["name", "type"]
  | type | inner => key ∈ ["kind", "name", "type"]
  | name => key ∈ ["kind", "value"]
  | listOf _ => False

/-- The role of the value under a key, if it is a tree that is read in turn. -/
def member? : Role → String → Option Role
  | document, "definitions" => some (listOf definition)
  | definition, "name" => some name
  | definition, "fields" => some (listOf field)
  | definition, "interfaces" => some (listOf type)
  | field, "name" => some name
  | field, "type" => some type
  | type, "name" | inner, "name" => some name
  | type, "type" | inner, "type" => some inner
  | _, _ => none

/-- The role of the item at an index, in a list or in a node that is written as an array. -/
def item? : Role → Nat → Option Role
  | listOf item, _ => some item
  | document, 0 => some (listOf definition)
  | definition, 1 => some name
  | definition, 2 => some (listOf field)
  | definition, 3 => some (listOf type)
  | field, 0 => some name
  | field, 1 => some type
  | type, 1 | inner, 1 => some name
  | type, 2 | inner, 2 => some inner
  | _, _ => none

end Role

/-- One member that is not needed is inserted, in the tree itself or in one of its parts. -/
inductive Inserts : Role → Value → Value → Prop
  | here {role : Role} (before after : List (String × Value)) {key : String} (v : Value) :
      ¬ role.Needs (before ++ after) key →
      Inserts role (.obj (before ++ after)) (.obj (before ++ (key, v) :: after))
  | member {role part : Role} (before after : List (String × Value)) {key : String} {v w : Value} :
      role.member? key = some part → Inserts part v w →
      Inserts role (.obj (before ++ (key, v) :: after)) (.obj (before ++ (key, w) :: after))
  | item {role part : Role} (before after : List Value) {v w : Value} :
      role.item? before.length = some part → Inserts part v w →
      Inserts role (.arr (before ++ v :: after)) (.arr (before ++ w :: after))

/-! ## Reading in a role -/

namespace Role

-- A type is read to its chain and an inner one to its node. A list of types stops at the first node
-- that has no chain, so what the nodes are read to does not settle what the list is read to.

/-- What a tree in a role is read to. An inner type and the name of a type may be null. -/
def Result : Role → Type
  | document => Document
  | definition => Definition
  | field => FieldDef
  | type => TypeRef
  | inner => Option RawTypeRef
  | name => Option String
  | listOf item => List item.Result

def decode : (role : Role) → Value → Except DocumentFault role.Result
  | document => Document.decode
  | definition => Definition.decode
  | field => FieldDef.decode
  | type => TypeRef.decode
  | inner => RawTypeRef.decode?
  | name => decodeName?
  | listOf item => decodeList item.decode

end Role

theorem decodeName_congr {v w : Value} (h : decodeName? v = decodeName? w) :
    decodeName v = decodeName w := by
  have required (v : Value) :
      decodeName v = decodeName? v >>= fun name => name.elim (throw wrongShape) .ok := by
    cases v with
    | null => rfl
    | _ => rw [decodeName?.eq_2 _ (by simp)]; cases decodeName _ <;> rfl
  rw [required, required, h]

theorem TypeRef.decode_congr {v w : Value} (h : RawTypeRef.decode? v = RawTypeRef.decode? w) :
    TypeRef.decode v = TypeRef.decode w := by
  rw [TypeRef.decode, TypeRef.decode, RawTypeRef.decode, RawTypeRef.decode, h]

/-! ## Members -/

section

variable {ε α β : Type} {a a' : α} {before after : List α}

-- Members are read by a fold: one that is inserted is a step that does nothing, and one whose value
-- is read to the same part is a step that does the same.

/-- An item that a fold passes over. -/
theorem foldlM_insert {f : β → α → Except ε β} (h : ∀ b, f b a = .ok b) (b : β) :
    (before ++ a :: after).foldlM f b = (before ++ after).foldlM f b := by
  simp only [List.foldlM_append, List.foldlM_cons, h]
  rfl

/-- An item that a fold cannot tell from another one. -/
theorem foldlM_replace {f : β → α → Except ε β} (h : ∀ b, f b a = f b a') (b : β) :
    (before ++ a :: after).foldlM f b = (before ++ a' :: after).foldlM f b := by
  simp only [List.foldlM_append, List.foldlM_cons, h]

theorem mapM_replace {f : α → Except ε β} (h : f a = f a') :
    (before ++ a :: after).mapM f = (before ++ a' :: after).mapM f := by
  simp only [List.mapM_append, List.mapM_cons, h]

end

section

variable {before after : List (String × Value)} {key : String} {v w : Value}

theorem NameParts.add_other (p : NameParts) (hkey : key ∉ ["kind", "value"]) :
    p.add (key, v) = .ok p := by
  obtain ⟨hkind, hvalue⟩ : key ≠ "kind" ∧ key ≠ "value" := by simpa using hkey
  rw [add, if_neg hkind, if_neg hvalue]
  rfl

theorem TypeParts.add_other (p : TypeParts) (hkey : key ∉ ["kind", "name", "type"]) :
    p.add (key, v) = .ok p := by
  obtain ⟨hkind, hname, htype⟩ : key ≠ "kind" ∧ key ≠ "name" ∧ key ≠ "type" := by simpa using hkey
  rw [add, if_neg hkind, if_neg hname, if_neg htype]
  rfl

theorem FieldParts.add_other (p : FieldParts) (hkey : key ∉ ["name", "type"]) :
    p.add (key, v) = .ok p := by
  obtain ⟨hname, htype⟩ : key ≠ "name" ∧ key ≠ "type" := by simpa using hkey
  rw [add, if_neg hname, if_neg htype]
  rfl

theorem BodyParts.add_other (p : BodyParts) (hkey : key ∉ ["name", "fields", "interfaces"]) :
    p.add (key, v) = .ok p := by
  obtain ⟨hname, hfields, hinterfaces⟩ :
      key ≠ "name" ∧ key ≠ "fields" ∧ key ≠ "interfaces" := by simpa using hkey
  rw [add, if_neg hname, if_neg hfields, if_neg hinterfaces]
  rfl

namespace Document

theorem decode_insert (h : ∀ p, addDefinitions p (key, v) = .ok p) :
    decode (.obj (before ++ (key, v) :: after)) = decode (.obj (before ++ after)) := by
  rw [decode, decode, foldlM_insert h]

theorem decode_replace (h : ∀ p, addDefinitions p (key, v) = addDefinitions p (key, w)) :
    decode (.obj (before ++ (key, v) :: after)) = decode (.obj (before ++ (key, w) :: after)) := by
  rw [decode, decode, foldlM_replace h]

end Document

namespace Definition

theorem ofKind_congr {kind : String} {body body' : Except DocumentFault TypeDef}
    {other : Except DocumentFault Definition}
    (h : kind = "ObjectTypeDefinition" ∨ kind = "InterfaceTypeDefinition" → body = body') :
    ofKind kind body other = ofKind kind body' other := by
  unfold ofKind
  split
  · next hkind => rw [h (.inl hkind)]
  split
  · next hkind => rw [h (.inr hkind)]
  · rfl

theorem decodeKind_insert (hkey : key ≠ "kind") :
    decodeKind (before ++ (key, v) :: after) = decodeKind (before ++ after) := by
  have skip : ∀ kind, addKind kind (key, v) = .ok kind := fun _ => if_neg hkey
  rw [decodeKind, foldlM_insert skip, decodeKind]

/-- The members of a body, when one of them is not the kind. -/
theorem filter_insert (hkey : key ≠ "kind") :
    (before ++ (key, v) :: after).filter (·.1 ≠ "kind") =
      before.filter (·.1 ≠ "kind") ++ (key, v) :: after.filter (·.1 ≠ "kind") := by
  simp [List.filter_append, hkey]

/-- Only a definition that has a body looks at a member that is not the kind. -/
theorem decode_insert (hkey : key ≠ "kind")
    (h : HasBody (before ++ after) → ∀ p, BodyParts.add p (key, v) = .ok p) :
    decode (.obj (before ++ (key, v) :: after)) = decode (.obj (before ++ after)) := by
  rw [decode, decode, decodeKind_insert hkey]
  cases hkind : decodeKind (before ++ after) with
  | error e => rfl
  | ok kind =>
    apply ofKind_congr
    intro hbody
    have skip := h (by rwa [HasBody, hkind, Except.ok.injEq, Except.ok.injEq])
    rw [TypeDef.decodeMembers, TypeDef.decodeMembers, filter_insert hkey, foldlM_insert skip,
      List.filter_append]

theorem decode_replace (hkey : key ≠ "kind")
    (h : ∀ p, BodyParts.add p (key, v) = BodyParts.add p (key, w)) :
    decode (.obj (before ++ (key, v) :: after)) = decode (.obj (before ++ (key, w) :: after)) := by
  rw [decode, decode, decodeKind_insert hkey, decodeKind_insert hkey, filter_insert hkey,
    filter_insert hkey, TypeDef.decodeMembers, TypeDef.decodeMembers, foldlM_replace h]

end Definition

namespace FieldDef

theorem decode_insert (h : ∀ p, FieldParts.add p (key, v) = .ok p) :
    decode (.obj (before ++ (key, v) :: after)) = decode (.obj (before ++ after)) := by
  rw [decode, decode, foldlM_insert h]

theorem decode_replace (h : ∀ p, FieldParts.add p (key, v) = FieldParts.add p (key, w)) :
    decode (.obj (before ++ (key, v) :: after)) = decode (.obj (before ++ (key, w) :: after)) := by
  rw [decode, decode, foldlM_replace h]

end FieldDef

namespace RawTypeRef

theorem decode?_replace (h : ∀ p, TypeParts.add p (key, v) = TypeParts.add p (key, w)) :
    decode? (.obj (before ++ (key, v) :: after)) =
      decode? (.obj (before ++ (key, w) :: after)) := by
  rw [decode?, decode?, decodeMembers_eq_foldlM, decodeMembers_eq_foldlM, foldlM_replace h]

theorem decode?_insert_other (hkey : key ∉ ["kind", "name", "type"]) :
    decode? (.obj (before ++ (key, v) :: after)) = decode? (.obj (before ++ after)) := by
  rw [decode?, decode?, decodeMembers_eq_foldlM, decodeMembers_eq_foldlM,
    foldlM_insert fun p => TypeParts.add_other p hkey]

theorem decode?_replace_name (h : decodeName? v = decodeName? w) :
    decode? (.obj (before ++ ("name", v) :: after)) =
      decode? (.obj (before ++ ("name", w) :: after)) := by
  apply decode?_replace
  intro p
  simp [TypeParts.add, h]

theorem decode?_replace_type (h : decode? v = decode? w) :
    decode? (.obj (before ++ ("type", v) :: after)) =
      decode? (.obj (before ++ ("type", w) :: after)) := by
  apply decode?_replace
  intro p
  simp [TypeParts.add, h]

end RawTypeRef

end

/-! ## Items -/

section

variable {kind name fields v w : Value} {after : List Value}

theorem RawTypeRef.decode?_item_name (h : decodeName? v = decodeName? w) :
    decode? (.arr (kind :: v :: after)) = decode? (.arr (kind :: w :: after)) := by
  rcases after with _ | ⟨_, _ | ⟨_, _⟩⟩ <;> simp only [decode?, h]

theorem RawTypeRef.decode?_item_inner (h : decode? v = decode? w) :
    decode? (.arr (kind :: name :: v :: after)) = decode? (.arr (kind :: name :: w :: after)) := by
  cases after <;> simp only [decode?, h]

namespace TypeDef

theorem decodeItems_name (h : decodeName? v = decodeName? w) :
    decodeItems (v :: after) = decodeItems (w :: after) := by
  rcases after with _ | ⟨_, _ | ⟨_, _ | ⟨_, _⟩⟩⟩ <;> simp only [decodeItems, decodeName_congr h]

theorem decodeItems_fields (h : decodeList FieldDef.decode v = decodeList FieldDef.decode w) :
    decodeItems (name :: v :: after) = decodeItems (name :: w :: after) := by
  rcases after with _ | ⟨_, _ | ⟨_, _⟩⟩ <;> simp only [decodeItems, h]

theorem decodeItems_interfaces (h : decodeList TypeRef.decode v = decodeList TypeRef.decode w) :
    decodeItems (name :: fields :: v :: after) = decodeItems (name :: fields :: w :: after) := by
  cases after <;> simp only [decodeItems, h]

end TypeDef

theorem Definition.decode_items_congr {before : List Value}
    (h : TypeDef.decodeItems (before ++ v :: after) = TypeDef.decodeItems (before ++ w :: after)) :
    decode (.arr (kind :: (before ++ v :: after))) =
      decode (.arr (kind :: (before ++ w :: after))) := by
  simp [decode, h]

end

/-! ## Reading a tree with an inserted member -/

namespace Role

variable {role part : Role} {key : String} {v w : Value}

/-- A member that is not needed is passed over. -/
theorem decode_here {before after : List (String × Value)}
    (h : ¬ role.Needs (before ++ after) key) :
    role.decode (.obj (before ++ after)) = role.decode (.obj (before ++ (key, v) :: after)) := by
  symm
  cases role with
  | document => exact Document.decode_insert fun _ => if_neg h
  | definition =>
    obtain ⟨hkind, hneeds⟩ := not_or.1 h
    apply Definition.decode_insert hkind
    intro hbody p
    exact p.add_other fun hkey => hneeds ⟨hbody, hkey⟩
  | field =>
    apply FieldDef.decode_insert
    intro p
    exact p.add_other h
  | type => exact TypeRef.decode_congr (RawTypeRef.decode?_insert_other h)
  | inner => exact RawTypeRef.decode?_insert_other h
  | name =>
    change (decodeName _).map some = (decodeName _).map some
    rw [decodeName, decodeName, foldlM_insert fun p => NameParts.add_other p h]
  | listOf item => rfl

/-- A value is stored in the same way as one that is read to the same part. -/
theorem decode_member {before after : List (String × Value)} (hrole : role.member? key = some part)
    (h : part.decode v = part.decode w) :
    role.decode (.obj (before ++ (key, v) :: after)) =
      role.decode (.obj (before ++ (key, w) :: after)) := by
  unfold member? at hrole
  split at hrole <;> cases hrole
  · have h : decodeList Definition.decode v = decodeList Definition.decode w := h
    apply Document.decode_replace
    intro p
    simp [Document.addDefinitions, h]
  · apply Definition.decode_replace (by decide)
    intro p
    simp [BodyParts.add, decodeName_congr h]
  · have h : decodeList FieldDef.decode v = decodeList FieldDef.decode w := h
    apply Definition.decode_replace (by decide)
    intro p
    simp [BodyParts.add, h]
  · have h : decodeList TypeRef.decode v = decodeList TypeRef.decode w := h
    apply Definition.decode_replace (by decide)
    intro p
    simp [BodyParts.add, h]
  · apply FieldDef.decode_replace
    intro p
    simp [FieldParts.add, decodeName_congr h]
  · have h : TypeRef.decode v = TypeRef.decode w := h
    apply FieldDef.decode_replace
    intro p
    simp [FieldParts.add, h]
  · exact TypeRef.decode_congr (RawTypeRef.decode?_replace_name h)
  · exact RawTypeRef.decode?_replace_name h
  · exact TypeRef.decode_congr (RawTypeRef.decode?_replace_type h)
  · exact RawTypeRef.decode?_replace_type h

/-- An item is read in the same way as one that is read to the same part. -/
theorem decode_item {before after : List Value} (hrole : role.item? before.length = some part)
    (h : part.decode v = part.decode w) :
    role.decode (.arr (before ++ v :: after)) = role.decode (.arr (before ++ w :: after)) := by
  unfold item? at hrole
  split at hrole <;> cases hrole
  · exact mapM_replace h
  · next hlength =>
    obtain rfl := List.length_eq_zero_iff.1 hlength
    have h : decodeList Definition.decode v = decodeList Definition.decode w := h
    change Document.decode (.arr (v :: after)) = Document.decode (.arr (w :: after))
    cases after <;> simp only [Document.decode, h]
  · next hlength =>
    obtain ⟨kind, rfl⟩ := List.length_eq_one_iff.1 hlength
    exact Definition.decode_items_congr (TypeDef.decodeItems_name h)
  · next hlength =>
    obtain ⟨kind, name, rfl⟩ := List.length_eq_two.1 hlength
    exact Definition.decode_items_congr (TypeDef.decodeItems_fields h)
  · next hlength =>
    obtain ⟨kind, name, fields, rfl⟩ := List.length_eq_three.1 hlength
    exact Definition.decode_items_congr (TypeDef.decodeItems_interfaces h)
  · next hlength =>
    obtain rfl := List.length_eq_zero_iff.1 hlength
    change FieldDef.decode (.arr (v :: after)) = FieldDef.decode (.arr (w :: after))
    rcases after with _ | ⟨_, _ | ⟨_, _⟩⟩ <;> simp only [FieldDef.decode, decodeName_congr h]
  · next hlength =>
    obtain ⟨name, rfl⟩ := List.length_eq_one_iff.1 hlength
    have h : TypeRef.decode v = TypeRef.decode w := h
    change FieldDef.decode (.arr (name :: v :: after)) = FieldDef.decode (.arr (name :: w :: after))
    cases after <;> simp only [FieldDef.decode, h]
  · next hlength =>
    obtain ⟨kind, rfl⟩ := List.length_eq_one_iff.1 hlength
    exact TypeRef.decode_congr (RawTypeRef.decode?_item_name h)
  · next hlength =>
    obtain ⟨kind, rfl⟩ := List.length_eq_one_iff.1 hlength
    exact RawTypeRef.decode?_item_name h
  · next hlength =>
    obtain ⟨kind, name, rfl⟩ := List.length_eq_two.1 hlength
    exact TypeRef.decode_congr (RawTypeRef.decode?_item_inner h)
  · next hlength =>
    obtain ⟨kind, name, rfl⟩ := List.length_eq_two.1 hlength
    exact RawTypeRef.decode?_item_inner h

end Role

/-! ## Reading a document -/

/-- One member that is not needed makes no difference to what a tree is read to. -/
theorem Inserts.decode_eq {role : Role} {v w : Value} (h : Inserts role v w) :
    role.decode v = role.decode w := by
  induction h with
  | here before after v hkey => exact Role.decode_here hkey
  | member before after hrole h ih => exact Role.decode_member hrole ih
  | item before after hrole h ih => exact Role.decode_item hrole ih

/-- Trees that differ in any number of members that are not needed, at any places, are read to the
same document or have the same fault. -/
theorem Document.decode_eq_of_unneeded {v w : Value}
    (h : Relation.EqvGen (Inserts .document) v w) : Document.decode v = Document.decode w := by
  induction h with
  | rel v w h => exact h.decode_eq
  | refl v => rfl
  | symm v w _ ih => exact ih.symm
  | trans u v w _ _ ih ih' => exact ih.trans ih'

/-- A document with further members in its only definition and in the type of its only field. -/
def luckyNumbers (definition type : List (String × Value)) : Value :=
  .obj [("definitions", .arr [.obj ([("kind", .str "ObjectTypeDefinition"),
    ("name", encodeName "Dummy"),
    ("fields", .arr [.obj [("name", encodeName "luckyNumber"),
      ("type", .obj ([("kind", .str "NamedType"), ("name", encodeName "Int")] ++ type))]])] ++
    definition)])]

/-- Directives are deleted from a definition, and locations are inserted in it and in a type. -/
theorem decode_luckyNumbers_unneeded :
    Relation.EqvGen (Inserts .document) (luckyNumbers [("directives", .arr [])] [])
      (luckyNumbers [("loc", .null)] [("loc", .str "1:42")]) ∧
    Document.decode (luckyNumbers [("directives", .arr [])] []) =
      Document.decode (luckyNumbers [("loc", .null)] [("loc", .str "1:42")]) ∧
    Document.decode (luckyNumbers [("loc", .null)] [("loc", .str "1:42")]) =
      .ok ⟨[.object ⟨"Dummy", [⟨"luckyNumber", .named "Int"⟩], []⟩]⟩ := by
  have inDefinition (key : String) (v : Value)
      (hkey : key ∉ ["kind", "name", "fields", "interfaces"]) (type : List (String × Value)) :
      Inserts .document (luckyNumbers [] type) (luckyNumbers [(key, v)] type) := by
    apply Inserts.member [] [] rfl
    apply Inserts.item [] [] rfl
    apply Inserts.here _ []
    rintro (rfl | ⟨-, hmem⟩) <;> simp_all
  have inType (v : Value) :
      Inserts .document (luckyNumbers [] []) (luckyNumbers [] [("loc", v)]) := by
    apply Inserts.member [] [] rfl
    apply Inserts.item [] [] rfl
    apply Inserts.member [_, _] [] rfl
    apply Inserts.item [] [] rfl
    apply Inserts.member [_] [] rfl
    exact Inserts.here _ [] v (by simp [Role.Needs])
  have unneeded : Relation.EqvGen (Inserts .document) (luckyNumbers [("directives", .arr [])] [])
      (luckyNumbers [("loc", .null)] [("loc", .str "1:42")]) := by
    apply Relation.EqvGen.trans _ _ _ (.symm _ _ (.rel _ _ (inDefinition _ _ (by decide) _)))
    apply Relation.EqvGen.trans _ _ _ (.rel _ _ (inType _))
    exact .rel _ _ (inDefinition _ _ (by decide) _)
  exact ⟨unneeded, Document.decode_eq_of_unneeded unneeded, rfl⟩

end TypedModels
