import TypedModels.Document.TypeRef
import TypedModels.Proofs.Results

/-!
# Chains and their nodes

The chain of a node is read along one path. It starts at the node, leads inwards through the
wrappers, and stops at the first node of another kind, or at a wrapper around nothing. There is a
chain exactly if no node of the path lacks what its kind needs, and nothing beside the path matters.

## Main definitions

* `TypeRef.links`, `TypeRef.kinds`, `TypeRef.terminal` : a chain link by link, and where it ends.
* `RawTypeRef.path` : the nodes that the chain of a node is read from.
* `RawTypeRef.Defective` : nodes that lack what their kind needs.
* `RawTypeRef.SamePath` : nodes that differ beside the path at most.
-/

namespace TypedModels

/-! ## Chains -/

namespace TypeRef

/-- The chain and all that is wrapped in it, outermost first. -/
def links : TypeRef → List TypeRef
  | .named name => [.named name]
  | .list inner => .list inner :: inner.links
  | .nonNull inner => .nonNull inner :: inner.links
  | .unrecognized kind => [.unrecognized kind]

/-- The kinds of the links, outermost first. -/
def kinds (t : TypeRef) : List String := t.links.map kind

/-- The link that is not a wrapper. -/
def terminal : TypeRef → TypeRef
  | .named name => .named name
  | .list inner => inner.terminal
  | .nonNull inner => inner.terminal
  | .unrecognized kind => .unrecognized kind

/-- The chain in a wrapper of one of the two kinds. -/
def wrap (kind : String) (t : TypeRef) : TypeRef :=
  if kind = "ListType" then .list t else .nonNull t

@[simp, grind =] theorem kinds_named (name : String) : (named name).kinds = ["NamedType"] := rfl

@[simp, grind =] theorem kinds_list (t : TypeRef) : t.list.kinds = "ListType" :: t.kinds := rfl

@[simp, grind =] theorem kinds_nonNull (t : TypeRef) :
    t.nonNull.kinds = "NonNullType" :: t.kinds := rfl

@[simp, grind =] theorem kinds_unrecognized (kind : String) :
    (unrecognized kind).kinds = [kind] := rfl

@[simp, grind .] theorem kinds_ne_nil (t : TypeRef) : t.kinds ≠ [] := by
  cases t <;> simp

@[simp] theorem kinds_wrap {kind : String} (t : TypeRef)
    (h : kind = "ListType" ∨ kind = "NonNullType") : (wrap kind t).kinds = kind :: t.kinds := by
  obtain rfl | rfl := h <;> rfl

@[simp] theorem terminal_wrap (kind : String) (t : TypeRef) :
    (wrap kind t).terminal = t.terminal := by
  unfold wrap
  split <;> rfl

/-- A chain is determined by its kinds and by the link at its end. -/
theorem eq_of_kinds_eq {t u : TypeRef} (hkinds : t.kinds = u.kinds)
    (hterminal : t.terminal = u.terminal) : t = u := by
  induction t generalizing u with
  | named name => cases u <;> grind [terminal]
  | list t ih => cases u <;> grind [terminal]
  | nonNull t ih => cases u <;> grind [terminal]
  | unrecognized kind => cases u <;> grind [terminal]

end TypeRef

/-! ## Nodes -/

namespace RawTypeRef

def kind : RawTypeRef → String
  | .node kind _ _ => kind

def name? : RawTypeRef → Option String
  | .node _ name _ => name

def inner? : RawTypeRef → Option RawTypeRef
  | .node _ _ inner => inner

/-- Whether nodes of a kind wrap other nodes. -/
@[grind] def Wraps (kind : String) : Prop := kind = "ListType" ∨ kind = "NonNullType"

instance : DecidablePred Wraps := fun kind =>
  inferInstanceAs (Decidable (kind = "ListType" ∨ kind = "NonNullType"))

/-- The nodes from the outermost one inwards through the wrappers, up to the first node of another
kind or to a wrapper around nothing. -/
def path : RawTypeRef → List RawTypeRef
  | .node kind name none => [.node kind name none]
  | .node kind name (some inner) =>
    .node kind name (some inner) :: if Wraps kind then inner.path else []

/-- A wrapper around nothing, or a named type without a name. -/
@[grind] def Defective (r : RawTypeRef) : Prop :=
  Wraps r.kind ∧ r.inner? = none ∨ r.kind = "NamedType" ∧ r.name? = none

instance : DecidablePred Defective := fun r => inferInstanceAs
  (Decidable (Wraps r.kind ∧ r.inner? = none ∨ r.kind = "NamedType" ∧ r.name? = none))

/-- The link that a node stands for at the end of a chain. -/
inductive Ends : RawTypeRef → TypeRef → Prop
  | named {name : String} {inner : Option RawTypeRef} :
      Ends (.node "NamedType" (some name) inner) (.named name)
  | unrecognized {kind : String} {name : Option String} {inner : Option RawTypeRef} :
      kind ≠ "NamedType" → ¬ Wraps kind → Ends (.node kind name inner) (.unrecognized kind)

/-- The fault of a defective node, with the words for what the node lacks. -/
inductive Faults : RawTypeRef → DocumentFault → String → Prop
  | unnamed {inner : Option RawTypeRef} :
      Faults (.node "NamedType" none inner) .unnamedType "name"
  | empty {kind : String} {name : Option String} : Wraps kind →
      Faults (.node kind name none) (.noInnerType kind) "inner type"

/-- The paths of the two nodes are the same but for names that do not matter. -/
inductive SamePath : RawTypeRef → RawTypeRef → Prop
  | wrapper {kind : String} {name name' : Option String} {inner inner' : RawTypeRef} :
      Wraps kind → SamePath inner inner' →
      SamePath (.node kind name (some inner)) (.node kind name' (some inner'))
  | empty {kind : String} {name name' : Option String} : Wraps kind →
      SamePath (.node kind name none) (.node kind name' none)
  | named {name : Option String} {inner inner' : Option RawTypeRef} :
      SamePath (.node "NamedType" name inner) (.node "NamedType" name inner')
  | unrecognized {kind : String} {name name' : Option String}
      {inner inner' : Option RawTypeRef} : kind ≠ "NamedType" → ¬ Wraps kind →
      SamePath (.node kind name inner) (.node kind name' inner')

/-! ## The conversion node by node -/

variable {kind what : String} {name : Option String} {inner : Option RawTypeRef}
  {r r' raw : RawTypeRef} {t : TypeRef} {fault : DocumentFault}

theorem not_wraps_named : ¬ Wraps "NamedType" := by decide

theorem toTypeRef_wrapper (h : Wraps kind) :
    (node kind name (some raw)).toTypeRef = raw.toTypeRef.map (TypeRef.wrap kind) := by
  obtain rfl | rfl := h
  · simp [toTypeRef]; rfl
  · simp [toTypeRef]; rfl

theorem toTypeRef_empty (h : Wraps kind) :
    (node kind name none).toTypeRef = .error (.noInnerType kind) := by
  obtain rfl | rfl := h <;> simp [toTypeRef]

theorem toTypeRef_named (name : String) :
    (node "NamedType" (some name) inner).toTypeRef = .ok (.named name) := by
  cases inner <;> simp [toTypeRef]

theorem toTypeRef_unnamed : (node "NamedType" none inner).toTypeRef = .error .unnamedType := by
  cases inner <;> simp [toTypeRef]

theorem toTypeRef_unrecognized (hnamed : kind ≠ "NamedType") (h : ¬ Wraps kind) :
    (node kind name inner).toTypeRef = .ok (.unrecognized kind) := by
  obtain ⟨hlist, hnonNull⟩ := not_or.1 h
  cases inner <;> simp [toTypeRef, hnamed, hlist, hnonNull]

/-- Every node is a wrapper around another node or around nothing, a named type with or without a
name, or of an unknown kind. -/
@[elab_as_elim] theorem shapeInduction {motive : RawTypeRef → Prop}
    (wrapper : ∀ kind name raw, Wraps kind → motive raw → motive (node kind name (some raw)))
    (empty : ∀ kind name, Wraps kind → motive (node kind name none))
    (named : ∀ name inner, motive (node "NamedType" (some name) inner))
    (unnamed : ∀ inner, motive (node "NamedType" none inner))
    (unrecognized : ∀ kind name inner, kind ≠ "NamedType" → ¬ Wraps kind →
      motive (node kind name inner)) : ∀ r, motive r
  | .node kind name none => by
    by_cases hnamed : kind = "NamedType"
    · subst hnamed
      cases name with
      | none => exact unnamed none
      | some name => exact named name none
    · by_cases h : Wraps kind
      · exact empty kind name h
      · exact unrecognized kind name none hnamed h
  | .node kind name (some raw) => by
    by_cases hnamed : kind = "NamedType"
    · subst hnamed
      cases name with
      | none => exact unnamed (some raw)
      | some name => exact named name (some raw)
    · by_cases h : Wraps kind
      · exact wrapper kind name raw h
          (shapeInduction wrapper empty named unnamed unrecognized raw)
      · exact unrecognized kind name (some raw) hnamed h

/-! ## The path -/

@[simp] theorem path_wrapper (h : Wraps kind) :
    (node kind name (some raw)).path = node kind name (some raw) :: raw.path := by
  simp [path, h]

@[simp] theorem path_end (h : ¬ Wraps kind) :
    (node kind name inner).path = [node kind name inner] := by
  cases inner <;> simp [path, h]

theorem path_ne_nil (r : RawTypeRef) : r.path ≠ [] := by
  obtain ⟨kind, name, inner⟩ := r
  cases inner <;> simp [path]

/-- What a path comes to: no node is defective and the chain follows the path to its end, or the
last node alone is defective and the fault is that of this node. -/
theorem outcome (r : RawTypeRef) :
    (∃ t, r.toTypeRef = .ok t ∧ (∀ n ∈ r.path, ¬ n.Defective) ∧
      t.kinds = r.path.map RawTypeRef.kind ∧ ∃ n ∈ r.path.getLast?, n.Ends t.terminal) ∨
    ∃ fault d what, r.toTypeRef = .error fault ∧ r.path.filter (·.Defective) = [d] ∧
      d ∈ r.path.getLast? ∧ d.Faults fault what := by
  induction r using shapeInduction with
  | wrapper kind name raw h ih =>
    have hsound : ¬ (node kind name (some raw)).Defective := by
      grind [inner?, RawTypeRef.kind, not_wraps_named]
    rcases ih with ⟨t, ht, hpath, hkinds, n, hn, hends⟩ |
        ⟨fault, d, what, hfault, hd, hlast, hfaults⟩
    · left
      refine ⟨t.wrap kind, ?_, ?_, ?_, n, ?_, ?_⟩
      · rw [toTypeRef_wrapper h, ht]
        rfl
      · simpa [h, hsound] using hpath
      · simp [h, TypeRef.kinds_wrap t h, hkinds, RawTypeRef.kind]
      · rwa [path_wrapper h, List.getLast?_cons_of_ne_nil (path_ne_nil raw)]
      · rwa [TypeRef.terminal_wrap]
    · right
      refine ⟨fault, d, what, ?_, ?_, ?_, hfaults⟩
      · rw [toTypeRef_wrapper h, hfault]
        rfl
      · simpa [h, hsound] using hd
      · rwa [path_wrapper h, List.getLast?_cons_of_ne_nil (path_ne_nil raw)]
  | empty kind name h =>
    right
    have hdefective : (node kind name none).Defective := .inl ⟨h, rfl⟩
    refine ⟨_, node kind name none, _, toTypeRef_empty h, ?_, ?_, .empty h⟩
    · simp [path, hdefective]
    · simp [path]
  | named name inner =>
    left
    have hsound : ¬ (node "NamedType" (some name) inner).Defective := by
      grind [name?, RawTypeRef.kind]
    refine ⟨_, toTypeRef_named name, ?_, ?_, node "NamedType" (some name) inner, ?_, .named⟩
    · simpa [not_wraps_named] using hsound
    · simp [not_wraps_named, RawTypeRef.kind]
    · simp [not_wraps_named]
  | unnamed inner =>
    right
    have hdefective : (node "NamedType" none inner).Defective := .inr ⟨rfl, rfl⟩
    refine ⟨_, node "NamedType" none inner, _, toTypeRef_unnamed, ?_, ?_, .unnamed⟩
    · simp [not_wraps_named, hdefective]
    · simp [not_wraps_named]
  | unrecognized kind name inner hnamed h =>
    left
    have hsound : ¬ (node kind name inner).Defective := by grind [RawTypeRef.kind]
    refine ⟨_, toTypeRef_unrecognized hnamed h, ?_, ?_, node kind name inner, ?_,
      .unrecognized hnamed h⟩
    · simpa [h] using hsound
    · simp [h, RawTypeRef.kind]
    · simp [h]

/-- A fault names the kind of the node and what the node lacks. -/
theorem Faults.message_eq (h : r.Faults fault what) :
    fault.message = r.kind ++ " node has no " ++ what := by
  cases h with
  | unnamed => rfl
  | @empty kind _ _ =>
    have words : " node has no " ++ "inner type" = " node has no inner type" := by decide
    calc (DocumentFault.noInnerType kind).message
        = kind ++ " node has no inner type" := rfl
      _ = kind ++ " node has no " ++ "inner type" := by rw [String.append_assoc, words]

theorem Faults.unique {fault' : DocumentFault} {what' : String} (h : r.Faults fault what)
    (h' : r.Faults fault' what') : fault = fault' := by
  cases h with
  | unnamed => cases h' with
    | unnamed => rfl
    | empty h => exact absurd h not_wraps_named
  | empty h => cases h' with
    | unnamed => exact absurd h not_wraps_named
    | empty _ => rfl

theorem Ends.unique {u : TypeRef} (h : r.Ends t) (h' : r.Ends u) : t = u := by
  cases h with
  | named => cases h' with
    | named => rfl
    | unrecognized hnamed _ => exact absurd rfl hnamed
  | unrecognized hnamed _ => cases h' with
    | named => exact absurd rfl hnamed
    | unrecognized _ _ => rfl

/-- A defective node stands for no link. -/
theorem Faults.not_ends (h : r.Faults fault what) : ¬ r.Ends t := by
  intro hends
  cases h with
  | unnamed => cases hends with
    | unrecognized hnamed _ => exact hnamed rfl
  | empty h => cases hends with
    | named => exact not_wraps_named h
    | unrecognized _ hwraps => exact hwraps h

/-- What lies beside the path does not matter. -/
theorem SamePath.toTypeRef_eq (h : r.SamePath r') : r.toTypeRef = r'.toTypeRef := by
  induction h with
  | wrapper h _ ih => rw [toTypeRef_wrapper h, toTypeRef_wrapper h, ih]
  | empty h => rw [toTypeRef_empty h, toTypeRef_empty h]
  | @named name _ _ =>
    cases name with
    | none => rw [toTypeRef_unnamed, toTypeRef_unnamed]
    | some name => rw [toTypeRef_named, toTypeRef_named]
  | unrecognized hnamed h => rw [toTypeRef_unrecognized hnamed h, toTypeRef_unrecognized hnamed h]

theorem exists_toTypeRef_iff : (∃ t, r.toTypeRef = .ok t) ↔ ∀ n ∈ r.path, ¬ n.Defective := by
  rcases r.outcome with ⟨t, ht, hpath, -⟩ | ⟨fault, d, what, hfault, hd, -⟩
  · exact ⟨fun _ => hpath, fun _ => ⟨t, ht⟩⟩
  · have hmem : d ∈ r.path.filter (·.Defective) := by simp [hd]
    obtain ⟨hmem, hdefective⟩ := List.mem_filter.1 hmem
    constructor
    · rintro ⟨t, ht⟩
      cases hfault.symm.trans ht
    · intro hpath
      exact absurd (of_decide_eq_true hdefective) (hpath d hmem)

/-- The kinds along the path and the node at its end determine the chain. -/
theorem toTypeRef_eq_ok_iff_path : r.toTypeRef = .ok t ↔
    t.kinds = r.path.map RawTypeRef.kind ∧ ∃ n ∈ r.path.getLast?, n.Ends t.terminal := by
  constructor
  · intro h
    rcases r.outcome with ⟨u, hu, -, hkinds, hends⟩ | ⟨fault, d, what, hfault, -⟩
    · cases h.symm.trans hu
      exact ⟨hkinds, hends⟩
    · cases h.symm.trans hfault
  · rintro ⟨hkinds, n, hn, hends⟩
    rcases r.outcome with ⟨u, hu, -, hkinds', n', hn', hends'⟩ |
        ⟨fault, d, what, -, -, hlast, hfaults⟩
    · cases Option.mem_unique hn hn'
      have same : t = u := TypeRef.eq_of_kinds_eq (hkinds.trans hkinds'.symm) (hends.unique hends')
      rw [hu, same]
    · cases Option.mem_unique hn hlast
      exact absurd hends hfaults.not_ends

theorem toTypeRef_eq_error_iff_path : r.toTypeRef = .error fault ↔
    ∃ d what, r.path.filter (·.Defective) = [d] ∧ d.Faults fault what := by
  constructor
  · intro h
    rcases r.outcome with ⟨t, ht, -⟩ | ⟨fault', d, what, hfault, hd, -, hfaults⟩
    · cases h.symm.trans ht
    · cases h.symm.trans hfault
      exact ⟨d, what, hd, hfaults⟩
  · rintro ⟨d, what, hd, hfaults⟩
    rcases r.outcome with ⟨t, ht, hpath, -⟩ | ⟨fault', d', what', hfault, hd', -, hfaults'⟩
    · have none_left : r.path.filter (·.Defective) = [] :=
        List.filter_eq_nil_iff.2 fun n hn => by simpa using hpath n hn
      rw [none_left] at hd
      cases hd
    · cases hd.symm.trans hd'
      rw [hfault, hfaults.unique hfaults']

/-- A node has a chain exactly if no node of its path is defective. The chain then has the kinds of
the path in order and ends in what the last node stands for. Otherwise one node of the path is
defective, and the fault names its kind. Nothing beside the path matters. -/
theorem toTypeRef_along_path (r : RawTypeRef) :
    ((∃ t, r.toTypeRef = .ok t) ↔ ∀ n ∈ r.path, ¬ n.Defective) ∧
    (∀ t, r.toTypeRef = .ok t ↔ t.kinds = r.path.map RawTypeRef.kind ∧
      ∃ n ∈ r.path.getLast?, n.Ends t.terminal) ∧
    (∀ fault, r.toTypeRef = .error fault ↔ ∃ d what, r.path.filter (·.Defective) = [d] ∧
      d.Faults fault what ∧ fault.message = d.kind ++ " node has no " ++ what) ∧
    ∀ r', r.SamePath r' → r.toTypeRef = r'.toTypeRef := by
  refine ⟨exists_toTypeRef_iff, fun _ => toTypeRef_eq_ok_iff_path, fun fault => ?_,
    fun r' h => h.toTypeRef_eq⟩
  rw [toTypeRef_eq_error_iff_path]
  constructor
  · rintro ⟨d, what, hd, hfaults⟩
    exact ⟨d, what, hd, hfaults, hfaults.message_eq⟩
  · rintro ⟨d, what, hd, hfaults, -⟩
    exact ⟨d, what, hd, hfaults⟩

/-- The list has a name of its own, and a broken node hangs below the name of its items. -/
def pack : RawTypeRef :=
  .node "ListType" (some "Pack") (some (.node "NonNullType" none (some
    (.node "NamedType" (some "Dog") (some (.node "ListType" none none))))))

/-- A list of what must not be null, and that is all. -/
def hollow : RawTypeRef :=
  .node "ListType" none (some (.node "NonNullType" (some "Dog") none))

theorem toTypeRef_along_path_pack :
    pack.toTypeRef = .ok (.list (.nonNull (.named "Dog"))) ∧
    ∃ fault, hollow.toTypeRef = .error fault ∧
      fault.message = "NonNullType node has no inner type" := by
  constructor
  · exact ((toTypeRef_along_path pack).2.1 _).2 ⟨by decide, _, rfl, .named⟩
  · have defective : hollow.path.filter (·.Defective) =
        [.node "NonNullType" (some "Dog") none] := rfl
    exact ⟨_, ((toTypeRef_along_path hollow).2.2.1 _).2
      ⟨_, _, defective, .empty (.inr rfl), rfl⟩, rfl⟩

end RawTypeRef

end TypedModels
