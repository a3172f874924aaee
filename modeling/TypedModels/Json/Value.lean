import TypedModels.Json.Number
import TypedModels.OrderedMap

/-!
# JSON values

A value is a tree of scalars, arrays and objects. A tree that was read keeps the members of each
object as written, repetitions included; a *canonical* tree lists them by ascending key, each key
once, and so two canonical trees are equal exactly if they hold the same data.

## Main definitions

* `Value` : JSON trees.
* `Value.get?` : the value under a key of an object.
* `Value.depth` : how deeply arrays and objects are nested.
* `Value.ofMembers` : the object with the given members, in canonical form.
* `Value.canonical` : the canonical form of a whole tree.
-/

namespace TypedModels

inductive Value where
  | null
  | bool (b : Bool)
  | num (n : Number)
  | str (s : String)
  | arr (items : List Value)
  | obj (members : List (String × Value))
deriving Repr, Inhabited

namespace Value

/-! ## Equality -/

mutual

def decEq : (a b : Value) → Decidable (a = b)
  | .null, .null => isTrue rfl
  | .bool a, .bool b => decidable_of_iff (a = b) (by simp)
  | .num a, .num b => decidable_of_iff (a = b) (by simp)
  | .str a, .str b => decidable_of_iff (a = b) (by simp)
  | .arr a, .arr b =>
    match decEqItems a b with
    | isTrue h => isTrue (by rw [h])
    | isFalse h => isFalse (by simpa using h)
  | .obj a, .obj b =>
    match decEqMembers a b with
    | isTrue h => isTrue (by rw [h])
    | isFalse h => isFalse (by simpa using h)
  | .null, .bool _ | .null, .num _ | .null, .str _ | .null, .arr _ | .null, .obj _
  | .bool _, .null | .bool _, .num _ | .bool _, .str _ | .bool _, .arr _ | .bool _, .obj _
  | .num _, .null | .num _, .bool _ | .num _, .str _ | .num _, .arr _ | .num _, .obj _
  | .str _, .null | .str _, .bool _ | .str _, .num _ | .str _, .arr _ | .str _, .obj _
  | .arr _, .null | .arr _, .bool _ | .arr _, .num _ | .arr _, .str _ | .arr _, .obj _
  | .obj _, .null | .obj _, .bool _ | .obj _, .num _ | .obj _, .str _ | .obj _, .arr _ =>
    isFalse nofun

def decEqItems : (a b : List Value) → Decidable (a = b)
  | [], [] => isTrue rfl
  | [], _ :: _ | _ :: _, [] => isFalse nofun
  | v :: vs, w :: ws =>
    match decEq v w, decEqItems vs ws with
    | isTrue h, isTrue hs => isTrue (by rw [h, hs])
    | isFalse h, _ => isFalse (by simp [h])
    | _, isFalse hs => isFalse (by simp [hs])

def decEqMembers : (a b : List (String × Value)) → Decidable (a = b)
  | [], [] => isTrue rfl
  | [], _ :: _ | _ :: _, [] => isFalse nofun
  | (k, v) :: vs, (l, w) :: ws =>
    match decEq v w, decEqMembers vs ws with
    | isTrue h, isTrue hs => decidable_of_iff (k = l) (by simp [h, hs])
    | isFalse h, _ => isFalse (by simp [h])
    | _, isFalse hs => isFalse (by simp [hs])

end

instance : DecidableEq Value := decEq

/-! ## Parts -/

def isNull : Value → Bool
  | .null => true
  | _ => false

def isObject : Value → Bool
  | .obj _ => true
  | _ => false

/-- The items of an array. -/
def items? : Value → Option (List Value)
  | .arr items => some items
  | _ => none

/-- The value under a key. A value that is not an object has no keys. -/
def get? (v : Value) (key : String) : Option Value :=
  match v with
  | .obj members => members.lookup key
  | _ => none

/-! ## Depth -/

mutual

/-- How many arrays and objects lie around the innermost scalar. -/
def depth : Value → Nat
  | .arr items => depthItems items + 1
  | .obj members => depthMembers members + 1
  | _ => 0

def depthItems : List Value → Nat
  | [] => 0
  | v :: vs => max v.depth (depthItems vs)

def depthMembers : List (String × Value) → Nat
  | [] => 0
  | (_, v) :: ms => max v.depth (depthMembers ms)

end

theorem depth_le_depthItems {v : Value} {items : List Value} (h : v ∈ items) :
    v.depth ≤ depthItems items := by
  induction items with
  | nil => cases h
  | cons w ws ih =>
    simp only [depthItems]
    rcases List.mem_cons.1 h with rfl | h
    · omega
    · have := ih h; omega

theorem depth_le_depthMembers {k : String} {v : Value} {members : List (String × Value)}
    (h : (k, v) ∈ members) : v.depth ≤ depthMembers members := by
  induction members with
  | nil => cases h
  | cons m ms ih =>
    obtain ⟨l, w⟩ := m
    simp only [depthMembers]
    rcases List.mem_cons.1 h with h | h
    · cases h; omega
    · have := ih h; omega

/-- An item of an array is less deep than the array. -/
theorem depth_lt_of_mem {v : Value} {items : List Value} (h : v ∈ items) :
    v.depth < (Value.arr items).depth := by
  have := depth_le_depthItems h
  simp only [depth]; omega

/-- A member of an object is less deep than the object. -/
theorem depth_lt_of_get? {v w : Value} {key : String} (h : v.get? key = some w) :
    w.depth < v.depth := by
  cases v with
  | obj members =>
    have := depth_le_depthMembers (OrderedMap.mem_of_lookup h)
    simp only [depth]; omega
  | _ => simp [get?] at h

/-! ## Canonical form -/

/-- Puts a member at its place in a list sorted by key, over an earlier one with the same key. -/
def insertMember (key : String) (v : Value) : List (String × Value) → List (String × Value)
  | [] => [(key, v)]
  | (k, w) :: ms =>
    if key < k then (key, v) :: (k, w) :: ms
    else if key = k then (key, v) :: ms
    else (k, w) :: insertMember key v ms

/-- Members in ascending order of their keys. Of several with one key the last counts. -/
def sortMembers (members : List (String × Value)) : List (String × Value) :=
  members.foldl (fun sorted m => insertMember m.1 m.2 sorted) []

/-- The object with the given members. -/
def ofMembers (members : List (String × Value)) : Value := .obj (sortMembers members)

mutual

/-- The same data, with the members of every object sorted by key. -/
def canonical : Value → Value
  | .arr items => .arr (canonicalItems items)
  | .obj members => ofMembers (canonicalMembers members)
  | v => v

def canonicalItems : List Value → List Value
  | [] => []
  | v :: vs => v.canonical :: canonicalItems vs

def canonicalMembers : List (String × Value) → List (String × Value)
  | [] => []
  | (k, v) :: ms => (k, v.canonical) :: canonicalMembers ms

end

/-- An array of strings. -/
def ofStrings (texts : List String) : Value := .arr (texts.map .str)

end Value

end TypedModels
