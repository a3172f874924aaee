import TypedModels.Json.Value
import TypedModels.Text.Quoted

/-!
# Built-in scalars

The scalar types that every schema can use without declaring them, and what is wrong with a value
that does not belong to one.

## Main definitions

* `Scalar` : the four types.
* `Scalar.ofName?`, `Scalar.name` : their names in a schema.
* `Scalar.problems` : the messages for a value; there are none if it belongs to the type.
-/

namespace TypedModels

inductive Scalar where
  | string
  | int
  | float
  | boolean
deriving DecidableEq, Repr

namespace Scalar

/-- All scalars in canonical order. -/
def all : List Scalar := [.string, .int, .float, .boolean]

def name : Scalar → String
  | .string => "String"
  | .int => "Int"
  | .float => "Float"
  | .boolean => "Boolean"

/-- The scalar with a given name, which is case-sensitive. -/
def ofName? (name : String) : Option Scalar := all.find? (·.name = name)

/-- The message for a name that no scalar has. -/
def unknownMessage (name : String) : String :=
  "unknown built-in scalar: " ++ Text.quoted name

/-- Whether a value belongs to the type. A number without fractional part is an `Int` however it is
written, and every number is a `Float`. -/
def Accepts : Scalar → Value → Prop
  | .string, v => ∃ s, v = .str s
  | .int, v => ∃ n, v = .num n ∧ n.isIntegral
  | .float, v => ∃ n, v = .num n
  | .boolean, v => ∃ b, v = .bool b

/-- What is wrong with a value, each problem once. -/
def problems : Scalar → Value → List String
  | .string, .str _ => []
  | .string, _ => ["not a string"]
  | .int, .num n => if n.isIntegral then [] else ["not an integer"]
  | .int, _ => ["not a number"]
  | .float, .num _ => []
  | .float, _ => ["not a number"]
  | .boolean, .bool _ => []
  | .boolean, _ => ["not a boolean"]

def isValid (s : Scalar) (v : Value) : Bool := (s.problems v).isEmpty

theorem problems_eq_nil_iff (s : Scalar) (v : Value) : s.problems v = [] ↔ s.Accepts v := by
  cases s <;> cases v <;> simp [problems, Accepts]

theorem ofName?_name (s : Scalar) : ofName? s.name = some s := by
  cases s <;> decide

end Scalar

end TypedModels
