import TypedModels.Json.Printer
import TypedModels.OrderedMap

/-!
# Reports

The outcome of validating a value: for each failing field the list of its violations. A field of a
custom type that fails carries the violations of the nested value, so the outcome is a tree.

## Main definitions

* `Violation` : one problem with the value of a field.
* `ElementReport` : what is wrong with one element.
* `Report` : the failing fields in order, with their violations.
* `Report.record` : adds a field, unless it has no violations.
* `Report.text`, `Report.toValue` : the message and the payload.
-/

namespace TypedModels

/-- What is wrong with one element: messages about a scalar, or the failing fields of an object. -/
inductive ElementReport (ε : Type) where
  | messages (texts : List String)
  | fields (errors : ε)

/-- One problem with the value of a field. -/
inductive Violation where
  /-- The field is required, and the value is absent or null. -/
  | required
  /-- The field is a list, and the value is not an array. -/
  | notAList
  /-- An element does not belong to the type of the field. -/
  | element (value : Value) (errors : ElementReport (List (String × List Violation)))
deriving Inhabited

/-- The failing fields in order. None of them has an empty list of violations. -/
abbrev Report := OrderedMap (List Violation)

/-! ## Recording -/

/-- Records the violations of a field. An empty list is not recorded. -/
def Report.record (errors : Report) (field : String) (violations : List Violation) : Report :=
  if violations.isEmpty then errors else errors.insert field violations

/-- Whether an element has no errors. -/
def ElementReport.isEmpty : ElementReport Report → Bool
  | .messages texts => texts.isEmpty
  | .fields errors => errors.isEmpty

/-! ## Messages -/

def Violation.requiredMessage : String := "field is required"

def Violation.notAListMessage : String := "value must be an array for field"

mutual

def Violation.text : Violation → String
  | .required => requiredMessage
  | .notAList => notAListMessage
  | .element v (.messages texts) => v.text ++ " is invalid: " ++ String.intercalate "; " texts
  | .element v (.fields errors) =>
    v.text ++ " is invalid: \x7b " ++
      String.intercalate "; " (Violation.fieldTexts errors) ++ " \x7d"

/-- The texts of the failing fields. -/
def Violation.fieldTexts : List (String × List Violation) → List String
  | [] => []
  | (field, violations) :: errors =>
    (field ++ ": " ++ String.intercalate ", " (Violation.texts violations)) ::
      Violation.fieldTexts errors

def Violation.texts : List Violation → List String
  | [] => []
  | v :: vs => v.text :: Violation.texts vs

end

/-- All failing fields in one line. -/
def Report.text (errors : Report) : String :=
  String.intercalate "; " (Violation.fieldTexts errors)

def ElementReport.text : ElementReport Report → String
  | .messages texts => String.intercalate "; " texts
  | .fields errors => "\x7b " ++ Report.text errors ++ " \x7d"

/-! ## Payload -/

mutual

/-- A violation as a JSON value: its message, or an object with the element and its errors. -/
def Violation.toValue : Violation → Value
  | .required => .str requiredMessage
  | .notAList => .str notAListMessage
  | .element v (.messages texts) =>
    Value.ofMembers [("value", v), ("errors", Value.ofStrings texts)]
  | .element v (.fields errors) =>
    Value.ofMembers [("value", v), ("errors", Value.ofMembers (Violation.fieldMembers errors))]

/-- The members of the payload of the failing fields. -/
def Violation.fieldMembers : List (String × List Violation) → List (String × Value)
  | [] => []
  | (field, violations) :: errors =>
    (field, .arr (Violation.toValues violations)) :: Violation.fieldMembers errors

def Violation.toValues : List Violation → List Value
  | [] => []
  | v :: vs => v.toValue :: Violation.toValues vs

end

/-- The payload that a user can be shown: an object with the violations of each failing field. -/
def Report.toValue (errors : Report) : Value := Value.ofMembers (Violation.fieldMembers errors)

/-! ## Laws -/

theorem Report.lookup_record (errors : Report) (field l : String) (violations : List Violation)
    (h : violations ≠ []) :
    (errors.record field violations).lookup l =
      if l = field then some violations else errors.lookup l := by
  simp [record, h, OrderedMap.lookup_insert]

@[simp] theorem Report.record_nil (errors : Report) (field : String) :
    errors.record field [] = errors := rfl

end TypedModels
