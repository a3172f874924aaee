import TypedModels.Json.Token
import TypedModels.Json.Value

/-!
# Reading a value from tokens

The reader is a machine that takes one token at a time. Its state says what may come next and holds
the containers that are still open, so reading is a recursion on the tokens alone.

A strict reader limits how many containers may be open at once and needs the content of every
scalar. A lenient reader only finds the end of a value: it has no limit and accepts scalars
without content.

## Main definitions

* `Reader.State`, `Reader.step` : the machine.
* `Reader.run?` : reads one value and returns the tokens after it.
* `Value.ofText?` : the value that a text holds.
-/

namespace TypedModels

namespace Reader

inductive Mode where
  | strict (limit : Nat)
  | lenient
deriving DecidableEq, Repr

/-- An open container around the place of reading, with its finished parts, last first. -/
inductive Context where
  | item (done : List Value)
  | member (done : List (String × Value)) (key : String)

/-- What may come next, inside the given contexts, innermost first. -/
inductive State where
  /-- A value. -/
  | value (around : List Context)
  /-- The first item of an array, or its end. -/
  | firstItem (around : List Context)
  /-- A comma or the end of an array. -/
  | afterItem (done : List Value) (around : List Context)
  /-- The first key of an object, or its end. -/
  | firstKey (around : List Context)
  /-- A key. -/
  | key (done : List (String × Value)) (around : List Context)
  /-- The colon after a key. -/
  | colon (done : List (String × Value)) (key : String) (around : List Context)
  /-- A comma or the end of an object. -/
  | afterMember (done : List (String × Value)) (around : List Context)

inductive Step where
  | more (state : State)
  | done (v : Value)
  | broken

/-- Hands a finished value to the innermost context. -/
def finish (v : Value) : List Context → Step
  | [] => .done v
  | .item done :: around => .more (.afterItem (v :: done) around)
  | .member done key :: around => .more (.afterMember ((key, v) :: done) around)

/-- Whether one more container may be opened inside `around`. -/
def Mode.hasRoom (mode : Mode) (around : List Context) : Bool :=
  match mode with
  | .strict limit => around.length < limit
  | .lenient => true

/-- Takes the first token of a value. -/
def startValue (mode : Mode) (around : List Context) : Token → Step
  | .null => finish .null around
  | .bool b => finish (.bool b) around
  | .num (some n) => finish (.num n) around
  | .str (some s) => finish (.str s) around
  | .num none | .str none => if mode = .lenient then finish .null around else .broken
  | .openArray => if mode.hasRoom around then .more (.firstItem around) else .broken
  | .openObject => if mode.hasRoom around then .more (.firstKey around) else .broken
  | _ => .broken

/-- Takes the key of a member. -/
def takeKey (mode : Mode) (done : List (String × Value)) (around : List Context) : Token → Step
  | .str (some key) => .more (.colon done key around)
  | .str none => if mode = .lenient then .more (.colon done "" around) else .broken
  | _ => .broken

def step (mode : Mode) : State → Token → Step
  | .value around, t => startValue mode around t
  | .firstItem around, .closeArray => finish (.arr []) around
  | .firstItem around, t => startValue mode (.item [] :: around) t
  | .afterItem done around, .comma => .more (.value (.item done :: around))
  | .afterItem done around, .closeArray => finish (.arr done.reverse) around
  | .afterItem _ _, _ => .broken
  | .firstKey around, .closeObject => finish (.obj []) around
  | .firstKey around, t => takeKey mode [] around t
  | .key done around, t => takeKey mode done around t
  | .colon done key around, .colon => .more (.value (.member done key :: around))
  | .colon _ _ _, _ => .broken
  | .afterMember done around, .comma => .more (.key done around)
  | .afterMember done around, .closeObject => finish (.obj done.reverse) around
  | .afterMember _ _, _ => .broken

/-- Reads up to the end of a value and returns it with the tokens that follow. -/
def run? (mode : Mode) (state : State) : List Token → Option (Value × List Token)
  | [] => none
  | t :: ts =>
    match step mode state t with
    | .done v => some (v, ts)
    | .more state => run? mode state ts
    | .broken => none

end Reader

/-- How many arrays and objects may be nested in a text. -/
def Value.maxDepth : Nat := 127

/-- The value that a text holds, with the members of objects as written. -/
def Value.ofText? (text : String) : Option Value :=
  match Reader.run? (.strict Value.maxDepth) (.value []) (Token.ofText text) with
  | some (v, []) => some v
  | _ => none

end TypedModels
