import TypedModels.Yaml.Character

/-!
# Gaps inside of a scalar

Between two visible characters of a scalar there may be a run of blanks, or blanks and line breaks.
A run of blanks is kept. Where there is a break the blanks are lost, and the breaks are folded: a
lone line feed becomes a blank, and of several breaks a first line feed is lost.

## Main definitions

* `Yaml.Gap` : what has been read since the last visible character.
* `Yaml.Gap.fill` : the text that a gap stands for.
-/

namespace TypedModels.Yaml

/-- What has been read since the last visible character of a scalar, last characters first. -/
inductive Gap where
  | blanks (run : List Char)
  /-- A line has ended, with a break unless the break was escaped; further breaks may follow. -/
  | breaks (first : Option Char) (more : List Char)
deriving DecidableEq, Repr

namespace Gap

/-- The gap between two adjacent characters. -/
def none : Gap := .blanks []

/-- Whether a line has ended in the gap. -/
def isBroken : Gap → Bool
  | .blanks _ => false
  | .breaks _ _ => true

/-- The gap with one more blank or break. -/
def add (c : Char) : Gap → Gap
  | .blanks run => if isBreak c then .breaks (some c) [] else .blanks (c :: run)
  | .breaks first more => .breaks first (if isBreak c then c :: more else more)

/-- The characters of a scalar up to the end of a gap; `read` are those before it. Both have the
last character first. -/
def fill (read : List Char) : Gap → List Char
  | .blanks run => run ++ read
  | .breaks (some '\n') [] => ' ' :: read
  | .breaks (some '\n') more => more ++ read
  | .breaks first more => more ++ (first.toList ++ read)

/-- A lone line feed is a blank, whatever blanks stand around it. -/
theorem fill_lone_break (read run : List Char) :
    ((blanks run).add '\n').fill read = ' ' :: read := rfl

end Gap

end TypedModels.Yaml
