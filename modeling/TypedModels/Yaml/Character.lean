/-!
# Characters of a YAML text

A text is made of printable characters, blanks and line breaks. The usual breaks are all read as a
line feed; a line separator and a paragraph separator are breaks that stay what they are.

## Main definitions

* `Yaml.isBlank`, `Yaml.isBreak`, `Yaml.isWord`, `Yaml.isUri` : the classes of characters.
* `Yaml.endsWord`, `Yaml.endsLine`, `Yaml.startsMarker` : what a text starts with.
* `Yaml.characters?` : the characters of a text, with line feeds for the usual breaks.
-/

namespace TypedModels.Yaml

/-! ## Classes -/

def isBlank (c : Char) : Bool := c = ' ' || c = '\t'

def isBreak (c : Char) : Bool := c = '\n' || c = '\u2028' || c = '\u2029'

/-- Whether a name may contain a character. -/
def isWord (c : Char) : Bool := c.isAlphanum || c = '_' || c = '-'

def isFlowIndicator (c : Char) : Bool :=
  c = ',' || c = '[' || c = ']' || c = '\x7b' || c = '\x7d'

/-- Whether a tag may contain a character outside of angle brackets. -/
def isUri (c : Char) : Bool := isWord c || ";/?:@&=+$.%!~*'()".toList.contains c

/-- Whether a tag may contain a character inside of angle brackets. -/
def isBracketedUri (c : Char) : Bool := isUri c || c = ',' || c = '[' || c = ']'

/-- Whether a character cannot start a plain scalar. -/
def isIndicator (c : Char) : Bool :=
  isFlowIndicator c || c = '\x60' || "-?:#&*!|>'\"%@".toList.contains c

/-! ## The start of a text -/

/-- Whether a text ends or continues with a blank or a break. -/
def endsWord : List Char → Bool
  | [] => true
  | c :: _ => isBlank c || isBreak c

/-- Whether only blanks and a comment are left of a line. -/
def endsLine (line : List Char) : Bool :=
  match line.dropWhile isBlank with
  | [] => true
  | c :: _ => c = '#'

/-- Whether a line starts with the marker of the start or the end of a document. -/
def startsMarker : List Char → Bool
  | '-' :: '-' :: '-' :: rest | '.' :: '.' :: '.' :: rest => endsWord rest
  | _ => false

/-! ## Texts -/

/-- Whether a text may contain a character. -/
def isAllowed (c : Char) : Bool :=
  c = '\t' || c = '\n' || c = '\r' || (' ' ≤ c && c ≤ '~') || c = '\u0085' ||
    ('\u00a0' ≤ c && c ≠ '\ufffe' && c ≠ '\uffff')

/-- Replaces the usual breaks by line feeds; `read` holds the characters before, last first. -/
def unifyBreaks (read : List Char) : List Char → List Char
  | [] => read.reverse
  | '\r' :: '\n' :: rest => unifyBreaks ('\n' :: read) rest
  | c :: rest => unifyBreaks ((if c = '\r' || c = '\u0085' then '\n' else c) :: read) rest

/-- The characters of a text; `none` if it has one that is not allowed. -/
def characters? (text : String) : Option (List Char) :=
  if text.toList.all isAllowed then some (unifyBreaks [] text.toList) else none

end TypedModels.Yaml
