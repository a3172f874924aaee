import TypedModels.Document.TypeRef

/-!
# The text of a chain

Every link of a chain but a name ends its text with a mark of its own, and within that mark stands
the text of the rest of the chain. So the last character of a text tells the outermost link, and two
chains with one text are the same, as long as the words that they end in hold no marks themselves.

## Main definitions

* `TypeRef.word` : the name, or the unknown kind, that a chain ends in.
* `TypeRef.Plain` : chains whose word holds none of the characters that links are written with.
* `TypeRef.lastMark` : the mark at the end of the text.
-/

namespace TypedModels

namespace TypeRef

/-- The name, or the unknown kind, that a chain ends in. -/
def word : TypeRef → String
  | .named name => name
  | .list inner => inner.word
  | .nonNull inner => inner.word
  | .unrecognized kind => kind

/-- The characters that links are written with. -/
def marks : List Char := ['[', ']', '!', '<', '>']

/-- The word of the chain holds no marks. -/
def Plain (t : TypeRef) : Prop := ∀ c ∈ t.word.toList, c ∉ marks

instance (t : TypeRef) : Decidable t.Plain :=
  List.decidableBAll (· ∉ marks) t.word.toList

/-- The mark that the outermost link puts at the end of the text. A name puts none. -/
def lastMark : TypeRef → Option Char
  | .named _ => none
  | .list _ => some ']'
  | .nonNull _ => some '!'
  | .unrecognized _ => some '>'

variable {a b t : TypeRef}

/-- The mark can be read off the text: it is the last character, if that is a mark. -/
theorem lastMark_eq (h : t.Plain) : t.lastMark = t.chars.getLast?.filter (· ∈ marks) := by
  cases t with
  | named name =>
    rw [lastMark, chars, eq_comm, Option.filter_eq_none_iff]
    intro c hc
    simpa using h c (List.mem_of_getLast? hc)
  | list inner =>
    have hsplit : (list inner).chars = ('[' :: inner.chars) ++ [']'] := rfl
    rw [hsplit, List.getLast?_concat]
    rfl
  | nonNull inner =>
    rw [chars, List.getLast?_concat]
    rfl
  | unrecognized kind =>
    have hsplit : (unrecognized kind).chars = ('<' :: kind.toList) ++ ['>'] := rfl
    rw [hsplit, List.getLast?_concat]
    rfl

theorem lastMark_eq_of_chars_eq (ha : a.Plain) (hb : b.Plain) (h : a.chars = b.chars) :
    a.lastMark = b.lastMark := by
  rw [lastMark_eq ha, lastMark_eq hb, h]

/-- By induction on one of the chains: they have the same outermost link, and without its marks the
texts are those of what it wraps. -/
theorem eq_of_chars_eq (ha : a.Plain) (hb : b.Plain) (h : a.chars = b.chars) : a = b := by
  induction a generalizing b with
  | named name =>
    have hmark := lastMark_eq_of_chars_eq ha hb h
    cases b with
    | named name' => rw [String.toList_inj.1 h]
    | _ => cases hmark
  | list inner ih =>
    have hmark := lastMark_eq_of_chars_eq ha hb h
    cases b with
    | list inner' =>
      have hinner : inner.chars = inner'.chars := List.append_cancel_right (List.cons.inj h).2
      exact congrArg _ (ih ha hb hinner)
    | _ => cases hmark
  | nonNull inner ih =>
    have hmark := lastMark_eq_of_chars_eq ha hb h
    cases b with
    | nonNull inner' =>
      have hinner : inner.chars = inner'.chars := List.append_cancel_right h
      exact congrArg _ (ih ha hb hinner)
    | _ => cases hmark
  | unrecognized kind =>
    have hmark := lastMark_eq_of_chars_eq ha hb h
    cases b with
    | unrecognized kind' =>
      have hkind : kind.toList = kind'.toList := List.append_cancel_right (List.cons.inj h).2
      rw [String.toList_inj.1 hkind]
    | _ => cases hmark

/-- Different chains have different texts. -/
theorem text_eq_iff (ha : a.Plain) (hb : b.Plain) : a.text = b.text ↔ a = b := by
  constructor
  · intro h
    exact eq_of_chars_eq ha hb (String.ofList_injective h)
  · rintro rfl
    rfl

/-- A board as a list of rows that are not null, `[[Tile]!]!`. -/
def rows : TypeRef := .nonNull (.list (.nonNull (.list (.named "Tile"))))

/-- A board as a list of lists of tiles that are not null, `[[Tile!]]!`. -/
def tiles : TypeRef := .nonNull (.list (.list (.nonNull (.named "Tile"))))

theorem text_rows_ne : rows.Plain ∧ tiles.Plain ∧ rows.text ≠ tiles.text := by
  have hrows : rows.Plain := by decide
  have htiles : tiles.Plain := by decide
  exact ⟨hrows, htiles, mt (text_eq_iff hrows htiles).1 (by decide)⟩

/-- A word with a mark in it can be taken for a link. -/
example : (named "Tile!").text = (nonNull (named "Tile")).text := rfl

end TypeRef

end TypedModels
