import Mathlib.Tactic.SplitIfs
import TypedModels.Json.Printer
import TypedModels.Json.Token

/-!
# The tokens of a printed value

The compact text of a value is cut into the tokens that the value is made of, whatever follows it.
Strings come back with the same content, since every escape that is written is one that is read.
Values with numbers are left out.

## Main definitions

* `Token.Reads` : characters that are cut into given tokens.
* `Value.tokens` : the tokens that a value is made of.
* `Value.Numberless` : values without numbers.
-/

namespace TypedModels

/-! ## Strings -/

namespace Token

theorem codeUnit?_hexDigit {n : Nat} (h : n < 0x20) :
    codeUnit? '0' '0' (Text.hexDigit (n / 16)) (Text.hexDigit (n % 16)) = some n := by
  have hzero : Text.hexValue? '0' = some 0 := by decide
  have hhigh := Text.hexValue?_hexDigit (n / 16) (by omega)
  have hlow := Text.hexValue?_hexDigit (n % 16) (Nat.mod_lt n (by decide))
  simp [codeUnit?, Text.ofHex?, hzero, hhigh, hlow]
  omega

theorem scanString_short {e c : Char} (he : unescape? e = some c) (read rest : List Char) :
    scanString read true ('\\' :: e :: rest) = scanString (c :: read) true rest := by
  have hu : e ≠ 'u' := by
    rintro rfl
    cases he
  rw [scanString]
  · simp [he]
  · rintro a b c d rest rfl
    contradiction

theorem scanString_unicode {n : Nat} (h : n < 0x20) (read rest : List Char) :
    scanString read true ('\\' :: 'u' :: '0' :: '0' :: Text.hexDigit (n / 16) ::
      Text.hexDigit (n % 16) :: rest) = scanString (Char.ofNat n :: read) true rest := by
  have hlow : isLowSurrogate n = false := by simp [isLowSurrogate]; omega
  have hhigh : isHighSurrogate n = false := by simp [isHighSurrogate]; omega
  rw [scanString, codeUnit?_hexDigit h]
  simp [hlow, hhigh]

theorem scanString_plain {c : Char} (hquote : c ≠ '"') (hslash : c ≠ '\\') (hc : ¬ c.toNat < 0x20)
    (read rest : List Char) :
    scanString read true (c :: rest) = scanString (c :: read) true rest := by
  rw [scanString, if_neg hc]
  · exact hquote
  all_goals intros; contradiction

/-- A character is written as an escape of one letter, by its number, or as it is. -/
theorem escape_cases (c : Char) :
    (∃ e, JsonText.escape c = ['\\', e] ∧ unescape? e = some c) ∨
      (c.toNat < 0x20 ∧ JsonText.escape c =
        ['\\', 'u', '0', '0', Text.hexDigit (c.toNat / 16), Text.hexDigit (c.toNat % 16)]) ∨
      (c ≠ '"' ∧ c ≠ '\\' ∧ ¬ c.toNat < 0x20 ∧ JsonText.escape c = [c]) := by
  unfold JsonText.escape
  split_ifs with hquote hslash _ _ _ _ _ hcontrol
  iterate 7
    · subst c
      exact .inl ⟨_, rfl, rfl⟩
  · exact .inr (.inl ⟨hcontrol, rfl⟩)
  · exact .inr (.inr ⟨hquote, hslash, hcontrol, rfl⟩)

/-- A character is read back, whether it is escaped or not. -/
theorem scanString_escape (read : List Char) (c : Char) (rest : List Char) :
    scanString read true (JsonText.escape c ++ rest) = scanString (c :: read) true rest := by
  rcases escape_cases c with ⟨e, he, hread⟩ | ⟨hcontrol, he⟩ | ⟨hquote, hslash, hc, he⟩
  · rw [he]
    exact scanString_short hread read rest
  · rw [he]
    refine (scanString_unicode hcontrol read rest).trans ?_
    rw [Char.ofNat_toNat]
  · rw [he]
    exact scanString_plain hquote hslash hc read rest

theorem scanString_quote (read : List Char) (s : List Char) (rest : List Char) :
    scanString read true (s.flatMap JsonText.escape ++ '"' :: rest) =
      some (some (String.ofList (read.reverse ++ s)), rest) := by
  induction s generalizing read with
  | nil => simp [scanString]
  | cons c s ih =>
    rw [List.flatMap_cons, List.append_assoc, scanString_escape, ih]
    simp

/-! ## Sequences of tokens -/

/-- The characters are cut into the tokens, whatever follows them. -/
def Reads (cs : List Char) (ts : List Token) : Prop :=
  ∀ found rest, scan found (cs ++ rest) = scan (ts.reverse ++ found) rest

theorem reads_nil : Reads [] [] := fun _ _ => rfl

theorem Reads.append {cs cs' : List Char} {ts ts' : List Token} (h : Reads cs ts)
    (h' : Reads cs' ts') : Reads (cs ++ cs') (ts ++ ts') := by
  intro found rest
  rw [List.append_assoc, h, h', List.reverse_append, List.append_assoc]

theorem reads_token {c : Char} {cs : List Char} {t : Token} (hc : isBlank c = false)
    (h : ∀ rest, scanToken? c (cs ++ rest) = some (t, rest)) : Reads (c :: cs) [t] := by
  intro found rest
  rw [List.cons_append, scan, hc]
  simp only [Bool.false_eq_true, if_false]
  split
  · next t' rest' h' =>
    rw [h] at h'
    cases h'
    rfl
  · next h' =>
    rw [h] at h'
    cases h'

theorem Reads.cons {c : Char} {cs : List Char} {t : Token} {ts : List Token} (h : Reads [c] [t])
    (h' : Reads cs ts) : Reads (c :: cs) (t :: ts) := h.append h'

theorem reads_quote (s : String) : Reads (JsonText.quoteChars s) [.str (some s)] := by
  refine reads_token rfl fun rest => ?_
  rw [List.append_assoc]
  simp [scanToken?, scanString_quote]

theorem ofText_eq {text : String} {ts : List Token} (h : Reads text.toList ts) :
    ofText text = ts := by
  have hscan := h [] []
  rw [List.append_nil] at hscan
  rw [ofText, hscan, scan]
  simp

end Token

/-! ## Values -/

namespace Value

mutual

/-- The tokens that a value is made of. -/
def tokens : Value → List Token
  | .null => [.null]
  | .bool b => [.bool b]
  | .num n => [.num (some n)]
  | .str s => [.str (some s)]
  | .arr [] => [.openArray, .closeArray]
  | .arr (v :: items) => .openArray :: (v.tokens ++ (laterItems items ++ [.closeArray]))
  | .obj [] => [.openObject, .closeObject]
  | .obj ((key, v) :: members) =>
    .openObject :: .str (some key) :: .colon ::
      (v.tokens ++ (laterMembers members ++ [.closeObject]))

/-- The tokens of the items behind another one. -/
def laterItems : List Value → List Token
  | [] => []
  | v :: items => .comma :: (v.tokens ++ laterItems items)

/-- The tokens of the members behind another one. -/
def laterMembers : List (String × Value) → List Token
  | [] => []
  | (key, v) :: members => .comma :: .str (some key) :: .colon :: (v.tokens ++ laterMembers members)

end

/-- A value without numbers. -/
inductive Numberless : Value → Prop where
  | null : Numberless .null
  | bool (b : Bool) : Numberless (.bool b)
  | str (s : String) : Numberless (.str s)
  | arr {items : List Value} (h : ∀ v ∈ items, Numberless v) : Numberless (.arr items)
  | obj {members : List (String × Value)} (h : ∀ m ∈ members, Numberless m.2) :
    Numberless (.obj members)

attribute [simp] Numberless.null Numberless.bool Numberless.str

@[simp] theorem numberless_arr_iff {items : List Value} :
    (Value.arr items).Numberless ↔ ∀ v ∈ items, v.Numberless := by
  refine ⟨fun h => ?_, .arr⟩
  cases h
  assumption

@[simp] theorem numberless_obj_iff {members : List (String × Value)} :
    (Value.obj members).Numberless ↔ ∀ m ∈ members, m.2.Numberless := by
  refine ⟨fun h => ?_, .obj⟩
  cases h
  assumption

theorem chars_arr (items : List Value) :
    (Value.arr items).chars = JsonText.arrayChars (items.map chars) := by
  rw [chars]
  congr 1
  induction items with
  | nil => rfl
  | cons v items ih => rw [charsItems, ih, List.map_cons]

theorem chars_obj (members : List (String × Value)) : (Value.obj members).chars =
    JsonText.objectChars (members.map fun m => (m.1, m.2.chars)) := by
  rw [chars]
  congr 1
  induction members with
  | nil => rfl
  | cons m members ih => rw [charsMembers, ih, List.map_cons]

end Value

namespace JsonText

theorem separated_cons (t : List Char) (ts : List (List Char)) :
    separated (t :: ts) = t ++ ts.flatMap fun u => ',' :: u := by
  induction ts generalizing t with
  | nil => simp [separated]
  | cons u ts ih => rw [separated, ih, List.flatMap_cons, List.cons_append]

end JsonText

namespace Value

open Token

variable {items : List Value} {members : List (String × Value)}

theorem reads_laterItems (h : ∀ v ∈ items, Reads v.chars v.tokens) :
    Reads ((items.map chars).flatMap fun cs => ',' :: cs) (laterItems items) := by
  have hcomma : Reads [','] [.comma] := reads_token rfl fun _ => rfl
  induction items with
  | nil => exact reads_nil
  | cons v items ih =>
    obtain ⟨hv, hrest⟩ := List.forall_mem_cons.1 h
    rw [laterItems, List.map_cons, List.flatMap_cons]
    exact hcomma.cons (hv.append (ih hrest))

theorem reads_arr (h : ∀ v ∈ items, Reads v.chars v.tokens) :
    Reads (Value.arr items).chars (Value.arr items).tokens := by
  have hopen : Reads ['['] [.openArray] := reads_token rfl fun _ => rfl
  have hclose : Reads [']'] [.closeArray] := reads_token rfl fun _ => rfl
  rw [chars_arr, JsonText.arrayChars]
  cases items with
  | nil => exact hopen.cons hclose
  | cons v items =>
    obtain ⟨hv, hrest⟩ := List.forall_mem_cons.1 h
    rw [List.map_cons, JsonText.separated_cons, List.append_assoc, tokens]
    exact hopen.cons (hv.append ((reads_laterItems hrest).append hclose))

/-- A member as it is written. -/
def memberChars (m : String × Value) : List Char := JsonText.quoteChars m.1 ++ ':' :: m.2.chars

theorem reads_member {m : String × Value} (h : Reads m.2.chars m.2.tokens) :
    Reads (memberChars m) (.str (some m.1) :: .colon :: m.2.tokens) := by
  have hcolon : Reads [':'] [.colon] := reads_token rfl fun _ => rfl
  exact (reads_quote m.1).append (hcolon.cons h)

theorem reads_laterMembers (h : ∀ m ∈ members, Reads m.2.chars m.2.tokens) :
    Reads ((members.map memberChars).flatMap fun cs => ',' :: cs) (laterMembers members) := by
  have hcomma : Reads [','] [.comma] := reads_token rfl fun _ => rfl
  induction members with
  | nil => exact reads_nil
  | cons m members ih =>
    obtain ⟨hm, hrest⟩ := List.forall_mem_cons.1 h
    rw [laterMembers, List.map_cons, List.flatMap_cons]
    exact hcomma.cons ((reads_member hm).append (ih hrest))

theorem reads_obj (h : ∀ m ∈ members, Reads m.2.chars m.2.tokens) :
    Reads (Value.obj members).chars (Value.obj members).tokens := by
  have hopen : Reads ['{'] [.openObject] := reads_token rfl fun _ => rfl
  have hclose : Reads ['}'] [.closeObject] := reads_token rfl fun _ => rfl
  have hmembers : (members.map fun m => (m.1, m.2.chars)).map
      (fun m => JsonText.quoteChars m.1 ++ ':' :: m.2) = members.map memberChars := by
    rw [List.map_map]
    rfl
  rw [chars_obj, JsonText.objectChars, hmembers]
  cases members with
  | nil => exact hopen.cons hclose
  | cons m members =>
    obtain ⟨hm, hrest⟩ := List.forall_mem_cons.1 h
    rw [List.map_cons, JsonText.separated_cons, List.append_assoc, tokens]
    exact hopen.cons ((reads_member hm).append ((reads_laterMembers hrest).append hclose))

/-- The compact text of a value consists of its tokens. -/
theorem reads_chars {v : Value} (hv : v.Numberless) : Reads v.chars v.tokens := by
  induction hv with
  | null => exact reads_token rfl fun _ => rfl
  | bool b => cases b <;> exact reads_token rfl fun _ => rfl
  | str s => exact reads_quote s
  | arr _ ih => exact reads_arr ih
  | obj _ ih => exact reads_obj ih

theorem ofText_text {v : Value} (hv : v.Numberless) : ofText v.text = v.tokens := by
  apply ofText_eq
  rw [text, String.toList_ofList]
  exact reads_chars hv

end Value

end TypedModels
