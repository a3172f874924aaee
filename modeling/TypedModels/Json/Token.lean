import TypedModels.Json.Number
import TypedModels.Text.Hexadecimal

/-!
# Tokens of a JSON text

A text is cut into tokens from left to right. The cut ends at the first place where no token
starts, which is marked by the token `broken`.

Two kinds of scalar are well formed but have no value: a string with an escaped surrogate that has
no partner, and a numeral that is too large. They are tokens without content, because a reader
that skips them need not care.

## Main definitions

* `Token` : punctuation, literals, strings and numbers.
* `Token.ofText` : the tokens of a text.
-/

namespace TypedModels

inductive Token where
  | openObject
  | closeObject
  | openArray
  | closeArray
  | colon
  | comma
  | null
  | bool (b : Bool)
  | str (content : Option String)
  | num (value : Option Number)
  | broken
deriving DecidableEq, Repr

namespace Token

/-! ## Strings -/

/-- The code unit that four hexadecimal digits denote. -/
def codeUnit? (a b c d : Char) : Option Nat := Text.ofHex? [a, b, c, d]

/-- The character that a one-letter escape denotes. -/
def unescape? (c : Char) : Option Char :=
  if c = '"' then some '"'
  else if c = '\\' then some '\\'
  else if c = '/' then some '/'
  else if c = 'b' then some '\x08'
  else if c = 'f' then some '\x0c'
  else if c = 'n' then some '\n'
  else if c = 'r' then some '\r'
  else if c = 't' then some '\t'
  else none

def isHighSurrogate (u : Nat) : Bool := 0xD800 ≤ u && u < 0xDC00

def isLowSurrogate (u : Nat) : Bool := 0xDC00 ≤ u && u < 0xE000

/-- The character that two surrogates denote together. -/
def joinSurrogates (high low : Nat) : Char :=
  Char.ofNat (0x10000 + (high - 0xD800) * 0x400 + (low - 0xDC00))

/-- The low surrogate whose escape a text starts with, and the text after it. -/
def lowSurrogate? : List Char → Option (Nat × List Char)
  | '\\' :: 'u' :: a :: b :: c :: d :: rest =>
    match codeUnit? a b c d with
    | some u => if isLowSurrogate u then some (u, rest) else none
    | none => none
  | _ => none

theorem length_lt_of_lowSurrogate? {cs rest : List Char} {u : Nat}
    (h : lowSurrogate? cs = some (u, rest)) : rest.length < cs.length := by
  unfold lowSurrogate? at h
  split at h
  · split at h
    · split at h
      · cases h; simp only [List.length_cons]; omega
      · cases h
    · cases h
  · cases h

/-- Reads a string up to its closing quote. `read` holds the characters so far, last first, and
`whole` tells that no surrogate was left alone. The result is the content, if it has one, and the
text after the quote; there is none if the string is malformed. -/
def scanString (read : List Char) (whole : Bool) : List Char → Option (Option String × List Char)
  | [] => none
  | '"' :: rest => some (if whole then some (String.ofList read.reverse) else none, rest)
  | '\\' :: 'u' :: a :: b :: c :: d :: rest =>
    match codeUnit? a b c d with
    | none => none
    | some u =>
      if isLowSurrogate u then scanString read false rest
      else if isHighSurrogate u then
        match _h : lowSurrogate? rest with
        | some (u', rest') => scanString (joinSurrogates u u' :: read) whole rest'
        | none => scanString read false rest
      else scanString (Char.ofNat u :: read) whole rest
  | '\\' :: e :: rest =>
    match unescape? e with
    | none => none
    | some c => scanString (c :: read) whole rest
  | c :: rest => if c.toNat < 0x20 then none else scanString (c :: read) whole rest
termination_by cs => cs.length
decreasing_by
  all_goals simp only [List.length_cons]
  all_goals try omega
  have := length_lt_of_lowSurrogate? (by assumption)
  omega

theorem length_lt_of_scanString {read : List Char} {whole : Bool} {cs rest : List Char}
    {s : Option String} (h : scanString read whole cs = some (s, rest)) :
    rest.length < cs.length := by
  fun_induction scanString read whole cs <;> (try simp only [List.length_cons]) <;>
    grind [→ length_lt_of_lowSurrogate?]

/-! ## Numbers -/

def digitValue (c : Char) : Nat := c.toNat - 48

/-- The digits that a text starts with, and the text after them. -/
def scanDigits (cs : List Char) : List Nat × List Char :=
  ((cs.takeWhile Char.isDigit).map digitValue, cs.dropWhile Char.isDigit)

theorem length_scanDigits_le (cs : List Char) : (scanDigits cs).2.length ≤ cs.length :=
  (List.dropWhile_sublist _).length_le

theorem length_scanDigits_lt {cs : List Char} (h : (scanDigits cs).1 ≠ []) :
    (scanDigits cs).2.length < cs.length := by
  have e := congrArg List.length (List.takeWhile_append_dropWhile (p := Char.isDigit) (l := cs))
  have : cs.takeWhile Char.isDigit ≠ [] := by simpa [scanDigits] using h
  have := List.length_pos_iff.2 this
  simp only [List.length_append] at e
  simp only [scanDigits]
  omega

/-- The number that digits denote. -/
def ofDigits (ds : List Nat) : Nat := ds.foldl (fun n d => n * 10 + d) 0

/-- The digits after a decimal point, if there is one; `none` if no digit follows it. -/
def scanFraction? : List Char → Option (List Nat × List Char)
  | '.' :: rest =>
    match scanDigits rest with
    | ([], _) => none
    | (ds, rest) => some (ds, rest)
  | cs => some ([], cs)

/-- The digits of an exponent; `none` if there are none. -/
def scanExponentDigits? (negative : Bool) (cs : List Char) : Option (Option Int × List Char) :=
  match scanDigits cs with
  | ([], _) => none
  | (ds, rest) =>
    some (some (if negative then -(ofDigits ds : Int) else ofDigits ds), rest)

/-- The exponent, if there is one; `none` if it has no digits. -/
def scanExponent? : List Char → Option (Option Int × List Char)
  | 'e' :: '+' :: rest | 'E' :: '+' :: rest => scanExponentDigits? false rest
  | 'e' :: '-' :: rest | 'E' :: '-' :: rest => scanExponentDigits? true rest
  | 'e' :: rest | 'E' :: rest => scanExponentDigits? false rest
  | cs => some (none, cs)

/-- A numeral without its sign. A zero before further digits is malformed. -/
def scanNumeral? (negative : Bool) (cs : List Char) : Option (Numeral × List Char) :=
  match scanDigits cs with
  | ([], _) | (0 :: _ :: _, _) => none
  | (whole, rest) => do
    let (fraction, rest) ← scanFraction? rest
    let (exponent, rest) ← scanExponent? rest
    some ({ negative, whole, fraction, exponent }, rest)

theorem length_le_of_scanFraction? {cs rest : List Char} {ds : List Nat}
    (h : scanFraction? cs = some (ds, rest)) : rest.length ≤ cs.length := by
  unfold scanFraction? at h
  split at h
  · rename_i r
    have := length_scanDigits_le r
    split at h
    · cases h
    · rename_i e; cases h; rw [e] at this; simp only [List.length_cons] at this ⊢; omega
  · cases h; omega

theorem length_le_of_scanExponentDigits? {negative : Bool} {cs rest : List Char} {e : Option Int}
    (h : scanExponentDigits? negative cs = some (e, rest)) : rest.length ≤ cs.length := by
  unfold scanExponentDigits? at h
  have := length_scanDigits_le cs
  split at h
  · cases h
  · rename_i e; cases h; rw [e] at this; exact this

theorem length_le_of_scanExponent? {cs rest : List Char} {e : Option Int}
    (h : scanExponent? cs = some (e, rest)) : rest.length ≤ cs.length := by
  unfold scanExponent? at h
  split at h
  all_goals
    first
      | exact Nat.le_trans (length_le_of_scanExponentDigits? h)
          (by simp only [List.length_cons]; omega)
      | (cases h; omega)

theorem length_lt_of_scanNumeral? {negative : Bool} {cs rest : List Char} {n : Numeral}
    (h : scanNumeral? negative cs = some (n, rest)) : rest.length < cs.length := by
  unfold scanNumeral? at h
  split at h
  · cases h
  · cases h
  · rename_i whole tail hne _ e
    have hd : (scanDigits cs).2.length < cs.length :=
      length_scanDigits_lt (by rw [e]; exact hne)
    rw [e] at hd
    simp only [Option.bind_eq_bind, Option.bind_eq_some_iff, Option.some.injEq, Prod.mk.injEq,
      Prod.exists] at h
    obtain ⟨_, _, hf, _, _, he, -, rfl⟩ := h
    have := length_le_of_scanFraction? hf
    have := length_le_of_scanExponent? he
    simp only at hd
    omega

/-! ## Texts -/

def isBlank (c : Char) : Bool := c = ' ' || c = '\n' || c = '\t' || c = '\r'

/-- The token that starts with the character `c`, and the text after it. -/
def scanToken? (c : Char) (rest : List Char) : Option (Token × List Char) :=
  match c, rest with
  | '{', rest => some (.openObject, rest)
  | '}', rest => some (.closeObject, rest)
  | '[', rest => some (.openArray, rest)
  | ']', rest => some (.closeArray, rest)
  | ':', rest => some (.colon, rest)
  | ',', rest => some (.comma, rest)
  | 'n', 'u' :: 'l' :: 'l' :: rest => some (.null, rest)
  | 't', 'r' :: 'u' :: 'e' :: rest => some (.bool true, rest)
  | 'f', 'a' :: 'l' :: 's' :: 'e' :: rest => some (.bool false, rest)
  | '"', rest => (scanString [] true rest).map fun (s, rest) => (.str s, rest)
  | '-', rest => (scanNumeral? true rest).map fun (n, rest) => (.num n.value?, rest)
  | c, rest =>
    if c.isDigit then (scanNumeral? false (c :: rest)).map fun (n, rest) => (.num n.value?, rest)
    else none

theorem length_le_of_scanToken? {c : Char} {rest rest' : List Char} {t : Token}
    (h : scanToken? c rest = some (t, rest')) : rest'.length ≤ rest.length := by
  unfold scanToken? at h
  split at h
  case h_10 =>
    simp only [Option.map_eq_some_iff, Prod.exists, Prod.mk.injEq] at h
    obtain ⟨_, _, hs, -, rfl⟩ := h
    exact Nat.le_of_lt (length_lt_of_scanString hs)
  case h_11 =>
    simp only [Option.map_eq_some_iff, Prod.exists, Prod.mk.injEq] at h
    obtain ⟨_, _, hn, -, rfl⟩ := h
    exact Nat.le_of_lt (length_lt_of_scanNumeral? hn)
  case h_12 =>
    split at h
    · simp only [Option.map_eq_some_iff, Prod.exists, Prod.mk.injEq] at h
      obtain ⟨_, _, hn, -, rfl⟩ := h
      exact Nat.le_of_lt_succ (length_lt_of_scanNumeral? hn)
    · cases h
  case h_7 | h_8 | h_9 =>
    cases h
    simp only [List.length_cons]
    omega
  all_goals
    cases h
    exact Nat.le_refl _

/-- The tokens of a text, after those already found, the last of which comes first. -/
def scan (found : List Token) (cs : List Char) : List Token :=
  match cs with
  | [] => found.reverse
  | c :: rest =>
    if isBlank c then scan found rest
    else
      match _h : scanToken? c rest with
      | some (t, rest') => scan (t :: found) rest'
      | none => (broken :: found).reverse
termination_by cs.length
decreasing_by
  · simp only [List.length_cons]; omega
  · have := length_le_of_scanToken? (by assumption)
    simp only [List.length_cons]; omega

/-- The tokens of a text. -/
def ofText (text : String) : List Token := scan [] text.toList

end Token

end TypedModels
