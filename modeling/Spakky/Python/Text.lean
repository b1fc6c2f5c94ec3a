import Mathlib.Data.List.Basic

/-!
Python's `str` as a list of code points, which may be surrogates, and the
`repr` of strings and tuples.
-/

namespace Spakky.Python

abbrev CodePoint := Fin 0x110000

abbrev Text := List CodePoint

def ofChar (c : Char) : CodePoint := ⟨c.toNat, by
  have hvalid := c.valid
  rcases hvalid with hlow | ⟨_, hhigh⟩
  · exact Nat.lt_trans hlow (by decide)
  · exact hhigh⟩

/-- A literal of the source. -/
def text (literal : String) : Text := literal.toList.map ofChar

/-- A hexadecimal digit, in lower case. -/
def hexDigit (value : Nat) : CodePoint := ofChar (Nat.digitChar (value % 16))

/-- The last digits of a number. -/
def hex : Nat → Nat → Text
  | 0, _ => []
  | width + 1, value => hex width (value / 16) ++ [hexDigit value]

/-- The quotation mark `repr` puts around a string. -/
def quoteOf (value : Text) : CodePoint :=
  if ofChar '\'' ∈ value ∧ ofChar '"' ∉ value then ofChar '"' else ofChar '\''

/-- What `repr` writes for one code point between the quotation marks. Which
code points beyond ASCII are printable is up to the Unicode database. -/
def escape (printable : CodePoint → Bool) (quote c : CodePoint) : Text :=
  if c = quote ∨ c = ofChar '\\' then [ofChar '\\', c]
  else if c = ofChar '\t' then text "\\t"
  else if c = ofChar '\n' then text "\\n"
  else if c = ofChar '\r' then text "\\r"
  else if c.val < 0x20 ∨ c.val = 0x7f then text "\\x" ++ hex 2 c
  else if c.val < 0x7f ∨ printable c = true then [c]
  else if c.val ≤ 0xff then text "\\x" ++ hex 2 c
  else if c.val ≤ 0xffff then text "\\u" ++ hex 4 c
  else text "\\U" ++ hex 8 c

/-- `repr` of a string. -/
def strRepr (printable : CodePoint → Bool) (value : Text) : Text :=
  [quoteOf value] ++ value.flatMap (escape printable (quoteOf value)) ++ [quoteOf value]

/-- `repr` of a tuple from that of its items. -/
def tupleRepr : List Text → Text
  | [] => text "()"
  | [item] => text "(" ++ item ++ text ",)"
  | items => text "(" ++ List.intercalate (text ", ") items ++ text ")"

end Spakky.Python
