/-! Values as text. Every container prints the texts of its elements inside its
own brackets, so one text of an element serves all of them. -/
namespace Containers

/-- A value that has a text. -/
class Shown (α : Type) where
  text : α → String

namespace Text

/-- One character inside quotes: quotes and backslashes are escaped, the common
controls have letters, and the other controls show their code in hexadecimal.
All other characters stand for themselves here: the tables of the unprintable
characters beyond the controls (U+00A0, U+200B, private use, unassigned) and of
the combining marks, whose codes are shown too, are not part of this library. -/
def escape (c : Char) : String :=
  if c = '"' then "\\\""
  else if c = '\\' then "\\\\"
  else if c = '\n' then "\\n"
  else if c = '\r' then "\\r"
  else if c = '\t' then "\\t"
  else if c = '\x00' then "\\0"
  else if c.toNat < 0x20 ∨ (0x7f ≤ c.toNat ∧ c.toNat ≤ 0x9f) then
    "\\u\x7b" ++ String.ofList (Nat.toDigits 16 c.toNat) ++ "\x7d"
  else c.toString

/-- A text between double quotes. -/
def quoted (text : String) : String :=
  "\"" ++ String.join (text.toList.map escape) ++ "\""

/-- Texts with a comma between each two. -/
def commaSeparated (texts : List String) : String :=
  ", ".intercalate texts

/-- A sequence, in brackets. -/
def list (texts : List String) : String :=
  "[" ++ commaSeparated texts ++ "]"

/-- A set or a map, in braces. -/
def braced (texts : List String) : String :=
  "\x7b" ++ commaSeparated texts ++ "\x7d"

/-- A record: its name, and its fields in braces. -/
def record (name : String) (fields : List (String × String)) : String :=
  name ++ " \x7b " ++ commaSeparated (fields.map fun (field, text) => field ++ ": " ++ text) ++ " \x7d"

end Text

instance : Shown String where
  text := Text.quoted

instance : Shown Int64 where
  text n := toString n.toInt

instance : Shown UInt8 where
  text n := toString n.toNat

instance : Shown Unit where
  text _ := "()"

instance [Shown α] [Shown β] : Shown (α × β) where
  text := fun (x, y) => "(" ++ Shown.text x ++ ", " ++ Shown.text y ++ ")"

end Containers
