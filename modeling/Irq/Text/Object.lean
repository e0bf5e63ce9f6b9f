/-!
# Irq.Text.Object

Compact JSON text, built from the texts of the parts: no blanks, fields in the order given.
-/

namespace Irq.Text

/-- The text of a name; names hold no character that would need an escape. -/
def quoted (name : String) : String := "\"" ++ name ++ "\""

/-- The text of an object with the given fields. -/
def object (fields : List (String × String)) : String :=
  "\x7b" ++ ",".intercalate (fields.map fun field => quoted field.1 ++ ":" ++ field.2) ++ "\x7d"

/-- The text of an array. -/
def array (items : List String) : String :=
  "[" ++ ",".intercalate items ++ "]"

/-- The text of a value that may be missing. -/
def nullable : Option String → String
  | none => "null"
  | some item => item

end Irq.Text
