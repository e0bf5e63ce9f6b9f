/-!
# Irq.Text.Record

The one-line text of a record: its name and, in braces, its fields with their values. Lists stand
in brackets, and a value that may be missing says so.
-/

namespace Irq.Text

/-- The fields of a record, each as `name: value`. -/
def fieldTexts (fields : List (String × String)) : List String :=
  fields.map fun field => field.1 ++ ": " ++ field.2

/-- The text of a record that shows all its fields. -/
def record (name : String) (fields : List (String × String)) : String :=
  name ++ " \x7b " ++ ", ".intercalate (fieldTexts fields) ++ " \x7d"

/-- The text of a record that keeps some of its fields to itself. -/
def openRecord (name : String) (fields : List (String × String)) : String :=
  name ++ " \x7b " ++ ", ".intercalate (fieldTexts fields ++ [".."]) ++ " \x7d"

/-- The text of a list. -/
def list (items : List String) : String :=
  "[" ++ ", ".intercalate items ++ "]"

/-- The text of a value that may be missing. -/
def optional : Option String → String
  | none => "None"
  | some item => "Some(" ++ item ++ ")"

end Irq.Text
