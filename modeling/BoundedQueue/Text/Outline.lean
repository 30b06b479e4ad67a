/-!
# Outlines of records

An outline names a record and lists its fields, each with the text of its value.  It has two
written forms, and both are part of what callers see:

* `Outline.inline` puts everything on one line;
* `Outline.block` gives every field a line of its own, indented by four spaces and closed by a
  comma.
-/

set_option autoImplicit false

namespace BoundedQueue

/-- A record's name and its fields in order, each with the text of its value. -/
structure Outline where
  /-- The name of the record. -/
  name : String
  /-- Field names with the texts of their values. -/
  fields : List (String × String)

namespace Outline

/-- The text of one field, the same in both forms. -/
def field (f : String × String) : String := f.1 ++ ": " ++ f.2

/-- The form on one line: the name, then the fields between braces, separated by commas. -/
def inline (o : Outline) : String :=
  o.name ++ " \x7b " ++ String.intercalate ", " (o.fields.map field) ++ " \x7d"

/-- The form with one field a line, every one of them followed by a comma. -/
def block (o : Outline) : String :=
  o.name ++ " \x7b\n" ++ String.join (o.fields.map fun f => "    " ++ field f ++ ",\n") ++ "\x7d"

end Outline

end BoundedQueue
