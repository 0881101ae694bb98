import RouteRules.Fault

/-!
# Field names

How the name of a field is written as the key of an object literal. A name made of ASCII letters,
digits and underscores stands bare; any other name is put between single quotes as it is, without
escapes.
-/

namespace RouteRules.FieldName

/-- Whether the character may occur in a bare key: ASCII letters, digits and the underscore. -/
def isWordChar (c : Char) : Bool := c.isAlphanum || c == '_'

/-- Whether a name can stand bare. -/
def isBare (name : String) : Bool := name != "" && name.toList.all isWordChar

/-- A name as a key. -/
def quote (name : String) : String := if isBare name then name else "'" ++ name ++ "'"

/-- The text of a name as the document has it. A blank name counts as the empty text, and any
other name must be a text. -/
def ofValue (name : Value) : Except Fault String :=
  if name.isBlank then .ok ""
  else match name with
    | .text s => .ok s
    | _ => .error .textExpected

/-- The key of a field. -/
def key (name : Value) : Except Fault String := (ofValue name).map quote

end RouteRules.FieldName
