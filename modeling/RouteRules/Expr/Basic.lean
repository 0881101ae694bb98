import RouteRules.Rule.Chain

/-!
# Expressions

An `Expr` is generated code before it is written down. It does not know the object that it is
built on; that is given when it is written.

## Main definitions

- `Expr`, `Field`: the code of a schema and the fields of an object.
- `Expr.render`, `renderFields`: their text. Each field ends in a separator, and the wrapper of an
  object drops the last one.
-/

namespace RouteRules

/-- Generated code: a definition and its modifiers. -/
inductive Expr where
  | chain (base : Base) (constraints modifiers : List Rule)
  /-- A text that stands in place of a definition. -/
  | verbatim (code : String) (modifiers : List Rule)
  | array (items : Expr) (modifiers : List Rule)
  /-- An object with its fields, each under the text of its key. -/
  | object (fields : List (String × Expr)) (modifiers : List Rule)

/-- A field of an object: the text of its key, and its value. -/
abbrev Field := String × Expr

/-- What ends a field. -/
def fieldSeparator : String := ",\n    "

/-- The text without one separator at its end, if there is one. -/
def dropSeparator (s : String) : String :=
  if fieldSeparator.toList.isSuffixOf s.toList then
    String.ofList (s.toList.take (s.toList.length - fieldSeparator.toList.length))
  else s

/-- The code of an object with the given text of its fields. -/
def wrapFields (validator fields : String) : String :=
  validator ++ ".object().keys(\x7b\n    " ++ dropSeparator fields ++ "\n  \x7d)"

/-- The code of an array with the given text of its items. -/
def wrapItems (validator items : String) : String :=
  validator ++ ".array().items(\n    " ++ items ++ "\n)"

/-- A field with its separator. -/
def fieldText (key value : String) : String := key ++ ": " ++ value ++ fieldSeparator

mutual

/-- The text of an expression. -/
def Expr.render (validator : String) : Expr → String
  | .chain base constraints modifiers =>
    Rule.chainText (base.rule validator :: constraints) ++ Rule.chainText modifiers
  | .verbatim code modifiers => code ++ Rule.chainText modifiers
  | .array items modifiers =>
    wrapItems validator (items.render validator) ++ Rule.chainText modifiers
  | .object fields modifiers =>
    wrapFields validator (renderFields validator fields) ++ Rule.chainText modifiers

/-- The text of fields, each with its separator. -/
def renderFields (validator : String) : List (String × Expr) → String
  | [] => ""
  | (key, value) :: rest =>
    fieldText key (value.render validator) ++ renderFields validator rest

end

end RouteRules
