import RouteRules.Value.Literal

/-!
# Rules

A rule is one link in the chain of calls that an expression is: a constructor, a constraint or a
modifier. Each kind of rule has one wording, a `Template` with at most one slot.

## Main definitions

- `Rule.Kind`, `Rule.Kind.template`: the kinds of rules and how they are worded.
- `Rule`: a rule with the texts that it is about.
- `Rule.text`: the text of a rule.
-/

namespace RouteRules

/-- The formats of texts that have a rule of their own. -/
inductive TextFormat where
  | uuid
  | email
  | uri
  | hostname
deriving DecidableEq

namespace TextFormat

/-- All formats. Where several apply, the first one counts. -/
def all : List TextFormat := [uuid, email, uri, hostname]

/-- What the format is called in documents. -/
def name : TextFormat → String
  | uuid => "uuid"
  | email => "email"
  | uri => "uri"
  | hostname => "hostname"

/-- What the format is called in generated code. -/
def method : TextFormat → String
  | uuid => "guid"
  | email => "email"
  | uri => "uri"
  | hostname => "hostname"

def ofName? (name : String) : Option TextFormat := all.find? (·.name == name)

/-- The format of highest rank among `formats`. -/
def select (formats : List Value) : Option TextFormat :=
  all.find? fun format => formats.contains (.text format.name)

end TextFormat

/-- A wording with at most one slot for a text. -/
structure Template where
  opening : String
  /-- The name of the slot, if there is one. -/
  slot : Option String := none
  closing : String := ""

namespace Template

/-- The wording with a text in its slot. -/
def fill (t : Template) (argument : String) : String :=
  match t.slot with
  | none => t.opening ++ t.closing
  | some _ => t.opening ++ argument ++ t.closing

end Template

/-- A rule and the texts that it is about. -/
inductive Rule where
  | stringType (validator : String)
  | numberType (validator : String)
  | integer
  | format (format : TextFormat)
  | pattern (pattern : String)
  | members (members : List String)
  | minimum (limit : String)
  | maximum (limit : String)
  | required
  | description (wording : String)
  /-- A text that is spliced in as it is. -/
  | append (code : String)
deriving DecidableEq

namespace Rule

/-- The kinds of rules. -/
inductive Kind where
  | stringType
  | numberType
  | integer
  | format
  | pattern
  | members
  | minimum
  | maximum
  | required
  | description
  | append
deriving DecidableEq

def kind : Rule → Kind
  | stringType _ => .stringType
  | numberType _ => .numberType
  | integer => .integer
  | format _ => .format
  | pattern _ => .pattern
  | members _ => .members
  | minimum _ => .minimum
  | maximum _ => .maximum
  | required => .required
  | description _ => .description
  | append _ => .append

/-- The wording of each kind of rule. -/
def Kind.template : Kind → Template
  | stringType => { opening := "", slot := some "validator", closing := ".string()" }
  | numberType => { opening := "", slot := some "validator", closing := ".number()" }
  | integer => { opening := ".integer()" }
  | format => { opening := ".", slot := some "method", closing := "()" }
  | pattern => { opening := ".regex(", slot := some "pattern", closing := ")" }
  | members => { opening := ".valid(", slot := some "values", closing := ")" }
  | minimum => { opening := ".min(", slot := some "minimum", closing := ")" }
  | maximum => { opening := ".max(", slot := some "maximum", closing := ")" }
  | required => { opening := ".required()" }
  | description => { opening := ".description('", slot := some "description", closing := "')" }
  | append => { opening := "", slot := some "text" }

/-- The members of an allow-list, each between single quotes. The empty list is written as one empty
member. -/
def quoteMembers (members : List String) : String := "'" ++ "', '".intercalate members ++ "'"

/-- What stands in the slot of the rule's wording. -/
def argument : Rule → String
  | stringType validator => validator
  | numberType validator => validator
  | integer => ""
  | format f => f.method
  | pattern p => p
  | members ms => quoteMembers ms
  | minimum limit => limit
  | maximum limit => limit
  | required => ""
  | description wording => wording
  | append code => code

/-- The text of a rule. -/
def text (r : Rule) : String := r.kind.template.fill r.argument

/-- The text of a chain of rules. -/
def chainText (rules : List Rule) : String := String.join (rules.map text)

end Rule

end RouteRules
