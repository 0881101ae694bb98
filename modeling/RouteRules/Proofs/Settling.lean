import RouteRules.Proofs.Schema.Induction
import RouteRules.Proofs.Schema.Reading

/-!
# Steps that settle

No step of a compilation but the expansion of references can be endless: not the writing of keys and
rules, which blames no schema, and not the look at a component.

## Main statements

- `Info.settles_expr`, `Info.settles_fields`: a schema settles if its definition does.
- `Context.settles_content`: finding out what a component is settles.
-/

namespace RouteRules

/-! ## Keys and rules -/

theorem FieldName.blameless_key (name : Value) : Blameless (FieldName.key name) := by
  have h : Blameless (FieldName.ofValue name) := by
    unfold FieldName.ofValue
    split
    · exact blameless_ok _
    · split <;> simp
  exact h.map quote

theorem blameless_literal (v : Value) : Blameless v.literal := by
  unfold Value.literal
  split
  case h_3 =>
    unfold intLiteral
    split
    · exact blameless_ok _
    · split <;> simp
  all_goals exact blameless_ok _

theorem blameless_memberText (v : Value) : Blameless (Rule.memberText v) := by
  unfold Rule.memberText
  split
  · exact blameless_ok _
  · exact blameless_literal _

theorem blameless_stringConstraints (formats : List Value) (pattern : Value)
    (members : Option (List Value)) : Blameless (stringConstraints formats pattern members) := by
  unfold stringConstraints
  cases members with
  | none => exact blameless_ok _
  | some vs =>
    have h : Blameless (vs.mapM Rule.memberText) := Blameless.mapM fun v _ => blameless_memberText v
    exact h.bind fun texts => blameless_ok _

theorem blameless_limitRule (rule : String → Rule) (limit : Value) :
    Blameless (limitRule rule limit) := by
  unfold limitRule
  split
  · exact blameless_ok _
  · exact (blameless_literal limit).map _

theorem blameless_numberConstraints (whole : Bool) (minimum maximum : Value) :
    Blameless (numberConstraints whole minimum maximum) := by
  unfold numberConstraints
  apply (blameless_limitRule _ _).bind
  intro lower
  exact (blameless_limitRule _ _).bind fun upper => blameless_ok _

/-! ## Schemas -/

namespace Info

variable (info : Info)

theorem settles_expr {definition : Except Fault (List Rule → Expr)} (h : Settles definition) :
    Settles (info.expr definition) := by
  unfold Info.expr
  split
  · exact h.bind fun d _ => settles_ok _
  · exact settles_ok _
  · simp

theorem settles_fields {value : Except Fault Expr} (h : Settles value) :
    Settles (info.fields value) := by
  unfold Info.fields
  apply h.bind
  intro e _
  exact (FieldName.blameless_key _).settles.bind fun key _ => settles_ok _

end Info

/-! ## Components -/

theorem Settings.blameless_componentName (s : Settings) (reference : Value) :
    Blameless (s.componentName reference) := by
  unfold Settings.componentName
  split <;> simp

namespace Context

variable (c : Context) (r : Reference)

theorem settles_resolve (reference name : Value) : Settles (c.resolve reference name) := by
  unfold resolve
  apply (c.settings.blameless_componentName reference).settles.bind
  intro component _
  split
  · simp
  · exact (Schema.blameless_read _ _ _).settles

/-- Finding out what a component is settles. -/
theorem settles_content : Settles (c.content r) := by
  unfold content
  -- The three answers: another name, properties, or the fault of a component without them.
  apply (c.settles_resolve r.path r.operationId).bind
  intro schema _
  split
  · exact settles_ok _
  · exact settles_ok _
  · apply (c.settings.blameless_componentName r.path).settles.bind
    intro name _
    simp

end Context

end RouteRules
