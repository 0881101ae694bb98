import Mathlib.Data.List.Infix
import RouteRules.Proofs.Expr.Pieces
import RouteRules.Proofs.Text.Cutting

/-!
# Code that can be cut back

Code is closed if each text that is spliced into it is closed. The brackets that the code itself
adds are closed where they are opened, and all its new lines but those between fields stand within
brackets. So the text of every object in it can be cut back into the texts of its fields.

## Main definitions

- `Rule.texts`, `Expr.IsClosed`, `FieldsClosed`: the texts that are spliced in, and that they are
  closed.
- `Expr.wrappers`: the fields of each object in an expression.
- `CutsInto`, `IsObjectOf`: the text of an object is cut into given texts, or into those of fields.

## Main statements

- `Rule.sealed_text`, `Expr.sealed_render`: the text of closed code is sealed.
- `cutsInto_objectText`: the text of an object on sealed texts is cut into these.
- `Expr.wrapper_isObjectOf`: so are the texts of all objects in a closed expression.
-/

namespace RouteRules

open Nesting

/-! ## Rules -/

namespace Rule

/-- The texts that are spliced into the text of a rule. -/
def texts : Rule → List String
  | stringType validator => [validator]
  | numberType validator => [validator]
  | integer => []
  | format _ => []
  | pattern p => [p]
  | members ms => ms
  | minimum limit => [limit]
  | maximum limit => [limit]
  | required => []
  | description wording => [wording]
  | append code => [code]

end Rule

theorem closed_intercalate {separator : String} (hseparator : Closed separator)
    {texts : List String} (h : ∀ t ∈ texts, Closed t) : Closed (separator.intercalate texts) := by
  induction texts with
  | nil =>
    rw [String.intercalate_nil]
    decide +kernel
  | cons first rest ih =>
    have hfirst := h first (List.mem_cons_self ..)
    have hrest := ih fun t ht => h t (List.mem_cons_of_mem _ ht)
    cases rest with
    | nil =>
      rw [String.intercalate_singleton]
      exact hfirst
    | cons second others =>
      rw [String.intercalate_cons_cons]
      exact (hfirst.append hseparator).append hrest

namespace Rule

theorem closed_method (format : TextFormat) : Closed format.method := by
  cases format <;> decide +kernel

theorem closed_quoteMembers {members : List String} (h : ∀ t ∈ members, Closed t) :
    Closed (quoteMembers members) := by
  have hquote : Closed "'" := by decide +kernel
  have hseparator : Closed "', '" := by decide +kernel
  exact (hquote.append (closed_intercalate hseparator h)).append hquote

theorem closed_argument {r : Rule} (h : ∀ t ∈ r.texts, Closed t) : Closed r.argument := by
  have hempty : Closed "" := by decide +kernel
  cases r with
  | integer | required => exact hempty
  | format f => exact closed_method f
  | members ms => exact closed_quoteMembers h
  | _ => exact h _ (List.mem_singleton.mpr rfl)

/-- What a wording opens before its slot, it closes after it. -/
theorem reads_template (kind : Kind) :
    ∃ stack, Reads [] kind.template.opening stack ∧ Reads stack kind.template.closing [] := by
  cases kind with
  | pattern | members | minimum | maximum | description =>
    exact ⟨[')'], by decide +kernel, by decide +kernel⟩
  | _ => exact ⟨[], by decide +kernel, by decide +kernel⟩

/-- The text of a rule is sealed, if the texts that are spliced into it are closed. -/
theorem sealed_text {r : Rule} (h : ∀ t ∈ r.texts, Closed t) : Sealed r.text := by
  obtain ⟨stack, hopening, hclosing⟩ := reads_template r.kind
  rw [text, Template.fill]
  -- The wordings that have no slot put nothing between their two halves.
  split
  · exact hopening.append hclosing
  · exact (hopening.append ((closed_argument h).sealed.reads stack)).append hclosing

theorem sealed_chainText {rules : List Rule} (h : ∀ r ∈ rules, ∀ t ∈ r.texts, Closed t) :
    Sealed (chainText rules) := by
  induction rules with
  | nil =>
    show Sealed ""
    decide +kernel
  | cons r rest ih =>
    rw [chainText, List.map_cons, String.join_cons]
    exact (sealed_text (h r (List.mem_cons_self ..))).append
      (ih fun other hother => h other (List.mem_cons_of_mem _ hother))

end Rule

/-! ## Expressions -/

/-- Induction over an expression. The fields of an object are taken one by one. -/
@[induction_eliminator]
theorem Expr.induction {motive : Expr → Prop}
    (chain : ∀ base constraints modifiers, motive (.chain base constraints modifiers))
    (verbatim : ∀ code modifiers, motive (.verbatim code modifiers))
    (array : ∀ items modifiers, motive items → motive (.array items modifiers))
    (object : ∀ fields modifiers, (∀ f ∈ fields, motive f.2) → motive (.object fields modifiers))
    (e : Expr) : motive e := by
  -- The recursor also has a motive for lists of fields and one for a field.
  refine @Expr.rec motive (fun fields => ∀ f ∈ fields, motive f.2) (fun field => motive field.2)
    chain verbatim array object ?nil ?cons ?field e
  case nil =>
    intro f hf
    cases hf
  case cons =>
    intro first rest hfirst hrest f hf
    rcases List.mem_cons.mp hf with rfl | hf
    · exact hfirst
    · exact hrest f hf
  case field =>
    intro key value hvalue
    exact hvalue

mutual

/-- Every text that is spliced into the expression is closed. -/
def Expr.IsClosed : Expr → Prop
  | .chain _ constraints modifiers => ∀ r ∈ constraints ++ modifiers, ∀ t ∈ r.texts, Closed t
  | .verbatim code modifiers => Closed code ∧ ∀ r ∈ modifiers, ∀ t ∈ r.texts, Closed t
  | .array items modifiers => items.IsClosed ∧ ∀ r ∈ modifiers, ∀ t ∈ r.texts, Closed t
  | .object fields modifiers => FieldsClosed fields ∧ ∀ r ∈ modifiers, ∀ t ∈ r.texts, Closed t

/-- Every text that is spliced into the fields is closed, and so are their keys. -/
def FieldsClosed : List (String × Expr) → Prop
  | [] => True
  | (key, value) :: rest => Closed key ∧ value.IsClosed ∧ FieldsClosed rest

end

mutual

/-- The fields of each object in the expression, those of an object before those of the objects in
it. -/
def Expr.wrappers : Expr → List (List (String × Expr))
  | .chain _ _ _ => []
  | .verbatim _ _ => []
  | .array items _ => items.wrappers
  | .object fields _ => fields :: wrappersOfAll fields

/-- The fields of each object in the values of the fields. -/
def wrappersOfAll : List (String × Expr) → List (List (String × Expr))
  | [] => []
  | (_, value) :: rest => value.wrappers ++ wrappersOfAll rest

end

theorem fieldsClosed_iff {fields : List Field} :
    FieldsClosed fields ↔ ∀ f ∈ fields, Closed f.1 ∧ f.2.IsClosed := by
  induction fields with
  | nil => simp [FieldsClosed]
  | cons f rest ih =>
    obtain ⟨key, value⟩ := f
    simp only [FieldsClosed, ih, List.forall_mem_cons, and_assoc]

theorem mem_wrappersOfAll {fields : List Field} {w : List Field} :
    w ∈ wrappersOfAll fields ↔ ∃ f ∈ fields, w ∈ f.2.wrappers := by
  induction fields with
  | nil => simp [wrappersOfAll]
  | cons f rest ih =>
    obtain ⟨key, value⟩ := f
    simp only [wrappersOfAll, List.mem_append, ih, List.mem_cons, exists_eq_or_imp]

/-! ## The text of closed code is sealed -/

theorem wellNested_join {pieces : List String} (h : ∀ p ∈ pieces, Sealed p) :
    WellNested (fieldSeparator.intercalate pieces) := by
  have hseparator : WellNested fieldSeparator := by decide +kernel
  induction pieces with
  | nil => decide +kernel
  | cons first rest ih =>
    have hfirst := (h first (List.mem_cons_self ..)).wellNested
    have hrest := ih fun p hp => h p (List.mem_cons_of_mem _ hp)
    -- A separator follows every piece but the last.
    cases rest with
    | nil =>
      rw [String.intercalate_singleton]
      exact hfirst
    | cons second others =>
      rw [String.intercalate_cons_cons]
      exact (hfirst.append hseparator).append hrest

variable {validator : String}

theorem sealed_objectText (hvalidator : Closed validator) {pieces : List String}
    (h : ∀ p ∈ pieces, Sealed p) : Sealed (objectText validator pieces) := by
  have hopening : Reads [] ".object().keys(\x7b\n    " ['\x7d', ')'] := by decide +kernel
  have hclosing : Reads ['\x7d', ')'] "\n  \x7d)" [] := by decide +kernel
  have hpieces := (wellNested_join h).reads '\x7d' [')']
  exact ((Reads.append hvalidator.sealed hopening).append hpieces).append hclosing

theorem sealed_wrapItems (hvalidator : Closed validator) {items : String} (h : Sealed items) :
    Sealed (wrapItems validator items) := by
  have hopening : Reads [] ".array().items(\n    " [')'] := by decide +kernel
  have hclosing : Reads [')'] "\n)" [] := by decide +kernel
  exact ((Reads.append hvalidator.sealed hopening).append (h.reads [')'])).append hclosing

theorem sealed_pieces {fields : List Field}
    (h : ∀ f ∈ fields, Closed f.1 ∧ Sealed (f.2.render validator)) :
    ∀ p ∈ fields.map (pieceText validator), Sealed p := by
  have hcolon : Sealed ": " := by decide +kernel
  rw [List.forall_mem_map]
  intro f hf
  exact ((h f hf).1.sealed.append hcolon).append (h f hf).2

/-- The text of a closed expression is sealed. -/
theorem Expr.sealed_render (hvalidator : Closed validator) {e : Expr} (h : e.IsClosed) :
    Sealed (e.render validator) := by
  induction e with
  | chain base constraints modifiers =>
    have hbase : ∀ t ∈ (base.rule validator).texts, Closed t := by
      intro t ht
      cases base <;> exact List.mem_singleton.mp ht ▸ hvalidator
    have hconstraints : Sealed (Rule.chainText (base.rule validator :: constraints)) := by
      apply Rule.sealed_chainText
      exact List.forall_mem_cons.mpr ⟨hbase, fun r hr => h r (List.mem_append_left _ hr)⟩
    exact hconstraints.append (Rule.sealed_chainText fun r hr => h r (List.mem_append_right _ hr))
  | verbatim code modifiers => exact h.1.sealed.append (Rule.sealed_chainText h.2)
  | array items modifiers ih =>
    exact (sealed_wrapItems hvalidator (ih h.1)).append (Rule.sealed_chainText h.2)
  | object fields modifiers ih =>
    rw [Expr.render, wrapFields_renderFields]
    have hfields := fieldsClosed_iff.mp h.1
    -- A field is its key, a colon and its value, none of which opens what it does not close.
    have hpieces := sealed_pieces fun f hf => ⟨(hfields f hf).1, ih f hf (hfields f hf).2⟩
    exact (sealed_objectText hvalidator hpieces).append (Rule.sealed_chainText h.2)

/-! ## Objects are cut back into their fields -/

/-- The text of an object, which is cut into the given texts at the separators outside of brackets
between its braces. -/
def CutsInto (validator s : String) (pieces : List String) : Prop :=
  ∃ body : String, s = validator ++ ".object().keys(\x7b\n    " ++ body ++ "\n  \x7d)" ∧
    Cutting.cut 0 body.toList = pieces.map String.toList

theorem cutsInto_objectText (validator : String) {pieces : List String} (hne : pieces ≠ [])
    (h : ∀ p ∈ pieces, Sealed p) : CutsInto validator (objectText validator pieces) pieces :=
  ⟨fieldSeparator.intercalate pieces, rfl, Cutting.cut_join hne h⟩

/-- There is one way only to cut the text of an object. -/
theorem CutsInto.unique {validator s : String} {pieces others : List String}
    (h : CutsInto validator s pieces) (h' : CutsInto validator s others) : pieces = others := by
  obtain ⟨body, hs, hcut⟩ := h
  obtain ⟨body', hs', hcut'⟩ := h'
  -- Between the same opening and the same closing there is the same body, and cutting is a
  -- function.
  have hbody : body = body' := by
    rw [hs] at hs'
    simpa [← String.toList_inj, String.toList_append] using hs'
  subst hbody
  exact List.map_injective_iff.mpr (fun _ _ => String.toList_inj.mp) (hcut.symm.trans hcut')

/-! ## The objects in an expression -/

/-- What is joined stands in the joined text. -/
theorem infix_join {pieces : List String} {p : String} (h : p ∈ pieces) :
    p.toList <:+: (fieldSeparator.intercalate pieces).toList := by
  induction pieces with
  | nil => cases h
  | cons first rest ih =>
    cases rest with
    | nil =>
      rw [List.mem_singleton.mp h, String.intercalate_singleton]
    | cons second others =>
      rw [String.intercalate_cons_cons, String.toList_append]
      rcases List.mem_cons.mp h with rfl | h
      · rw [String.toList_append]
        exact List.infix_append_of_infix_left List.infix_append_left
      · exact List.infix_append_of_infix_right (ih h)

namespace Expr

/-- The text of each object in an expression stands in the text of the expression. -/
theorem infix_render {e : Expr} {w : List Field} (hw : w ∈ e.wrappers) :
    (objectText validator (w.map (pieceText validator))).toList <:+:
      (e.render validator).toList := by
  induction e with
  | chain base constraints modifiers => cases hw
  | verbatim code modifiers => cases hw
  -- The object is in the items, which are spliced in between the opening and the closing.
  | array items modifiers ih =>
    rw [render, wrapItems, String.toList_append, String.toList_append, String.toList_append]
    exact (ih hw).trans (List.infix_append_of_infix_left (List.infix_append ..))
  | object fields modifiers ih =>
    rw [render, wrapFields_renderFields, String.toList_append]
    apply List.infix_append_of_infix_left
    -- It is this object, or one in the value of a field.
    rcases List.mem_cons.mp hw with rfl | hw
    · exact List.infix_rfl
    · obtain ⟨f, hf, hw⟩ := mem_wrappersOfAll.mp hw
      -- Value, field, joined fields, object: each of them stands in the next.
      have hpiece : (f.2.render validator).toList <:+: (pieceText validator f).toList := by
        rw [pieceText, String.toList_append]
        exact List.infix_append_right
      have hjoin := infix_join (List.mem_map_of_mem (f := pieceText validator) hf)
      have hobject : (fieldSeparator.intercalate (fields.map (pieceText validator))).toList <:+:
          (objectText validator (fields.map (pieceText validator))).toList := by
        rw [objectText, String.toList_append, String.toList_append]
        exact List.infix_append ..
      exact (ih f hf hw).trans (hpiece.trans (hjoin.trans hobject))

/-- The objects in a closed expression are closed. -/
theorem fieldsClosed_of_mem_wrappers {e : Expr} (h : e.IsClosed) {w : List Field}
    (hw : w ∈ e.wrappers) : FieldsClosed w := by
  induction e with
  | chain base constraints modifiers => cases hw
  | verbatim code modifiers => cases hw
  | array items modifiers ih => exact ih h.1 hw
  | object fields modifiers ih =>
    rcases List.mem_cons.mp hw with rfl | hw
    · exact h.1
    · obtain ⟨f, hf, hw⟩ := mem_wrappersOfAll.mp hw
      exact ih f hf (fieldsClosed_iff.mp h.1 f hf).2 hw

end Expr

theorem sealed_pieces_of_closed (hvalidator : Closed validator) {fields : List Field}
    (h : FieldsClosed fields) : ∀ p ∈ fields.map (pieceText validator), Sealed p :=
  sealed_pieces fun f hf =>
    ⟨(fieldsClosed_iff.mp h f hf).1, Expr.sealed_render hvalidator (fieldsClosed_iff.mp h f hf).2⟩

/-- The text is that of an object, which is well nested and can be cut back into the texts of these
fields. -/
def IsObjectOf (validator s : String) (fields : List Field) : Prop :=
  WellNested s ∧ CutsInto validator s (fields.map (pieceText validator))

theorem isObjectOf_objectText (hvalidator : Closed validator) {fields : List Field}
    (hne : fields ≠ []) (h : FieldsClosed fields) :
    IsObjectOf validator (objectText validator (fields.map (pieceText validator))) fields := by
  have hpieces := sealed_pieces_of_closed hvalidator h
  refine ⟨(sealed_objectText hvalidator hpieces).wellNested, cutsInto_objectText _ ?_ hpieces⟩
  exact fun hnil => hne (List.map_eq_nil_iff.mp hnil)

/-- Every object in a closed expression stands in its text and can be cut back into its fields. -/
theorem Expr.wrapper_isObjectOf (hvalidator : Closed validator) {e : Expr} (h : e.IsClosed)
    {w : List Field} (hw : w ∈ e.wrappers) (hne : w ≠ []) :
    ∃ s : String, s.toList <:+: (e.render validator).toList ∧ IsObjectOf validator s w :=
  ⟨_, infix_render hw,
    isObjectOf_objectText hvalidator hne (fieldsClosed_of_mem_wrappers h hw)⟩

end RouteRules
