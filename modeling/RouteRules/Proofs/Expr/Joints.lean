import RouteRules.Proofs.Rule.Chains

/-!
# Where the name of the validator stands

An expression is written with the name of the validator in front of each text, number, array and
object that it builds, and nowhere else. Apart from the name, its text is always the same.

## Main definitions

- `Spells`: a text is the same whatever the name, but for a number of places where the name stands.
- `Expr.constructors`: the texts, numbers, arrays and objects that an expression builds.

## Main statements

- `Spells.append`: texts that are written one after the other.
- `Expr.spells_render`: an expression has one place for the name in each constructor.
-/

namespace RouteRules

/-! ## Texts with places for a name -/

/-- For every name, the text is the same pieces with the name between them, `joints` times. -/
def Spells (text : String → String) (joints : Nat) : Prop :=
  ∃ pieces : List String, pieces.length = joints + 1 ∧ ∀ name, text name = name.intercalate pieces

/-- Where one list of pieces ends and the other begins, no name stands. -/
theorem intercalate_append_intercalate (name last first : String) (front rest : List String) :
    name.intercalate (front ++ [last]) ++ name.intercalate (first :: rest) =
      name.intercalate (front ++ (last ++ first) :: rest) := by
  -- With an empty front the last piece of it is the first of all, and nothing stands before it.
  cases front with
  | nil =>
    rw [List.nil_append, List.nil_append, String.intercalate_singleton,
      String.intercalate_cons_append]
  | cons piece others =>
    have hfront : piece :: others ≠ [] := List.cons_ne_nil _ _
    rw [String.intercalate_append_of_ne_nil hfront (List.cons_ne_nil _ _),
      String.intercalate_append_of_ne_nil hfront (List.cons_ne_nil _ _),
      String.intercalate_singleton, String.intercalate_cons_append]
    simp only [String.append_assoc]

namespace Spells

variable {text other : String → String} {m n : Nat}

theorem const (s : String) : Spells (fun _ => s) 0 :=
  ⟨[s], rfl, fun _ => String.intercalate_singleton.symm⟩

theorem name : Spells (fun name => name) 1 := by
  refine ⟨["", ""], rfl, fun name => ?_⟩
  rw [String.intercalate_cons_cons, String.intercalate_singleton, String.empty_append,
    String.append_empty]

theorem append (h : Spells text m) (hother : Spells other n) :
    Spells (fun name => text name ++ other name) (m + n) := by
  obtain ⟨pieces, hlength, htext⟩ := h
  obtain ⟨others, hothers, hother⟩ := hother
  have hpieces : pieces ≠ [] := List.ne_nil_of_length_eq_add_one hlength
  obtain ⟨first, rest, rfl⟩ :=
    List.exists_cons_of_ne_nil (List.ne_nil_of_length_eq_add_one hothers)
  -- The last piece of the one text and the first of the other become one piece.
  refine ⟨pieces.dropLast ++ (pieces.getLast hpieces ++ first) :: rest, ?_, fun name => ?_⟩
  · rw [List.length_cons] at hothers
    rw [List.length_append, List.length_dropLast, List.length_cons]
    omega
  · show text name ++ other name = _
    rw [htext, hother, ← intercalate_append_intercalate, List.dropLast_concat_getLast]

theorem congr (h : Spells text m) (htext : ∀ name, other name = text name) (hjoints : n = m) :
    Spells other n := by
  rw [hjoints, funext htext]
  exact h

end Spells

/-! ## Constructors of expressions -/

mutual

/-- How many texts, numbers, arrays and objects the expression builds. In a verbatim text there are
none. -/
def Expr.constructors : Expr → Nat
  | .chain _ _ _ => 1
  | .verbatim _ _ => 0
  | .array items _ => items.constructors + 1
  | .object fields _ => constructorsOfFields fields + 1

/-- How many the values of the fields build. -/
def constructorsOfFields : List (String × Expr) → Nat
  | [] => 0
  | (_, value) :: rest => value.constructors + constructorsOfFields rest

end

/-- Fields that are joined by separators have the name where their values have it. -/
theorem spells_pieces {fields : List Field}
    (h : ∀ field ∈ fields, Spells (field.2.render ·) field.2.constructors) :
    Spells (fun name => fieldSeparator.intercalate (fields.map (pieceText name)))
      (constructorsOfFields fields) := by
  induction fields with
  | nil => exact (Spells.const "").congr (fun _ => rfl) rfl
  | cons field rest ih =>
    obtain ⟨key, value⟩ := field
    have hvalue : Spells (pieceText · (key, value)) value.constructors :=
      ((Spells.const (key ++ ": ")).append (h _ (List.mem_cons_self ..))).congr (fun _ => rfl)
        (Nat.zero_add _).symm
    have hrest := ih fun other hother => h other (List.mem_cons_of_mem _ hother)
    cases rest with
    | nil => exact hvalue.congr (fun _ => String.intercalate_singleton) rfl
    | cons next others =>
      -- The separator is a piece without the name.
      apply ((hvalue.append (.const fieldSeparator)).append hrest).congr
      · intro name
        simp only [List.map_cons, String.intercalate_cons_cons]
      · rw [constructorsOfFields]
        rfl

/-- In the text of an expression, the name of the validator stands once for each constructor. -/
theorem Expr.spells_render (e : Expr) : Spells (e.render ·) e.constructors := by
  -- Each constructor writes the name once, in front of its own method, and then its parts.
  induction e with
  | chain base constraints modifiers =>
    apply (Spells.name.append (.const
      (base.callText ++ Rule.chainText constraints ++ Rule.chainText modifiers))).congr
    · intro name
      simp only [render, Rule.chainText_cons, Rule.text_baseRule, String.append_assoc]
    · rfl
  -- What is taken over as it is counts as a constant, whatever is written in it.
  | verbatim code modifiers => exact .const _
  | array items modifiers ih =>
    apply (((Spells.name.append (.const ".array().items(\n    ")).append ih).append
      (.const ("\n)" ++ Rule.chainText modifiers))).congr
    · intro name
      simp only [render, wrapItems, String.append_assoc]
    · rw [constructors]
      omega
  | object fields modifiers ih =>
    apply (((Spells.name.append (.const ".object().keys(\x7b\n    ")).append
      (spells_pieces ih)).append (.const ("\n  \x7d)" ++ Rule.chainText modifiers))).congr
    · intro name
      simp only [render, wrapFields_renderFields, objectText, String.append_assoc]
    · rw [constructors]
      omega

end RouteRules
