import RouteRules.Proofs.Rule.Chains
import RouteRules.Proofs.Schema.Typed

/-!
# Allow-lists read back

An allow-list is written as literals in single quotes, with a comma and a space between two of them.
The quotes around the first and the last member come from elsewhere than those between members, so
there are quotes even where there are no members. Read back, every list but the empty one has its
members again, whatever characters other than quotes they are made of.

## Main definitions

- `AllowList.read?`: the members that an allow-list says.

## Main statements

- `AllowList.read?_quoteMembers`: members are read back, if there are any.
- `AllowList.text_ofMembers`: the same for the rule that values ask for.
-/

namespace RouteRules

namespace AllowList

/-! ## Reading -/

mutual

/-- Reads on inside a literal, and then the literals after it. -/
def inside? : List Char → Option (List (List Char))
  | [] => none
  | c :: cs =>
    if c = '\'' then ([] :: ·) <$> after? cs
    else match inside? cs with
      | some (member :: members) => some ((c :: member) :: members)
      | _ => none

/-- Reads what follows a literal: nothing, or a comma, a space and another literal. -/
def after? : List Char → Option (List (List Char))
  | [] => some []
  | ',' :: ' ' :: '\'' :: cs => inside? cs
  | _ => none

end

/-- The members that the text between the brackets of an allow-list says. -/
def read? (argument : String) : Option (List String) :=
  match argument.toList with
  | [] => some []
  | '\'' :: cs => List.map String.ofList <$> inside? cs
  | _ => none

/-! ## Reading back -/

/-- A literal ends at the first quote. -/
theorem inside?_append {member cs : List Char} (h : '\'' ∉ member) {members : List (List Char)}
    (hcs : after? cs = some members) :
    inside? (member ++ '\'' :: cs) = some (member :: members) := by
  induction member with
  | nil =>
    rw [List.nil_append, inside?, if_pos rfl, hcs]
    rfl
  -- No character of the member ends the literal.
  | cons c member ih =>
    rw [List.mem_cons, not_or] at h
    rw [List.cons_append, inside?, if_neg (Ne.symm h.1), ih h.2]

/-- Behind the first quote, all members are read. The induction moves from one member to the next,
over the quotes that end the one and begin the other. -/
theorem inside?_intercalate (first : String) (rest : List String)
    (h : ∀ m ∈ first :: rest, '\'' ∉ m.toList) :
    inside? (("', '".intercalate (first :: rest)).toList ++ ['\'']) =
      some ((first :: rest).map String.toList) := by
  induction rest generalizing first with
  | nil =>
    rw [String.intercalate_singleton]
    exact inside?_append (h first (List.mem_cons_self ..)) rfl
  | cons next rest ih =>
    have hseparator : "', '".toList = '\'' :: ',' :: ' ' :: ['\''] := rfl
    -- The separator ends the first literal, and its last quote begins the next one.
    have htext : ("', '".intercalate (first :: next :: rest)).toList ++ ['\''] = first.toList ++
        '\'' :: ',' :: ' ' :: '\'' :: (("', '".intercalate (next :: rest)).toList ++ ['\'']) := by
      rw [String.intercalate_cons_cons, String.toList_append, String.toList_append, hseparator]
      simp
    have hnext := ih next fun m hm => h m (List.mem_cons_of_mem _ hm)
    rw [htext]
    exact inside?_append (h first (List.mem_cons_self ..)) (by rw [after?, hnext])

/-- Members are read back, if there are any. -/
theorem read?_quoteMembers {members : List String} (hne : members ≠ [])
    (h : ∀ m ∈ members, '\'' ∉ m.toList) : read? (Rule.quoteMembers members) = some members := by
  obtain ⟨first, rest, rfl⟩ := List.exists_cons_of_ne_nil hne
  have htext : (Rule.quoteMembers (first :: rest)).toList =
      '\'' :: (("', '".intercalate (first :: rest)).toList ++ ['\'']) := by
    rw [Rule.quoteMembers, String.toList_append, String.toList_append]
    rfl
  rw [read?, htext]
  simp only [inside?_intercalate first rest h]
  simp

/-- Without members there still is a literal. -/
theorem read?_quoteMembers_nil : read? (Rule.quoteMembers []) = some [""] := by decide +kernel

/-- An allow-list of texts, numbers, truth values and nulls says the texts of its members, in order
and no others, unless it has none. Without members it says the empty text. -/
theorem text_ofMembers {vs : List Value} (hvs : ∀ v ∈ vs, v.isMember = true) :
    ∃ texts argument, vs.mapM Rule.memberText = .ok texts ∧ texts.length = vs.length ∧
      Rule.text <$> Rule.ofMembers (.list vs) = .ok (".valid(" ++ argument ++ ")") ∧
      ((∀ t ∈ texts, '\'' ∉ t.toList) →
        (read? argument = some texts ↔ vs ≠ []) ∧ (vs = [] → read? argument = some [""])) := by
  obtain ⟨texts, htexts⟩ := exists_mapM_eq_ok fun v hv => memberText_ok (hvs v hv)
  have hlength := (mapM_eq_ok.mp htexts).length_eq
  refine ⟨texts, Rule.quoteMembers texts, htexts, hlength.symm, ?_, fun hquotes => ?_⟩
  · have hrule : Rule.ofMembers (.list vs) = .ok (.members texts) := by
      show (Rule.members <$> vs.mapM Rule.memberText) = _
      rw [htexts, map_ok]
    rw [hrule, map_ok]
    rfl
  -- There are as many texts as members, so the one list is empty with the other.
  · by_cases hnil : vs = []
    · subst hnil
      obtain rfl : texts = [] := List.eq_nil_of_length_eq_zero hlength.symm
      rw [read?_quoteMembers_nil]
      exact ⟨iff_of_false (by simp) (by simp), fun _ => rfl⟩
    · have hne : texts ≠ [] := by
        intro h
        rw [h] at hlength
        exact hnil (List.eq_nil_of_length_eq_zero hlength)
      exact ⟨iff_of_true (read?_quoteMembers hne hquotes) hnil, fun h => absurd h hnil⟩

/-- An enumeration without members allows one: the empty text. -/
theorem text_ofMembers_nil :
    Rule.text <$> Rule.ofMembers (.list []) = .ok (".valid(" ++ "''" ++ ")") ∧
      read? "''" = some [""] ∧ read? "''" ≠ some [] := by
  decide +kernel

/-- What separates members, and what ends the list, may stand in a member. -/
theorem text_ofMembers_separators :
    ∃ argument, Rule.text <$> Rule.ofMembers (.list [.text "a, b", .null, .text "c)\n"]) =
      .ok (".valid(" ++ argument ++ ")") ∧ read? argument = some ["a, b", "", "c)\n"] := by
  have hvs : ∀ v ∈ [.text "a, b", .null, .text "c)\n"], Value.isMember v = true := by decide
  obtain ⟨texts, argument, htexts, -, hrule, hread⟩ := text_ofMembers hvs
  have hmembers : List.mapM Rule.memberText [.text "a, b", .null, .text "c)\n"] =
      .ok ["a, b", "", "c)\n"] := by decide +kernel
  obtain rfl := Except.ok.inj (htexts.symm.trans hmembers)
  exact ⟨argument, hrule, (hread (by decide +kernel)).1.mpr (by simp)⟩

end AllowList

end RouteRules
