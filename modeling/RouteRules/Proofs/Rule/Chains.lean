import RouteRules.Proofs.Occurrence

/-!
# Chains as they are written

A text or a number is written as one chain of calls in a fixed order. Patterns, descriptions and
appended texts are spliced in as they are, whatever characters they are made of, and stay so in
everything that is written around the chain. Of the formats of a text only the first known one
counts.

## Main definitions

- `formatText`, `callText`, `allowText`, `limitCall`: the calls of a chain, each there or not.
- `Outranked`: formats that do not count beside others.

## Main statements

- `Rule.chainText_modifiers`: the text of the modifiers.
- `formatText_congr`: formats that do not count can be left out or added.
- `Context.exprText_string`, `Context.exprText_number`: chains, call by call.
- `Context.chains_spliced`: all this for facets that are texts, and in the text around the chain.
-/

namespace RouteRules

/-! ## Calls -/

/-- A call about a text, if there is one. -/
def callText (opening : String) (argument : Option String) (closing : String) : String :=
  argument.elim "" fun s => opening ++ s ++ closing

/-- The call that a chain begins with. -/
def Base.callText : Base → String
  | string => ".string()"
  | number => ".number()"

/-- The text that a value is spliced in as, unless it is null. -/
def Value.spliced? (v : Value) : Option String := if v.isNull then none else some v.display

/-- The text as a facet; no text is null. -/
def Value.ofText? : Option String → Value
  | none => .null
  | some s => .text s

@[simp] theorem Value.spliced?_ofText? (text : Option String) :
    (Value.ofText? text).spliced? = text := by
  cases text <;> rfl

/-- The mark of a required field. -/
def Info.markText (info : Info) : String := if info.isRequired then ".required()" else ""

/-- The appended text, unless it is blank. -/
def Info.appendText (info : Info) : String :=
  if info.append.isBlank then "" else info.append.display

theorem Info.appendText_of_text {info : Info} {append : Option String}
    (h : info.append = .ofText? append) : info.appendText = append.getD "" := by
  rw [appendText, h]
  cases append with
  | none => rfl
  | some s =>
    by_cases hs : s = "" <;>
      simp [Value.ofText?, Value.isBlank, Scalar.isBlank, Value.display, hs]

/-- The modifiers of a field. -/
def Info.modifierText (info : Info) : String :=
  info.markText ++ callText ".description('" info.description.spliced? "')" ++ info.appendText

/-- The call for the first known format, if there is one. -/
def formatText (formats : List Value) : String :=
  if .text "uuid" ∈ formats then ".guid()"
  else if .text "email" ∈ formats then ".email()"
  else if .text "uri" ∈ formats then ".uri()"
  else if .text "hostname" ∈ formats then ".hostname()"
  else ""

/-- The call with an allow-list, if there is one. -/
def allowText : Option (List Value) → Except Fault String
  | none => .ok ""
  | some members =>
    (fun texts => ".valid('" ++ "', '".intercalate texts ++ "')") <$> members.mapM Rule.memberText

/-- The call with a limit, unless it is null. -/
def limitCall (opening : String) (limit : Value) : Except Fault String :=
  if limit.isNull then .ok "" else (fun s => opening ++ s ++ ")") <$> limit.literal

/-! ## The text of each part of a chain -/

theorem text_append (s : String) : Rule.text (.append s) = s := by
  show "" ++ s ++ "" = s
  rw [String.empty_append, String.append_empty]

namespace Rule

@[simp] theorem chainText_nil : chainText [] = "" := rfl

@[simp] theorem chainText_singleton (r : Rule) : chainText [r] = r.text := by
  rw [chainText, List.map_singleton, String.join_cons, String.join_nil, String.append_empty]

theorem chainText_cons (r : Rule) (rules : List Rule) :
    chainText (r :: rules) = r.text ++ chainText rules := by
  rw [chainText, List.map_cons, String.join_cons]
  rfl

/-- The modifiers stand in a fixed order. -/
theorem chainText_modifiers (info : Info) (withAppend : Bool) :
    chainText (info.modifiers withAppend) = info.markText ++
      callText ".description('" info.description.spliced? "')" ++
        if withAppend then info.appendText else "" := by
  have hmark : chainText (if info.isRequired then [Rule.required] else []) = info.markText := by
    unfold Info.markText
    split
    · decide +kernel
    · rfl
  have hdescription : chainText
      (if info.description.isNull then [] else [Rule.description info.description.display]) =
        callText ".description('" info.description.spliced? "')" := by
    unfold Value.spliced?
    split
    · rfl
    · exact chainText_singleton _
  have happend : chainText (if withAppend && !info.append.isBlank then
      [Rule.append info.append.display] else []) = if withAppend then info.appendText else "" := by
    unfold Info.appendText
    cases withAppend <;> cases info.append.isBlank <;> simp [text_append]
  -- Each of the three parts has its own call, or none.
  rw [Info.modifiers, chainText_append, chainText_append, hmark, hdescription, happend]

/-- At most one call for the formats is written. -/
theorem chainText_format (formats : List Value) :
    chainText ((TextFormat.select formats).toList.map Rule.format) = formatText formats := by
  -- The search through the known formats, written as cases in their order.
  have hselect : TextFormat.select formats =
      if .text "uuid" ∈ formats then some .uuid
      else if .text "email" ∈ formats then some .email
      else if .text "uri" ∈ formats then some .uri
      else if .text "hostname" ∈ formats then some .hostname
      else none := by
    by_cases huuid : .text "uuid" ∈ formats <;> by_cases hemail : .text "email" ∈ formats <;>
      by_cases huri : .text "uri" ∈ formats <;> by_cases hhostname : .text "hostname" ∈ formats <;>
      simp [TextFormat.select, TextFormat.all, TextFormat.name, *]
  rw [hselect]
  unfold formatText
  repeat' split
  all_goals decide +kernel

theorem chainText_pattern (pattern : Value) :
    chainText (if pattern.isNull then [] else [Rule.pattern pattern.display]) =
      callText ".regex(" pattern.spliced? ")" := by
  unfold Value.spliced?
  split
  · rfl
  · exact chainText_singleton _

theorem text_members (texts : List String) :
    Rule.text (.members texts) = ".valid('" ++ "', '".intercalate texts ++ "')" := by
  have hopening : ".valid(" ++ "'" = ".valid('" := by decide +kernel
  have hclosing : "'" ++ ")" = "')" := by decide +kernel
  calc Rule.text (.members texts)
      = ".valid(" ++ ("'" ++ "', '".intercalate texts ++ "'") ++ ")" := rfl
    _ = ".valid(" ++ "'" ++ "', '".intercalate texts ++ ("'" ++ ")") := by
      simp only [String.append_assoc]
    _ = ".valid('" ++ "', '".intercalate texts ++ "')" := by rw [hopening, hclosing]

theorem text_baseRule (validator : String) (base : Base) :
    (base.rule validator).text = validator ++ base.callText := by
  cases base <;> exact congrArg (· ++ _) String.empty_append

/-- A limit is written as one call. -/
theorem chainText_limitRule {rule : String → Rule} {opening : String}
    (hrule : ∀ limit, (rule limit).text = opening ++ limit ++ ")") (limit : Value) :
    chainText <$> limitRule rule limit = limitCall opening limit := by
  unfold limitRule limitCall
  split
  · rfl
  · rw [Functor.map_map]
    congr 1
    funext text
    rw [chainText_singleton, hrule]

end Rule

/-! ## Formats that do not count -/

/-- Beside these formats, `f` does not count: if it is known at all, one of them comes before it.
-/
def Outranked (formats : List Value) (f : Value) : Prop :=
  ∀ format : TextFormat, f = .text format.name →
    ∃ other, TextFormat.all.idxOf other < TextFormat.all.idxOf format ∧ .text other.name ∈ formats

/-- Of two tests, one may accept more than the other where an earlier element passes the other. -/
theorem find?_eq_of_earlier {α : Type} [BEq α] [LawfulBEq α] {l : List α} {p q : α → Bool}
    (hpq : ∀ a, p a = true → q a = true)
    (hqp : ∀ a, q a = true → p a = true ∨ ∃ b, l.idxOf b < l.idxOf a ∧ p b = true) :
    l.find? q = l.find? p := by
  induction l with
  | nil => rfl
  | cons first rest ih =>
    by_cases hp : p first = true
    · rw [List.find?_cons_of_pos hp, List.find?_cons_of_pos (hpq first hp)]
    -- Nothing comes before the head, so the second test may not accept it alone.
    · have hq : ¬ q first = true := by
        intro hq
        rcases hqp first hq with h | ⟨b, hlt, _⟩
        · exact hp h
        · simp at hlt
      rw [List.find?_cons_of_neg hp, List.find?_cons_of_neg hq]
      apply ih
      intro a ha
      have hne : first ≠ a := fun h => hq (h ▸ ha)
      rcases hqp a ha with h | ⟨b, hlt, hb⟩
      · exact .inl h
      · have hneb : first ≠ b := fun h => hp (h ▸ hb)
        rw [List.idxOf_cons_ne _ hneb, List.idxOf_cons_ne _ hne] at hlt
        exact .inr ⟨b, by omega, hb⟩

/-- Formats that do not count can be added, in any place and as often as one likes. -/
theorem formatText_congr {formats others : List Value} (hsubset : formats ⊆ others)
    (hothers : ∀ f ∈ others, f ∈ formats ∨ Outranked formats f) :
    formatText others = formatText formats := by
  have hselect : TextFormat.select others = TextFormat.select formats := by
    apply find?_eq_of_earlier
    · intro format hformat
      simp only [List.contains_iff_mem] at hformat ⊢
      exact hsubset hformat
    -- What is found only among the others comes after something that both have.
    · intro format hformat
      simp only [List.contains_iff_mem] at hformat ⊢
      rcases hothers _ hformat with h | h
      · exact .inl h
      · exact .inr (h format rfl)
  rw [← Rule.chainText_format, ← Rule.chainText_format, hselect]

namespace Context

variable {c : Context} {info : Info}

theorem exprText_string (hnull : info.replacement = .null) (formats : List Value) (pattern : Value)
    (members : Option (List Value)) : c.exprText (.string info formats pattern members) =
      (fun allowed => c.validator ++ ".string()" ++ formatText formats ++
        callText ".regex(" pattern.spliced? ")" ++ allowed ++ info.modifierText) <$>
        allowText members := by
  rw [exprText, expr, Schema.expr, Info.expr_of_null hnull, Functor.map_map, Functor.map_map]
  have hmodifiers : Rule.chainText (info.modifiers true) = info.modifierText :=
    Rule.chainText_modifiers info true
  have hbase : (Base.string.rule c.validator).text = c.validator ++ ".string()" :=
    Rule.text_baseRule c.validator .string
  -- Members are the only part that can fail. Without them their call is empty.
  cases members with
  | none =>
    simp only [stringConstraints, allowText, pure_eq_ok, ok_bind, map_ok, Expr.render,
      Rule.chainText_cons, Rule.chainText_append, Rule.chainText_format, Rule.chainText_pattern,
      Rule.chainText_nil, hmodifiers, hbase, String.append_assoc]
  | some vs =>
    cases hvs : vs.mapM Rule.memberText with
    | error fault => simp only [stringConstraints, allowText, hvs, error_bind, map_error]
    | ok texts =>
      simp only [stringConstraints, allowText, hvs, pure_eq_ok, ok_bind, map_ok, Expr.render,
        Rule.chainText_cons, Rule.chainText_append, Rule.chainText_format, Rule.chainText_pattern,
        Rule.chainText_nil, Rule.text_members, hmodifiers, hbase, String.append_assoc,
        String.append_empty]

theorem exprText_number (hnull : info.replacement = .null) (whole : Bool)
    (minimum maximum : Value) : c.exprText (.number info whole minimum maximum) = do
      let lower ← limitCall ".min(" minimum
      let upper ← limitCall ".max(" maximum
      return c.validator ++ ".number()" ++ (if whole then ".integer()" else "") ++ lower ++ upper ++
        info.modifierText := by
  rw [exprText, expr, Schema.expr, Info.expr_of_null hnull, Functor.map_map, Functor.map_map]
  have hmodifiers : Rule.chainText (info.modifiers true) = info.modifierText :=
    Rule.chainText_modifiers info true
  have hbase : (Base.number.rule c.validator).text = c.validator ++ ".number()" :=
    Rule.text_baseRule c.validator .number
  have hwhole : Rule.chainText (if whole then [.integer] else []) =
      if whole then ".integer()" else "" := by
    cases whole <;> decide +kernel
  -- The limits can fail, the lower one first; all else is one text.
  have hlower : Rule.chainText <$> limitRule .minimum minimum = limitCall ".min(" minimum :=
    Rule.chainText_limitRule (fun _ => rfl) minimum
  have hupper : Rule.chainText <$> limitRule .maximum maximum = limitCall ".max(" maximum :=
    Rule.chainText_limitRule (fun _ => rfl) maximum
  rw [← hlower, ← hupper]
  unfold numberConstraints
  cases limitRule .minimum minimum with
  | error fault => rfl
  | ok lower =>
    cases limitRule .maximum maximum with
    | error fault => rfl
    | ok upper =>
      simp only [pure_eq_ok, ok_bind, map_ok, Expr.render, Rule.chainText_cons,
        Rule.chainText_append, hwhole, hmodifiers, hbase, String.append_assoc]

/-! ## Facets that are texts -/

/-- Formats count by what is stated, not by the place where it is stated. -/
theorem formatText_swapped {f g : Facets}
    (hdirect : Value.field g.direct "format" = Value.field f.nested "format")
    (hnested : Value.field g.nested "format" = Value.field f.direct "format") :
    formatText g.formats = formatText f.formats := by
  -- The order of the two is lost, and no call shows it.
  have hmem : ∀ v, v ∈ g.formats ↔ v ∈ f.formats := by
    intro v
    simp only [Facets.formats, hdirect, hnested, List.mem_filter, List.mem_cons, List.not_mem_nil,
      or_false]
    rw [or_comm]
  exact formatText_congr (fun v hv => (hmem v).mpr hv) fun v hv => .inl ((hmem v).mp hv)

/-- A text or a number without a replacement is written as the calls that it asks for, in a fixed
order and with its texts as they are. Formats that do not count, and the place where a format is
stated, change nothing. Whatever else is written around the chain, in arrays, objects, components
and groups, it stands there as it is by itself. -/
theorem chains_spliced (c : Context) (V : String) (info : Info) (description append : Option String)
    (hvalidator : c.settings.validator = .text V) (hreplacement : info.replacement = .null)
    (hdescription : info.description = .ofText? description)
    (happend : info.append = .ofText? append) :
    (∀ formats pattern members, c.exprText (.string info formats (.ofText? pattern) members) =
      (fun allowed => V ++ ".string()" ++ formatText formats ++ callText ".regex(" pattern ")" ++
        allowed ++ (if info.isRequired then ".required()" else "") ++
        callText ".description('" description "')" ++ append.getD "") <$> allowText members) ∧
    (∀ whole minimum maximum, c.exprText (.number info whole minimum maximum) = do
      let lower ← limitCall ".min(" minimum
      let upper ← limitCall ".max(" maximum
      return V ++ ".number()" ++ (if whole then ".integer()" else "") ++ lower ++ upper ++
        (if info.isRequired then ".required()" else "") ++
        callText ".description('" description "')" ++ append.getD "") ∧
    (∀ formats others pattern members, formats ⊆ others →
      (∀ f ∈ others, f ∈ formats ∨ Outranked formats f) →
      c.exprText (.string info others pattern members) =
        c.exprText (.string info formats pattern members)) ∧
    (∀ (f g : Facets) (pattern : Value) (members : Option (List Value)),
      Value.field g.direct "format" = Value.field f.nested "format" →
      Value.field g.nested "format" = Value.field f.direct "format" →
      c.exprText (.string info g.formats pattern members) =
        c.exprText (.string info f.formats pattern members)) ∧
    ∀ root chain : Schema, c.Visitable root chain → chain.isReference = false →
      (∀ t, c.text root = .ok t ∨ c.exprText root = .ok t →
        ∃ s, c.exprText chain = .ok s ∧ s.toList <:+: t.toList) ∧
      ∀ operation route groups group t, Route.read c.settings (.object operation) = .ok route →
        c.compileRoute (.object operation) = .ok groups → (group, t) ∈ groups →
        root ∈ route.declared group →
        ∃ s, c.exprText chain = .ok s ∧ s.toList <:+: t.toList := by
  have hV : c.validator = V := by rw [validator, hvalidator]; rfl
  have hmodifiers : info.modifierText = (if info.isRequired then ".required()" else "") ++
      callText ".description('" description "')" ++ append.getD "" := by
    rw [Info.modifierText, Info.appendText_of_text happend, hdescription, Value.spliced?_ofText?,
      Info.markText]
  refine ⟨?string, ?number, ?formats, ?places, ?around⟩
  case string =>
    intro formats pattern members
    rw [exprText_string hreplacement, Value.spliced?_ofText?, hV, hmodifiers]
    simp only [String.append_assoc]
  case number =>
    intro whole minimum maximum
    rw [exprText_number hreplacement, hV, hmodifiers]
    simp only [String.append_assoc]
  case formats =>
    intro formats others pattern members hsubset hothers
    rw [exprText_string hreplacement, exprText_string hreplacement,
      formatText_congr hsubset hothers]
  case places =>
    intro f g pattern members hdirect hnested
    rw [exprText_string hreplacement, exprText_string hreplacement,
      formatText_swapped hdirect hnested]
  -- A chain that is visited is part of the text of the field, so of the text of the group.
  case around =>
    intro root chain hvisitable href
    refine ⟨fun t ht => ?_, fun operation route groups group t hread hgroups hmem hroot => ?_⟩
    · rcases ht with ht | ht
      · exact infix_text hvisitable href ht
      · exact infix_exprText hvisitable href ht
    · exact infix_group hread hgroups hmem hroot hvisitable href

/-! ## Labels -/

/-- A validator whose name looks like a slot. -/
def printer : Context := ⟨{ validator := .text "\x7bvalidator\x7d" }, ∅⟩

/-- A required code with an empty description, and something to append that looks like the end of a
field. -/
def codeInfo : Info where
  name := .text "code"
  required := .bool true
  description := .text ""
  append := .text ",\n    "
  replacement := .null
  path := .null

/-- A code with two formats, whose pattern holds braces and a quote. -/
def code : Schema :=
  .string codeInfo [.text "email", .text "uuid"] (.text "/\x7b2\x7d'/") none

/-- Labels, each an object with a code. -/
def labels : Schema := .array .plain (.object .plain [code])

/-- An empty description is written, and what is appended is kept although the code is the last
property of an object. -/
theorem chains_spliced_labels :
    printer.settings.validator = .text "\x7bvalidator\x7d" ∧
      printer.exprText code = .ok
        ("\x7bvalidator\x7d.string().guid().regex(/\x7b2\x7d'/).required().description('')" ++
          ",\n    ") ∧
      ∃ t, printer.exprText labels = .ok t ∧
        ∃ s, printer.exprText code = .ok s ∧ s.toList <:+: t.toList := by
  obtain ⟨t, ht⟩ : ∃ t, printer.exprText labels = .ok t := by decide +kernel
  obtain ⟨hstring, _, _, _, haround⟩ := chains_spliced printer "\x7bvalidator\x7d" codeInfo
    (some "") (some ",\n    ") rfl rfl rfl rfl
  have hvisitable : printer.Visitable labels code :=
    .property (.items .root rfl) rfl (List.mem_singleton_self _)
  refine ⟨rfl, ?_, t, ht, (haround labels code hvisitable rfl).1 t (.inr ht)⟩
  exact (hstring _ (some "/\x7b2\x7d'/") none).trans (by decide +kernel)

end Context

end RouteRules
