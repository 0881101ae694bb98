import RouteRules.Proofs.Document.Operations
import RouteRules.Proofs.Table

/-!
# The results of a document

What is left when all operations of a document have been compiled: one entry for each key, at the
place of the first operation that has it, with the groups of the last one. Operations without an
identifier have keys of their own, since no method has a space in it.

## Main definitions

- `PermutesItems`: two documents that differ in the order of entries within their paths.

## Main statements

- `Operation.eq_of_key_beq`: different operations without identifiers have different keys.
- `PermutesItems.compileDocument_eq`: the order of entries within a path does not matter.
- `compileDocument_spec`: what compiling a document gives.
-/

namespace RouteRules

/-! ## Keys of operations without an identifier -/

/-- A text is cut at its first space in one way only. -/
theorem eq_of_append_space {before before' after after' : List Char} (hbefore : ' ' ∉ before)
    (hbefore' : ' ' ∉ before') (h : before ++ ' ' :: after = before' ++ ' ' :: after') :
    before = before' ∧ after = after' := by
  -- What comes before the first space is told by the text.
  have htake : ∀ {cs : List Char} (rest : List Char), ' ' ∉ cs →
      (cs ++ ' ' :: rest).takeWhile (· != ' ') = cs := by
    intro cs rest hcs
    rw [List.takeWhile_append_of_pos fun c hc => bne_iff_ne.mpr (ne_of_mem_of_not_mem hc hcs)]
    exact List.append_nil cs
  have hsame : before = before' := by
    rw [← htake after hbefore, h, htake after' hbefore']
  subst hsame
  exact ⟨rfl, (List.cons.inj (List.append_cancel_left h)).2⟩

namespace Method

theorem space_not_mem_verb (method : Method) : ' ' ∉ method.verb.toList := by
  cases method <;> decide +kernel

theorem verb_injective {method other : Method} (h : method.verb = other.verb) : method = other := by
  cases method <;> cases other <;> first | rfl | exact absurd h (by decide +kernel)

end Method

/-- Operations without an identifier have different keys, if their methods or paths differ. -/
theorem Operation.eq_of_key_beq {op other : Operation}
    (hop : (Value.field op.entries "operationId").isBlank = true)
    (hother : (Value.field other.entries "operationId").isBlank = true)
    (h : (op.key == other.key) = true) : op.path = other.path ∧ op.method = other.method := by
  have hkey : ∀ o : Operation, (Value.field o.entries "operationId").isBlank = true →
      o.key = Key.text (o.method.verb ++ " " ++ o.path) := by
    intro o ho
    rw [Operation.key, operationName, Value.orElse, if_pos ho]
    rfl
  rw [hkey op hop, hkey other hother] at h
  -- Both keys are the method and the path with a space between them.
  have htexts := congrArg String.toList (Key.text_injective ((Key.text_beq_iff _ _).mp h))
  simp only [String.toList_append, List.append_assoc] at htexts
  -- No method has a space in it, so the first one divides the two.
  obtain ⟨hverb, hpath⟩ := eq_of_append_space other.method.space_not_mem_verb
    op.method.space_not_mem_verb htexts
  have hmethod := Method.verb_injective (String.toList_inj.mp hverb)
  exact ⟨(String.toList_inj.mp hpath).symm, hmethod.symm⟩

/-! ## The order of entries within a path -/

/-- The two paths are the same, and state the same entries in some order. -/
def PermutesItem (p q : String × Value) : Prop :=
  p.1 = q.1 ∧ ∃ item other, p.2 = .object item ∧ q.2 = .object other ∧
    (item.map (·.1)).Nodup ∧ item.Perm other

/-- The two documents state the same components, and the same paths in the same order, but for the
order of entries within each path. -/
def PermutesItems (document other : List (String × Value)) : Prop :=
  Value.field document "components" = Value.field other "components" ∧
    ∃ paths paths', Value.field document "paths" = .object paths ∧
      Value.field other "paths" = .object paths' ∧ List.Forall₂ PermutesItem paths paths'

namespace Context

variable {c : Context}

theorem compileMethods_congr {path : String} {shared : Value} {item other : List (String × Value)}
    (h : ∀ key, Value.field item key = Value.field other key) (methods : List Method) :
    c.compileMethods path shared item methods = c.compileMethods path shared other methods := by
  induction methods with
  | nil => rfl
  | cons method rest ih => rw [compileMethods, compileMethods, h method.field, ih]

theorem compilePath_congr {p q : String × Value} (h : PermutesItem p q) :
    c.compilePath p.1 p.2 = c.compilePath q.1 q.2 := by
  obtain ⟨hpath, item, other, hp, hq, hnodup, hperm⟩ := h
  -- Compiling a path looks entries up and never walks through them.
  have hfield : ∀ key, Value.field item key = Value.field other key := fun key =>
    congrArg (·.getD .null) (Table.lookup_perm hperm hnodup key)
  have hitem : ∀ (path : String) (entries : List (String × Value)),
      c.compilePath path (.object entries) = c.compileMethods path
        ((Value.field entries "parameters").orElse (.list [])) entries Method.all :=
    fun path entries => rfl
  rw [hpath, hp, hq, hitem, hitem, hfield "parameters", compileMethods_congr hfield]

theorem mapM_compilePath_congr {paths paths' : List (String × Value)}
    (h : List.Forall₂ PermutesItem paths paths') :
    (paths.mapM fun p => c.compilePath p.1 p.2) = paths'.mapM fun p => c.compilePath p.1 p.2 := by
  induction h with
  | nil => rfl
  | cons hfirst _ ih => rw [List.mapM_cons, List.mapM_cons, compilePath_congr hfirst, ih]

end Context

/-- The order of entries within a path does not matter, not even to the order of the results. -/
theorem PermutesItems.compileDocument_eq {document other : List (String × Value)}
    (h : PermutesItems document other) (s : Settings) :
    compileDocument s (.object other) = compileDocument s (.object document) := by
  obtain ⟨hcomponents, paths, paths', hpaths, hpaths', hall⟩ := h
  rw [compileDocument_object, compileDocument_object, hcomponents, hpaths, hpaths',
    Value.orElse_asObject rfl, Value.orElse_asObject rfl]
  simp only [Value.entries, ok_bind, Context.mapM_compilePath_congr hall]

/-! ## Results -/

/-- A document of the expected shape compiles exactly if each of its operations does, as a route
with the parameters of its path merged in, and against the components of the document; or else it is
at fault where its first operation at fault is. Of operations with one key, the first gives the
place and the last the groups. Operations without identifiers have one key only if they are of one
method and path. The order of entries within a path does not matter. -/
theorem compileDocument_spec (s : Settings) (document : List (String × Value))
    (h : (Value.object document).isDocument = true) :
    ((∃ table, compileDocument s (.object document) = .ok table) ↔
      ∀ op ∈ operations document, ∃ groups,
        compileAgainst s (schemasOf document) (.object op.route) = .ok groups) ∧
    (∀ fault, compileDocument s (.object document) = .error fault ↔
      ∃ before op after, operations document = before ++ op :: after ∧
        (∀ o ∈ before, ∃ groups,
          compileAgainst s (schemasOf document) (.object o.route) = .ok groups) ∧
        compileAgainst s (schemasOf document) (.object op.route) = .error fault) ∧
    (∀ table, compileDocument s (.object document) = .ok table → table.Distinct ∧
      ∃ compiled : List (Key × Groups),
        List.Forall₂ (fun op result => result.1 = op.key ∧
          compileAgainst s (schemasOf document) (.object op.route) = .ok result.2)
          (operations document) compiled ∧
        table.entries = Table.collapse compiled) ∧
    (∀ op other : Operation, (Value.field op.entries "operationId").isBlank = true →
      (Value.field other.entries "operationId").isBlank = true → (op.key == other.key) = true →
      op.path = other.path ∧ op.method = other.method) ∧
    ∀ other, PermutesItems document other →
      compileDocument s (.object other) = compileDocument s (.object document) := by
  -- The key is put beside the groups only, and adds no fault.
  have hkeyed : ∀ op : Operation, (∃ result, (fun groups => (op.key, groups)) <$>
      compileAgainst s (schemasOf document) (.object op.route) = .ok result) ↔
        ∃ groups, compileAgainst s (schemasOf document) (.object op.route) = .ok groups := by
    intro op
    cases compileAgainst s (schemasOf document) (.object op.route) <;> simp
  refine ⟨?returns, ?fails, ?results, fun op other => Operation.eq_of_key_beq,
    fun other hother => hother.compileDocument_eq s⟩
  all_goals rw [compileDocument_eq s h]
  case returns =>
    constructor
    · rintro ⟨table, htable⟩ op hop
      obtain ⟨compiled, hcompiled, _⟩ := map_eq_ok.mp htable
      obtain ⟨result, hresult⟩ := exists_of_mapM_eq_ok hcompiled hop
      exact (hkeyed op).mp ⟨result, hresult⟩
    · intro hall
      obtain ⟨compiled, hcompiled⟩ := exists_mapM_eq_ok fun op hop => (hkeyed op).mpr (hall op hop)
      exact ⟨_, by rw [hcompiled, map_ok]⟩
  case fails =>
    intro fault
    rw [map_eq_error, mapM_eq_error]
    simp only [hkeyed, map_eq_error]
  case results =>
    intro table htable
    obtain ⟨compiled, hcompiled, rfl⟩ := map_eq_ok.mp htable
    rw [Table.Distinct, Table.keys, Table.entries_ofList]
    refine ⟨List.pairwise_map.mpr (Table.pairwise_collapse compiled), compiled, ?_, rfl⟩
    refine (mapM_eq_ok.mp hcompiled).imp fun op result hresult => ?_
    obtain ⟨groups, hgroups, rfl⟩ := map_eq_ok.mp hresult
    exact ⟨rfl, hgroups⟩

/-- A document with two paths. Two of its operations have one identifier, another has none. -/
def kennel : List (String × Value) :=
  [("paths", .object
    [("/dogs/\x7bid\x7d", .object
      [("put", .object [("operationId", .text "keep"), ("parameters", .list
        [.object [("name", .text "id"), ("in", .text "path"), ("type", .text "integer")]])]),
       ("parameters", .list
         [.object [("name", .text "id"), ("in", .text "path"), ("type", .text "string")]]),
       ("get", .object []),
       ("head", .null)]),
     ("/dogs", .object
      [("post", .object [("operationId", .text "keep"), ("requestBody", .object
        [("content", .object [("application/json", .object
          [("schema", .object [("$ref", .text "#/components/schemas/Dog")])])])])])])]),
   ("components", .object [("schemas", .object
     [("Dog", .object [("properties", .object
       [("age", .object [("type", .text "integer")])])])])])]

theorem compileDocument_spec_kennel : (Value.object kennel).isDocument = true ∧
    ∃ table, compileDocument {} (.object kennel) = .ok table ∧ table.Distinct ∧
      table.keys.map Key.display = ["GET /dogs/\x7bid\x7d", "keep"] := by
  have hshape : (Value.object kennel).isDocument = true := by decide +kernel
  obtain ⟨_, _, hresults, _⟩ := compileDocument_spec {} kennel hshape
  -- The second of the two operations that are kept under one name takes the place of the first.
  obtain ⟨table, htable, hkeys⟩ : ∃ table, compileDocument {} (.object kennel) = .ok table ∧
      table.keys.map Key.display = ["GET /dogs/\x7bid\x7d", "keep"] := by
    decide +kernel
  exact ⟨hshape, table, htable, (hresults table htable).1, hkeys⟩

end RouteRules
