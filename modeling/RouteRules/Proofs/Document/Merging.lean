import RouteRules.Proofs.Document.Results
import RouteRules.Proofs.Key

/-!
# Merging parameters

What becomes of the parameters of a path and of an operation when they are merged. Nothing is
declared that neither of them declares, nothing is lost but what the operation declares anew, and
nothing comes twice that did not before.

To merge once more changes nothing. The undefined number needs care there: it is not the same as
itself, so a parameter that is named by it is found again only by being the same object. Documents
hold values, and no object of a path is one of an operation; so objects are brought in here.

## Main definitions

- `Value.sameParameter`: parameters of one name and one location.
- `mergeBy`: merging by any test that tells what is declared anew.
- `Merges`: the laws of merging.

## Main statements

- `mergeParameters_list`: parameters are merged by name and location.
- `mergeBy_again`: merging again changes nothing.
- `filter_sameParameter_mergeBy`: what an operation sees of a declared parameter.
- `mergeParameters_merges`: the laws, and what an operation of a document sees.
-/

namespace RouteRules

/-! ## Names and locations -/

/-- The two parameters have one name and one location. -/
def Value.sameParameter (p q : Value) : Bool := p.parameterKey == q.parameterKey

theorem keys_beq_iff (id other : Key × Key) :
    (id == other) = true ↔ (id.1 == other.1) = true ∧ (id.2 == other.2) = true :=
  Bool.and_eq_true_iff

theorem keys_beq_comm (id other : Key × Key) : (id == other) = (other == id) := by
  rw [Bool.eq_iff_iff, keys_beq_iff, keys_beq_iff, Key.beq_comm id.1, Key.beq_comm id.2]

theorem keys_beq_congr {id other : Key × Key} (h : (id == other) = true) (third : Key × Key) :
    (id == third) = (other == third) := by
  obtain ⟨hname, hlocation⟩ := (keys_beq_iff id other).mp h
  rw [Bool.eq_iff_iff, keys_beq_iff, keys_beq_iff, Key.beq_congr hname, Key.beq_congr hlocation]

namespace Value

theorem sameParameter_comm (p q : Value) : p.sameParameter q = q.sameParameter p :=
  keys_beq_comm p.parameterKey q.parameterKey

theorem sameParameter_congr {p q : Value} (h : p.sameParameter q = true) (r : Value) :
    p.sameParameter r = q.sameParameter r :=
  keys_beq_congr h r.parameterKey

/-- Neither the name nor the location of the parameter is the undefined number. -/
def IsDefined (p : Value) : Prop :=
  ∀ key ∈ ["name", "in"], field p.entries key ≠ .float .undefined

theorem asKey_beq_self {v : Value} (h : v ≠ .float .undefined) : (v.asKey == v.asKey) = true := by
  rw [Key.beq_iff]
  -- A list and an object are told by what they are, a scalar by its number or text.
  cases v with
  | scalar s =>
    cases s with
    | float x =>
      cases x with
      | undefined => exact absurd rfl h
      | finite _ _ | infinite _ => exact ⟨_, rfl, rfl⟩
    | _ => exact ⟨_, rfl, rfl⟩
  | list _ | object _ => exact ⟨.null, rfl, rfl⟩

/-- Only the undefined number keeps a parameter from having its own name and location. -/
theorem IsDefined.sameParameter_self {p : Value} (h : p.IsDefined) : p.sameParameter p = true :=
  (keys_beq_iff p.parameterKey p.parameterKey).mpr
    ⟨asKey_beq_self (h "name" (by simp)), asKey_beq_self (h "in" (by simp))⟩

end Value

/-- No two of the parameters have one name and one location. -/
def DistinctParameters (ps : List Value) : Prop := ps.Pairwise fun p q => p.sameParameter q = false

/-! ## Merging by a test -/

section MergeBy

variable {α : Type} (same : α → α → Bool)

/-- What is shared and not declared anew, and then all that is declared. -/
def mergeBy (shared own : List α) : List α :=
  (shared.filter fun p => own.all fun o => !same p o) ++ own

variable {same} {shared own : List α}

/-- What is declared stays, and of what is shared only that goes which is declared anew. -/
theorem any_mergeBy {test : α → Bool} (htest : ∀ p q, same p q = true → test p = test q) :
    (mergeBy same shared own).any test = (shared.any test || own.any test) := by
  rw [mergeBy, List.any_append, Bool.eq_iff_iff]
  simp only [Bool.or_eq_true, List.any_eq_true, List.mem_filter]
  constructor
  · rintro (⟨p, ⟨hp, _⟩, h⟩ | h)
    · exact .inl ⟨p, hp, h⟩
    · exact .inr h
  · rintro (⟨p, hp, h⟩ | h)
    · by_cases hown : ∃ o ∈ own, same p o = true
      -- What takes the place of `p` passes the test as well.
      · obtain ⟨o, ho, hsame⟩ := hown
        exact .inr ⟨o, ho, by rw [← htest p o hsame, h]⟩
      · exact .inl ⟨p, ⟨hp, by simpa using hown⟩, h⟩
    · exact .inr h

/-- What comes once in both lists comes once after merging. -/
theorem pairwise_mergeBy (hshared : shared.Pairwise fun p q => same p q = false)
    (hown : own.Pairwise fun p q => same p q = false) :
    (mergeBy same shared own).Pairwise fun p q => same p q = false := by
  -- Each list is distinct for itself, and the filter parts the shared ones from the declared ones.
  refine List.pairwise_append.mpr ⟨hshared.filter _, hown, fun p hp o ho => ?_⟩
  simpa using List.all_eq_true.mp (List.mem_filter.mp hp).2 o ho

/-- Merging again changes nothing, if each shared element counts as declared once it is there. -/
theorem mergeBy_again (h : ∀ p ∈ shared, same p p = true) :
    mergeBy same shared (mergeBy same shared own) = mergeBy same shared own := by
  have hnone : (shared.filter fun p => (mergeBy same shared own).all fun o => !same p o) = [] := by
    rw [List.filter_eq_nil_iff]
    intro p hp hall
    have hnot : ∀ o ∈ mergeBy same shared own, same p o = false := by
      simpa using hall
    -- Either something takes the place of `p`, or `p` itself has been taken over.
    by_cases hown : ∀ o ∈ own, same p o = false
    · have hkept : p ∈ mergeBy same shared own :=
        List.mem_append_left own (List.mem_filter.mpr ⟨hp, by simpa using hown⟩)
      exact Bool.false_ne_true ((hnot p hkept).symm.trans (h p hp))
    · exact hown fun o ho => hnot o (List.mem_append_right _ ho)
  rw [mergeBy, hnone, List.nil_append]

end MergeBy

/-- Parameters are merged by name and location. -/
theorem mergeParameters_list {vs ws : List Value} (hvs : ∀ v ∈ vs, v.isParameter = true)
    (hws : ∀ w ∈ ws, w.isParameter = true) :
    mergeParameters (.list vs) (.list ws) = .ok (mergeBy Value.sameParameter vs ws) := by
  rw [mergeParameters_eq rfl rfl hvs hws]
  congr 3
  funext v
  rw [Bool.eq_iff_iff]
  simp [Value.sameParameter]

/-- Objects that hold parameters are told to be declared anew by what they are, before their names
and locations are compared. -/
def sameObject {α : Type} [DecidableEq α] (held : α → Value) (p q : α) : Bool :=
  p == q || (held p).sameParameter (held q)

/-- As long as no object is shared and declared at once, it does not matter which objects hold the
parameters. -/
theorem map_mergeBy_sameObject {α : Type} [DecidableEq α] (held : α → Value) {shared own : List α}
    (h : ∀ p ∈ shared, p ∉ own) :
    (mergeBy (sameObject held) shared own).map held =
      mergeBy Value.sameParameter (shared.map held) (own.map held) := by
  rw [mergeBy, mergeBy, List.map_append, List.filter_map]
  congr 2
  apply List.filter_congr
  intro p hp
  rw [Function.comp_apply, List.all_map, Bool.eq_iff_iff, List.all_eq_true, List.all_eq_true]
  -- No shared object is a declared one, so only the second half of the test can succeed.
  refine forall₂_congr fun o ho => ?_
  have hne : (p == o) = false := beq_false_of_ne fun heq => h p hp (heq ▸ ho)
  rw [sameObject, hne, Bool.false_or]
  rfl

/-! ## Parameters that come once -/

/-- Of distinct parameters, one only has the name and the location of a given one. -/
theorem filter_sameParameter {ps : List Value} {p q : Value} (hps : DistinctParameters ps)
    (hp : p ∈ ps) (h : q.sameParameter p = true) : ps.filter q.sameParameter = [p] := by
  induction ps with
  | nil => cases hp
  | cons first rest ih =>
    obtain ⟨hfirst, hrest⟩ := List.pairwise_cons.mp hps
    rcases List.mem_cons.mp hp with rfl | hp
    -- `p` comes first, and whatever had its name and location later would be its double.
    · have hothers : rest.filter q.sameParameter = [] := by
        rw [List.filter_eq_nil_iff]
        intro r hr
        rw [Value.sameParameter_congr h r, hfirst r hr]
        exact Bool.false_ne_true
      rw [List.filter_cons_of_pos h, hothers]
    -- `p` comes later, so the first one has another name or location.
    · have hne : q.sameParameter first = false := by
        rw [Value.sameParameter_congr h first, Value.sameParameter_comm, hfirst p hp]
      rw [List.filter_cons_of_neg (by simp [hne]), ih hrest hp]

/-- After merging, each declared name and location has one parameter: that of the operation, if it
has one. -/
theorem filter_sameParameter_mergeBy {shared own : List Value} {q : Value}
    (hshared : DistinctParameters shared) (hown : DistinctParameters own)
    (hq : q ∈ shared ∨ q ∈ own) (hself : q.sameParameter q = true) :
    (mergeBy Value.sameParameter shared own).filter q.sameParameter =
      [(own.find? q.sameParameter).getD q] := by
  have hdistinct := pairwise_mergeBy hshared hown
  cases hfind : own.find? q.sameParameter with
  -- The operation declares it: `o` is in the merged list, and nothing else there is like it.
  | some o =>
    have ho : o ∈ own := List.mem_of_find?_eq_some hfind
    exact filter_sameParameter hdistinct (List.mem_append_right _ ho) (List.find?_some hfind)
  -- Only the path does, so `q` itself is kept.
  | none =>
    have hnone : ∀ o ∈ own, ¬q.sameParameter o = true := List.find?_eq_none.mp hfind
    have hq : q ∈ shared := hq.resolve_right fun hq => hnone q hq hself
    have hkept : q ∈ mergeBy Value.sameParameter shared own :=
      List.mem_append_left own (List.mem_filter.mpr ⟨hq, by simpa using hnone⟩)
    exact filter_sameParameter hdistinct hkept hself

/-! ## What an operation sees -/

/-- The parameters of a path and those of its operations are parameters indeed. -/
theorem isShaped_of_mem_operations {document : List (String × Value)} {op : Operation}
    (h : (Value.object document).isDocument = true) (hop : op ∈ operations document) :
    op.IsShaped := by
  simp only [Value.isDocument, Bool.and_eq_true, List.all_eq_true] at h
  obtain ⟨⟨⟨_, hitems⟩, _⟩, _⟩ := h
  -- An operation comes from a path item and a method, and the shape of a document covers both.
  obtain ⟨p, hp, hop⟩ := List.mem_flatMap.mp hop
  obtain ⟨method, hmethod, hop⟩ := List.mem_filterMap.mp hop
  have hitem := hitems p hp
  -- A path item has to be an object.
  cases hvalue : p.2 with
  | scalar _ | list _ =>
    rw [hvalue] at hitem
    cases hitem
  | object item =>
    rw [hvalue] at hitem hop
    obtain ⟨hparameters, hmethods⟩ := (Bool.and_eq_true _ _).mp hitem
    have hoperation := List.all_eq_true.mp hmethods method hmethod
    unfold operationAt at hop
    split at hop
    · rename_i entries hentries
      have hentries : Value.field item method.field = .object entries := hentries
      cases hop
      rw [hentries] at hoperation
      exact ⟨hoperation, fun q hq => Value.isParameter_of_mem_items hparameters hq⟩
    · cases hop

theorem Operation.IsShaped.own {op : Operation} (h : op.IsShaped) :
    ∀ p ∈ op.own, p.isParameter = true := by
  obtain ⟨hown, _⟩ := (Bool.and_eq_true _ _).mp h.1
  exact fun p hp => Value.isParameter_of_mem_items hown hp

theorem Operation.parameters_eq {op : Operation} (h : op.IsShaped) :
    mergeParameters (.list op.shared) (.list op.own) = .ok op.parameters :=
  mergeParameters_eq rfl rfl h.2 h.own

/-! ## The laws of merging -/

/-- What merging the parameters of a path with those of an operation comes to. -/
structure Merges (shared own merged : List Value) : Prop where
  /-- Those of the path that the operation does not declare, in order, and then its own. -/
  eq_append : ∃ kept, merged = kept ++ own ∧ kept.Sublist shared ∧
    kept = shared.filter fun p => own.all fun o => !p.sameParameter o
  /-- The names and locations are those of the path and those of the operation. -/
  exists_iff : ∀ id, (∃ q ∈ merged, (id == q.parameterKey) = true) ↔
    (∃ q ∈ shared, (id == q.parameterKey) = true) ∨ ∃ q ∈ own, (id == q.parameterKey) = true
  distinct : DistinctParameters shared → DistinctParameters own → DistinctParameters merged
  /-- Merging again changes nothing, where names and locations are the same as themselves. -/
  again : (∀ p ∈ shared, p.IsDefined) → mergeParameters (.list shared) (.list merged) = .ok merged
  /-- Nor does it anywhere, if the objects that hold the parameters are handed on. -/
  again_objects : ∀ {α : Type} [DecidableEq α] (held : α → Value) (ps os : List α),
    ps.map held = shared → os.map held = own → (∀ p ∈ ps, p ∉ os) →
    (mergeBy (sameObject held) ps os).map held = merged ∧
      mergeBy (sameObject held) ps (mergeBy (sameObject held) ps os) =
        mergeBy (sameObject held) ps os

theorem merges_mergeBy {shared own : List Value} (hshared : ∀ p ∈ shared, p.isParameter = true)
    (hown : ∀ p ∈ own, p.isParameter = true) :
    Merges shared own (mergeBy Value.sameParameter shared own) := by
  constructor
  case eq_append => exact ⟨_, rfl, List.filter_sublist, rfl⟩
  case exists_iff =>
    intro id
    -- Being found under a key is a test that parameters of one name and location share.
    have hany : (mergeBy Value.sameParameter shared own).any (fun q => id == q.parameterKey) =
        (shared.any (fun q => id == q.parameterKey) || own.any fun q => id == q.parameterKey) :=
      any_mergeBy fun p q hsame => by
        rw [keys_beq_comm id, keys_beq_comm id, keys_beq_congr hsame]
    rw [Bool.eq_iff_iff, Bool.or_eq_true] at hany
    simpa only [List.any_eq_true] using hany
  case distinct => exact pairwise_mergeBy
  case again =>
    intro hdefined
    have hmerged : ∀ q ∈ mergeBy Value.sameParameter shared own, q.isParameter = true := by
      intro q hq
      rcases List.mem_append.mp hq with hq | hq
      · exact hshared q (List.mem_filter.mp hq).1
      · exact hown q hq
    rw [mergeParameters_list hshared hmerged,
      mergeBy_again fun p hp => (hdefined p hp).sameParameter_self]
  case again_objects =>
    intro α _ held ps os hps hos hno
    subst hps hos
    refine ⟨map_mergeBy_sameObject held hno, mergeBy_again fun p _ => ?_⟩
    rw [sameObject, beq_self_eq_true, Bool.true_or]

/-- Parameters with names and locations that can be compared are merged by these laws. To compile a
document is to compile its operations with such parameters: each declared name and location has one
parameter there, that of the operation if it has one, provided that neither the path nor the
operation declares any twice. -/
theorem mergeParameters_merges :
    (∀ shared own : List Value, (∀ p ∈ shared, p.isParameter = true) →
      (∀ p ∈ own, p.isParameter = true) →
      ∃ merged, mergeParameters (.list shared) (.list own) = .ok merged ∧
        Merges shared own merged) ∧
    ∀ (s : Settings) (document : List (String × Value)), (Value.object document).isDocument = true →
      compileDocument s (.object document) = Table.ofList <$> (operations document).mapM (fun op =>
        (fun groups => (op.key, groups)) <$>
          compileAgainst s (schemasOf document) (.object op.route)) ∧
      ∀ op ∈ operations document, Value.field op.route "parameters" = .list op.parameters ∧
        mergeParameters (.list op.shared) (.list op.own) = .ok op.parameters ∧
        Merges op.shared op.own op.parameters ∧
        (DistinctParameters op.shared → DistinctParameters op.own →
          ∀ q, q ∈ op.shared ∨ q ∈ op.own → q.IsDefined →
          op.parameters.filter q.sameParameter = [(op.own.find? q.sameParameter).getD q]) := by
  refine ⟨fun shared own hshared hown => ?laws, fun s document h => ⟨?document, ?operation⟩⟩
  case laws => exact ⟨_, mergeParameters_list hshared hown, merges_mergeBy hshared hown⟩
  case document => exact compileDocument_eq s h
  case operation =>
    intro op hop
    have hshaped := isShaped_of_mem_operations h hop
    have hmerged := Operation.parameters_eq hshaped
    -- The model merges as `mergeBy` does, so the laws hold of the parameters of the operation.
    have hsame : op.parameters = mergeBy Value.sameParameter op.shared op.own :=
      Except.ok.inj (hmerged.symm.trans (mergeParameters_list hshaped.2 hshaped.own))
    refine ⟨?_, hmerged, hsame ▸ merges_mergeBy hshaped.2 hshaped.own, ?_⟩
    · rw [Value.field, Operation.route, Table.lookup_insertEntry, if_pos rfl, Option.getD_some]
    · intro hshared hown q hq hdefined
      rw [hsame, filter_sameParameter_mergeBy hshared hown hq hdefined.sameParameter_self]

/-- The parameters of a path: two of one name, sent in different places. -/
def yardShared : List Value :=
  [.object [("name", .text "size"), ("in", .int 1)],
   .object [("name", .text "size"), ("in", .text "query")]]

/-- Those of an operation: one is sent where the first of the path is, and one has no location. -/
def yardOwn : List Value :=
  [.object [("name", .text "size"), ("in", .bool true), ("type", .text "integer")],
   .object [("name", .text "size")]]

/-- The two places that are one are told to be, and the operation wins. -/
theorem mergeParameters_merges_yard :
    (∀ p ∈ yardShared, p.isParameter = true) ∧ (∀ p ∈ yardOwn, p.isParameter = true) ∧
      ∃ merged, mergeParameters (.list yardShared) (.list yardOwn) = .ok merged ∧
        merged = yardShared.drop 1 ++ yardOwn ∧ DistinctParameters merged ∧
        mergeParameters (.list yardShared) (.list merged) = .ok merged := by
  have hshared : ∀ p ∈ yardShared, p.isParameter = true := by decide
  have hown : ∀ p ∈ yardOwn, p.isParameter = true := by decide
  obtain ⟨merged, hmerged, hlaws⟩ := mergeParameters_merges.1 yardShared yardOwn hshared hown
  have hresult : mergeParameters (.list yardShared) (.list yardOwn) =
      .ok (yardShared.drop 1 ++ yardOwn) := by
    decide +kernel
  have hdefined : ∀ p ∈ yardShared, p.IsDefined := by
    unfold Value.IsDefined
    decide
  have hdistinct : DistinctParameters merged := by
    apply hlaws.distinct
    · unfold DistinctParameters
      decide +kernel
    · unfold DistinctParameters
      decide +kernel
  exact ⟨hshared, hown, merged, hmerged, Except.ok.inj (hmerged.symm.trans hresult), hdistinct,
    hlaws.again hdefined⟩

end RouteRules
