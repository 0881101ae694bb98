import RouteRules.Proofs.Schema.Place
import RouteRules.Proofs.Table
import RouteRules.Route.Basic

/-!
# What an operation states

The parameters and the body of an operation as its document has them. A route has one parameter for
each that is stated, in order, with the location that is stated with it and the schema that is read
at its place. It has a body if the request has an object of the content type that the settings name,
and this body is read from the object, under the identifier and the description of the operation.

## Main definitions

- `Route.stated`, `Route.placed`: the parameters that an operation states, alone or at their places.
- `Route.StatesBody`, `Route.bodyOf`: what is stated for the body, and what the body is read from.

## Main statements

- `Route.forall₂_placed`: the parameters of a route are read from those stated.
- `Route.body_eq_some_iff`: the body of a route is read from the one stated.
-/

namespace RouteRules

namespace Route

variable {s : Settings}

/-! ## Parameters -/

/-- The values that an operation states as its parameters. -/
def stated (operation : List (String × Value)) : List Value :=
  ((Value.field operation "parameters").orElse (.list [])).elements?.getD []

/-- The parameters that an operation states for a location. -/
def statedIn (location : String) (operation : List (String × Value)) : List Value :=
  (stated operation).filter fun v => Value.field v.entries "in" = .text location

/-- The place of the parameter with the given position. -/
def parameterPlace (position : Nat) : Place where
  path := .text ("#/parameters/" ++ toString position)

/-- Parameters are read one after the other, each with its position. -/
theorem readParameters_eq_mapM (position : Nat) (vs : List Value) :
    readParameters s position vs =
      (vs.zipIdx position).mapM fun e => readParameter s e.2 e.1 := by
  induction vs generalizing position with
  | nil => rfl
  | cons v rest ih =>
    rw [List.zipIdx_cons, List.mapM_cons, ← ih]
    rfl

/-- A parameter is its schema, beside its location. -/
theorem readParameter_eq (position : Nat) (v : Value) :
    readParameter s position v = (fun schema => ⟨Value.field v.entries "in", schema⟩) <$>
      Schema.read s (parameterPlace position) v := by
  by_cases h : ∃ entries, v = .object entries
  · obtain ⟨entries, rfl⟩ := h
    exact bind_ok_eq_map _ _
  -- Anything but an object is at fault in the same way, whether its location or its schema is read.
  · rw [Schema.read_of_not_object s _ fun entries hv => h ⟨entries, hv⟩]
    cases v with
    | object entries => exact absurd ⟨entries, rfl⟩ h
    | scalar _ | list _ => rfl

/-- The parameter is what is read of a value, in some position. -/
def ReadsAs (s : Settings) (v : Value) (p : Parameter) : Prop :=
  ∃ position, readParameter s position v = .ok p

theorem ReadsAs.location_eq {v : Value} {p : Parameter} (h : ReadsAs s v p) :
    p.location = Value.field v.entries "in" := by
  obtain ⟨position, h⟩ := h
  rw [readParameter_eq] at h
  obtain ⟨schema, _, rfl⟩ := map_eq_ok.mp h
  rfl

/-- The position of a parameter shows in the paths of its schema only. -/
theorem ReadsAs.unplaced_eq {v : Value} {p q : Parameter} (hp : ReadsAs s v p)
    (hq : ReadsAs s v q) : p.schema.unplaced = q.schema.unplaced := by
  obtain ⟨position, hp⟩ := hp
  obtain ⟨other, hq⟩ := hq
  rw [readParameter_eq] at hp hq
  obtain ⟨schema, hschema, rfl⟩ := map_eq_ok.mp hp
  obtain ⟨schema', hschema', rfl⟩ := map_eq_ok.mp hq
  have hread := Schema.unplaced_read (s := s) (parameterPlace position) (parameterPlace other)
    rfl rfl v
  rw [hschema, hschema'] at hread
  exact Except.ok.inj hread

theorem forall₂_readParameters {position : Nat} {vs : List Value} {ps : List Parameter}
    (h : readParameters s position vs = .ok ps) : List.Forall₂ (ReadsAs s) vs ps := by
  rw [readParameters_eq_mapM] at h
  have hread : List.Forall₂ (fun e p => ReadsAs s e.1 p) (vs.zipIdx position) ps :=
    (mapM_eq_ok.mp h).imp fun e p hp => ⟨e.2, hp⟩
  rwa [← List.zipIdx_map_fst position vs, List.forall₂_map_left_iff]

/-- The two parts of a route that are read. -/
theorem read_eq_ok {operation : List (String × Value)} {route : Route}
    (h : read s (.object operation) = .ok route) :
    readParameters s 0 (stated operation) = .ok route.parameters ∧
      readBody s operation = .ok route.body := by
  have h : ofEntries s operation = .ok route := h
  obtain ⟨vs, hvs, h⟩ := bind_eq_ok.mp h
  obtain ⟨ps, hps, h⟩ := bind_eq_ok.mp h
  obtain ⟨body, hbody, h⟩ := bind_eq_ok.mp h
  cases h
  -- What the model takes for the list of parameters is what is stated.
  have hstated : stated operation = vs := by
    unfold Value.asElements at hvs
    unfold stated
    split at hvs
    · rename_i items hitems
      cases hvs
      rw [hitems, Option.getD_some]
    · cases hvs
  rw [hstated]
  exact ⟨hps, hbody⟩

/-- The schemas of the parameters of a location, but for their paths, are told by what is stated for
the location. -/
theorem unplaced_eq_of_stated {vs : List Value} {ps qs : List Parameter}
    (hps : List.Forall₂ (ReadsAs s) vs ps) (hqs : List.Forall₂ (ReadsAs s) vs qs) :
    ps.map (·.schema.unplaced) = qs.map (·.schema.unplaced) := by
  induction hps generalizing qs with
  | nil =>
    cases hqs
    rfl
  | cons hp _ ih =>
    cases hqs with
    | cons hq hrest => rw [List.map_cons, List.map_cons, hp.unplaced_eq hq, ih hrest]

theorem forall₂_statedIn {operation : List (String × Value)} {route : Route} (location : String)
    (h : read s (.object operation) = .ok route) :
    List.Forall₂ (ReadsAs s) (statedIn location operation)
      (route.parameters.filter (·.location = .text location)) := by
  apply List.rel_filter _ (forall₂_readParameters (read_eq_ok h).1)
  intro v p hp
  simp only [hp.location_eq]

/-- The parameters that an operation states, each at its place. -/
def placed (operation : List (String × Value)) : List (Place × Value) :=
  (stated operation).zipIdx.map fun e => (parameterPlace e.2, e.1)

/-- Those of them that are stated for a location. -/
def placedIn (location : String) (operation : List (String × Value)) : List (Place × Value) :=
  (placed operation).filter fun e => Value.field e.2.entries "in" = .text location

/-- The parameter is read from what is stated at a place. -/
structure StatedAt (s : Settings) (e : Place × Value) (p : Parameter) : Prop where
  read_eq : Schema.read s e.1 e.2 = .ok p.schema
  location_eq : p.location = Value.field e.2.entries "in"

/-- Each parameter is read from what is stated at its place. -/
theorem forall₂_placed {operation : List (String × Value)} {route : Route}
    (h : read s (.object operation) = .ok route) :
    List.Forall₂ (StatedAt s) (placed operation) route.parameters := by
  have hparameters := (read_eq_ok h).1
  rw [readParameters_eq_mapM] at hparameters
  rw [placed, List.forall₂_map_left_iff]
  refine (mapM_eq_ok.mp hparameters).imp fun e p hp => ?_
  rw [readParameter_eq] at hp
  obtain ⟨schema, hschema, rfl⟩ := map_eq_ok.mp hp
  exact ⟨hschema, rfl⟩

theorem forall₂_placedIn {operation : List (String × Value)} {route : Route} (location : String)
    (h : read s (.object operation) = .ok route) :
    List.Forall₂ (StatedAt s) (placedIn location operation)
      (route.parameters.filter (·.location = .text location)) := by
  apply List.rel_filter _ (forall₂_placed h)
  intro e p hp
  simp only [hp.location_eq]

/-- What is done with the schemas of a route can be done with what is stated. -/
theorem mapM_stated {α : Type} {es : List (Place × Value)} {ps : List Parameter}
    (h : List.Forall₂ (StatedAt s) es ps) (f : Schema → Except Fault α) :
    (es.mapM fun e => Schema.read s e.1 e.2 >>= f) = (ps.map (·.schema)).mapM f := by
  induction h with
  | nil => rfl
  | cons hp _ ih => rw [List.map_cons, List.mapM_cons, List.mapM_cons, hp.read_eq, ok_bind, ih]

/-! ## The body -/

/-- The schema of the body, before it is read, and its place. -/
def bodySchema (s : Settings) (operation : List (String × Value)) :
    Except Fault (Option (Place × Value)) := do
  let body := Value.field operation "requestBody"
  if body.isBlank then return none
  match ← media s body with
  | .null => return none
  | .object entries =>
    let place : Place :=
      { path := .text ("#/requestBody/content/" ++ s.bodyType.display)
        name := (Value.field operation "operationId").orElse (.text "body") }
    return some (place, .object (bodyEntries operation entries))
  | _ => throw .objectExpected

theorem readBody_eq (operation : List (String × Value)) :
    readBody s operation = bodySchema s operation >>= fun found =>
      match found with
      | none => .ok none
      | some (place, v) => some <$> Schema.read s place v := by
  unfold readBody bodySchema
  dsimp only
  split
  · rfl
  -- Media that are neither null nor an object are a fault on both sides.
  · cases media s (Value.field operation "requestBody") with
    | error fault => rfl
    | ok found =>
      cases found with
      | object entries | list items => rfl
      | scalar v => cases v <;> rfl

/-- The place of the body, which is called after the operation. -/
def bodyPlace (s : Settings) (operation : List (String × Value)) : Place where
  path := .text ("#/requestBody/content/" ++ s.bodyType.display)
  name := (Value.field operation "operationId").orElse (.text "body")

/-- The operation states a body: of the content type that the settings name, its request has an
object with these entries. -/
def StatesBody (s : Settings) (operation media : List (String × Value)) : Prop :=
  ∃ type request contents, s.bodyType = .text type ∧
    operation.lookup "requestBody" = some (.object request) ∧
    request.lookup "content" = some (.object contents) ∧
    contents.lookup type = some (.object media)

/-- What the body is read from: the identifier and the description of the operation, and behind them
the entries that are stated for the body. -/
def bodyOf (operation media : List (String × Value)) : Value :=
  .object (("operationId", Value.field operation "operationId") ::
    ((operation.lookup "description").toList.map fun v => ("description", v)) ++ media)

theorem lookup_of_field {entries found : List (String × Value)} {key : String}
    (h : Value.field entries key = .object found) : entries.lookup key = some (.object found) := by
  unfold Value.field at h
  cases hlookup : entries.lookup key with
  | none =>
    rw [hlookup] at h
    cases h
  | some v =>
    rw [hlookup, Option.getD_some] at h
    rw [h]

theorem field_of_lookup {entries : List (String × Value)} {key : String} {v : Value}
    (h : entries.lookup key = some v) : Value.field entries key = v := by
  rw [Value.field, h, Option.getD_some]

theorem asObject_eq_ok {v : Value} {entries : List (String × Value)}
    (h : v.asObject = .ok entries) : v = .object entries := by
  cases v with
  | object found =>
    cases h
    rfl
  | _ => cases h

/-- The media of a request are read from what it states for the body, and from nothing else. -/
theorem statesBody_iff {operation entries : List (String × Value)} :
    StatesBody s operation entries ↔
      media s (Value.field operation "requestBody") = .ok (.object entries) := by
  unfold media
  constructor
  · rintro ⟨type, request, contents, htype, hrequest, hcontents, hentries⟩
    -- Contents in which something is found are not empty, so nothing stands in for them.
    have hne : (Value.object contents).isBlank = false := by
      cases contents with
      | nil => cases hentries
      | cons first rest => rfl
    rw [field_of_lookup hrequest]
    simp only [Value.asObject, ok_bind, field_of_lookup hcontents, Value.orElse, hne,
      Bool.false_eq_true, if_false, htype, pure_eq_ok, field_of_lookup hentries]
  · intro h
    -- Conversely, each step of looking for the media has found an object.
    obtain ⟨request, hrequest, h⟩ := bind_eq_ok.mp h
    obtain ⟨contents, hcontents, h⟩ := bind_eq_ok.mp h
    split at h
    · rename_i type htype
      have hfield := Except.ok.inj h
      have hcontents := asObject_eq_ok hcontents
      unfold Value.orElse at hcontents
      split at hcontents
      -- Without contents there is nothing under the content type.
      · cases hcontents
        cases hfield
      · exact ⟨type, request, contents, htype, lookup_of_field (asObject_eq_ok hrequest),
          lookup_of_field hcontents, lookup_of_field hfield⟩
    · cases h
    · cases h

/-- The schema of the body is what is stated for it, at its place. -/
theorem bodySchema_of_statesBody {operation entries : List (String × Value)}
    (h : StatesBody s operation entries) : bodySchema s operation =
      .ok (some (bodyPlace s operation, .object (bodyEntries operation entries))) := by
  -- A request with contents is not blank.
  have hblank : (Value.field operation "requestBody").isBlank = false := by
    obtain ⟨_, request, _, _, hrequest, hcontents, _⟩ := h
    rw [field_of_lookup hrequest]
    cases request with
    | nil => cases hcontents
    | cons first rest => rfl
  unfold bodySchema
  dsimp only
  rw [hblank, statesBody_iff.mp h]
  rfl

theorem exists_statesBody {operation : List (String × Value)} {place : Place} {v : Value}
    (h : bodySchema s operation = .ok (some (place, v))) :
    ∃ entries, StatesBody s operation entries := by
  unfold bodySchema at h
  dsimp only at h
  split at h
  · cases h
  · obtain ⟨found, hfound, h⟩ := bind_eq_ok.mp h
    split at h
    · cases h
    · exact ⟨_, statesBody_iff.mpr hfound⟩
    · cases h

theorem lookup_bodyEntries {operation media : List (String × Value)} {key : String}
    (hkey : key ∉ ["operationId", "description"]) :
    (bodyEntries operation media).lookup key = media.lookup key := by
  simp only [List.mem_cons, List.not_mem_nil, or_false, not_or] at hkey
  unfold bodyEntries
  split
  · rw [Table.lookup_insertEntry, if_neg hkey.2, Table.lookup_insertEntry, if_neg hkey.1]
  · rw [Table.lookup_insertEntry, if_neg hkey.1]

/-- What the body is read from has the entries of its media under those of the operation. -/
theorem read_bodyOf (place : Place) (operation entries : List (String × Value)) :
    Schema.read s place (bodyOf operation entries) =
      Schema.read s place (.object (bodyEntries operation entries)) := by
  -- The one sets two entries before those of the media, the other among them; either way the same
  -- is found under every key.
  apply Schema.read_congr
  intro key
  rw [List.cons_append, List.lookup_cons]
  unfold bodyEntries
  cases operation.lookup "description" with
  | none =>
    rw [Table.lookup_insertEntry]
    by_cases hkey : key = "operationId"
    · rw [hkey, beq_self_eq_true, if_pos rfl]
    · rw [beq_false_of_ne hkey, if_neg hkey]
      rfl
  | some description =>
    rw [Table.lookup_insertEntry, Table.lookup_insertEntry, Option.toList_some, List.map_singleton,
      List.singleton_append, List.lookup_cons]
    by_cases hkey : key = "operationId"
    · subst hkey
      rw [beq_self_eq_true, if_neg (by decide), if_pos rfl]
    · rw [beq_false_of_ne hkey, if_neg hkey]
      by_cases hdescription : key = "description"
      · rw [hdescription, beq_self_eq_true, if_pos rfl]
      · rw [beq_false_of_ne hdescription, if_neg hdescription]

/-- A route has a body if one is stated, and it is what can be read of it. -/
theorem exists_body {operation entries : List (String × Value)} {route : Route}
    (h : read s (.object operation) = .ok route) (hentries : StatesBody s operation entries) :
    ∃ schema, route.body = some schema ∧
      Schema.read s (bodyPlace s operation) (bodyOf operation entries) = .ok schema := by
  have hbody := (read_eq_ok h).2
  rw [readBody_eq, bodySchema_of_statesBody hentries, ok_bind] at hbody
  obtain ⟨schema, hread, hschema⟩ := map_eq_ok.mp hbody
  exact ⟨schema, hschema.symm, (read_bodyOf _ _ _).trans hread⟩

/-- The body of a route is read from the one that is stated. -/
theorem body_eq_some_iff {operation : List (String × Value)} {route : Route} {schema : Schema}
    (h : read s (.object operation) = .ok route) : route.body = some schema ↔
      ∃ entries, StatesBody s operation entries ∧
        Schema.read s (bodyPlace s operation) (bodyOf operation entries) = .ok schema := by
  constructor
  · intro hschema
    have hbody := (read_eq_ok h).2
    rw [readBody_eq, hschema] at hbody
    obtain ⟨found, hfound, hread⟩ := bind_eq_ok.mp hbody
    cases found with
    | none => cases hread
    | some found =>
      obtain ⟨entries, hentries⟩ := exists_statesBody hfound
      obtain ⟨_, hsame, hread⟩ := exists_body h hentries
      cases hschema.symm.trans hsame
      exact ⟨entries, hentries, hread⟩
  · rintro ⟨entries, hentries, hread⟩
    obtain ⟨_, hbody, hsame⟩ := exists_body h hentries
    cases hread.symm.trans hsame
    exact hbody

/-- Nothing of the parameters is looked at for the body. -/
theorem readBody_congr {operation other : List (String × Value)}
    (h : ∀ key, key ≠ "parameters" → operation.lookup key = other.lookup key) :
    readBody s operation = readBody s other := by
  have hfield : ∀ key, key ≠ "parameters" → Value.field operation key = Value.field other key :=
    fun key hkey => congrArg (·.getD .null) (h key hkey)
  have hbody := hfield "requestBody" (by decide)
  have hid := hfield "operationId" (by decide)
  have hentries : bodyEntries operation = bodyEntries other := by
    funext media
    simp only [bodyEntries, hid, h "description" (by decide)]
  unfold readBody
  rw [hbody, hid, hentries]

end Route

end RouteRules
