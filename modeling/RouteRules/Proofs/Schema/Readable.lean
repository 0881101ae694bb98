import RouteRules.Proofs.Schema.Revision

/-!
# What can be read

Which values are schemas, and what is wrong with those that are none. Only what reading comes to
counts: nothing beside a reference, no items of a text, no properties of an array.

Every part of a value that reading comes to has a position: the numbers of the parts on the way down
to it. In the order of a dictionary, positions are in the order in which the parts are declared,
each followed by its own parts.

## Main definitions

- `Schema.Readable`: the values that can be read.
- `Schema.Part`: the parts of a schema that are schemas themselves.
- `Schema.Wrong`, `Schema.WrongAt`: what is wrong with a value itself, and at a position in it.
- `Schema.FirstWrong`: what is wrong at the first such position.

## Main statements

- `Schema.Readable.not_wrongAt`: nothing is wrong anywhere in what can be read.
- `Schema.readable_of_read`, `Schema.firstWrong_of_read`: what the outcome of reading says.
- `Schema.read_iff_readable`: what is readable is read, and all else fails with what is wrong first.
-/

namespace RouteRules

/-! ## What facets say -/

namespace Facets

/-- The schema is no reference and of this type, as it says itself. Without a type, it is enough to
state properties, whatever they are, to be an object. -/
inductive Says (f : Facets) : String → Prop where
  | type {type : String} :
      f.decided "$ref" = .null → f.decided "type" = .text type → Says f type
  | properties {v : Value} :
      f.decided "$ref" = .null → f.decided "type" = .null → f.find? "properties" = some v →
      Says f "object"

variable {f : Facets}

theorem Says.reference_eq {type : String} (h : f.Says type) : f.decided "$ref" = .null := by
  cases h <;> assumption

/-- A schema is of one type only. -/
theorem Says.eq {type other : String} (h : f.Says type) (hother : f.Says other) : type = other := by
  cases h with
  | type _ htype =>
    cases hother with
    | type _ hother =>
      cases htype.symm.trans hother
      rfl
    | properties _ hnull _ => cases htype.symm.trans hnull
  | properties _ hnull _ =>
    cases hother with
    | type _ hother => cases hnull.symm.trans hother
    | properties _ _ _ => rfl

theorem Says.string_not_array (h : f.Says "string") : ¬f.Says "array" :=
  fun harray => absurd (h.eq harray) (by simp)

theorem Says.string_not_object (h : f.Says "string") : ¬f.Says "object" :=
  fun hobject => absurd (h.eq hobject) (by simp)

theorem Says.array_not_object (h : f.Says "array") : ¬f.Says "object" :=
  fun hobject => absurd (h.eq hobject) (by simp)

theorem reference?_eq_none : f.reference? = none ↔ f.decided "$ref" = .null := by
  unfold reference?
  split
  · rename_i hnull
    exact ⟨fun _ => hnull, fun _ => rfl⟩
  · rename_i hnull
    simpa using hnull

theorem says_iff {type : String} : f.Says type ↔ f.decided "$ref" = .null ∧
    (f.decided "type" = .text type ∨
      type = "object" ∧ f.decided "type" = .null ∧ ∃ v, f.find? "properties" = some v) := by
  constructor
  · rintro (⟨href, htype⟩ | ⟨href, htype, hfind⟩)
    · exact ⟨href, .inl htype⟩
    · exact ⟨href, .inr ⟨rfl, htype, _, hfind⟩⟩
  · rintro ⟨href, htype | ⟨rfl, htype, v, hfind⟩⟩
    · exact .type href htype
    · exact .properties href htype hfind

theorem says_string : f.Says "string" ↔ f.reference? = none ∧ f.type = .string := by
  rw [says_iff, reference?_eq_none]
  unfold type
  grind

theorem says_array : f.Says "array" ↔ f.reference? = none ∧ f.type = .array := by
  rw [says_iff, reference?_eq_none]
  unfold type
  grind

theorem says_object : f.Says "object" ↔ f.reference? = none ∧ f.type = .object := by
  rw [says_iff, reference?_eq_none]
  simp only [← Option.isSome_iff_exists]
  unfold type
  grind

end Facets

/-! ## Allow-lists -/

namespace Value

/-- The value can be an allow-list: it is absent, or it can be walked over. -/
def IsAllowList (v : Value) : Prop :=
  v = .null ∨ (∃ vs, v = .list vs) ∨ (∃ t, v = .text t) ∨ ∃ entries, v = .object entries

/-- The value is a flag or a number. -/
def IsFlagOrNumber (v : Value) : Prop :=
  (∃ b, v = .bool b) ∨ (∃ n, v = .int n) ∨ ∃ x, v = .float x

theorem IsAllowList.not_isFlagOrNumber {v : Value} (h : v.IsAllowList) : ¬v.IsFlagOrNumber := by
  rcases h with rfl | ⟨_, rfl⟩ | ⟨_, rfl⟩ | ⟨_, rfl⟩ <;> simp [IsFlagOrNumber]

end Value

theorem Facets.isAllowList_of_members {f : Facets} {members : Option (List Value)}
    (h : f.members = .ok members) : (f.get "enum").IsAllowList := by
  unfold Facets.members at h
  generalize f.get "enum" = v at h ⊢
  cases v with
  | list vs => exact .inr (.inl ⟨vs, rfl⟩)
  | object entries => exact .inr (.inr (.inr ⟨entries, rfl⟩))
  | scalar s =>
    cases s with
    | null => exact .inl rfl
    | text t => exact .inr (.inr (.inl ⟨t, rfl⟩))
    | _ => cases h

theorem Facets.isFlagOrNumber_of_members {f : Facets} {fault : Fault}
    (h : f.members = .error fault) : (f.get "enum").IsFlagOrNumber ∧ fault = .noElements := by
  unfold Facets.members at h
  generalize f.get "enum" = v at h ⊢
  cases v with
  | list vs => cases h
  | object entries => cases h
  -- Of the scalars, a text is the list of its characters, and a missing value asks for nothing.
  | scalar s =>
    cases s with
    | null => cases h
    | text t => cases h
    | bool b =>
      cases h
      exact ⟨.inl ⟨b, rfl⟩, rfl⟩
    | int n =>
      cases h
      exact ⟨.inr (.inl ⟨n, rfl⟩), rfl⟩
    | float x =>
      cases h
      exact ⟨.inr (.inr ⟨x, rfl⟩), rfl⟩

namespace Schema

/-! ## Readable values -/

/-- The value can be read as a schema. -/
inductive Readable : Value → Prop where
  /-- Nothing else is looked at beside a reference. -/
  | reference {entries : List (String × Value)} :
      (Facets.ofEntries entries).decided "$ref" ≠ .null → Readable (.object entries)
  | string {entries : List (String × Value)} :
      (Facets.ofEntries entries).Says "string" →
      ((Facets.ofEntries entries).get "enum").IsAllowList → Readable (.object entries)
  | bareArray {entries : List (String × Value)} :
      (Facets.ofEntries entries).Says "array" → (Facets.ofEntries entries).get "items" = .null →
      Readable (.object entries)
  | array {entries : List (String × Value)} {items : Value} :
      (Facets.ofEntries entries).Says "array" →
      (Facets.ofEntries entries).find? "items" = some items → Readable items →
      Readable (.object entries)
  | bareObject {entries : List (String × Value)} :
      (Facets.ofEntries entries).Says "object" →
      (Facets.ofEntries entries).get "properties" = .null → Readable (.object entries)
  | object {entries properties : List (String × Value)} :
      (Facets.ofEntries entries).Says "object" →
      (Facets.ofEntries entries).find? "properties" = some (.object properties) →
      (∀ e ∈ properties, Readable e.2) → Readable (.object entries)
  /-- A schema of any other type, or of none. -/
  | other {entries : List (String × Value)} :
      (Facets.ofEntries entries).decided "$ref" = .null →
      ¬(Facets.ofEntries entries).Says "string" → ¬(Facets.ofEntries entries).Says "array" →
      ¬(Facets.ofEntries entries).Says "object" → Readable (.object entries)

/-- The second value is a part of the schema that is a schema itself: its items, or its property
with this number. -/
inductive Part : Value → Nat → Value → Prop where
  | items {entries : List (String × Value)} {v : Value} :
      (Facets.ofEntries entries).Says "array" →
      (Facets.ofEntries entries).find? "items" = some v → v ≠ .null → Part (.object entries) 0 v
  | property {entries properties : List (String × Value)} {i : Nat} {key : String} {v : Value} :
      (Facets.ofEntries entries).Says "object" →
      (Facets.ofEntries entries).find? "properties" = some (.object properties) →
      properties[i]? = some (key, v) → Part (.object entries) i v

/-- What is wrong with a value, apart from its parts. -/
inductive Wrong : Value → Fault → Prop where
  | schema {v : Value} : (∀ entries, v ≠ .object entries) → Wrong v .noFields
  | properties {entries : List (String × Value)} {v : Value} :
      (Facets.ofEntries entries).Says "object" →
      (Facets.ofEntries entries).find? "properties" = some v → v ≠ .null →
      (∀ properties, v ≠ .object properties) → Wrong (.object entries) .noFields
  | enum {entries : List (String × Value)} :
      (Facets.ofEntries entries).Says "string" →
      ((Facets.ofEntries entries).get "enum").IsFlagOrNumber → Wrong (.object entries) .noElements

/-- What is wrong with the part of a value at a position. -/
def WrongAt : Value → List Nat → Fault → Prop
  | v, [], fault => Wrong v fault
  | v, i :: position, fault => ∃ w, Part v i w ∧ WrongAt w position fault

/-- What is wrong at the first position where something is wrong. -/
def FirstWrong (v : Value) (fault : Fault) : Prop :=
  ∃ position, WrongAt v position fault ∧ ∀ other fault', WrongAt v other fault' →
    other = position ∨ List.Lex (· < ·) position other

variable {v w : Value} {fault : Fault}

/-! ## One thing at a time -/

theorem Part.unique {i : Nat} {w' : Value} (h : Part v i w) (h' : Part v i w') : w = w' := by
  cases h with
  | items harray hitems _ =>
    cases h' with
    | items _ hitems' _ => exact Option.some.inj (hitems.symm.trans hitems')
    | property hobject _ _ => exact absurd hobject harray.array_not_object
  | property hobject hproperties hi =>
    cases h' with
    | items harray _ _ => exact absurd hobject harray.array_not_object
    | property _ hproperties' hi' =>
      cases hproperties.symm.trans hproperties'
      cases hi.symm.trans hi'
      rfl

theorem Wrong.unique {fault' : Fault} (h : Wrong v fault) (h' : Wrong v fault') :
    fault = fault' := by
  cases h with
  | schema hv =>
    cases h' with
    | schema _ => rfl
    | properties _ _ _ _ | enum _ _ => exact absurd rfl (hv _)
  | properties hobject _ _ _ =>
    cases h' with
    | schema _ | properties _ _ _ _ => rfl
    | enum hstring _ => exact absurd hobject hstring.string_not_object
  | enum hstring _ =>
    cases h' with
    | schema hv => exact absurd rfl (hv _)
    | properties hobject _ _ _ => exact absurd hobject hstring.string_not_object
    | enum _ _ => rfl

/-- Nothing is wrong with a value whose parts are read, apart from these. -/
theorem Part.not_wrong {i : Nat} (h : Part v i w) : ¬Wrong v fault := by
  intro hwrong
  cases h with
  | items harray _ _ =>
    cases hwrong with
    | schema hv => exact hv _ rfl
    | properties hobject _ _ _ => exact absurd hobject harray.array_not_object
    | enum hstring _ => exact absurd harray hstring.string_not_array
  | property hobject hproperties _ =>
    cases hwrong with
    | schema hv => exact hv _ rfl
    | properties _ hproperties' _ hv =>
      cases hproperties.symm.trans hproperties'
      exact hv _ rfl
    | enum hstring _ => exact absurd hobject hstring.string_not_object

theorem WrongAt.unique {position : List Nat} {fault' : Fault} (h : WrongAt v position fault)
    (h' : WrongAt v position fault') : fault = fault' := by
  induction position generalizing v with
  | nil => exact Wrong.unique h h'
  | cons i position ih =>
    obtain ⟨w, hpart, hat⟩ := h
    obtain ⟨w', hpart', hat'⟩ := h'
    cases hpart.unique hpart'
    exact ih hat hat'

/-- Only one thing is wrong first. -/
theorem FirstWrong.unique {fault' : Fault} (h : FirstWrong v fault) (h' : FirstWrong v fault') :
    fault = fault' := by
  obtain ⟨position, hat, hfirst⟩ := h
  obtain ⟨position', hat', hfirst'⟩ := h'
  -- Of two first positions, neither is before the other.
  have hsame : position' = position := by
    rcases hfirst _ _ hat' with hsame | hlt
    · exact hsame
    · rcases hfirst' _ _ hat with hsame | hgt
      · exact hsame.symm
      · exact absurd hgt (List.lt_asymm hlt)
  exact hat.unique (hsame ▸ hat')

/-- Only two things can be wrong. -/
theorem WrongAt.fault_eq {position : List Nat} (h : WrongAt v position fault) :
    fault = .noFields ∨ fault = .noElements := by
  induction position generalizing v with
  | nil =>
    cases h with
    | schema _ | properties _ _ _ _ => exact .inl rfl
    | enum _ _ => exact .inr rfl
  | cons i position ih =>
    obtain ⟨w, _, hat⟩ := h
    exact ih hat

/-! ## Nothing is wrong in what is readable -/

theorem Readable.not_wrong (h : Readable v) : ¬Wrong v fault := by
  intro hwrong
  -- What is wrong and what is readable each say a type, and a schema says only one; where the types
  -- agree, the two contradict each other on what the type needs.
  cases hwrong with
  | schema hv => cases h <;> exact hv _ rfl
  | @properties entries v hobject hproperties hnull hv =>
    cases h with
    | reference href => exact href hobject.reference_eq
    | string hstring _ => exact absurd hobject hstring.string_not_object
    | bareArray harray _ | array harray _ _ => exact absurd hobject harray.array_not_object
    | bareObject _ hnone =>
      rw [Facets.get, hproperties] at hnone
      exact hnull hnone
    | object _ hproperties' _ =>
      cases hproperties.symm.trans hproperties'
      exact hv _ rfl
    | other _ _ _ hother => exact hother hobject
  | enum hstring henum =>
    cases h with
    | reference href => exact href hstring.reference_eq
    | string _ hlist => exact hlist.not_isFlagOrNumber henum
    | bareArray harray _ | array harray _ _ => exact absurd harray hstring.string_not_array
    | bareObject hobject _ | object hobject _ _ => exact absurd hobject hstring.string_not_object
    | other _ hother _ _ => exact hother hstring

/-- The parts of what is readable are readable. -/
theorem Readable.part {i : Nat} (h : Readable v) (hpart : Part v i w) : Readable w := by
  -- There are only parts of an array or of an object, and readable parts are asked for in these two
  -- cases.
  cases hpart with
  | items harray hitems hnull =>
    cases h with
    | reference href => exact absurd harray.reference_eq href
    | string hstring _ => exact absurd harray hstring.string_not_array
    | bareArray _ hnone =>
      rw [Facets.get, hitems] at hnone
      exact absurd hnone hnull
    | array _ hitems' hread => exact Option.some.inj (hitems'.symm.trans hitems) ▸ hread
    | bareObject hobject _ | object hobject _ _ => exact absurd hobject harray.array_not_object
    | other _ _ hother _ => exact absurd harray hother
  | property hobject hproperties hi =>
    cases h with
    | reference href => exact absurd hobject.reference_eq href
    | string hstring _ => exact absurd hobject hstring.string_not_object
    | bareArray harray _ | array harray _ _ => exact absurd hobject harray.array_not_object
    | bareObject _ hnone =>
      rw [Facets.get, hproperties] at hnone
      cases hnone
    | object _ hproperties' hall =>
      cases hproperties.symm.trans hproperties'
      exact hall _ (List.mem_of_getElem? hi)
    | other _ _ _ hother => exact absurd hobject hother

theorem Readable.not_wrongAt {position : List Nat} (h : Readable v) :
    ¬WrongAt v position fault := by
  -- Along a position there are only readable parts.
  induction position generalizing v with
  | nil => exact h.not_wrong
  | cons i position ih =>
    rintro ⟨w, hpart, hat⟩
    exact ih (h.part hpart) hat

/-! ## What reading says -/

variable {s : Settings}

/-- What is read is readable. -/
theorem readable_of_read {place : Place} {schema : Schema} (h : read s place v = .ok schema) :
    Readable v := by
  -- Induction along the parts, which are read at places of their own.
  induction v using reading_induction generalizing place schema with
  | other v hv =>
    rw [read_of_not_object s place hv] at h
    cases h
  | object entries items properties =>
    obtain ⟨_, info, ⟨⟩, hinfo, hform⟩ := form_of_read h
    cases hform with
    | reference href =>
      apply Readable.reference
      -- A schema that is read as a reference states one.
      intro hnull
      rw [Facets.reference?_eq_none.mpr hnull] at href
      cases href
    | string href htype hmembers =>
      exact .string (Facets.says_string.mpr ⟨href, htype⟩) (Facets.isAllowList_of_members hmembers)
    | bareArray href htype hnone => exact .bareArray (Facets.says_array.mpr ⟨href, htype⟩) hnone
    | array href htype hitems hnull hread =>
      exact .array (Facets.says_array.mpr ⟨href, htype⟩) hitems (items _ hitems hread)
    | bareObject href htype hnone =>
      exact .bareObject (Facets.says_object.mpr ⟨href, htype⟩) hnone
    | object href htype hproperties hread =>
      refine .object (Facets.says_object.mpr ⟨href, htype⟩) hproperties ?_
      intro e he
      rw [readProperties_eq_mapM] at hread
      obtain ⟨property, hproperty⟩ := exists_of_mapM_eq_ok hread he
      exact properties _ hproperties e.1 e.2 he hproperty
    -- The type is none of those that need anything.
    | number href htype | unsupported href htype =>
      apply Readable.other (Facets.reference?_eq_none.mp href)
      · simp [Facets.says_string, htype]
      · simp [Facets.says_array, htype]
      · simp [Facets.says_object, htype]

/-- What is wrong with a value itself comes first. -/
theorem Wrong.firstWrong (h : Wrong v fault) : FirstWrong v fault := by
  refine ⟨[], h, fun other _ _ => ?_⟩
  cases other with
  | nil => exact .inl rfl
  | cons i position => exact .inr .nil

/-- What is wrong in the first part where something is wrong comes first. -/
theorem FirstWrong.of_part {i : Nat} (hpart : Part v i w)
    (hbefore : ∀ j w', Part v j w' → j < i → Readable w') (h : FirstWrong w fault) :
    FirstWrong v fault := by
  obtain ⟨position, hat, hfirst⟩ := h
  refine ⟨i :: position, ⟨w, hpart, hat⟩, fun other fault' hother => ?_⟩
  cases other with
  | nil => exact absurd hother hpart.not_wrong
  | cons j rest =>
    obtain ⟨w', hpart', hrest⟩ := hother
    -- Another position is in a later part, in the same one, or in one where nothing is wrong.
    rcases Nat.lt_trichotomy i j with hlt | rfl | hgt
    · exact .inr (.rel hlt)
    · cases hpart.unique hpart'
      rcases hfirst rest fault' hrest with rfl | hlater
      · exact .inl rfl
      · exact .inr (.cons hlater)
    · exact absurd hrest (hbefore j w' hpart' hgt).not_wrongAt

/-- What is not read fails with what is wrong first. -/
theorem firstWrong_of_read (hinfo : ∀ f place, ∃ info, Facets.info f s place = .ok info)
    {place : Place} (h : read s place v = .error fault) : FirstWrong v fault := by
  -- Induction along the parts: the fault of a part is what is wrong first in it.
  induction v using reading_induction generalizing place fault with
  | other v hv =>
    rw [read_of_not_object s place hv] at h
    cases h
    exact (Wrong.schema hv).firstWrong
  | object entries items properties =>
    obtain ⟨info, hinfo⟩ := hinfo (Facets.ofEntries entries) place
    rw [read_object, hinfo, ok_bind] at h
    unfold readKind at h
    split at h
    · cases h
    · rename_i href
      unfold readTyped at h
      split at h
      -- A text: its allow-list.
      · rename_i htype
        obtain ⟨henum, rfl⟩ := Facets.isFlagOrNumber_of_members (map_eq_error.mp h)
        exact (Wrong.enum (Facets.says_string.mpr ⟨href, htype⟩) henum).firstWrong
      · cases h
      -- An array: its items.
      · rename_i htype
        unfold readArray at h
        split at h
        · cases h
        · cases h
        · rename_i v hnull hitems
          have hpart := Part.items (Facets.says_array.mpr ⟨href, htype⟩) hitems hnull
          refine .of_part hpart (fun j _ _ hj => absurd hj (Nat.not_lt_zero j)) ?_
          exact items v hitems (map_eq_error.mp h)
      -- An object: the first property that fails.
      · rename_i htype
        have hobject := Facets.says_object.mpr ⟨href, htype⟩
        unfold readObject at h
        split at h
        · cases h
        · cases h
        · rename_i stated hstated
          obtain ⟨before, e, after, rfl, hbefore, he⟩ :=
            readProperties_eq_error.mp (map_eq_error.mp h)
          have hi : (before ++ e :: after)[before.length]? = some (e.1, e.2) := by simp
          have hpart : Part (.object entries) before.length e.2 := .property hobject hstated hi
          refine .of_part hpart (fun j w hw hj => ?_) ?_
          · cases hw with
            | items harray _ _ => exact absurd hobject harray.array_not_object
            | property _ hstated' hj' =>
              cases hstated.symm.trans hstated'
              rw [List.getElem?_append_left hj] at hj'
              obtain ⟨property, hproperty⟩ := hbefore _ (List.mem_of_getElem? hj')
              exact readable_of_read hproperty
          · exact properties _ hstated e.1 e.2 (by simp) he
        · rename_i w hnull hw hstated
          cases h
          exact (Wrong.properties hobject hstated hnull hw).firstWrong
      · cases h

/-- With texts for the names of its extensions, a schema has a common part. -/
theorem exists_info (hadd : ∃ t, s.appendKey = .text t) (hreplace : ∃ t, s.replaceKey = .text t)
    (f : Facets) (place : Place) : ∃ info, f.info s place = .ok info := by
  obtain ⟨add, hadd⟩ := hadd
  obtain ⟨replace, hreplace⟩ := hreplace
  unfold Facets.info
  rw [hadd, hreplace]
  exact ⟨_, rfl⟩

/-- With texts for the names of its extensions, whatever is readable is read, wherever it stands,
and nothing else is. All else fails with what is wrong at the first position where something is
wrong: a schema or properties that are no object, or an allow-list that is a flag or a number. -/
theorem read_iff_readable (s : Settings) (hadd : ∃ t, s.appendKey = .text t)
    (hreplace : ∃ t, s.replaceKey = .text t) (place : Place) (v : Value) :
    ((∃ schema, read s place v = .ok schema) ↔ Readable v) ∧
    (∀ fault, read s place v = .error fault ↔ FirstWrong v fault) ∧
    ∀ fault, read s place v = .error fault → fault = .noFields ∨ fault = .noElements := by
  have hfirst : ∀ fault, read s place v = .error fault → FirstWrong v fault :=
    fun fault => firstWrong_of_read (exists_info hadd hreplace)
  refine ⟨⟨?readable, ?read⟩, fun fault => ⟨hfirst fault, ?error⟩, ?fault⟩
  case readable =>
    rintro ⟨schema, h⟩
    exact readable_of_read h
  -- If it failed, something would be wrong at a position, and nothing is in what is readable.
  case read =>
    intro hreadable
    cases h : read s place v with
    | ok schema => exact ⟨schema, rfl⟩
    | error fault =>
      obtain ⟨position, hat, _⟩ := hfirst fault h
      exact absurd hat hreadable.not_wrongAt
  case error =>
    intro hwrong
    cases h : read s place v with
    | ok schema =>
      obtain ⟨position, hat, _⟩ := hwrong
      exact absurd hat (readable_of_read h).not_wrongAt
    -- No two errors come first.
    | error other => rw [(hfirst other h).unique hwrong]
  case fault =>
    intro fault h
    obtain ⟨position, hat, _⟩ := hfirst fault h
    exact hat.fault_eq

/-- A parcel whose label has a number for an allow-list, and whose weight is no schema. Its customs
form refers to another schema, so nothing beside the reference matters. -/
def parcel : Value :=
  .object [("schema", .object [("properties", .object
    [("customs", .object [("$ref", .text "form"), ("properties", .int 1)]),
     ("label", .object [("type", .text "string"), ("enum", .int 3)]),
     ("weight", .int 20)])])]

theorem read_iff_readable_parcel :
    (∃ t, ({} : Settings).appendKey = .text t) ∧ (∃ t, ({} : Settings).replaceKey = .text t) ∧
      read {} { path := .text "#" } parcel = .error .noElements ∧
      FirstWrong parcel .noElements ∧ ¬Readable parcel := by
  have hadd : ∃ t, ({} : Settings).appendKey = .text t := ⟨_, rfl⟩
  have hreplace : ∃ t, ({} : Settings).replaceKey = .text t := ⟨_, rfl⟩
  have hread : read {} { path := .text "#" } parcel = .error .noElements := by decide +kernel
  obtain ⟨hreadable, hfirst, _⟩ := read_iff_readable {} hadd hreplace { path := .text "#" } parcel
  refine ⟨hadd, hreplace, hread, (hfirst _).mp hread, fun h => ?_⟩
  obtain ⟨schema, hschema⟩ := hreadable.mpr h
  cases hread.symm.trans hschema

end Schema

end RouteRules
