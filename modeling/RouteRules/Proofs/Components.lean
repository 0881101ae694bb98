import RouteRules.Proofs.Schema.Place

/-!
# Components

What a reference finds in the catalogue: a component is there under the name that the reference
points to, and its content is either another reference or a list of properties. All this depends on
the name only.

## Main definitions

- `Context.Names`: the component that a reference names, as it is read.
- `Schema.content?`: what a schema is as a component.

## Main statements

- `Context.resolve_eq_ok`, `Context.content_eq_alias`, `Context.content_eq_properties`: what is
  found, in terms of the catalogue.
- `Context.content_congr`: references that name one component find the same there.
- `Context.expandWithin_congr`: so they stand for the same fields.
-/

namespace RouteRules

/-! ## Schemas as components -/

/-- What a schema is as a component, if it can be one. -/
def Schema.content? : Schema → Option Content
  | .reference _ target => some (.alias target)
  | .object _ (first :: rest) => some (.properties first rest)
  | _ => none

theorem Schema.content?_eq_alias {schema : Schema} {target : Reference}
    (h : schema.content? = some (.alias target)) : ∃ info, schema = .reference info target := by
  cases schema with
  | reference info other =>
    cases h
    exact ⟨info, rfl⟩
  | object info properties => cases properties <;> cases h
  | _ => cases h

theorem Schema.content?_eq_properties {schema first : Schema} {rest : List Schema}
    (h : schema.content? = some (.properties first rest)) :
    ∃ info, schema = .object info (first :: rest) := by
  cases schema with
  | object info properties =>
    cases properties with
    | nil => cases h
    | cons head tail =>
      cases h
      exact ⟨info, rfl⟩
  | _ => cases h

/-- What a component is, without the paths of its properties. -/
def Content.unplaced : Content → Content
  | .alias target => .alias target
  | .properties first rest => .properties first.unplaced (Schema.unplacedAll rest)

@[simp] theorem Content.fields_unplaced (expand : Expansion) (content : Content) :
    content.unplaced.fields expand = content.fields expand := by
  rcases content with target | ⟨first, rest⟩
  · rfl
  · exact Schema.fieldsOfAll_unplaced expand (first :: rest)

/-- Without the paths of its properties. -/
def Schema.unplacedContent? (schema : Schema) : Option Content :=
  schema.content?.map Content.unplaced

theorem Schema.info_agrees (s : Settings) (f : Facets) (place other : Place) :
    (fun _ => ()) <$> f.info s place = (fun _ => ()) <$> f.info s other := by
  unfold Facets.info
  cases f.named s.appendKey with
  | error fault => rfl
  | ok append => cases f.named s.replaceKey <;> rfl

/-- What a schema is as a component depends neither on the place where it is read, nor on the name
and the mark that it is given there. -/
theorem Schema.unplacedContent?_read (s : Settings) (place other : Place) (v : Value) :
    unplacedContent? <$> read s place v = unplacedContent? <$> read s other v := by
  by_cases h : ∃ entries, v = .object entries
  · obtain ⟨entries, rfl⟩ := h
    rw [read_object, read_object]
    apply map_bind_congr (info_agrees s _ place other)
    intro info info' _
    -- Of a reference the target counts, of an object its properties, of all others nothing.
    unfold readKind
    split
    · rfl
    · unfold readTyped
      split
      -- A text, which may fail for its allow-list, and a number.
      · exact map_map_congr (v := id) rfl fun ms ms' _ => rfl
      · rfl
      -- An array: its items are read at another place, and fail there if they fail here.
      · unfold readArray
        split
        · rfl
        · rfl
        · exact map_map_congr
            (unplaced_read { path := place.itemsPath } { path := other.itemsPath } rfl rfl _)
            fun a b _ => rfl
      -- An object: so do its properties, which are kept and differ in their paths.
      · unfold readObject
        split
        · rfl
        · rfl
        · refine map_map_congr (v := unplacedAll) ?_ fun a b hab => ?_
          · exact unplaced_readProperties fun key w _ =>
              unplaced_read (place.property _ key) (other.property _ key) rfl rfl w
          · cases a <;> cases b <;> simp_all [unplacedAll, unplacedContent?, content?,
              Content.unplaced]
        · rfl
      · rfl
  · have hv : ∀ entries, v ≠ .object entries := fun entries he => h ⟨entries, he⟩
    rw [read_of_not_object s place hv, read_of_not_object s other hv]

/-! ## Components of a catalogue -/

/-- The reference names a component of the catalogue, and `component` is read there. -/
def Context.Names (c : Context) (r : Reference) (component : Schema) : Prop :=
  ∃ name v, c.settings.componentName r.path = .ok name ∧
    c.catalogue.find? (.text name) = some v ∧
    Schema.read c.settings { path := r.path, name := r.operationId } v = .ok component

namespace Context

theorem resolve_eq_ok {c : Context} {reference name : Value} {component : Schema} :
    c.resolve reference name = .ok component ↔ c.Names ⟨reference, name⟩ component := by
  constructor
  · intro h
    obtain ⟨found, hfound, hread⟩ := bind_eq_ok.mp h
    -- A name that is not in the catalogue is a fault, so the component was found.
    cases hfind : c.catalogue.find? (.text found) with
    | none => simp only [hfind, throw_eq_error, reduceCtorEq] at hread
    | some v =>
      simp only [hfind] at hread
      exact ⟨found, v, hfound, hfind, hread⟩
  · rintro ⟨found, v, hfound, hfind, hread⟩
    simp only [resolve, hfound, ok_bind, hfind, hread]

variable {c : Context} {r : Reference}

/-- What a component is, or why it cannot be one. -/
theorem content_eq (c : Context) (r : Reference) :
    c.content r = c.resolve r.path r.operationId >>= fun schema =>
      match schema.content? with
      | some content => .ok content
      | none => c.settings.componentName r.path >>= fun name =>
          .error (.noProperties (.text name)) := by
  unfold content
  cases c.resolve r.path r.operationId with
  | error fault => rfl
  | ok schema =>
    cases schema with
    | object info properties => cases properties <;> rfl
    | _ => rfl

theorem content_eq_ok {content : Content} :
    c.content r = .ok content ↔ ∃ component, c.Names r component ∧
      component.content? = some content := by
  rw [content_eq, bind_eq_ok]
  constructor
  · rintro ⟨component, hcomponent, h⟩
    refine ⟨component, resolve_eq_ok.mp hcomponent, ?_⟩
    -- Without content the answer is a fault, whether the name can be told or not.
    cases hcontent : component.content? with
    | some found =>
      rw [hcontent] at h
      cases h
      rfl
    | none =>
      rw [hcontent] at h
      obtain ⟨_, _, hfault⟩ := bind_eq_ok.mp h
      cases hfault
  · rintro ⟨component, hnames, hcontent⟩
    exact ⟨component, resolve_eq_ok.mpr hnames, by rw [hcontent]⟩

theorem content_eq_alias {target : Reference} :
    c.content r = .ok (.alias target) ↔ ∃ info, c.Names r (.reference info target) := by
  rw [content_eq_ok]
  constructor
  · rintro ⟨component, hnames, hcontent⟩
    obtain ⟨info, rfl⟩ := Schema.content?_eq_alias hcontent
    exact ⟨info, hnames⟩
  · rintro ⟨info, hnames⟩
    exact ⟨_, hnames, rfl⟩

theorem content_eq_properties {first : Schema} {rest : List Schema} :
    c.content r = .ok (.properties first rest) ↔
      ∃ info, c.Names r (.object info (first :: rest)) := by
  rw [content_eq_ok]
  constructor
  · rintro ⟨component, hnames, hcontent⟩
    obtain ⟨info, rfl⟩ := Schema.content?_eq_properties hcontent
    exact ⟨info, hnames⟩
  · rintro ⟨info, hnames⟩
    exact ⟨_, hnames, rfl⟩

/-- A component that is found has a name, and the catalogue holds it. -/
theorem name_of_content {content : Content} (h : c.content r = .ok content) :
    ∃ name, c.settings.componentName r.path = .ok name ∧
      ∃ v, c.catalogue.find? (.text name) = some v := by
  obtain ⟨_, ⟨name, v, hname, hfind, _⟩, _⟩ := content_eq_ok.mp h
  exact ⟨name, hname, v, hfind⟩

/-! ## References to one component -/

/-- References that name one component find the same there. -/
theorem content_congr {r other : Reference}
    (h : c.settings.componentName r.path = c.settings.componentName other.path) :
    Content.unplaced <$> c.content r = Content.unplaced <$> c.content other := by
  rw [content_eq, content_eq]
  unfold resolve
  rw [h]
  -- The name decides what is looked up, and then only the place of reading differs.
  cases c.settings.componentName other.path with
  | error fault => rfl
  | ok name =>
    simp only [ok_bind]
    cases c.catalogue.find? (.text name) with
    | none => rfl
    | some v =>
      refine map_bind_congr (Schema.unplacedContent?_read c.settings _ _ v) fun a b hab => ?_
      have hab : a.content?.map Content.unplaced = b.content?.map Content.unplaced := hab
      cases ha : a.content? with
      | none =>
        rw [ha, Option.map_none] at hab
        rw [Option.map_eq_none_iff.mp hab.symm]
      | some content =>
        rw [ha, Option.map_some] at hab
        obtain ⟨found, hfound, hunplaced⟩ := Option.map_eq_some_iff.mp hab.symm
        simp only [hfound, map_ok, hunplaced]

/-- Whatever is done with a component, without regard to paths, is the same for references that name
it. -/
theorem content_bind_congr {α : Type} {r other : Reference} {f : Content → Except Fault α}
    (h : c.settings.componentName r.path = c.settings.componentName other.path)
    (hf : ∀ content, f content.unplaced = f content) :
    (c.content r >>= f) = c.content other >>= f := by
  -- What is done with a component can as well be done after its paths are gone.
  have hunplaced : ∀ x : Except Fault Content, (x >>= f) = Content.unplaced <$> x >>= f := by
    intro x
    cases x with
    | ok content => exact (hf content).symm
    | error fault => rfl
  rw [hunplaced, content_congr h, ← hunplaced]

/-- References that name one component stand for the same fields. -/
theorem expandWithin_congr {r other : Reference}
    (h : c.settings.componentName r.path = c.settings.componentName other.path) (limit : Nat) :
    c.expandWithin limit r = c.expandWithin limit other := by
  cases limit with
  | zero => exact content_bind_congr h fun content => rfl
  | succ limit => exact content_bind_congr h (Content.fields_unplaced (c.expandWithin limit))

end Context

end RouteRules
