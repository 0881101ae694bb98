import RouteRules.Proofs.Outcome
import RouteRules.Proofs.Table
import RouteRules.Settings

/-!
# Objects of settings

Settings are assigned by name, and most names are no settings: what is assigned to them is lost.
Four names are neither. One of them is the name of the export, which is lost where a value is
assigned to it, and the other three refuse values or replace all settings at once.

An object should say for each setting what it has under that name, or else the default. So it does,
in any order and with any other names, unless one of the four is there; and then only if this one
replaces the settings by those that the object describes. The settings come back from what they are
exported to.

## Main definitions

- `Settings.names`: the names of the five settings.
- `Settings.reserved`: the names that are no settings and still count.
- `Settings.get`: the setting of a name.
- `Settings.Ignored`: that a name does not count in any object.
- `Settings.Describes`: that an object gives the settings that it should.
- `Settings.Harmless`: that a reserved name in an object makes no difference.

## Main statements

- `Settings.get_foldl_store`: a setting after many assignments.
- `Settings.ofValue_of_exported`: settings come back from their export.
- `Settings.describes_iff_harmless`: names that are ignored, and objects that describe their
  settings.
-/

namespace RouteRules

namespace Settings

variable {name : String} {s t : Settings} {entries others : List (String × Value)}

/-! ## Definitions -/

/-- The five settings. -/
def names : List String :=
  ["validator_name", "component_ref_prefix", "json_content_type", "add_extension",
    "replace_extension"]

/-- The names other than those of settings that matter in an assignment. -/
def reserved : List String := ["to_dict", "__class__", "__weakref__", "__dict__"]

/-- The value of the setting of this name. -/
def get (s : Settings) : String → Value
  | "validator_name" => s.validator
  | "component_ref_prefix" => s.referenceRoot
  | "json_content_type" => s.bodyType
  | "add_extension" => s.appendKey
  | "replace_extension" => s.replaceKey
  | _ => .null

/-- What an object should say of the settings: what it has under their names, or else the
defaults. -/
def content (entries : List (String × Value)) : Value :=
  .object (names.map fun name => (name, (entries.lookup name).getD (({} : Settings).get name)))

/-- An object gives these settings, in whatever order its entries stand and whichever of those that
are not about settings are left out; and they are exported as the object says and come back. -/
structure Describes (entries : List (String × Value)) (s : Settings) : Prop where
  ofValue_eq : ∀ others : List (String × Value), (others.map (·.1)).Nodup → others ⊆ entries →
    (∀ e ∈ entries, e.1 ∈ names → e ∈ others) → ofValue (.object others) = .ok s
  exported_eq : s.exported = .ok (content entries)
  comesBack : ofValue (content entries) = .ok s

/-- A reserved name is harmless where it brings the settings that the object describes anyway. -/
def Harmless (entries : List (String × Value)) (e : String × Value) : Prop :=
  ∃ held, e = ("__dict__", .object held) ∧
    (held.foldl (fun s e => s.store e.1 e.2) ({} : Settings)).exported = .ok (content entries)

/-- No object says anything with this name, whatever else it says. -/
def Ignored (name : String) : Prop :=
  ∀ before v after,
    ofValue (.object (before ++ (name, v) :: after)) = ofValue (.object (before ++ after))

/-! ## One assignment -/

theorem not_mem_reserved (h : name ∈ names) : name ∉ reserved := by
  revert name
  decide

theorem ne_export_of_not_mem_reserved (h : name ∉ reserved) : name ≠ "to_dict" := by
  rintro rfl
  exact h (List.mem_cons_self ..)

/-- Only the reserved names are treated in a way of their own. -/
theorem assign_eq_store (h : name ∉ reserved) (s : Settings) (v : Value) :
    s.assign name v = .ok (s.store name v) := by
  unfold assign
  split
  · exact absurd (by decide) h
  · exact absurd (by decide) h
  · exact absurd (by decide) h
  · rfl

/-- An assignment to any other name than those of the settings and the export is lost. -/
theorem store_of_not_mem (h : name ∉ names) (hexport : name ≠ "to_dict") (s : Settings)
    (v : Value) : s.store name v = s := by
  unfold store
  split
  · exact absurd (by decide) h
  · exact absurd (by decide) h
  · exact absurd (by decide) h
  · exact absurd (by decide) h
  · exact absurd (by decide) h
  · exact absurd rfl hexport
  · rfl

/-- An assignment is to one setting. -/
theorem get_store (h : name ∈ names) (s : Settings) (other : String) (v : Value) :
    (s.store other v).get name = if name = other then v else s.get name := by
  -- Each setting against each other one, and then all names that are no settings.
  by_cases hother : other ∈ names
  · simp only [names, List.mem_cons, List.not_mem_nil, or_false] at h hother
    rcases h with rfl | rfl | rfl | rfl | rfl <;>
      rcases hother with rfl | rfl | rfl | rfl | rfl <;> rfl
  · have hne : name ≠ other := ne_of_mem_of_not_mem h hother
    rw [if_neg hne]
    by_cases hexport : other = "to_dict"
    · rw [hexport]
      rfl
    · rw [store_of_not_mem hother hexport]

/-- The export is lost by an assignment to its own name only. -/
theorem exportable_store (h : name ≠ "to_dict") (s : Settings) (v : Value) :
    (s.store name v).exportable = s.exportable := by
  by_cases hname : name ∈ names
  · simp only [names, List.mem_cons, List.not_mem_nil, or_false] at hname
    rcases hname with rfl | rfl | rfl | rfl | rfl <;> rfl
  · rw [store_of_not_mem hname h]

/-- Settings are what their names say. -/
theorem eq_of_get (hexportable : s.exportable = t.exportable)
    (h : ∀ name ∈ names, s.get name = t.get name) : s = t := by
  -- Field by field; beside the settings there is only whether they can be exported.
  obtain ⟨validator, referenceRoot, bodyType, appendKey, replaceKey, exportable⟩ := s
  obtain rfl : validator = t.validator := h "validator_name" (by decide)
  obtain rfl : referenceRoot = t.referenceRoot := h "component_ref_prefix" (by decide)
  obtain rfl : bodyType = t.bodyType := h "json_content_type" (by decide)
  obtain rfl : appendKey = t.appendKey := h "add_extension" (by decide)
  obtain rfl : replaceKey = t.replaceKey := h "replace_extension" (by decide)
  obtain rfl : exportable = t.exportable := hexportable
  rfl

/-! ## Many assignments -/

/-- As long as there are no reserved names, all assignments are made. -/
theorem assignAll_append (h : ∀ e ∈ entries, e.1 ∉ reserved) (rest : List (String × Value))
    (s : Settings) :
    s.assignAll (entries ++ rest) =
      (entries.foldl (fun s e => s.store e.1 e.2) s).assignAll rest := by
  -- The settings are general because each assignment hands on its own.
  induction entries generalizing s with
  | nil => rfl
  | cons first more ih =>
    obtain ⟨name, v⟩ := first
    rw [List.cons_append, assignAll, assign_eq_store (h _ (List.mem_cons_self ..))]
    exact ih (fun e he => h e (List.mem_cons_of_mem _ he)) _

/-- Without reserved names all assignments are made, and none of them is refused. -/
theorem assignAll_eq_foldl (h : ∀ e ∈ entries, e.1 ∉ reserved) (s : Settings) :
    s.assignAll entries = (entries.foldl (fun s e => s.store e.1 e.2) s, none) := by
  have happend := assignAll_append h [] s
  rwa [List.append_nil] at happend

/-- What is assigned in between to a name that does not count can be left out. -/
theorem assignAll_insert (hname : name ∉ names) (h : name ∉ reserved)
    (before : List (String × Value)) (v : Value) (after : List (String × Value)) (s : Settings) :
    s.assignAll (before ++ (name, v) :: after) = s.assignAll (before ++ after) := by
  induction before generalizing s with
  | nil =>
    rw [List.nil_append, assignAll, assign_eq_store h,
      store_of_not_mem hname (ne_export_of_not_mem_reserved h)]
    rfl
  | cons first rest ih =>
    obtain ⟨key, w⟩ := first
    rw [List.cons_append, List.cons_append, assignAll, assignAll]
    -- A refusal before that place ends both runs alike.
    cases s.assign key w with
    | error fault => rfl
    | ok t => exact ih t

/-- If no assignment is refused, the last one has been made. -/
theorem exists_assign_of_assignAll {v : Value}
    (h : s.assignAll (entries ++ [(name, v)]) = (t, none)) :
    ∃ u : Settings, u.assign name v = .ok t := by
  -- Each assignment before the last one has to go through for the run to come to it.
  induction entries generalizing s with
  | nil =>
    rw [List.nil_append, assignAll] at h
    refine ⟨s, ?_⟩
    cases hassign : s.assign name v with
    | error fault =>
      rw [hassign] at h
      cases h
    | ok u =>
      rw [hassign] at h
      cases h
      rfl
  | cons first rest ih =>
    obtain ⟨key, w⟩ := first
    rw [List.cons_append, assignAll] at h
    cases hassign : s.assign key w with
    | error fault =>
      rw [hassign] at h
      cases h
    | ok u =>
      rw [hassign] at h
      exact ih h

/-- A setting is what is assigned to its name, if that is done once at most. -/
theorem get_foldl_store (h : name ∈ names) (hnodup : (entries.map (·.1)).Nodup) (s : Settings) :
    (entries.foldl (fun s e => s.store e.1 e.2) s).get name =
      (entries.lookup name).getD (s.get name) := by
  induction entries generalizing s with
  | nil => rfl
  | cons first rest ih =>
    obtain ⟨key, v⟩ := first
    obtain ⟨hkey, hrest⟩ := List.nodup_cons.mp hnodup
    rw [List.foldl_cons, ih hrest, get_store h, List.lookup_cons]
    by_cases heq : name = key
    -- The key does not occur again, so nothing overwrites what is assigned here.
    · subst heq
      have hnone : rest.lookup name = none := by
        rw [List.lookup_eq_none_iff]
        intro e he
        rw [bne_iff_ne]
        intro hfirst
        exact hkey (List.mem_map.mpr ⟨e, he, hfirst.symm⟩)
      rw [if_pos rfl, beq_self_eq_true, hnone]
      rfl
    · rw [if_neg heq, beq_false_of_ne heq]

theorem exportable_foldl_store (h : ∀ e ∈ entries, e.1 ≠ "to_dict") (s : Settings) :
    (entries.foldl (fun s e => s.store e.1 e.2) s).exportable = s.exportable := by
  induction entries generalizing s with
  | nil => rfl
  | cons first rest ih =>
    rw [List.foldl_cons, ih fun e he => h e (List.mem_cons_of_mem _ he),
      exportable_store (h _ (List.mem_cons_self ..))]

/-! ## Objects -/

theorem ofValue_object_congr (h : assignAll {} entries = assignAll {} others) :
    ofValue (.object entries) = ofValue (.object others) := by
  simp only [ofValue, Value.asObject, ok_bind, h]

theorem ofValue_object_eq_ok_iff :
    ofValue (.object entries) = .ok s ↔ assignAll {} entries = (s, none) := by
  simp only [ofValue, Value.asObject, ok_bind]
  split <;> rename_i hassign <;> simp [hassign]

/-- The export names each setting, in the same order for all settings. -/
theorem exported_of_exportable (h : s.exportable = true) :
    s.exported = .ok (.object (names.map fun name => (name, s.get name))) := by
  rw [exported, if_pos h]
  rfl

/-- An export says what the settings are. -/
theorem exported_eq_ok_iff : s.exported = .ok (content entries) ↔ s.exportable = true ∧
    ∀ name ∈ names, s.get name = (entries.lookup name).getD (({} : Settings).get name) := by
  by_cases h : s.exportable = true
  · rw [exported_of_exportable h, content]
    simp [h, names]
  · rw [exported, if_neg h]
    simp [h]

/-- The settings come back from what they are exported to. -/
theorem ofValue_of_exported {v : Value} (h : s.exported = .ok v) : ofValue v = .ok s := by
  by_cases hexportable : s.exportable = true
  · rw [exported_of_exportable hexportable] at h
    cases h
    -- The export holds the five names and nothing else, so that all assignments are made.
    rw [ofValue_object_eq_ok_iff, assignAll_eq_foldl]
    · obtain ⟨validator, referenceRoot, bodyType, appendKey, replaceKey, exportable⟩ := s
      cases hexportable
      rfl
    · intro e he
      obtain ⟨name, hname, rfl⟩ := List.mem_map.mp he
      exact not_mem_reserved hname
  · rw [exported, if_neg hexportable] at h
    cases h

theorem eq_of_exported {v : Value} (hs : s.exported = .ok v) (ht : t.exported = .ok v) : s = t :=
  Except.ok.inj ((ofValue_of_exported hs).symm.trans (ofValue_of_exported ht))

/-- Settings that say what an object says do not change by assigning part of it again. -/
theorem foldl_store_of_subset {assigned : List (String × Value)}
    (hs : s.exported = .ok (content entries)) (hnodup : (entries.map (·.1)).Nodup)
    (hassigned : (assigned.map (·.1)).Nodup) (hexport : ∀ e ∈ assigned, e.1 ≠ "to_dict")
    (hsubset : assigned ⊆ entries) : assigned.foldl (fun s e => s.store e.1 e.2) s = s := by
  apply eq_of_get (exportable_foldl_store hexport s)
  intro name hname
  rw [get_foldl_store hname hassigned]
  -- What is assigned is an entry of the object, and the settings say this value already.
  cases hlookup : assigned.lookup name with
  | none => rfl
  | some v =>
    have hmem := hsubset ((Table.lookup_eq_some_iff_mem hassigned).mp hlookup)
    rw [(exported_eq_ok_iff.mp hs).2 name hname,
      (Table.lookup_eq_some_iff_mem hnodup).mpr hmem]
    rfl

/-- Reserved names do no damage where they are harmless. There is one of them at most then, and what
comes after it is assigned to settings that are the same already. -/
theorem exists_ofValue_of_harmless (hnodup : (entries.map (·.1)).Nodup)
    (h : ∀ e ∈ entries, e.1 ∈ reserved → Harmless entries e) :
    ∃ s, ofValue (.object entries) = .ok s ∧ s.exported = .ok (content entries) := by
  by_cases hreserved : ∃ e ∈ entries, e.1 ∈ reserved
  · obtain ⟨e, he, hname⟩ := hreserved
    obtain ⟨held, rfl, hheld⟩ := h e he hname
    obtain ⟨before, after, rfl⟩ := List.append_of_mem he
    -- Harmless names are all the same one, and no name occurs twice.
    obtain ⟨hkey, hrest⟩ := List.nodup_cons.mp ((List.perm_middle.map _).nodup_iff.mp hnodup)
    have hothers : ∀ f ∈ before ++ after, f.1 ∉ reserved := by
      intro f hf hname
      obtain ⟨held', rfl, -⟩ := h f (List.perm_middle.mem_iff.mpr (.tail _ hf)) hname
      exact hkey (List.mem_map.mpr ⟨_, hf, rfl⟩)
    have hafter : ∀ f ∈ after, f.1 ∉ reserved := fun f hf => hothers f (List.mem_append_right _ hf)
    -- From that name on the settings are complete, and the rest is assigned to what is there.
    have hsame := foldl_store_of_subset hheld hnodup
      ((List.sublist_append_right before after).map _ |>.nodup hrest)
      (fun f hf => ne_export_of_not_mem_reserved (hafter f hf))
      fun f hf => List.mem_append_right _ (.tail _ hf)
    refine ⟨_, ofValue_object_eq_ok_iff.mpr ?_, hheld⟩
    rw [assignAll_append fun f hf => hothers f (List.mem_append_left _ hf)]
    show assignAll (held.foldl _ _) after = _
    rw [assignAll_eq_foldl hafter, hsame]
  · have hnone : ∀ e ∈ entries, e.1 ∉ reserved := fun e he hname => hreserved ⟨e, he, hname⟩
    refine ⟨_, ofValue_object_eq_ok_iff.mpr (assignAll_eq_foldl hnone {}), ?_⟩
    rw [exported_eq_ok_iff]
    refine ⟨exportable_foldl_store (fun e he => ne_export_of_not_mem_reserved (hnone e he)) {}, ?_⟩
    intro name hname
    exact get_foldl_store hname hnodup {}

/-- The order of the entries does not matter to an object that describes its settings. -/
theorem Describes.ofValue_perm (h : Describes entries s) (hnodup : (entries.map (·.1)).Nodup)
    (hperm : others.Perm entries) : ofValue (.object others) = .ok s :=
  h.ofValue_eq others ((hperm.map _).nodup_iff.mpr hnodup) hperm.subset
    fun _ he _ => hperm.mem_iff.mpr he

/-- A reserved name that is not harmless does its damage behind all the others. -/
theorem Describes.harmless (h : Describes entries s) (hnodup : (entries.map (·.1)).Nodup)
    {e : String × Value} (he : e ∈ entries) (hname : e.1 ∈ reserved) : Harmless entries e := by
  obtain ⟨name, v⟩ := e
  obtain ⟨before, after, rfl⟩ := List.append_of_mem he
  -- In another order the name comes last, and the settings are the same.
  have hlast : ofValue (.object ((before ++ after) ++ [(name, v)])) = .ok s :=
    h.ofValue_perm hnodup ((List.perm_append_singleton _ _).trans List.perm_middle.symm)
  obtain ⟨u, hassign⟩ := exists_assign_of_assignAll (ofValue_object_eq_ok_iff.mp hlast)
  simp only [reserved, List.mem_cons, List.not_mem_nil, or_false] at hname
  -- The first takes the export away, the next two are refused, and the last replaces all settings.
  rcases hname with rfl | rfl | rfl | rfl
  · cases hassign
    exact absurd (exported_eq_ok_iff.mp h.exported_eq).1 Bool.false_ne_true
  · cases hassign
  · cases hassign
  · cases v with
    | object held =>
      cases hassign
      exact ⟨held, rfl, h.exported_eq⟩
    | _ => cases hassign

/-- Objects that have the same under the names of settings should say the same. -/
theorem content_eq_of_subset (hnodup : (entries.map (·.1)).Nodup)
    (hothers : (others.map (·.1)).Nodup) (hsubset : others ⊆ entries)
    (hnames : ∀ e ∈ entries, e.1 ∈ names → e ∈ others) : content others = content entries := by
  -- With distinct names, finding a value is having the entry, and those of settings are kept.
  have hlookup : ∀ name ∈ names, others.lookup name = entries.lookup name := by
    intro name hname
    ext v
    rw [Table.lookup_eq_some_iff_mem hothers, Table.lookup_eq_some_iff_mem hnodup]
    exact ⟨fun h => hsubset h, fun h => hnames _ h hname⟩
  unfold content
  congr 1
  apply List.map_congr_left
  intro name hname
  rw [hlookup name hname]

theorem ignored_iff : Ignored name ↔ name ∉ names ∧ name ∉ reserved := by
  constructor
  · intro h
    -- Each name that counts does so in an object with no other name.
    have hcounts : ∀ name ∈ names ++ reserved, ofValue (.object [(name, .null)]) ≠ .ok {} := by
      decide
    have hname : name ∉ names ++ reserved := fun hmem => hcounts name hmem (h [] .null [])
    rwa [List.mem_append, not_or] at hname
  · rintro ⟨hname, hreserved⟩ before v after
    exact ofValue_object_congr (assignAll_insert hname hreserved before v after {})

/-- A name does not count in any object unless it is that of a setting or reserved; and an object
describes its settings exactly if reserved names are harmless in it. -/
theorem describes_iff_harmless (hnodup : (entries.map (·.1)).Nodup) :
    (∀ name, Ignored name ↔ name ∉ names ∧ name ∉ reserved) ∧
      ((∃ s, Describes entries s) ↔ ∀ e ∈ entries, e.1 ∈ reserved → Harmless entries e) := by
  refine ⟨fun name => ignored_iff, fun ⟨s, h⟩ e => h.harmless hnodup, fun h => ?_⟩
  obtain ⟨s, -, hs⟩ := exists_ofValue_of_harmless hnodup h
  refine ⟨s, fun others hothers hsubset hnames => ?_, hs, ofValue_of_exported hs⟩
  have hcontent := content_eq_of_subset hnodup hothers hsubset hnames
  -- Part of the entries gives settings as well, and they are exported to the same object.
  obtain ⟨t, ht, hexported⟩ := exists_ofValue_of_harmless hothers fun e he hname => by
    obtain ⟨held, heq, hheld⟩ := h e (hsubset he) hname
    exact ⟨held, heq, hheld.trans (congrArg Except.ok hcontent.symm)⟩
  rw [ht, eq_of_exported (hexported.trans (congrArg Except.ok hcontent)) hs]

/-- An object can take away the export from the settings that it gives, by a name that is none of
theirs. -/
theorem exported_of_reserved : "to_dict" ∉ names ∧
    ofValue (.object [("to_dict", .int 1)]) = .ok { exportable := false } ∧
      ({ exportable := false } : Settings).exported = .error .brokenSettings := by
  decide +kernel

/-- The name of the constructor is ignored like any that has no meaning. -/
theorem describes_from_dict : ∃ s,
    Describes [("from_dict", .int 1), ("json_content_type", .text "text/json"),
      ("not_an_option", .null)] s ∧ s.bodyType = .text "text/json" := by
  have hnodup : (List.map (·.1) [("from_dict", Value.int 1),
      ("json_content_type", .text "text/json"), ("not_an_option", .null)]).Nodup := by decide
  have hnone : ∀ e ∈ [("from_dict", Value.int 1), ("json_content_type", .text "text/json"),
      ("not_an_option", .null)], e.1 ∉ reserved := by decide
  obtain ⟨s, hs⟩ := (describes_iff_harmless hnodup).2.mpr fun e he hname =>
    absurd hname (hnone e he)
  exact ⟨s, hs, (exported_eq_ok_iff.mp hs.exported_eq).2 "json_content_type" (by decide)⟩

end Settings

end RouteRules
