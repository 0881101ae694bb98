import Mathlib.Data.List.Nodup
import Mathlib.Data.List.Perm.Subperm
import RouteRules.Value.Key
import RouteRules.Table

/-!
# Names in tables

Tables whose keys are document scalars, looked up by texts. A text is the same key as no scalar but
itself.

## Main statements

- `Key.text_beq_iff`, `Key.beq_text_iff`: a text is found under the same text only.
- `Table.length_le_size`: different names in a table are at most as many as the table has entries.
- `Table.Distinct.find?_zipIdx`: where keys are distinct, a name is found at its position.
- `Table.find?_insert`: an assignment to a name is seen under this name only.
- `Table.entries_ofList`: what is left of many assignments.
-/

namespace RouteRules

namespace Key

theorem text_beq_iff (name : String) (k : Key) :
    (Key.text name == k) = true ↔ k = Key.text name := by
  obtain ⟨s⟩ := k
  show Scalar.same (.text name) s = true ↔ _
  cases s with
  | text other =>
    simp only [Scalar.same, Scalar.whole?, Key.text, beq_iff_eq, Key.mk.injEq, Scalar.text.injEq]
    exact eq_comm
  | _ => simp [Scalar.same, Scalar.whole?, Key.text]

theorem beq_text_iff (name : String) (k : Key) :
    (k == Key.text name) = true ↔ k = Key.text name := by
  obtain ⟨s⟩ := k
  show Scalar.same s (.text name) = true ↔ _
  cases s with
  | text other => simp [Scalar.same, Scalar.whole?, Key.text]
  | _ => simp [Scalar.same, Scalar.whole?, Key.text]

theorem text_injective : Function.Injective Key.text := by
  intro a b h
  cases h
  rfl

end Key

namespace Table

variable {α : Type}

theorem mem_of_lookup {entries : List (Key × α)} {name : String} {v : α}
    (h : entries.lookup (.text name) = some v) : (Key.text name, v) ∈ entries := by
  induction entries with
  | nil => cases h
  | cons e es ih =>
    obtain ⟨k, w⟩ := e
    rw [List.lookup_cons] at h
    split at h
    · rename_i hk
      cases h
      rw [(Key.text_beq_iff name k).mp hk]
      exact List.mem_cons_self ..
    · exact List.mem_cons_of_mem _ (ih h)

/-- Different names that are all in a table are at most as many as the table has entries. -/
theorem length_le_size {t : Table Key α} {names : List String} (hnodup : names.Nodup)
    (hfound : ∀ name ∈ names, ∃ v, t.find? (.text name) = some v) : names.length ≤ t.size := by
  -- All names are keys of the table, and as texts they are as different as before.
  have hsubset : names.map Key.text ⊆ t.keys := by
    intro k hk
    obtain ⟨name, hname, rfl⟩ := List.mem_map.mp hk
    obtain ⟨v, hv⟩ := hfound name hname
    exact List.mem_map.mpr ⟨_, mem_of_lookup hv, rfl⟩
  have hle := ((hnodup.map Key.text_injective).subperm hsubset).length_le
  simpa [keys, size] using hle

/-! ## Distinct keys -/

/-- No key of the table is found under another. -/
def Distinct (t : Table Key α) : Prop := t.keys.Pairwise fun k l => (k == l) = false

instance (t : Table Key α) : Decidable t.Distinct :=
  inferInstanceAs (Decidable (List.Pairwise _ _))

theorem exists_lookup_of_mem {entries : List (Key × α)} {name : String} {v : α}
    (h : (Key.text name, v) ∈ entries) : ∃ w, entries.lookup (.text name) = some w := by
  induction entries with
  | nil => cases h
  | cons e es ih =>
    rw [List.lookup_cons]
    split
    · exact ⟨_, rfl⟩
    · rename_i hk
      rcases List.mem_cons.mp h with rfl | h
      · rw [(Key.text_beq_iff name _).mpr rfl] at hk
        cases hk
      · exact ih h

/-- A text is the key of one entry only. -/
theorem Distinct.index_eq {t : Table Key α} (ht : t.Distinct) {i j : Nat} {name : String}
    (hi : t.keys[i]? = some (.text name)) (hj : t.keys[j]? = some (.text name)) : i = j := by
  have hsame : (Key.text name == Key.text name) = true := (Key.text_beq_iff name _).mpr rfl
  -- Of two different positions one comes first, and the keys there would be equal.
  have hlt : ∀ {i j : Nat}, t.keys[i]? = some (.text name) → t.keys[j]? = some (.text name) →
      ¬ i < j := by
    intro i j hi hj hij
    obtain ⟨hi', hi⟩ := List.getElem?_eq_some_iff.mp hi
    obtain ⟨hj', hj⟩ := List.getElem?_eq_some_iff.mp hj
    have hne := List.pairwise_iff_getElem.mp ht i j hi' hj' hij
    rw [hi, hj, hsame] at hne
    cases hne
  have := hlt hi hj
  have := hlt hj hi
  omega

/-- The position of a text among the keys. -/
theorem Distinct.find?_zipIdx {t : Table Key α} (ht : t.Distinct) {name : String} {i : Nat} :
    (Table.mk t.keys.zipIdx).find? (.text name) = some i ↔ t.keys[i]? = some (.text name) := by
  constructor
  · intro h
    exact List.mk_mem_zipIdx_iff_getElem?.mp (mem_of_lookup h)
  -- Something is found under the text, and it can only be the one position.
  · intro h
    obtain ⟨j, hj⟩ := exists_lookup_of_mem (List.mk_mem_zipIdx_iff_getElem?.mpr h)
    have hkey := List.mk_mem_zipIdx_iff_getElem?.mp (mem_of_lookup hj)
    rw [ht.index_eq h hkey]
    exact hj

/-! ## Assignments -/

/-- After an assignment to one name, the others are found as before. -/
theorem find?_insert (t : Table Key α) (name other : String) (v : α) :
    (t.insert (.text name) v).find? (.text other) =
      if other = name then some v else t.find? (.text other) := by
  show (insertEntry (.text name) v t.entries).lookup (.text other) = _
  have hself : (Key.text name == Key.text name) = true := (Key.text_beq_iff name _).mpr rfl
  have hne : other ≠ name → (Key.text other == Key.text name) = false := by
    intro h
    apply Bool.eq_false_iff.mpr
    intro hbeq
    exact h (Key.text_injective ((Key.text_beq_iff other _).mp hbeq)).symm
  unfold find?
  -- On the entries; the assignment ends at the first one with this key.
  induction t.entries with
  | nil =>
    -- Without such an entry the assignment adds one at the end.
    rw [insertEntry, List.lookup_cons]
    by_cases h : other = name
    · subst h
      rw [hself, if_pos rfl]
    · rw [hne h, if_neg h]
  | cons e es ih =>
    obtain ⟨k, w⟩ := e
    rw [insertEntry]
    by_cases hk : (k == Key.text name) = true
    -- The entry that is assigned to keeps its key.
    · rw [if_pos hk, (Key.beq_text_iff name k).mp hk, List.lookup_cons, List.lookup_cons]
      by_cases h : other = name
      · subst h
        rw [hself, if_pos rfl]
      · rw [hne h, if_neg h]
    · rw [if_neg hk, List.lookup_cons, List.lookup_cons]
      split
      · rename_i hother
        have hkey : k ≠ Key.text name := fun h => hk ((Key.beq_text_iff name k).mpr h)
        rw [(Key.text_beq_iff other k).mp hother] at hkey
        rw [if_neg fun h => hkey (congrArg Key.text h)]
      · exact ih

/-- After an assignment in a list of entries, the other names are found as before. -/
theorem lookup_insertEntry (entries : List (String × α)) (name other : String) (v : α) :
    (insertEntry name v entries).lookup other =
      if other = name then some v else entries.lookup other := by
  induction entries with
  | nil =>
    rw [insertEntry, List.lookup_cons]
    by_cases h : other = name
    · rw [h, beq_self_eq_true, if_pos rfl]
    · rw [beq_false_of_ne h, if_neg h]
  | cons e rest ih =>
    obtain ⟨key, w⟩ := e
    rw [insertEntry]
    -- Either this is the entry that is assigned to, or it stays and is looked at first.
    by_cases hkey : key = name
    · subst hkey
      rw [if_pos (beq_self_eq_true key), List.lookup_cons, List.lookup_cons]
      by_cases h : other = key
      · rw [h, beq_self_eq_true, if_pos rfl]
      · rw [beq_false_of_ne h, if_neg h]
    · rw [if_neg (by simpa using hkey), List.lookup_cons, List.lookup_cons, ih]
      split
      · rename_i hother
        rw [if_neg fun h => hkey ((beq_iff_eq.mp hother).symm.trans h)]
      · rfl

/-- If no key is there twice, the order of the entries does not matter to what is found. -/
theorem lookup_perm {entries others : List (String × α)} (h : entries.Perm others)
    (hnodup : (entries.map (·.1)).Nodup) (key : String) :
    entries.lookup key = others.lookup key := by
  -- A permutation is made of swaps, and two neighbours with different keys may be swapped.
  induction h with
  | nil => rfl
  | cons e _ ih => rw [List.lookup_cons, List.lookup_cons, ih (List.nodup_cons.mp hnodup).2]
  | swap e f rest =>
    have hne : f.1 ≠ e.1 := by
      intro heq
      exact (List.nodup_cons.mp hnodup).1 (List.mem_map.mpr ⟨e, List.mem_cons_self .., heq.symm⟩)
    rw [List.lookup_cons, List.lookup_cons, List.lookup_cons, List.lookup_cons]
    by_cases hf : key = f.1
    · rw [hf, beq_self_eq_true, beq_false_of_ne hne]
    · rw [beq_false_of_ne hf]
  | trans hfirst _ ih ih' =>
    exact (ih hnodup).trans (ih' ((hfirst.map _).nodup_iff.mp hnodup))

/-- If no key is there twice, what is found under a key is what an entry has there. -/
theorem lookup_eq_some_iff_mem {entries : List (String × α)} (hnodup : (entries.map (·.1)).Nodup)
    {key : String} {v : α} : entries.lookup key = some v ↔ (key, v) ∈ entries := by
  induction entries with
  | nil => simp
  | cons e rest ih =>
    obtain ⟨first, w⟩ := e
    obtain ⟨hfirst, hrest⟩ := List.nodup_cons.mp hnodup
    rw [List.lookup_cons, List.mem_cons, Prod.mk.injEq]
    -- The first entry with the key is the only one.
    by_cases hkey : key = first
    · subst hkey
      have hnot : (key, v) ∉ rest := fun h => hfirst (List.mem_map.mpr ⟨_, h, rfl⟩)
      rw [beq_self_eq_true]
      simp [hnot, eq_comm]
    · rw [beq_false_of_ne hkey]
      simp [hkey, ih hrest]

/-! ## Many assignments -/

section Collapse

variable {κ : Type} [BEq κ]

/-- The entries of a key. -/
def withKey (k : κ) (es : List (κ × α)) : List (κ × α) := es.filter fun f => k == f.1

/-- The entries of all other keys. -/
def withoutKey (k : κ) (es : List (κ × α)) : List (κ × α) := es.filter fun f => !(k == f.1)

/-- The entries of one key drawn together: at the place of the first of them, with the value of the
last. -/
def collapse : List (κ × α) → List (κ × α)
  | [] => []
  | e :: rest => (e.1, ((withKey e.1 rest).getLast?.getD e).2) :: collapse (withoutKey e.1 rest)
termination_by es => es.length
decreasing_by exact Nat.lt_succ_of_le (List.length_filter_le ..)

/-- Assignments go to the first entry as long as they are to its key, and else further down. -/
theorem foldl_insertEntry (es : List (κ × α)) (k : κ) (v : α) (t : List (κ × α)) :
    es.foldl (fun t e => insertEntry e.1 e.2 t) ((k, v) :: t) =
      (k, ((withKey k es).getLast?.getD (k, v)).2) ::
        (withoutKey k es).foldl (fun t e => insertEntry e.1 e.2 t) t := by
  induction es generalizing v t with
  | nil => rfl
  | cons e rest ih =>
    rw [List.foldl_cons, insertEntry]
    -- An assignment to the first key changes what the later ones see as its value.
    by_cases hk : (k == e.1) = true
    · have hsame : withKey k (e :: rest) = e :: withKey k rest := List.filter_cons_of_pos hk
      have hothers : withoutKey k (e :: rest) = withoutKey k rest :=
        List.filter_cons_of_neg (by simp [hk])
      rw [if_pos hk, ih, hsame, hothers, List.getLast?_cons, Option.getD_some]
      cases (withKey k rest).getLast? <;> rfl
    · have hsame : withKey k (e :: rest) = withKey k rest := List.filter_cons_of_neg hk
      have hothers : withoutKey k (e :: rest) = e :: withoutKey k rest :=
        List.filter_cons_of_pos (by simp [hk])
      rw [if_neg hk, ih, hsame, hothers, List.foldl_cons]

theorem foldl_insertEntry_nil (es : List (κ × α)) :
    es.foldl (fun t e => insertEntry e.1 e.2 t) [] = collapse es := by
  induction es using collapse.induct with
  | case1 => rw [collapse, List.foldl_nil]
  | case2 e rest ih => rw [collapse, List.foldl_cons, insertEntry, foldl_insertEntry, ih]

/-- Of many assignments to one key, the first gives the place and the last the value. -/
theorem entries_ofList (es : List (κ × α)) : (ofList es).entries = collapse es := by
  -- Assigning to a table is assigning to its entries.
  have hfold : ∀ t : Table κ α, (es.foldl (fun t e => t.insert e.1 e.2) t).entries =
      es.foldl (fun t e => insertEntry e.1 e.2 t) t.entries := by
    induction es with
    | nil => exact fun t => rfl
    | cons e rest ih => exact fun t => ih (t.insert e.1 e.2)
  exact (hfold ∅).trans (foldl_insertEntry_nil es)

theorem exists_of_mem_collapse {es : List (κ × α)} {e : κ × α} (h : e ∈ collapse es) :
    ∃ f ∈ es, f.1 = e.1 := by
  -- On the entries of other keys, which are those that are collapsed further.
  induction es using collapse.induct with
  | case1 =>
    rw [collapse] at h
    cases h
  | case2 first rest ih =>
    rw [collapse] at h
    rcases List.mem_cons.mp h with rfl | h
    · exact ⟨first, List.mem_cons_self .., rfl⟩
    · obtain ⟨f, hf, hkey⟩ := ih h
      exact ⟨f, List.mem_cons_of_mem _ (List.mem_of_mem_filter hf), hkey⟩

/-- No key is left twice. -/
theorem pairwise_collapse (es : List (κ × α)) :
    (collapse es).Pairwise fun e f => (e.1 == f.1) = false := by
  induction es using collapse.induct with
  | case1 =>
    rw [collapse]
    exact .nil
  | case2 first rest ih =>
    rw [collapse]
    refine .cons (fun e he => ?_) ih
    -- Whatever is left further down stood among the entries of other keys.
    obtain ⟨f, hf, hkey⟩ := exists_of_mem_collapse he
    have hfirst := (List.mem_filter.mp hf).2
    rw [← hkey]
    simpa using hfirst

end Collapse

end Table

end RouteRules
